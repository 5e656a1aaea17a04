import NupaNet.Xdma.Board

/-!
# No engine is left masked

While a device stays online in interrupt mode, an engine whose interrupt is
masked is on its way to the write that enables it again: its handler has yet to
schedule the work, the work is queued, or it runs.  The bits of the engines do
not overlap, so a request never reaches the work of another engine.
-/

namespace NupaNet.Xdma

open NupaNet.Foundation

namespace Board

/-- In the channel register, or in the engine's own mask register, which MSI-X uses. -/
def Masked (pollMode : Bool) (s : Board) (e : EngineId) : Prop :=
  s.table.bit e &&& s.chEnable = 0 ∨
    s.engMask e &&& interruptEnableMaskValue pollMode ≠ interruptEnableMaskValue pollMode

instance (pollMode : Bool) (s : Board) (e : EngineId) : Decidable (Masked pollMode s e) :=
  inferInstanceAs (Decidable (_ ∨ _))

/-- The work is queued, or it runs and has not enabled the interrupt. -/
def Working (s : Board) (e : EngineId) : Prop := s.queued e = true ∨ s.work e ≠ .idle

instance (s : Board) (e : EngineId) : Decidable (Working s e) :=
  inferInstanceAs (Decidable (_ ∨ _))

/-- The handler has masked the engine and not yet scheduled its work. -/
def Handled (s : Board) (e : EngineId) : Prop := e ∈ s.isr

def Raises (s : Board) (e : EngineId) : Act → Prop
  | .irq chIrq => s.table.bit e &&& chIrq ≠ 0
  | .channelIrq e' => e' = e
  | _ => False

def Act.lifeCycle : Act → Bool
  | .offlineBegin | .offlineEngine | .offlineMask | .offlineReturn
  | .onlineBegin | .onlineEngine | .onlineReturn => true
  | _ => false

/-! ## The invariant -/

structure MaskInv (s : Board) : Prop where
  numbered : ∃ num, s.table.Numbered num
  channels : s.msixEnabled = true → s.chEnable = BitVec.allOnes 32
  masks : s.msixEnabled = false → ∀ e, s.engMask e = interruptEnableMaskValue false
  attended : ∀ e, s.table.Exists e → Masked false s e → Working s e ∨ Handled s e

private theorem bit_ne_zero {t : EngineTable} {num : EngineId → Nat} (h : t.Numbered num)
    {e : EngineId}
    (he : t.Exists e) : t.bit e &&& t.bit e ≠ 0 := by
  rw [h.bit_and_ne_zero he, EngineTable.bit, h.engine e he]
  simp [h.lt e he]

private theorem maskInv_start (msixEnabled : Bool) (found : Direction → Nat → Option Bool)
    (engine : EngineId → XdmaEngine) : MaskInv (start false msixEnabled found engine) := by
  obtain ⟨num, hnum⟩ := EngineTable.probeEngines_numbered found
  refine ⟨⟨num, hnum⟩, fun _ => rfl, fun _ _ => rfl, fun e he hmasked => ?_⟩
  rcases hmasked with hbit | hmask
  · have hne := bit_ne_zero hnum he
    simp only [start, Bool.false_eq_true, if_false, BitVec.and_allOnes] at hbit
    rw [hbit, BitVec.and_self] at hne
    exact absurd rfl hne
  · exact absurd (BitVec.and_self) hmask

theorem MaskInv.of_same {s t : Board} (h : MaskInv s) (htable : t.table = s.table)
    (hmsix : t.msixEnabled = s.msixEnabled) (hch : t.chEnable = s.chEnable)
    (heng : t.engMask = s.engMask)
    (hkeep : ∀ e, Working s e ∨ Handled s e → Working t e ∨ Handled t e) : MaskInv t where
  numbered := htable ▸ h.numbered
  channels hm := hch ▸ h.channels (hmsix ▸ hm)
  masks hm e := by
    rw [heng]
    exact h.masks (hmsix ▸ hm) e
  attended e he hmasked := by
    refine hkeep e (h.attended e (htable ▸ he) ?_)
    rw [Masked, htable, hch, heng] at hmasked
    exact hmasked

theorem MaskInv.irq {s : Board} (h : MaskInv s) (hmsi : s.msixEnabled = false)
    (hfree : s.isr = []) (chIrq : U32) : MaskInv (s.afterIrq chIrq) := by
  obtain ⟨num, hnum⟩ := h.numbered
  refine ⟨h.numbered, fun hmsix => ?_, h.masks, fun e he hmasked => ?_⟩
  · cases hmsi.symm.trans hmsix
  · by_cases hraised : chIrq.getLsbD (num e) = true
    · exact .inr ((hnum.mem_xdmaIsr chIrq e).mpr ⟨he, hraised⟩)
    · have hwas : Masked false s e := by
        refine hmasked.imp_left fun hclear => ?_
        by_contra hset
        have hbit := (hnum.bit_and_ne_zero he s.chEnable).mp hset
        refine (hnum.bit_and_ne_zero he (s.chEnable &&& ~~~chIrq)).mpr ?_ hclear
        rw [BitVec.getLsbD_and, BitVec.getLsbD_not, hbit, Bool.eq_false_iff.mpr hraised]
        simp [hnum.lt e he]
      rcases h.attended e he hwas with hworking | hhandled
      · exact .inl hworking
      · rw [Handled, hfree] at hhandled
        cases hhandled

theorem MaskInv.channelIrq {s : Board} (h : MaskInv s) (hmsix : s.msixEnabled = true)
    (e : EngineId) : MaskInv
      { s with
        engMask :=
          Function.update s.engMask e (s.engMask e &&& ~~~interruptEnableMaskValue false)
        isr := e :: s.isr } := by
  refine ⟨h.numbered, h.channels, fun hmsi => ?_, fun e' he' hmasked => ?_⟩
  · cases hmsix.symm.trans hmsi
  · by_cases heq : e' = e
    · exact .inr (heq ▸ List.mem_cons_self)
    · have hwas : Masked false s e' := by simpa [Masked, heq] using hmasked
      exact (h.attended e' he' hwas).imp id (List.mem_cons_of_mem e)

private theorem or_and_cancel (x v : U32) : (x ||| v) &&& v = v := by
  ext i hi
  simp only [BitVec.getElem_and, BitVec.getElem_or]
  cases v[i] <;> simp

theorem MaskInv.workReenable {s : Board} (h : MaskInv s) (e : EngineId) :
    MaskInv { s.reenable false e with work := Function.update s.work e .idle } := by
  obtain ⟨num, hnum⟩ := h.numbered
  cases hmsix : s.msixEnabled with
  | true =>
      have hre : s.reenable false e = { s with
          engMask := Function.update s.engMask e
            (s.engMask e ||| interruptEnableMaskValue false) } := if_pos hmsix
      rw [hre]
      refine ⟨h.numbered, h.channels, fun hmsi => ?_, fun e' he' hmasked => ?_⟩
      · cases hmsix.symm.trans hmsi
      · by_cases heq : e' = e
        · subst heq
          simp only [Masked, Function.update_self, or_and_cancel, ne_eq, not_true_eq_false,
            or_false, h.channels hmsix, BitVec.and_allOnes] at hmasked
          have hne := bit_ne_zero hnum he'
          rw [hmasked, BitVec.and_self] at hne
          exact absurd rfl hne
        · have hwas : Masked false s e' := by simpa [Masked, heq] using hmasked
          simpa [Working, Handled, heq] using h.attended e' he' hwas
  | false =>
      have hre : s.reenable false e = { s with chEnable := s.chEnable ||| s.table.bit e } :=
        if_neg (by simp [hmsix])
      rw [hre]
      refine ⟨h.numbered, fun htrue => ?_, h.masks, fun e' he' hmasked => ?_⟩
      · cases hmsix.symm.trans htrue
      · have hclear : s.table.bit e' &&& (s.chEnable ||| s.table.bit e) = 0 := by
          simpa [Masked, h.masks hmsix] using hmasked
        by_cases heq : e' = e
        · subst heq
          refine absurd hclear ((hnum.bit_and_ne_zero he' _).mpr ?_)
          rw [BitVec.getLsbD_or, (hnum.bit_and_ne_zero he' _).mp (bit_ne_zero hnum he'),
            Bool.or_true]
        · have hwas : Masked false s e' := by
            refine .inl ?_
            by_contra hset
            refine (hnum.bit_and_ne_zero he' _).mpr ?_ hclear
            rw [BitVec.getLsbD_or, (hnum.bit_and_ne_zero he' _).mp hset, Bool.true_or]
          simpa [Working, Handled, heq] using h.attended e' he' hwas

theorem MaskInv.step {s t : Board} {a : Act} (h : MaskInv s) (hlife : a.lifeCycle = false)
    (hs : s.step false a = some t) : MaskInv t := by
  cases step_moves hs with
  | offlineBegin | offlineEngine | offlineMask | offlineReturn | onlineBegin | onlineEngine
  | onlineReturn => cases hlife
  | submit => exact h.of_same rfl rfl rfl rfl fun _ => id
  | pollService hpoll => cases hpoll
  | irq hmsi hfree => exact h.irq hmsi hfree _
  | channelIrq hmsix => exact h.channelIrq hmsix _
  | @schedule e hmem =>
      refine h.of_same rfl rfl rfl rfl fun e' hatt => ?_
      by_cases heq : e' = e
      · exact .inl (.inl (by simp [heq]))
      · rcases hatt with hworking | hhandled
        · exact .inl (by simpa [Working, heq] using hworking)
        · exact .inr ((List.mem_erase_of_ne heq).mpr hhandled)
  | @workStart e hqueued hidle =>
      refine h.of_same rfl rfl rfl rfl fun e' hatt => ?_
      by_cases heq : e' = e
      · exact .inl (.inr (by simp [heq]))
      · exact hatt.imp_left fun hworking => by simpa [Working, heq] using hworking
  | @workService e reads hstarted =>
      refine h.of_same rfl rfl rfl rfl fun e' hatt => ?_
      by_cases heq : e' = e
      · exact .inl (.inr (by simp [heq]))
      · exact hatt.imp_left fun hworking => by simpa [Working, setChannel, heq] using hworking
  | workReenable => exact h.workReenable _

/-! ## Whose work an interrupt schedules -/

private theorem bit_disjoint {t : EngineTable} {num : EngineId → Nat} (h : t.Numbered num)
    {e e' : EngineId} (he : t.Exists e) (he' : t.Exists e') (hne : e ≠ e') :
    t.bit e &&& t.bit e' = 0 := by
  by_contra hshared
  have hbit := (h.bit_and_ne_zero he (t.bit e')).mp hshared
  rw [EngineTable.bit, h.engine e' he', BitVec.getLsbD_twoPow, Bool.and_eq_true] at hbit
  exact hne (h.inj e e' he he' (of_decide_eq_true hbit.2).symm)

private theorem step_isr {s t : Board} {a : Act} {num : EngineId → Nat}
    (hnum : s.table.Numbered num)
    (hs : s.step false a = some t) {e : EngineId} (hmem : e ∈ t.isr) :
    e ∈ s.isr ∨ s.table.Exists e ∧ Raises s e a := by
  cases step_moves hs with
  | @irq chIrq _ _ =>
      obtain ⟨he, hbit⟩ := (hnum.mem_xdmaIsr chIrq e).mp hmem
      exact .inr ⟨he, (hnum.bit_and_ne_zero he chIrq).mpr hbit⟩
  | channelIrq _ hexists =>
      rcases List.mem_cons.mp hmem with rfl | hmem
      · exact .inr ⟨hexists, rfl⟩
      · exact .inl hmem
  | schedule => exact .inl (List.mem_of_mem_erase hmem)
  | workReenable =>
      refine .inl ?_
      simp only [reenable] at hmem
      split at hmem <;> exact hmem
  | submit | pollService | workStart | workService | offlineBegin | offlineEngine | offlineMask
  | offlineReturn | onlineBegin | onlineEngine | onlineReturn => exact .inl hmem

private theorem step_queued {s t : Board} {a : Act} (hs : s.step false a = some t) {e : EngineId}
    (hqueued : t.queued e = true) : s.queued e = true ∨ a = .schedule e ∧ e ∈ s.isr := by
  cases step_moves hs with
  | @schedule e' hmem =>
      by_cases heq : e = e'
      · subst heq
        exact .inr ⟨rfl, hmem⟩
      · exact .inl (by simpa [heq] using hqueued)
  | @workStart e' hwas _ =>
      by_cases heq : e = e'
      · exact .inl (heq ▸ hwas)
      · exact .inl (by simpa [heq] using hqueued)
  | workReenable =>
      refine .inl ?_
      simp only [reenable] at hqueued
      split at hqueued <;> exact hqueued
  | submit | pollService | irq | channelIrq | workService | offlineBegin | offlineEngine
  | offlineMask | offlineReturn | onlineBegin | onlineEngine | onlineReturn => exact .inl hqueued

/-! ## The result -/

/-- From here no step lets an interrupt of one engine schedule the work of another. -/
def OwnInterrupts (s : Board) : Prop :=
  (∀ e e', s.table.Exists e → s.table.Exists e' → e ≠ e' → s.table.bit e &&& s.table.bit e' = 0) ∧
    ∀ a t e, s.step false a = some t →
      (e ∈ t.isr → e ∈ s.isr ∨ s.table.Exists e ∧ Raises s e a) ∧
        (t.queued e = true → s.queued e = true ∨ a = .schedule e ∧ e ∈ s.isr)

/-- While a device that was opened in interrupt mode stays online, a masked engine has its work
queued or running, or its handler has yet to schedule the work. -/
theorem masked_attended (msixEnabled : Bool) (found : Direction → Nat → Option Bool)
    (engine : EngineId → XdmaEngine) {as : List Act} {s : Board}
    (run : Runs (step false) (fun _ a => a.lifeCycle = false)
      (start false msixEnabled found engine) as s) :
    (∀ e, s.table.Exists e → Masked false s e → Working s e ∨ Handled s e) ∧ OwnInterrupts s := by
  have hinv := run.invariant (fun h hlife hs => MaskInv.step h hlife hs)
    (maskInv_start msixEnabled found engine)
  obtain ⟨num, hnum⟩ := hinv.numbered
  exact ⟨hinv.attended, fun e e' he he' hne => bit_disjoint hnum he he' hne,
    fun a t e hs => ⟨step_isr hnum hs, step_queued hs⟩⟩

def onePair : Direction → Nat → Option Bool := fun _ i => if i = 0 then some true else none

def idleEngines : EngineId → XdmaEngine := fun e => idleEngine e.1 0

theorem masked_attended_both :
    ∃ s, Runs (step false) (fun _ a => a.lifeCycle = false)
        (start false false onePair idleEngines)
        [.irq 3, .schedule (.toDevice, 0), .workStart (.toDevice, 0)] s ∧
      Masked false s (.toDevice, 0) ∧ Masked false s (.fromDevice, 0) ∧
      (∀ e, s.table.Exists e → Masked false s e → Working s e ∨ Handled s e) ∧
      OwnInterrupts s := by
  have hexec : (exec (guarded (step false) fun _ a => !a.lifeCycle)
      (start false false onePair idleEngines)
      [.irq 3, .schedule (.toDevice, 0), .workStart (.toDevice, 0)]).map
        (fun s => decide (Masked false s (.toDevice, 0) ∧ Masked false s (.fromDevice, 0))) =
          some true := by
    decide +kernel
  obtain ⟨s, hs, hobs⟩ := Option.map_eq_some_iff.mp hexec
  have hrun : Runs (step false) (fun _ a => a.lifeCycle = false) _ _ s :=
    (runs_of_guarded hs).mono (by simp)
  obtain ⟨hto, hfrom⟩ := of_decide_eq_true hobs
  exact ⟨s, hrun, hto, hfrom, masked_attended false onePair idleEngines hrun⟩

/-- A device that was opened in poll mode has its interrupts masked and no work to enable them;
and between the two steps of a handler the engine is masked and its work not yet queued. -/
theorem masked_unattended :
    (∃ s, Runs (step true) (fun _ a => a.lifeCycle = false)
        (start true false onePair idleEngines) [] s ∧
      s.table.Exists (.toDevice, 0) ∧ Masked true s (.toDevice, 0) ∧
      ¬ Working s (.toDevice, 0)) ∧
    ∃ s, Runs (step false) (fun _ a => a.lifeCycle = false)
        (start false false onePair idleEngines) [.irq 1] s ∧
      s.table.Exists (.toDevice, 0) ∧ Masked false s (.toDevice, 0) ∧
      ¬ Working s (.toDevice, 0) := by
  constructor
  · exact ⟨_, .refl _, by decide +kernel, by decide +kernel, by decide +kernel⟩
  · exact ⟨_, .next rfl rfl (.refl _), by decide +kernel, by decide +kernel, by decide +kernel⟩

end Board

end NupaNet.Xdma
