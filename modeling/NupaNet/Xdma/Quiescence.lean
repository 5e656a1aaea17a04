import NupaNet.Xdma.Blocking
import NupaNet.Xdma.Masking

/-!
# A device that was taken offline

`xdma_device_offline` requests every engine to shut down and stops it, and then
masks the channel interrupts.  The request, which is tested under the lock of the
engine, keeps every engine stopped until `xdma_device_online` is called.  The
mask lasts only as long as no deferred work writes the channel register: in MSI
mode the last write of `engine_service_work` enables the engine's bit again,
whether the device is offline or not.
-/

namespace NupaNet.Xdma

open NupaNet.Foundation

structure Halted (engine : XdmaEngine) : Prop where
  idle : engine.running = false
  shut : engine.shutdown.request = true

namespace Halted

variable {engine : XdmaEngine}

theorem engineOffline (pollMode : Bool) (engine : XdmaEngine) :
    Halted (engineOffline pollMode engine) := ⟨rfl, rfl⟩

theorem engineService (h : Halted engine) (pollMode : Bool) (descWriteback : U32)
    (reads : Reads) : Halted (engineService pollMode engine descWriteback reads) := by
  rw [Xdma.engineService, if_pos h.idle]
  exact ⟨h.idle, h.shut⟩

theorem transferAbort (h : Halted engine) (r : Nat) : Halted (transferAbort engine r).1 := by
  unfold Xdma.transferAbort
  simp only
  split
  · exact h
  · split <;> split <;> exact ⟨h.idle, h.shut⟩

theorem inspectTransfer (h : Halted engine) (pollMode : Bool) (r : Nat) (reads : Reads) :
    Halted (inspectTransfer pollMode engine r reads).1 := by
  unfold Xdma.inspectTransfer
  split
  · exact h
  · exact h
  · split
    · have haborted := (show Halted { engine with status := reads.status } from
        ⟨h.idle, h.shut⟩).transferAbort r
      simp only
      split
      · exact haborted
      · exact ⟨rfl, haborted.shut⟩
    · exact h

theorem settle {s : SubmitState} (h : Halted s.engine) (xfer : XdmaTransfer) (outcome : Outcome) :
    Halted (s.settle xfer outcome).engine := by
  cases outcome with
  | completed written =>
      simp only [SubmitState.settle]
      split <;> exact ⟨h.idle, h.shut⟩
  | failed => exact ⟨h.idle, h.shut⟩
  | timedOut => exact ⟨h.idle, h.shut⟩
  | refused => exact h

theorem moves {pollMode : Bool} {s t : Channel} {a : Act} (h : Halted s.engine)
    (hcaller : a.caller = true) (hs : Channel.Moves pollMode s a t) : Halted t.engine := by
  cases hs with
  | enter | finish | check => exact h
  | build => exact ⟨h.idle, h.shut⟩
  | refuse => exact h.settle s.xfer .refused
  | queue =>
      rw [Channel.afterQueue, transferQueue_refuses pollMode s.request h.shut]
      exact h.settle s.xfer .refused
  | inspect => exact h.inspectTransfer pollMode s.request _
  | @release outcome _ =>
      have hsettled := h.settle s.xfer outcome
      unfold Channel.afterRelease
      simp only
      split <;> exact hsettled
  | service | offlineFlag | offlineEngine | onlineEngine | onlineFlag => cases hcaller

end Halted

namespace Board

theorem mem_engines (t : EngineTable) (e : EngineId) : e ∈ engines t ↔ t.Exists e := by
  obtain ⟨dir, k⟩ := e
  cases dir <;> simp [engines, EngineTable.Exists]

/-- Offline, or a call on its way there has passed engine `e`. -/
def Passed (s : Board) (e : EngineId) : Prop :=
  s.down = true ∨ ∃ remaining masked, s.call = .offline remaining masked ∧ e ∉ remaining

/-- Offline, or a call on its way there has masked the channel interrupts. -/
def Silenced (s : Board) : Prop := s.down = true ∨ ∃ remaining, s.call = .offline remaining true

structure QuietInv (s : Board) : Prop where
  halted : ∀ e, s.table.Exists e → Passed s e → Halted (s.channel e).engine
  masked : Silenced s → s.chEnable = 0
  online : ∀ remaining, s.call = .online remaining → s.down = false

private theorem quietInv_start (pollMode msixEnabled : Bool) (found : Direction → Nat → Option Bool)
    (engine : EngineId → XdmaEngine) :
    QuietInv (start pollMode msixEnabled found engine) where
  halted e _ h := by simp [Passed, start] at h
  masked h := by simp [Silenced, start] at h
  online := nofun

/-- `engine_service_work` does not write the channel register of a silenced device: the device
has MSI-X, or this work is not at its last write. -/
def ReenableOk (s : Board) : Act → Prop
  | .workReenable _ => s.msixEnabled = true ∨ ¬ Silenced s
  | _ => True

namespace QuietInv

variable {pollMode : Bool} {s t : Board}

theorem of_same (h : QuietInv s) (htable : t.table = s.table) (hcall : t.call = s.call)
    (hdown : t.down = s.down)
    (hhalted : ∀ e, Halted (s.channel e).engine → Halted (t.channel e).engine)
    (hmasked : Silenced s → s.chEnable = 0 → t.chEnable = 0) : QuietInv t where
  halted e he hpassed := by
    rw [Passed, hdown, hcall] at hpassed
    exact hhalted e (h.halted e (htable ▸ he) hpassed)
  masked hsilent := by
    rw [Silenced, hdown, hcall] at hsilent
    exact hmasked hsilent (h.masked hsilent)
  online remaining hc := hdown.trans (h.online remaining (hcall ▸ hc))

private theorem setChannel_halted {e : EngineId} {c : Channel}
    (hc : Halted (s.channel e).engine → Halted c.engine) (e' : EngineId)
    (h : Halted (s.channel e').engine) : Halted ((s.setChannel e c).channel e').engine := by
  by_cases heq : e' = e
  · subst heq
    simpa [setChannel] using hc h
  · simpa [setChannel, heq] using h

theorem offlineEngine (h : QuietInv s) {e : EngineId} {remaining : List EngineId}
    (hcall : s.call = .offline (e :: remaining) false) :
    QuietInv { s.setEngine e (engineOffline pollMode (s.channel e).engine) with
      call := .offline remaining false } where
  halted e' he' hpassed := by
    by_cases heq : e' = e
    · subst heq
      simp only [setEngine, setChannel, Function.update_self]
      exact Halted.engineOffline pollMode _
    · have hwas : Passed s e' := by
        rcases hpassed with hdown | ⟨_, _, hcall', hnot⟩
        · exact .inl hdown
        · cases hcall'
          exact .inr ⟨e :: remaining, false, hcall, by simp [heq, hnot]⟩
      simpa [setEngine, setChannel, heq] using h.halted e' he' hwas
  masked hsilent := by
    rcases hsilent with hdown | ⟨_, hcall'⟩
    · exact h.masked (.inl hdown)
    · cases hcall'
  online := nofun

private theorem of_up (hdown : t.down = false)
    (hcall : ∀ remaining masked, t.call ≠ .offline remaining masked) : QuietInv t where
  halted e _ hpassed := by
    rcases hpassed with hd | ⟨remaining, masked, hc, _⟩
    · cases hdown.symm.trans hd
    · exact absurd hc (hcall remaining masked)
  masked hsilent := by
    rcases hsilent with hd | ⟨remaining, hc⟩
    · cases hdown.symm.trans hd
    · exact absurd hc (hcall remaining true)
  online _ _ := hdown

theorem reenable (h : QuietInv s) (e : EngineId) (hok : s.msixEnabled = true ∨ ¬ Silenced s) :
    QuietInv { s.reenable pollMode e with work := Function.update s.work e .idle } := by
  unfold Board.reenable
  split
  · exact h.of_same rfl rfl rfl (fun _ => id) fun _ => id
  · next hmsi =>
      refine h.of_same rfl rfl rfl (fun _ => id) fun hsilent _ => ?_
      exact absurd hsilent (hok.resolve_left hmsi)

theorem step {a : Act} (h : QuietInv s) (hok : ReenableOk s a)
    (hs : s.step pollMode a = some t) : QuietInv t := by
  cases step_moves hs with
  | submit hcaller hmoves =>
      exact h.of_same rfl rfl rfl
        (setChannel_halted fun hhalted => hhalted.moves hcaller hmoves) fun _ => id
  | pollService =>
      exact h.of_same rfl rfl rfl
        (setChannel_halted fun hhalted => hhalted.engineService pollMode _ _) fun _ => id
  | irq =>
      refine h.of_same rfl rfl rfl (fun _ => id) fun _ hzero => ?_
      simp [afterIrq, hzero]
  | channelIrq | schedule | workStart => exact h.of_same rfl rfl rfl (fun _ => id) fun _ => id
  | workService =>
      exact h.of_same rfl rfl rfl
        (setChannel_halted fun hhalted => hhalted.engineService pollMode _ _) fun _ => id
  | workReenable => exact h.reenable _ hok
  | offlineBegin hcall =>
      refine ⟨fun e he hpassed => ?_, fun hsilent => ?_, nofun⟩
      · rcases hpassed with hdown | ⟨_, _, hcall', hnot⟩
        · exact h.halted e he (.inl hdown)
        · cases hcall'
          exact absurd ((mem_engines s.table e).mpr he) hnot
      · rcases hsilent with hdown | ⟨_, hcall'⟩
        · exact h.masked (.inl hdown)
        · cases hcall'
  | offlineEngine hcall => exact h.offlineEngine hcall
  | offlineMask hcall =>
      refine ⟨fun e he _ => ?_, fun _ => by simp, nofun⟩
      exact h.halted e he (.inr ⟨[], false, hcall, List.not_mem_nil⟩)
  | offlineReturn hcall =>
      refine ⟨fun e he _ => ?_, fun _ => h.masked (.inr ⟨[], hcall⟩), nofun⟩
      exact h.halted e he (.inr ⟨[], true, hcall, List.not_mem_nil⟩)
  | onlineBegin => exact of_up rfl nofun
  | onlineEngine hcall => exact of_up (h.online _ hcall) nofun
  | onlineReturn hcall => exact of_up (h.online _ hcall) nofun

end QuietInv

/-! ## The result -/

/-- After `xdma_device_offline` has returned and before `xdma_device_online` is called. -/
structure Quiescent (pollMode : Bool) (s : Board) : Prop where
  idle : s.down = true → ∀ e, s.table.Exists e → (s.channel e).engine.running = false
  serviced : s.down = true → ∀ e, s.table.Exists e → ∀ descWriteback reads,
    (engineService pollMode (s.channel e).engine descWriteback reads).running = false
  refuses : s.down = true → ∀ e, s.table.Exists e → ∀ r status,
    transferQueue pollMode (s.channel e).engine r status = ((s.channel e).engine, -16)
  masked : s.down = true → s.chEnable = 0

/-- In every run in which no work writes the channel register of a silenced device, the device is
quiescent whenever it is offline. -/
theorem offline_quiescent (pollMode msixEnabled : Bool) (found : Direction → Nat → Option Bool)
    (engine : EngineId → XdmaEngine) {as : List Act} {s : Board}
    (run : Runs (step pollMode) ReenableOk (start pollMode msixEnabled found engine) as s) :
    Quiescent pollMode s := by
  have hinv := run.invariant (fun h hok hs => QuietInv.step h hok hs)
    (quietInv_start pollMode msixEnabled found engine)
  have hhalted (hdown : s.down = true) (e : EngineId) (he : s.table.Exists e) :=
    hinv.halted e he (.inl hdown)
  constructor
  · intro hdown e he
    exact (hhalted hdown e he).idle
  · intro hdown e he descWriteback reads
    exact ((hhalted hdown e he).engineService pollMode descWriteback reads).idle
  · intro hdown e he r status
    exact transferQueue_refuses pollMode r (hhalted hdown e he).shut status
  · intro hdown
    exact hinv.masked (.inl hdown)

def lateWork (raise : Act) : List Act :=
  submitted.map (.submit (.toDevice, 0)) ++
    [raise, .schedule (.toDevice, 0), .offlineBegin, .offlineEngine, .offlineEngine, .offlineMask,
      .offlineReturn, .workStart (.toDevice, 0), .workService (.toDevice, 0) busyReads,
      .workReenable (.toDevice, 0)]

theorem offline_quiescent_msix :
    ∃ s, Runs (step false) ReenableOk (start false true onePair idleEngines)
        (lateWork (.channelIrq (.toDevice, 0))) s ∧
      s.down = true ∧ Quiescent false s := by
  have hexec : (exec (guarded (step false) fun s _ => s.msixEnabled)
      (start false true onePair idleEngines) (lateWork (.channelIrq (.toDevice, 0)))).map
        Board.down = some true := by
    decide +kernel
  obtain ⟨s, hs, hdown⟩ := Option.map_eq_some_iff.mp hexec
  have hrun : Runs (step false) ReenableOk (start false true onePair idleEngines)
      (lateWork (.channelIrq (.toDevice, 0))) s := by
    refine (runs_of_guarded hs).mono fun s a hmsix => ?_
    cases a with
    | workReenable e => exact .inl hmsix
    | _ => trivial
  exact ⟨s, hrun, hdown, offline_quiescent false true onePair idleEngines hrun⟩

/-- In MSI mode it enables the engine's interrupt behind the offline call. -/
theorem late_work_unmasks :
    ∃ s, Runs (step false) Any (start false false onePair idleEngines) (lateWork (.irq 1)) s ∧
      s.down = true ∧ s.chEnable = 1 ∧ ¬ Quiescent false s := by
  have hexec : (exec (step false) (start false false onePair idleEngines)
      (lateWork (.irq 1))).map (fun s => (s.down, s.chEnable)) = some (true, 1) := by
    decide +kernel
  obtain ⟨s, hs, hobs⟩ := Option.map_eq_some_iff.mp hexec
  obtain ⟨hdown, henabled⟩ := Prod.mk.inj hobs
  refine ⟨s, runs_of_exec hs, hdown, henabled, fun hquiet => ?_⟩
  have hzero := hquiet.masked hdown
  rw [henabled] at hzero
  cases hzero

end Board

end NupaNet.Xdma
