import NupaNet.Thread.Registry

/-!
# Wake-ups

A thread looks for work under its lock and then waits on `schedule`.  A caller
queues its transfer first and then stores `schedule` and wakes the thread, so a
transfer that the look has missed is found by the wait.  What is queued without
the second part, by `xdma_xfer_submit_nowait`, has no such protection.
-/

namespace NupaNet.Thread

open NupaNet.Foundation

variable {δ ε : Type} {s s' : Pool δ ε}

/-! ## Engines that nobody can queue on yet -/

namespace DevicePc

variable {pc : DevicePc ε} {e : ε}

def Named (pc : DevicePc ε) : Prop := ∀ e todo, pc ≠ .detaching e none todo

private theorem opening_of_serving (h : e ∈ pc.serving) : pc.opening = false := by
  cases pc <;> simp_all [serving, opening]

private theorem mem_engines_serving (hnamed : pc.Named) (h : e ∈ pc.serving) : e ∈ pc.engines := by
  cases pc with
  | detaching e' thp todo =>
      cases thp with
      | none => exact absurd rfl (hnamed e' todo)
      | some t =>
          simp only [serving, List.mem_cons] at h
          simp only [engines, attached, loose, coming, Option.map_some, Option.toList_some,
            List.append_nil, List.mem_append, List.mem_singleton]
          exact h.symm
  | opened | removing => exact mem_engines_attached h
  | _ => simp [serving] at h

end DevicePc

structure Quiet (s : Pool δ ε) : Prop where
  unused : ∀ e, s.used e = false → s.pend e = false
  opening : ∀ d, (s.dev d).opening = true → ∀ e ∈ (s.dev d).engines, s.pend e = false
  named : ∀ d, (s.dev d).Named

namespace Quiet

theorem mono (h : Quiet s) (hused : s'.used = s.used) (hdev : s'.dev = s.dev)
    (hpend : ∀ e, s.pend e = false → s'.pend e = false) : Quiet s' where
  unused e he := hpend e (h.unused e (hused ▸ he))
  opening d hd e he := hpend e (h.opening d (hdev ▸ hd) e (hdev ▸ he))
  named d := hdev ▸ h.named d

theorem queue [DecidableEq ε] (h : Quiet s) (hreg : Registered s) {d : δ} {e : ε}
    (he : e ∈ (s.dev d).serving) (hused : s'.used = s.used) (hdev : s'.dev = s.dev)
    (hpend : s'.pend = Function.update s.pend e true) : Quiet s' := by
  have hmem := DevicePc.mem_engines_serving (h.named d) he
  refine ⟨fun e' he' => ?_, fun d' hopen e' he' => ?_, fun d' => hdev ▸ h.named d'⟩
  · rw [hused] at he'
    rw [hpend, Function.update_of_ne]
    · exact h.unused e' he'
    · rintro rfl
      simp [hreg.used d e' hmem] at he'
  · rw [hdev] at hopen he'
    rw [hpend, Function.update_of_ne]
    · exact h.opening d' hopen e' he'
    · rintro rfl
      obtain rfl := hreg.apart d d' e' hmem he'
      simp [DevicePc.opening_of_serving he] at hopen

variable [DecidableEq δ] {d : δ}

theorem setDev (h : Quiet s) {pc : DevicePc ε} (hdev : s'.dev = Function.update s.dev d pc)
    (hused : s'.used = s.used) (hpend : s'.pend = s.pend) (hnamed : pc.Named)
    (hopen : pc.opening = true →
      (s.dev d).opening = true ∧ ∀ e ∈ pc.engines, e ∈ (s.dev d).engines) : Quiet s' where
  unused e he := by
    rw [hpend]
    exact h.unused e (hused ▸ he)
  opening := by
    rw [hdev, hpend]
    exact (Function.forall_update_iff s.dev fun _ pc' => pc'.opening = true →
      ∀ e ∈ pc'.engines, s.pend e = false).mpr
        ⟨fun hpc e he => h.opening d (hopen hpc).1 e ((hopen hpc).2 e he), fun d' _ => h.opening d'⟩
  named := by
    rw [hdev]
    exact (Function.forall_update_iff s.dev fun _ pc' => pc'.Named).mpr
      ⟨hnamed, fun d' _ => h.named d'⟩

variable [DecidableEq ε]

theorem enlist (h : Quiet s) {env : OpenEnv ε} {n : Nat} {thread : Nat → XdmaKthread ε}
    (hfresh : ∀ e ∈ env.engines, s.used e = false) :
    Quiet (Pool.enlist { s with threadCnt := n, thread := thread } d env) where
  unused e he := by
    simp only [Pool.enlist, Bool.or_eq_false_iff] at he
    exact h.unused e he.1
  opening := (Function.forall_update_iff s.dev fun _ pc' => pc'.opening = true →
    ∀ e ∈ pc'.engines, s.pend e = false).mpr ⟨fun _ e he => h.unused e (hfresh e (by
      simpa [DevicePc.engines, DevicePc.attached, DevicePc.loose, DevicePc.coming] using he)),
        fun d' _ => h.opening d'⟩
  named := (Function.forall_update_iff s.dev fun _ pc' => pc'.Named).mpr
    ⟨by simp [DevicePc.Named], fun d' _ => h.named d'⟩

theorem devMoves (h : Quiet s) (hhomed : Homed s) {opens : Bool}
    (hmove : Pool.DevMoves s d opens s') : Quiet s' := by
  cases hmove with
  | probed =>
      cases opens <;>
        exact h.setDev rfl rfl rfl (by simp [DevicePc.Named]) (by simp [DevicePc.opening])
  | probe hpc | scan hpc | take hpc | scanned hpc | place hpc | publish hpc =>
      refine h.setDev rfl rfl rfl (by simp [DevicePc.Named]) fun _ => ?_
      rw [hpc]
      exact ⟨rfl, by simp [DevicePc.engines, DevicePc.attached, DevicePc.loose, DevicePc.coming]⟩
  | unlist =>
      simp only [Pool.xdevListRemove]
      split <;> exact h.setDev rfl rfl rfl (by simp [DevicePc.Named]) (by simp [DevicePc.opening])
  | @unpublish todo e hpc =>
      refine h.setDev rfl rfl rfl (fun e' todo' heq => ?_) (by simp [DevicePc.opening])
      injection heq with _ hthp
      exact hhomed.published d e (by simp [hpc, DevicePc.attached]) hthp
  | forget | detach | stopMark | free | stop | join =>
      exact h.setDev rfl rfl rfl (by simp [DevicePc.Named]) (by simp [DevicePc.opening])

end Quiet

private theorem XdmaKthread.main_pend [DecidableEq ε] {thp thp' : XdmaKthread ε}
    {pend pend' : ε → Bool}
    {keep : Bool} (h : thp.main pend keep = some (thp', pend')) (e : ε) (he : pend e = false) :
    pend' e = false := by
  unfold main at h
  split at h <;> simp only [Option.some.injEq, Prod.mk.injEq, reduceCtorEq] at h <;>
    obtain ⟨-, rfl⟩ := h <;> first | exact he | skip
  next e' _ _ =>
    by_cases hne : e = e'
    · subst hne
      simp [he]
    · simp [hne, he]

section

variable [DecidableEq δ] [DecidableEq ε]

theorem Quiet.step (h : Quiet s) (hatt : Attached s) {a : PoolAct δ ε}
    (hs : s.step a = some s') : Quiet s' := by
  cases Pool.step_moves hs with
  | listAdd _ _ _ hfresh _ hmoves =>
      cases hmoves with
      | fail => exact h.mono rfl rfl fun _ he => he
      | create | list => exact h.enlist hfresh
  | dev hmove => exact h.devMoves hatt.homed hmove
  | close => exact h.setDev rfl rfl rfl (by simp [DevicePc.Named]) (by simp [DevicePc.opening])
  | main _ hmain => exact h.mono rfl rfl (XdmaKthread.main_pend hmain)
  | queue hserving | queueNowait hserving => exact h.queue hatt.registered hserving rfl rfl rfl
  | wake hmove => cases hmove <;> exact h.mono rfl rfl fun _ he => he
  | @abort e =>
      refine h.mono rfl rfl fun e' he' => ?_
      by_cases hne : e' = e
      · simp [hne]
      · simp [hne, he']

end

/-! ## What a thread has missed -/

/-- The look for work has passed the engine, and the thread has not gone to work since. -/
def MainPc.Passed (pc : MainPc ε) (e : ε) : Prop :=
  match pc with
  | .pending rest => e ∉ rest
  | .reschedule | .test _ | .asleep _ => True
  | _ => False

def SubmitPc.storing : SubmitPc → Bool
  | .queued | .waking => true
  | _ => false

/-- A thread that has missed a transfer of the engine will find `schedule` set: the store is made,
and if the thread sleeps the wake-up is on its way. -/
def Covered (thp : XdmaKthread ε) (submit : SubmitPc) : Prop :=
  submit.storing = true ∨
    thp.schedule = true ∧ (submit = .notify ∨ thp.pc ≠ .asleep false)

def Awake (s : Pool δ ε) : Prop :=
  ∀ e t, s.cmplthp e = some t → s.pend e = true → s.silent e = false →
    (s.thread t).pc.Passed e → Covered (s.thread t) (s.submit e)

structure Keeps (thp thp' : XdmaKthread ε) : Prop where
  passed : ∀ e, thp'.pc.Passed e → thp.pc.Passed e
  covered : ∀ submit, Covered thp submit → Covered thp' submit

theorem Keeps.rfl {thp : XdmaKthread ε} : Keeps thp thp := ⟨fun _ h => h, fun _ h => h⟩

theorem Keeps.mark {thp : XdmaKthread ε} : Keeps thp { thp with schedule := true } where
  passed _ h := h
  covered _ h := h.imp id fun hset => ⟨Eq.refl true, hset.2⟩

namespace XdmaKthread

private theorem wakeUp_pc (thp : XdmaKthread ε) : thp.wakeUp.pc ≠ .asleep false := by
  cases hpc : thp.pc <;> simp [wakeUp, hpc]

private theorem wakeUp_schedule (thp : XdmaKthread ε) : thp.wakeUp.schedule = thp.schedule := by
  cases hpc : thp.pc <;> simp [wakeUp, hpc]

private theorem wakeUp_keeps (thp : XdmaKthread ε) : Keeps thp thp.wakeUp where
  passed e h := by cases hpc : thp.pc <;> simp_all [wakeUp, MainPc.Passed]
  covered _ h := h.imp id fun hset =>
    ⟨(wakeUp_schedule thp).trans hset.1, .inr (wakeUp_pc thp)⟩

variable [DecidableEq ε] {thp thp' : XdmaKthread ε} {pend pend' : ε → Bool} {keep : Bool}

/-- The thread passes an engine on its list only when nothing is queued there, and goes to sleep
only when `schedule` is clear. -/
private theorem main_covered (h : thp.main pend keep = some (thp', pend')) {e : ε}
    (hmem : e ∈ thp.workList) (hpend : pend' e = true) (hpassed : thp'.pc.Passed e) :
    thp.pc.Passed e ∧ ∀ submit, Covered thp submit → Covered thp' submit := by
  unfold main at h
  split at h <;> simp only [Option.some.injEq, Prod.mk.injEq, reduceCtorEq] at h <;>
    obtain ⟨rfl, rfl⟩ := h
  case h_1 => split at hpassed <;> exact hpassed.elim
  case h_2 => exact absurd hmem hpassed
  case h_3 hpc =>
    rw [hpc]
    exact ⟨List.not_mem_nil, fun _ hcov => hcov.imp id fun hset => ⟨hset.1, .inr (by simp [goto])⟩⟩
  case h_4 e' rest hpc =>
    split at hpassed
    · exact hpassed.elim
    · next hnone =>
        rw [hpc]
        refine ⟨?_, fun _ hcov => hcov.imp id fun hset => ⟨hset.1, .inr ?_⟩⟩
        · rintro (_ | ⟨_, hrest⟩)
          · exact hnone hpend
          · exact hpassed hrest
        · simp [goto, hnone]
  case h_5 hpc =>
    rw [hpc]
    refine ⟨trivial, fun _ hcov => hcov.imp id fun hset => ⟨hset.1, .inr ?_⟩⟩
    simp [goto, hset.1]
  case h_6 woken hpc =>
    rw [hpc]
    refine ⟨trivial, fun _ hcov => hcov.imp id fun hset => ⟨hset.1, .inr ?_⟩⟩
    simp [goto, hset.1]
  case h_7 hpc =>
    rw [hpc]
    exact ⟨trivial, fun _ hcov => hcov.imp id fun hset => ⟨hset.1, .inr (by simp [goto])⟩⟩
  all_goals exact hpassed.elim

end XdmaKthread

namespace Awake

theorem keep (h : Awake s) (hthp : ∀ e t, s'.cmplthp e = some t → s.cmplthp e = some t)
    (hpend : ∀ e, s'.pend e = true → s.pend e = true) (hsilent : s'.silent = s.silent)
    (hsubmit : s'.submit = s.submit) (hthread : s'.thread = s.thread) : Awake s' := by
  intro e t hsome hqueued hloud hpassed
  rw [hsilent] at hloud
  rw [hthread] at hpassed
  rw [hsubmit, hthread]
  exact h e t (hthp e t hsome) (hpend e hqueued) hloud hpassed

private theorem keeps_setThread {t : Nat} {thp : XdmaKthread ε} (h : Keeps (s.thread t) thp)
    (t' : Nat) :
    Keeps (s.thread t') ((s.setThread t thp).thread t') :=
  (Function.forall_update_iff s.thread fun t' thp' => Keeps (s.thread t') thp').mpr
    ⟨h, fun _ _ => .rfl⟩ t'

theorem setThread (h : Awake s) {t : Nat} {thp : XdmaKthread ε} (hkeeps : Keeps (s.thread t) thp) :
    Awake (s.setThread t thp) := by
  intro e t' hsome hqueued hloud hpassed
  have hkeeps' := keeps_setThread hkeeps t'
  exact hkeeps'.covered _ (h e t' hsome hqueued hloud (hkeeps'.passed e hpassed))

variable [DecidableEq δ] [DecidableEq ε]

theorem devMoves (h : Awake s) (hquiet : Quiet s) {d : δ} {opens : Bool}
    (hmove : Pool.DevMoves s d opens s') : Awake s' := by
  cases hmove with
  | probed | probe | scan | take | scanned | forget | free | join => exact h
  | @place _ _ _ t | @detach _ _ t =>
      exact h.setThread (t := t) ⟨fun _ hpassed => hpassed, fun _ hcov => hcov⟩
  | @publish _ _ e t hpc =>
      intro e' t' hsome hqueued hloud hpassed
      have hne : e' ≠ e := by
        rintro rfl
        have hnone := hquiet.opening d (by rw [hpc]; rfl) e'
          (by simp [hpc, DevicePc.engines, DevicePc.loose])
        exact absurd (hqueued.symm.trans hnone) (by simp)
      simp only [Pool.setDev, Pool.setCmplthp, Function.update_of_ne hne] at hsome
      exact h e' t' hsome hqueued hloud hpassed
  | unlist =>
      simp only [Pool.xdevListRemove]
      split <;> exact h
  | @unpublish _ e =>
      refine h.keep (fun e' t' hsome => ?_) (fun _ he => he) rfl rfl rfl
      by_cases hne : e' = e
      · simp [hne, Pool.setDev, Pool.setCmplthp] at hsome
      · simpa [hne, Pool.setDev, Pool.setCmplthp] using hsome
  | @stopMark i => exact h.setThread (t := i) Keeps.mark
  | @stop i =>
      have hwake := XdmaKthread.wakeUp_keeps (s.thread i)
      exact h.setThread (t := i) ⟨hwake.passed, hwake.covered⟩

omit [DecidableEq δ] in
theorem setSubmit (h : Awake s) {e : ε} {pc : SubmitPc} {silent : ε → Bool}
    (hsilent : ∀ e' ≠ e, silent e' = s.silent e')
    (hown : ∀ t, s.cmplthp e = some t → s.pend e = true → silent e = false →
      (s.thread t).pc.Passed e → Covered (s.thread t) pc) :
    Awake { s.setSubmit e pc with silent := silent } := by
  intro e' t hsome hqueued hloud hpassed
  by_cases hne : e' = e
  · subst hne
    simp only [Pool.setSubmit, Function.update_self]
    exact hown t hsome hqueued hloud hpassed
  · simp only [Pool.setSubmit, Function.update_of_ne hne]
    exact h e' t hsome hqueued ((hsilent e' hne).symm.trans hloud) hpassed

omit [DecidableEq δ] in
private theorem wakeMoves (h : Awake s) {e : ε} (hmove : Pool.WakeMoves s e s') : Awake s' := by
  cases hmove with
  | skip _ hnone | crash _ hnone =>
      exact h.setSubmit (fun _ _ => rfl) fun t hsome =>
        absurd (hsome.symm.trans hnone) (by simp)
  | test => exact h.setSubmit (fun _ _ => rfl) fun _ _ _ _ _ => .inl rfl
  | @mark t _ hthp =>
      refine (h.setThread (t := t) Keeps.mark).setSubmit (fun e' hne => ?_)
        fun t' hsome _ _ _ => ?_
      · exact Function.update_of_ne hne _ _
      · obtain rfl := Option.some.inj (hsome.symm.trans hthp)
        exact .inr ⟨by simp [Pool.setThread], .inl rfl⟩
  | @notify t hsub hthp =>
      have hkeeps := XdmaKthread.wakeUp_keeps (s.thread t)
      refine (h.setThread hkeeps).setSubmit (fun _ _ => rfl) fun t' hsome hqueued hloud hpassed => ?_
      obtain rfl := Option.some.inj (hsome.symm.trans hthp)
      have hcov := h e t' hsome hqueued hloud ((keeps_setThread hkeeps t').passed e hpassed)
      rw [hsub] at hcov
      have hset : (s.thread t').schedule = true := (hcov.resolve_left (by simp [SubmitPc.storing])).1
      refine .inr ⟨?_, .inr ?_⟩
      · simpa [Pool.setThread, XdmaKthread.wakeUp_schedule] using hset
      · simpa [Pool.setThread] using XdmaKthread.wakeUp_pc (s.thread t')

theorem step (h : Awake s) (hatt : Attached s) (hquiet : Quiet s) {a : PoolAct δ ε}
    (hs : s.step a = some s') : Awake s' := by
  cases Pool.step_moves hs with
  | listAdd _ _ _ _ _ hmoves =>
      cases hmoves with
      | fail | list => exact h
      | create => exact fun _ _ _ _ _ hpassed => hpassed.elim
  | dev hmove => exact h.devMoves hquiet hmove
  | close => exact h
  | @main t keep thp pend ht hmain =>
      intro e t' hsome hqueued hloud hpassed
      have hpend : s.pend e = true := by
        by_contra hnone
        have := XdmaKthread.main_pend hmain e (Bool.eq_false_iff.mpr hnone)
        exact absurd (hqueued.symm.trans this) (by simp)
      by_cases hne : t' = t
      · subst hne
        -- the engine is on the list of the thread that its pointer names
        obtain ⟨d, hmem⟩ := hatt.homed.cmplthp e t' hsome
        have hon := (hatt.homed.mem t' ht e).mpr ⟨d, .inl ⟨hmem, hsome⟩⟩
        simp only [Pool.setThread, Function.update_self] at hpassed ⊢
        obtain ⟨hbefore, hcov⟩ := XdmaKthread.main_covered hmain hon hqueued hpassed
        exact hcov _ (h e t' hsome hpend hloud hbefore)
      · simp only [Pool.setThread, Function.update_of_ne hne] at hpassed ⊢
        exact h e t' hsome hpend hloud hpassed
  | @queue d e =>
      intro e' t hsome hqueued hloud hpassed
      by_cases hne : e' = e
      · exact .inl (by simp [hne, Pool.setSubmit, SubmitPc.storing])
      · simp only [Pool.setSubmit, Function.update_of_ne hne] at hqueued ⊢
        exact h e' t hsome hqueued hloud hpassed
  | @queueNowait d e =>
      intro e' t hsome hqueued hloud hpassed
      by_cases hne : e' = e
      · simp [hne] at hloud
      · simp only [Function.update_of_ne hne] at hqueued hloud
        exact h e' t hsome hqueued hloud hpassed
  | wake hmove => exact h.wakeMoves hmove
  | @abort e =>
      refine h.keep (fun _ _ he => he) (fun e' hqueued => ?_) rfl rfl rfl
      by_cases hne : e' = e
      · simp [hne] at hqueued
      · simpa [hne] using hqueued

theorem runs {as : List (PoolAct δ ε)} (run : Runs Pool.step Any Pool.start as s) : Awake s := by
  have hall := run.invariant (P := fun s => Attached s ∧ Quiet s ∧ Awake s)
    (fun h _ hs => ⟨h.1.step hs, h.2.1.step h.1 hs, h.2.2.step h.1 h.2.1 hs⟩)
    ⟨Attached.start, ⟨fun _ _ => rfl, fun _ _ _ _ => rfl, fun _ _ _ h => by cases h⟩,
      fun _ _ h => by cases h⟩
  exact hall.2.2

end Awake

section

variable [DecidableEq δ] [DecidableEq ε]

/-- No wake-up is lost: when a thread sleeps with no wake-up on the way while an engine
whose `cmplthp` names it has transfers queued and no caller is on its way through
`xdma_kthread_wakeup`, the engine has transfers of `xdma_xfer_submit_nowait`, which wakes
nobody. -/
theorem no_lost_wakeup {as : List (PoolAct δ ε)} (run : Runs Pool.step Any Pool.start as s)
    {e : ε} {t : Nat} (hthp : s.cmplthp e = some t) (hblocked : (s.thread t).pc = .asleep false)
    (hqueued : s.pend e = true) (hidle : s.submit e = .idle) : s.silent e = true := by
  by_contra hloud
  have hcov := Awake.runs run e t hthp hqueued (Bool.eq_false_iff.mpr hloud)
    (by rw [hblocked]; trivial)
  rw [hidle] at hcov
  rcases hcov with hstoring | ⟨-, hnotify | hawake⟩
  · cases hstoring
  · cases hnotify
  · exact hawake hblocked

end

def stranded : List (PoolAct Nat Nat) :=
  .listAdd 0 ⟨[0], 2, 1, true, fun _ => false⟩ :: (List.replicate 6 (.dev 0 true) ++
    List.replicate 6 (.main 0 false) ++ [.queueNowait 0 0])

theorem no_lost_wakeup_stranded : ∃ s, Runs Pool.step Any Pool.start stranded s ∧
    s.cmplthp 0 = some 0 ∧ (s.thread 0).pc = .asleep false ∧ s.pend 0 = true ∧
    s.silent 0 = true := by
  have hexec : (exec Pool.step Pool.start stranded).map
      (fun s => (s.cmplthp 0, (s.thread 0).pc, s.pend 0, s.submit 0)) =
      some (some 0, .asleep false, true, .idle) := by
    decide +kernel
  obtain ⟨s, hs, hobs⟩ := Option.map_eq_some_iff.mp hexec
  simp only [Prod.mk.injEq] at hobs
  obtain ⟨hthp, hblocked, hqueued, hidle⟩ := hobs
  exact ⟨s, runs_of_exec hs, hthp, hblocked, hqueued,
    no_lost_wakeup (runs_of_exec hs) hthp hblocked hqueued hidle⟩

end NupaNet.Thread
