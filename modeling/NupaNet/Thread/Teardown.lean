import NupaNet.Thread.Registry

/-!
# Stopping the threads

`xdma_threads_destroy` stops the threads one after the other and frees the array.
`xdma_kthread_stop` stores `schedule` and then has `kthread_stop` set the stop bit
and wait for the thread.  The wait in `xthread_reschedule` is on `schedule` alone,
so a thread that has taken the store for an ordinary wake-up before the stop bit
is set goes back to sleep, and the stop bit does not get it out.
-/

namespace NupaNet.Thread

open NupaNet.Foundation

variable {δ ε : Type} {s s' : Pool δ ε}

/-! ## The threads that have been waited for -/

def DevicePc.joined : DevicePc ε → Nat
  | .stopping i | .stopBit i | .joining i => i
  | _ => 0

def DevicePc.awaited : DevicePc ε → Option Nat
  | .joining i => some i
  | _ => none

/-- The threads that have been stopped have exited, and the one that is waited for has its stop
bit. -/
structure Joined (s : Pool δ ε) : Prop where
  exited : ∀ d, ∀ t < (s.dev d).joined, t < s.threadCnt → (s.thread t).pc = .exited
  stop : ∀ d t, (s.dev d).awaited = some t → (s.thread t).stop = true

private theorem DevicePc.joined_of_not_destroying {pc : DevicePc ε} (h : pc.destroying ≠ true) :
    pc.joined = 0 ∧ pc.awaited = none := by
  cases pc <;> simp_all [destroying, joined, awaited]

def Settled (thp thp' : XdmaKthread ε) : Prop :=
  (thp.pc = .exited → thp'.pc = .exited) ∧ (thp.stop = true → thp'.stop = true)

theorem Settled.rfl {thp : XdmaKthread ε} : Settled thp thp := ⟨id, id⟩

private theorem XdmaKthread.wakeUp_settled (thp : XdmaKthread ε) : Settled thp thp.wakeUp := by
  cases hpc : thp.pc <;> simp [Settled, wakeUp, hpc]

private theorem XdmaKthread.main_settled [DecidableEq ε] {thp thp' : XdmaKthread ε}
    {pend pend' : ε → Bool}
    {keep : Bool} (h : thp.main pend keep = some (thp', pend')) : Settled thp thp' := by
  unfold main at h
  split at h <;> simp only [Option.some.injEq, Prod.mk.injEq, reduceCtorEq] at h <;>
    obtain ⟨rfl, -⟩ := h <;> simp_all [Settled, goto]

namespace Joined

theorem mono (h : Joined s) (hcnt : s'.threadCnt = s.threadCnt)
    (hjoined : ∀ d, (s'.dev d).joined ≤ (s.dev d).joined)
    (hawaited : ∀ d t, (s'.dev d).awaited = some t → (s.dev d).awaited = some t)
    (hsettled : ∀ t, Settled (s.thread t) (s'.thread t)) : Joined s' where
  exited d t ht hlt :=
    (hsettled t).1 (h.exited d t (Nat.lt_of_lt_of_le ht (hjoined d)) (hcnt ▸ hlt))
  stop d t ht := (hsettled t).2 (h.stop d t (hawaited d t ht))

theorem setThread (h : Joined s) {t : Nat} {thp : XdmaKthread ε}
    (hsettled : Settled (s.thread t) thp) : Joined (s.setThread t thp) :=
  h.mono rfl (fun _ => Nat.le_refl _) (fun _ _ ht => ht)
    ((Function.forall_update_iff s.thread fun t' thp' => Settled (s.thread t') thp').mpr
      ⟨hsettled, fun _ _ => .rfl⟩)

private theorem of_mutex (h : Registered s) (hmutex : s.mutex = none) : Joined s := by
  have hnone : ∀ d, (s.dev d).joined = 0 ∧ (s.dev d).awaited = none := fun d =>
    DevicePc.joined_of_not_destroying (by simp [h.mutex d, hmutex])
  refine ⟨fun d t ht => ?_, fun d t ht => ?_⟩
  · rw [(hnone d).1] at ht
    exact absurd ht (Nat.not_lt_zero t)
  · rw [(hnone d).2] at ht
    cases ht

variable [DecidableEq δ] {d : δ}

theorem setDev (h : Joined s) {pc : DevicePc ε}
    (hjoined : ∀ t < pc.joined, t < s.threadCnt → (s.thread t).pc = .exited)
    (hawaited : ∀ t, pc.awaited = some t → (s.thread t).stop = true) :
    Joined (s.setDev d pc) where
  exited := (Function.forall_update_iff s.dev fun _ pc' => ∀ t < pc'.joined, t < s.threadCnt →
    (s.thread t).pc = .exited).mpr ⟨hjoined, fun d' _ => h.exited d'⟩
  stop := (Function.forall_update_iff s.dev fun _ pc' => ∀ t, pc'.awaited = some t →
    (s.thread t).stop = true).mpr ⟨hawaited, fun d' _ => h.stop d'⟩

private theorem setDev_zero (h : Joined s) {pc : DevicePc ε} (hjoined : pc.joined = 0)
    (hawaited : pc.awaited = none) : Joined (s.setDev d pc) := by
  refine h.setDev (fun t ht => ?_) (fun t ht => ?_)
  · rw [hjoined] at ht
    exact absurd ht (Nat.not_lt_zero t)
  · rw [hawaited] at ht
    cases ht

variable [DecidableEq ε]

theorem devMoves (h : Joined s) {opens : Bool} (hmove : Pool.DevMoves s d opens s') :
    Joined s' := by
  cases hmove with
  | probed => cases opens <;> exact h.setDev_zero rfl rfl
  | probe | scan | take | scanned | forget => exact h.setDev_zero rfl rfl
  | @place _ _ e t =>
      have hthread := h.setThread (t := t)
        (show Settled (s.thread t) (Pool.listAddTail (s.thread t) e) from .rfl)
      exact hthread.setDev_zero rfl rfl
  | publish | unpublish =>
      exact setDev_zero (s := s.setCmplthp _ _) ⟨h.exited, h.stop⟩ rfl rfl
  | unlist =>
      simp only [Pool.xdevListRemove]
      split
      · have hdev : Joined (s.setDev d (.stopping 0)) := h.setDev_zero rfl rfl
        exact ⟨hdev.exited, hdev.stop⟩
      · have hdev : Joined (s.setDev d .closed) := h.setDev_zero rfl rfl
        exact ⟨hdev.exited, hdev.stop⟩
  | @detach _ e t =>
      have hthread := h.setThread (t := t)
        (show Settled (s.thread t) (Pool.listDel (s.thread t) e) from .rfl)
      exact hthread.setDev_zero rfl rfl
  | @stopMark i hpc =>
      have hthread := h.setThread (t := i)
        (show Settled (s.thread i) { s.thread i with schedule := true } from .rfl)
      refine hthread.setDev (fun t ht hlt => ?_) (by simp [DevicePc.awaited])
      exact hthread.exited d t (by simpa [Pool.setThread, hpc, DevicePc.joined] using ht) hlt
  | free =>
      have hdev : Joined (s.setDev d .closed) := h.setDev_zero rfl rfl
      exact ⟨fun d' t _ hlt => absurd hlt (Nat.not_lt_zero t), hdev.stop⟩
  | @stop i hpc =>
      have hwake := XdmaKthread.wakeUp_settled (s.thread i)
      have hthread := h.setThread (t := i)
        (show Settled (s.thread i) { (s.thread i).wakeUp with stop := true } from
          ⟨hwake.1, fun _ => rfl⟩)
      refine hthread.setDev (fun t ht hlt => ?_) (fun t ht => ?_)
      · exact hthread.exited d t (by simpa [Pool.setThread, hpc, DevicePc.joined] using ht) hlt
      · cases ht
        simp [Pool.setThread]
  | @join i hpc hexited =>
      refine h.setDev (fun t ht hlt => ?_) (by simp [DevicePc.awaited])
      rcases Nat.lt_succ_iff_lt_or_eq.mp ht with hbefore | rfl
      · exact h.exited d t (by simpa [hpc, DevicePc.joined] using hbefore) hlt
      · exact hexited

theorem step (h : Joined s) (hreg : Registered s') {a : PoolAct δ ε} (hs : s.step a = some s') :
    Joined s' := by
  cases Pool.step_moves hs with
  | listAdd hmutex _ _ _ _ hmoves =>
      refine of_mutex hreg ?_
      cases hmoves <;> exact hmutex
  | dev hmove => exact h.devMoves hmove
  | close => exact h.setDev_zero rfl rfl
  | main _ hmain =>
      have hthread := h.setThread (XdmaKthread.main_settled hmain)
      exact ⟨hthread.exited, hthread.stop⟩
  | queue | queueNowait | abort => exact ⟨h.exited, h.stop⟩
  | wake hmove =>
      cases hmove with
      | skip | test | crash => exact ⟨h.exited, h.stop⟩
      | @mark t =>
          have hthread := h.setThread (t := t)
            (show Settled (s.thread t) { s.thread t with schedule := true } from .rfl)
          exact ⟨hthread.exited, hthread.stop⟩
      | @notify t =>
          have hthread := h.setThread (XdmaKthread.wakeUp_settled (s.thread t))
          exact ⟨hthread.exited, hthread.stop⟩

theorem runs {as : List (PoolAct δ ε)} (run : Runs Pool.step Any Pool.start as s) : Joined s := by
  have hboth := run.invariant (P := fun s => Attached s ∧ Joined s)
    (fun h _ hs => ⟨h.1.step hs, h.2.step (h.1.step hs).registered hs⟩)
    ⟨Attached.start, of_mutex Attached.start.registered rfl⟩
  exact hboth.2

end Joined

/-! ## Freeing the array -/

section

variable [DecidableEq δ] [DecidableEq ε]

private theorem Pool.step_threadCnt {a : PoolAct δ ε} (hs : s.step a = some s') :
    s'.threadCnt = s.threadCnt ∨ s.threadCnt = 0 ∨
      ∃ d i, s.dev d = .stopping i ∧ s.threadCnt ≤ i := by
  cases step_moves hs with
  | listAdd _ _ _ _ _ hmoves =>
      cases hmoves with
      | fail | list => exact .inl rfl
      | create _ hnone => exact .inr (.inl hnone)
  | dev hmove =>
      cases hmove with
      | free hpc hle => exact .inr (.inr ⟨_, _, hpc, hle⟩)
      | unlist =>
          simp only [xdevListRemove]
          split <;> exact .inl rfl
      | _ => exact .inl rfl
  | wake hmove => cases hmove <;> exact .inl rfl
  | close | main | queue | queueNowait | abort => exact .inl rfl

omit [DecidableEq δ] [DecidableEq ε] in
theorem Attached.destroying (h : Attached s) {d : δ} (hpc : (s.dev d).destroying = true) :
    s.mutex = some d ∧ s.xdevList = [] ∧ (∀ e, s.cmplthp e = none) ∧
      ∀ t < s.threadCnt, (s.thread t).workList = [] ∧ (s.thread t).workCnt = 0 := by
  have hmutex := (h.registered.mutex d).mp hpc
  have hnil := h.registered.last (by simp [hmutex])
  obtain ⟨hengines, hthp⟩ := h.nothing hnil
  refine ⟨hmutex, hnil, hthp, fun t ht => ?_⟩
  have hempty : (s.thread t).workList = [] := by
    refine List.eq_nil_iff_forall_not_mem.mpr fun e he => ?_
    obtain ⟨d', hclaim⟩ := (h.homed.mem t ht e).mp he
    exact DevicePc.claims_of_engines (hengines d') hclaim
  exact ⟨hempty, by rw [h.homed.count t ht, hempty, List.length_nil]⟩

/-- When `xdma_threads_destroy` frees the array of threads, in whatever run: every thread has
exited, no list has an engine on it, no engine names a thread and no device is on the list. -/
theorem pool_freed_idle {as : List (PoolAct δ ε)} {a : PoolAct δ ε}
    (run : Runs Pool.step Any Pool.start as s) (hs : s.step a = some s')
    (hbefore : s.threadCnt ≠ 0) (hafter : s'.threadCnt = 0) :
    (∀ t < s.threadCnt, (s.thread t).pc = .exited ∧ (s.thread t).workList = []) ∧
    (∀ e, s.cmplthp e = none) ∧ s.xdevList = [] := by
  rcases Pool.step_threadCnt hs with hkept | hnone | ⟨d, i, hpc, hle⟩
  · exact absurd (hkept.symm.trans hafter) hbefore
  · exact absurd hnone hbefore
  · obtain ⟨-, hnil, hthp, hempty⟩ := (Attached.runs run).destroying (d := d) (by rw [hpc]; rfl)
    refine ⟨fun t ht => ⟨?_, (hempty t ht).1⟩, hthp, hnil⟩
    have hjoined : t < (s.dev d).joined := by
      rw [hpc]
      exact Nat.lt_of_lt_of_le ht hle
    exact (Joined.runs run).exited d t hjoined ht

end

def openClose : List (PoolAct Nat Nat) :=
  .listAdd 0 ⟨[0], 2, 1, true, fun _ => false⟩ :: (List.replicate 6 (.dev 0 true) ++
    .close 0 :: List.replicate 5 (.dev 0 true) ++ [.main 0 false, .dev 0 true])

theorem pool_freed_idle_openClose : ∃ s s', Runs Pool.step Any Pool.start openClose s ∧
    s.step (.dev 0 true) = some s' ∧ s.threadCnt = 1 ∧ s'.threadCnt = 0 ∧
    (s.thread 0).pc = .exited ∧ (s.thread 0).workList = [] := by
  have hexec : ((exec Pool.step Pool.start openClose).bind fun s =>
      (s.step (.dev 0 true)).map fun s' => (s.threadCnt, s'.threadCnt)) = some (1, 0) := by
    decide +kernel
  obtain ⟨s, hs, hnext⟩ := Option.bind_eq_some_iff.mp hexec
  obtain ⟨s', hs', hobs⟩ := Option.map_eq_some_iff.mp hnext
  obtain ⟨hcnt, hcnt'⟩ := Prod.mk.inj hobs
  have hidle := pool_freed_idle (runs_of_exec hs) hs' (by simp [hcnt]) hcnt'
  exact ⟨s, s', runs_of_exec hs, hs', hcnt, hcnt', hidle.1 0 (by simp [hcnt])⟩

/-! ## Waiting for a thread -/

namespace XdmaKthread

/-- A thread with nothing on its list gets to the test of `kthread_should_stop` by itself: it is
past the wait, or it finds `schedule` set when it comes to it. -/
def leaves (thp : XdmaKthread ε) : Bool :=
  match thp.pc with
  | .top | .relock | .clear | .work _ | .exited => true
  | .asleep false => false
  | _ => thp.schedule

def distance (thp : XdmaKthread ε) : Nat :=
  match thp.pc with
  | .exited => 0
  | .top => 1
  | .work _ => 2
  | .clear => 3
  | .relock => 4
  | .test _ | .reschedule => 5
  | .asleep _ | .pending _ => 6
  | .lock => 7

structure Workless (thp : XdmaKthread ε) : Prop where
  workCnt : thp.workCnt = 0
  workList : thp.workList = []
  visits : thp.visits = []

variable [DecidableEq ε] {thp thp' : XdmaKthread ε} {pend pend' : ε → Bool} {keep : Bool}

theorem Workless.main (h : thp.Workless) (hs : thp.main pend keep = some (thp', pend')) :
    thp'.Workless where
  workCnt := (main_work hs).1.trans h.workCnt
  workList := (main_work hs).2.trans h.workList
  visits := by
    have hmem := main_visits (by simp [h.visits]) hs
    rw [h.workList] at hmem
    exact List.eq_nil_iff_forall_not_mem.mpr fun e he => absurd (hmem e he) List.not_mem_nil

private theorem Workless.main_leaves (h : thp.Workless) (hstop : thp.stop = true)
    (hleaves : thp.leaves = true)
    (hpc : thp.pc ≠ .exited) : ∃ thp', thp.main pend keep = some (thp', pend) ∧
      thp'.stop = true ∧ thp'.leaves = true ∧ thp'.distance < thp.distance := by
  have hvisits := h.visits
  cases hcase : thp.pc with
  | top => exact ⟨thp.goto .exited, by simp [XdmaKthread.main, hcase, hstop], hstop, rfl,
      by simp [distance, goto, hcase]⟩
  | lock =>
      refine ⟨thp.goto (.pending []), by simp [XdmaKthread.main, hcase, h.workList], hstop, ?_,
        by simp [distance, goto, hcase]⟩
      simpa [leaves, goto, hcase] using hleaves
  | pending rest =>
      obtain rfl : rest = [] := by simpa [XdmaKthread.visits, hcase] using hvisits
      refine ⟨thp.goto .reschedule, by simp [XdmaKthread.main, hcase], hstop, ?_,
        by simp [distance, goto, hcase]⟩
      simpa [leaves, goto, hcase] using hleaves
  | reschedule =>
      have hsched : thp.schedule = true := by simpa [leaves, hcase] using hleaves
      exact ⟨thp.goto .relock, by simp [XdmaKthread.main, hcase, hsched], hstop, rfl,
        by simp [distance, goto, hcase]⟩
  | test woken =>
      have hsched : thp.schedule = true := by simpa [leaves, hcase] using hleaves
      exact ⟨thp.goto .relock, by simp [XdmaKthread.main, hcase, hsched], hstop, rfl,
        by simp [distance, goto, hcase]⟩
  | asleep woken =>
      cases woken with
      | false => simp [leaves, hcase] at hleaves
      | true =>
          refine ⟨thp.goto (.test false), by simp [XdmaKthread.main, hcase], hstop, ?_,
            by simp [distance, goto, hcase]⟩
          simpa [leaves, goto, hcase] using hleaves
  | relock => exact ⟨thp.goto .clear, by simp [XdmaKthread.main, hcase], hstop, rfl,
      by simp [distance, goto, hcase]⟩
  | clear =>
      refine ⟨{ thp with schedule := false, pc := .work [] }, ?_, hstop, rfl,
        by simp [distance, hcase]⟩
      simp [XdmaKthread.main, hcase, h.workCnt]
  | work rest =>
      obtain rfl : rest = [] := by simpa [XdmaKthread.visits, hcase] using hvisits
      exact ⟨thp.goto .top, by simp [XdmaKthread.main, hcase], hstop, rfl,
        by simp [distance, goto, hcase]⟩
  | exited => exact absurd hcase hpc

private theorem Workless.main_stays (h : thp.Workless) (hleaves : thp.leaves = false)
    (hs : thp.main pend keep = some (thp', pend')) : thp'.leaves = false := by
  have hvisits := h.visits
  cases hcase : thp.pc with
  | lock | reschedule =>
      have hsched : thp.schedule = false := by simpa [leaves, hcase] using hleaves
      simp only [XdmaKthread.main, hcase, hsched, Bool.false_eq_true, if_false, Option.some.injEq,
        Prod.mk.injEq] at hs
      obtain ⟨rfl, -⟩ := hs
      exact hsched
  | test woken =>
      have hsched : thp.schedule = false := by simpa [leaves, hcase] using hleaves
      simp only [XdmaKthread.main, hcase, hsched, Bool.false_eq_true, if_false, Option.some.injEq,
        Prod.mk.injEq] at hs
      obtain ⟨rfl, -⟩ := hs
      cases woken with
      | false => rfl
      | true => exact hsched
  | pending rest =>
      obtain rfl : rest = [] := by simpa [XdmaKthread.visits, hcase] using hvisits
      simp only [XdmaKthread.main, hcase, Option.some.injEq, Prod.mk.injEq] at hs
      obtain ⟨rfl, -⟩ := hs
      simpa [leaves, goto, hcase] using hleaves
  | asleep woken =>
      cases woken with
      | false => simp [XdmaKthread.main, hcase] at hs
      | true =>
          simp only [XdmaKthread.main, hcase, Option.some.injEq, Prod.mk.injEq] at hs
          obtain ⟨rfl, -⟩ := hs
          simpa [leaves, goto, hcase] using hleaves
  | top | relock | clear | work | exited => simp [leaves, hcase] at hleaves

end XdmaKthread

section

variable [DecidableEq δ] [DecidableEq ε]

theorem Joined.goes_on {d : δ} {i : Nat} (hpc : s.dev d = .joining i) (hi : i < s.threadCnt)
    (hidle : (s.thread i).Workless) (hstop : (s.thread i).stop = true)
    (hleaves : (s.thread i).leaves = true) :
    ∃ as s', Runs Pool.step Any s as s' ∧ s'.dev d = .stopping (i + 1) := by
  -- the thread is run alone; its distance to the exit shrinks with each step
  induction hn : (s.thread i).distance using Nat.strongRecOn generalizing s with
  | ind n ih =>
      by_cases hexit : (s.thread i).pc = .exited
      · have hstep : s.step (.dev d true) = some (s.setDev d (.stopping (i + 1))) := by
          simp [Pool.step, Pool.devStep, hpc, hexit]
        exact ⟨[.dev d true], _, .next trivial hstep (.refl _), by simp [Pool.setDev]⟩
      · obtain ⟨thp, hmain, hstop', hleaves', hless⟩ :=
          @XdmaKthread.Workless.main_leaves ε _ _ s.pend true hidle hstop hleaves hexit
        have hstep : s.step (.main i true) = some (s.setThread i thp) := by
          rw [Pool.step, if_pos hi, hmain, Option.map_some]
          rfl
        have hthread : (s.setThread i thp).thread i = thp := by simp [Pool.setThread]
        obtain ⟨as, s', hrun, hend⟩ := @ih thp.distance (hn ▸ hless) (s.setThread i thp) hpc hi
          (by rw [hthread]; exact hidle.main hmain) (by rw [hthread]; exact hstop')
          (by rw [hthread]; exact hleaves') (by rw [hthread])
        exact ⟨.main i true :: as, s', .next trivial hstep hrun, hend⟩

structure Parked (s : Pool δ ε) (d : δ) (i : Nat) : Prop where
  dev : s.dev d = .joining i
  others : ∀ d' ≠ d, s.dev d' = .closed
  mutex : s.mutex = some d
  cmplthp : ∀ e, s.cmplthp e = none
  idle : (s.thread i).Workless
  leaves : (s.thread i).leaves = false

theorem Parked.step {d : δ} {i : Nat} (h : Parked s d i) {a : PoolAct δ ε}
    (hs : s.step a = some s') : Parked s' d i := by
  have hdevice : ∀ d', s.dev d' = .joining i ∧ d' = d ∨ s.dev d' = .closed := fun d' => by
    by_cases hd : d' = d
    · exact .inl ⟨hd ▸ h.dev, hd⟩
    · exact .inr (h.others d' hd)
  cases a with
  | listAdd d' env => simp [Pool.step, h.mutex] at hs
  | dev d' opens =>
      rcases hdevice d' with ⟨hpc, -⟩ | hpc
      · have hexit : (s.thread i).pc ≠ .exited := fun hexit => by
          have hstays := h.leaves
          simp [XdmaKthread.leaves, hexit] at hstays
        simp [Pool.step, Pool.devStep, hpc, hexit] at hs
      · simp [Pool.step, Pool.devStep, hpc] at hs
  | close d' =>
      rcases hdevice d' with ⟨hpc, -⟩ | hpc <;> simp [Pool.step, hpc] at hs
  | main t keep =>
      simp only [Pool.step] at hs
      split at hs
      · obtain ⟨⟨thp, pend⟩, hmain, rfl⟩ := Option.map_eq_some_iff.mp hs
        refine ⟨h.dev, h.others, h.mutex, h.cmplthp, ?_, ?_⟩
        · by_cases ht : i = t
          · subst ht
            simpa [Pool.setThread] using h.idle.main hmain
          · simpa [Pool.setThread, ht] using h.idle
        · by_cases ht : i = t
          · subst ht
            simpa [Pool.setThread] using h.idle.main_stays h.leaves hmain
          · simpa [Pool.setThread, ht] using h.leaves
      · cases hs
  | queue d' e | queueNowait d' e =>
      rcases hdevice d' with ⟨hpc, -⟩ | hpc <;> simp [Pool.step, hpc, DevicePc.serving] at hs
  | wake e =>
      cases Pool.wakeStep_moves hs with
      | skip | crash => exact ⟨h.dev, h.others, h.mutex, h.cmplthp, h.idle, h.leaves⟩
      | test _ hthp | mark _ hthp | notify _ hthp =>
          rw [h.cmplthp e] at hthp
          cases hthp
  | abort e =>
      cases hs
      exact ⟨h.dev, h.others, h.mutex, h.cmplthp, h.idle, h.leaves⟩

/-- Whenever `xdma_kthread_stop` waits for a thread, in any run: some continuation lets it go on
exactly when the thread is past its wait or has `schedule` still to find.  Otherwise the thread
has used up the store of `xdma_kthread_stop` before the stop bit was set, and whatever else
happens, the wait does not end. -/
theorem stop_returns_iff {as : List (PoolAct δ ε)} {d : δ} {i : Nat}
    (run : Runs Pool.step Any Pool.start as s) (hpc : s.dev d = .joining i) :
    (∃ as' s', Runs Pool.step Any s as' s' ∧ s'.dev d = .stopping (i + 1)) ↔
      (s.thread i).leaves = true := by
  have h := Attached.runs run
  have hi : i < s.threadCnt := by
    have := h.registered.inBounds d
    rwa [hpc] at this
  obtain ⟨hmutex, hnil, hthp, hempty⟩ := h.destroying (d := d) (by rw [hpc]; rfl)
  have hidle : (s.thread i).Workless := by
    refine ⟨(hempty i hi).2, (hempty i hi).1, List.eq_nil_iff_forall_not_mem.mpr fun e he => ?_⟩
    have := Visiting.runs run i e he
    simp [(hempty i hi).1] at this
  constructor
  · rintro ⟨as', s', hrun, hend⟩
    by_contra hstays
    have hparked : Parked s d i :=
      { dev := hpc
        others := fun d' hd => by
          have hlisted := h.registered.unlisted hnil d'
          have hdestroying := h.registered.mutex d'
          rw [hmutex] at hdestroying
          cases hcase : s.dev d' <;> simp_all [DevicePc.listed, DevicePc.destroying]
        mutex := hmutex
        cmplthp := hthp
        idle := hidle
        leaves := Bool.eq_false_iff.mpr hstays }
    have hdev := (hrun.invariant (P := fun s => Parked s d i) (fun hp _ hs => hp.step hs)
      hparked).dev
    rw [hdev] at hend
    cases hend
  · have hstop := (Joined.runs run).stop d i (by rw [hpc]; rfl)
    exact Joined.goes_on hpc hi hidle hstop

end

/-- The only device is closed while its thread is about to wait: the thread sees the store of
`xdma_kthread_stop`, goes round once and sleeps before the stop bit is set. -/
def unload : List (PoolAct Nat Nat) :=
  .listAdd 0 ⟨[0], 2, 1, true, fun _ => false⟩ :: (List.replicate 6 (.dev 0 true) ++
    List.replicate 4 (.main 0 false) ++ .close 0 :: List.replicate 4 (.dev 0 true) ++
    List.replicate 9 (.main 0 false) ++ [.dev 0 true])

theorem stop_returns_iff_unload : ∃ s, Runs Pool.step Any Pool.start unload s ∧
    s.dev 0 = .joining 0 ∧
    ¬ ∃ as' s', Runs Pool.step Any s as' s' ∧ s'.dev 0 = .stopping 1 := by
  have hexec : (exec Pool.step Pool.start unload).map
      (fun s => (s.dev 0, (s.thread 0).leaves)) = some (.joining 0, false) := by
    decide +kernel
  obtain ⟨s, hs, hobs⟩ := Option.map_eq_some_iff.mp hexec
  obtain ⟨hpc, hleaves⟩ := Prod.mk.inj hobs
  refine ⟨s, runs_of_exec hs, hpc, ?_⟩
  rw [stop_returns_iff (runs_of_exec hs) hpc, hleaves]
  simp

/-! ## Threads on an array that is gone -/

private theorem startThreads_error_iff {numThreads : Nat} {fails : Nat → Bool}
    {cpus first k : Nat} :
    startThreads numThreads fails cpus first = .error k ↔
      first ≤ k ∧ k < first + cpus ∧ (∀ j, first < j → j ≤ k → j ≠ numThreads) ∧
        (∀ j, first ≤ j → j < k → fails j = false) ∧ fails k = true := by
  induction cpus generalizing first with
  | zero =>
      simp only [startThreads, reduceCtorEq, false_iff]
      omega
  | succ cpus ih =>
      simp only [startThreads]
      split
      · next hfails =>
          simp only [Except.error.injEq]
          constructor
          · rintro rfl
            exact ⟨Nat.le_refl _, by omega, by omega, by omega, hfails⟩
          · rintro ⟨hle, -, -, hstarted, -⟩
            by_contra hne
            have := hstarted first (Nat.le_refl first) (by omega)
            simp [hfails] at this
      · next hfails =>
          have hne : fails k = true → k ≠ first := by
            rintro hk rfl
            exact hfails hk
          split
          · next hlast =>
              simp only [reduceCtorEq, false_iff]
              rintro ⟨hle, -, hrange, -, hk⟩
              have := hne hk
              exact hrange (first + 1) (by omega) (by omega) hlast
          · next hmore =>
              rw [ih]
              constructor
              · rintro ⟨hle, hlt, hrange, hstarted, hk⟩
                refine ⟨by omega, by omega, fun j hj hjk => ?_, fun j hj hjk => ?_, hk⟩
                · rcases Nat.lt_or_eq_of_le (Nat.succ_le_of_lt hj) with hlater | rfl
                  · exact hrange j hlater hjk
                  · exact hmore
                · rcases Nat.lt_or_eq_of_le hj with hlater | rfl
                  · exact hstarted j hlater hjk
                  · exact Bool.eq_false_iff.mpr hfails
              · rintro ⟨hle, hlt, hrange, hstarted, hk⟩
                have := hne hk
                exact ⟨by omega, by omega, fun j hj => hrange j (by omega),
                  fun j hj => hstarted j (by omega), hk⟩

def Pool.CreatesAll (s : Pool δ ε) (a : PoolAct δ ε) : Prop :=
  ∀ d env, a = .listAdd d env → s.xdevList = [] → env.arrayOk = true →
    ∀ k, 0 < k → k < env.cpus → (∀ j, 0 < j → j ≤ k → j ≠ env.channelMax) →
      (∀ j < k, env.fails j = false) → env.fails k = false

section

variable [DecidableEq δ] [DecidableEq ε]

private theorem Pool.orphans_step {a : PoolAct δ ε} (hnone : ∀ d env, a ≠ .listAdd d env)
    (hs : s.step a = some s') : s'.orphans = s.orphans := by
  cases step_moves hs with
  | listAdd => exact absurd rfl (hnone _ _)
  | dev hmove =>
      cases hmove with
      | unlist =>
          simp only [xdevListRemove]
          split <;> rfl
      | _ => rfl
  | wake hmove => cases hmove <;> rfl
  | close | main | queue | queueNowait | abort => rfl

private theorem Pool.orphans_listAdd (s : Pool δ ε) (d : δ) (env : OpenEnv ε)
    (hgone : s.xdevList = [] → s.threadCnt = 0) :
    (s.xdevListAdd d env).orphans = s.orphans ↔
      (s.xdevList = [] → env.arrayOk = true →
        ∀ k, 0 < k → startThreads env.channelMax env.fails env.cpus 0 ≠ .error k) := by
  by_cases hnil : s.xdevList = []
  · have hcnt := hgone hnil
    simp only [xdevListAdd, xdmaThreadsCreate, hnil, hcnt, if_true]
    cases hok : env.arrayOk with
    | false => simp
    | true =>
        cases hstart : startThreads env.channelMax env.fails env.cpus 0 with
        | ok n => simp [enlist]
        | error k =>
            simp only [ne_eq, not_true_eq_false, if_false, Bool.not_true, Bool.false_eq_true,
              Nat.add_eq_left, forall_const, Except.error.injEq]
            constructor
            · rintro rfl k hk rfl
              exact absurd hk (Nat.lt_irrefl 0)
            · exact fun h => Nat.eq_zero_of_not_pos fun hk => h k hk rfl
  · simp [xdevListAdd, hnil, enlist]

/-- A run never leaves a thread on an array that `xdma_threads_create` has freed exactly when no
creation of the threads fails after its first thread. -/
theorem no_orphans_iff {as : List (PoolAct δ ε)} (run : Runs Pool.step Any Pool.start as s) :
    Throughout Pool.step (fun s => s.orphans = 0) Pool.start as ↔
      Runs Pool.step Pool.CreatesAll Pool.start as s := by
  refine run.throughout_iff (fun h _ hs => Attached.step h hs) (fun {s a t} h hzero _ hs => ?_)
    Attached.start rfl
  by_cases hadd : ∃ d env, a = .listAdd d env
  · obtain ⟨d, env, rfl⟩ := hadd
    simp only [Pool.step] at hs
    split at hs
    · next hok =>
        cases hs
        rw [← hzero, Pool.orphans_listAdd s d env fun hnil => h.registered.gone hnil hok.1]
        refine ⟨fun hnone d' env' heq hnil harray k hk hlt hrange hstarted => ?_,
          fun hall hnil harray k hk hstart => ?_⟩
        · cases heq
          by_contra hfails
          refine hnone hnil harray k hk (startThreads_error_iff.mpr ?_)
          exact ⟨Nat.zero_le k, by omega, hrange, fun j _ hj => hstarted j hj,
            by simpa using hfails⟩
        · obtain ⟨-, hlt, hrange, hstarted, hfails⟩ := startThreads_error_iff.mp hstart
          have := hall d env rfl hnil harray k hk (by omega) hrange
            fun j hj => hstarted j (Nat.zero_le j) hj
          simp [this] at hfails
    · cases hs
  · have hnone : ∀ d env, a ≠ .listAdd d env := fun d env heq => hadd ⟨d, env, heq⟩
    rw [Pool.orphans_step hnone hs]
    exact iff_of_true hzero fun d env heq => absurd heq (hnone d env)

end

def secondFails : List (PoolAct Nat Nat) :=
  [.listAdd 0 ⟨[0], 2, 2, true, fun k => k == 1⟩]

theorem no_orphans_iff_secondFails : ∃ s, Runs Pool.step Any Pool.start secondFails s ∧
    s.orphans = 1 ∧ ¬ Runs Pool.step Pool.CreatesAll Pool.start secondFails s := by
  have hexec : (exec Pool.step Pool.start secondFails).map Pool.orphans = some 1 := by
    decide +kernel
  obtain ⟨s, hs, horphans⟩ := Option.map_eq_some_iff.mp hexec
  refine ⟨s, runs_of_exec hs, horphans, ?_⟩
  rw [← no_orphans_iff (runs_of_exec hs)]
  intro hnone
  have hzero := hnone.final (runs_of_exec hs)
  rw [horphans] at hzero
  cases hzero

end NupaNet.Thread
