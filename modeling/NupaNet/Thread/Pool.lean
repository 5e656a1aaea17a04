import Mathlib.Logic.Function.Basic
import NupaNet.Foundation.Run

/-!
# The completion threads of poll mode

`xdma_thread.c` with the device list that creates and destroys its threads.  The
parties are the threads of the pool in `xthread_main`, one thread for each device
that is being opened or closed, and the callers that queue transfers.  A step is
one access to shared data, or one section under a lock whose data no other party
touches without that lock.

A device is a `struct xdma_dev` and an engine one `struct xdma_engine` of it, so
an engine of a device that is opened again is a new one.  Of the transfer queue
of an engine only `list_empty` matters here.
-/

namespace NupaNet.Thread

open NupaNet.Foundation

/-! ## One thread -/

/-- Program points of `xthread_main`.  `pending` and `work` carry the engines that their loops
have still to visit; `woken` says whether a wake-up has arrived since `prepare_to_wait`. -/
inductive MainPc (ε : Type) where
  | top
  | lock
  | pending (rest : List ε)
  | reschedule
  | test (woken : Bool)
  | asleep (woken : Bool)
  | relock
  | clear
  | work (rest : List ε)
  | exited
  deriving DecidableEq, Repr

/-- `stop` is the bit that `kthread_stop` sets and `kthread_should_stop` tests. -/
structure XdmaKthread (ε : Type) where
  workCnt : Nat
  workList : List ε
  schedule : Bool
  stop : Bool
  pc : MainPc ε
  deriving DecidableEq, Repr

namespace XdmaKthread

variable {ε : Type}

def started : XdmaKthread ε := ⟨0, [], false, false, .top⟩

def locked (thp : XdmaKthread ε) : Bool :=
  match thp.pc with
  | .pending _ | .clear | .work _ => true
  | _ => false

def wakeUp (thp : XdmaKthread ε) : XdmaKthread ε :=
  match thp.pc with
  | .test _ => { thp with pc := .test true }
  | .asleep _ => { thp with pc := .asleep true }
  | _ => thp

def goto (thp : XdmaKthread ε) (pc : MainPc ε) : XdmaKthread ε := { thp with pc := pc }

/-- One step of `xthread_main` with the engines' `pend` flags: whether an engine has transfers
queued.  `keep` is the environment's: whether the engine that is served still has some
afterwards. -/
def main [DecidableEq ε] (thp : XdmaKthread ε) (pend : ε → Bool) (keep : Bool) :
    Option (XdmaKthread ε × (ε → Bool)) :=
  match thp.pc with
  | .top => some (thp.goto (if thp.stop then .exited else .lock), pend)
  | .lock => some (thp.goto (.pending thp.workList), pend)
  | .pending [] => some (thp.goto .reschedule, pend)
  | .pending (e :: rest) => some (thp.goto (if pend e then .clear else .pending rest), pend)
  | .reschedule => some (thp.goto (if thp.schedule then .relock else .test false), pend)
  | .test woken => some (thp.goto (if thp.schedule then .relock else .asleep woken), pend)
  | .asleep true => some (thp.goto (.test false), pend)
  | .asleep false => none
  | .relock => some (thp.goto .clear, pend)
  | .clear =>
      some ({ thp with
        schedule := false
        pc := .work (if thp.workCnt = 0 then [] else thp.workList) }, pend)
  | .work [] => some (thp.goto .top, pend)
  | .work (e :: rest) =>
      some (thp.goto (.work rest), Function.update pend e (pend e && keep))
  | .exited => none

end XdmaKthread

/-! ## Creating the threads -/

/-- The loop of `xdma_threads_create` over the online processors: the value of `thread_cnt` it
ends with, or how many threads were running when one could not be started. -/
def startThreads (numThreads : Nat) (fails : Nat → Bool) : Nat → Nat → Except Nat Nat
  | 0, threadCnt => .ok threadCnt
  | cpus + 1, threadCnt =>
      if fails threadCnt then .error threadCnt
      else if threadCnt + 1 = numThreads then .ok (threadCnt + 1)
      else startThreads numThreads fails cpus (threadCnt + 1)

/-! ## The callers -/

/-- Where the caller of `xdma_xfer_submit` on an engine is: not between `transfer_queue` and the
end of the wake-up, before the test of `engine->cmplthp`, before the store of `schedule`, before
`wake_up_interruptible`, or past a use of `engine->cmplthp` when it was `NULL`. -/
inductive SubmitPc where
  | idle
  | queued
  | waking
  | notify
  | oops
  deriving DecidableEq, Repr

/-- Where the thread that opens or closes a device is, with the engines it has attached and those
still to come.  The steps of `xdma_thread_add_work` and `xdma_thread_remove_work` are those that
name one engine. -/
inductive DevicePc (ε : Type) where
  | closed
  | probing (found todo : List ε)
  | scanning (found : List ε) (engine : ε) (todo : List ε) (i idx v : Nat)
  | placing (found : List ε) (engine : ε) (todo : List ε) (idx : Nat)
  | publishing (found : List ε) (engine : ε) (todo : List ε) (idx : Nat)
  | opened (engines : List ε)
  | removing (todo : List ε)
  | detaching (engine : ε) (cmplThread : Option Nat) (todo : List ε)
  | stopping (i : Nat)
  | stopBit (i : Nat)
  | joining (i : Nat)
  deriving DecidableEq, Repr

namespace DevicePc

variable {ε : Type}

/-- The engines whose `xdma_thread_add_work` has returned and whose `xdma_thread_remove_work` has
not begun. -/
def attached : DevicePc ε → List ε
  | .probing found _ | .scanning found _ _ _ _ _ | .placing found _ _ _
  | .publishing found _ _ _ => found
  | .opened engines => engines
  | .removing todo | .detaching _ _ todo => todo
  | .closed | .stopping _ | .stopBit _ | .joining _ => []

/-- The engine that is on a work list while `engine->cmplthp` does not name the thread: the one
that is being added or removed. -/
def loose : DevicePc ε → Option (ε × Nat)
  | .publishing _ e _ idx => some (e, idx)
  | .detaching e (some t) _ => some (e, t)
  | _ => none

def coming : DevicePc ε → List ε
  | .probing _ todo => todo
  | .scanning _ e todo _ _ _ | .placing _ e todo _ => e :: todo
  | .publishing _ _ todo _ => todo
  | _ => []

def engines (pc : DevicePc ε) : List ε :=
  pc.attached ++ (pc.loose.map Prod.fst).toList ++ pc.coming

/-- The engines a caller with the handle of the device can queue transfers on: the device is not
offline and the engine has not been cleared. -/
def serving : DevicePc ε → List ε
  | .opened engines => engines
  | .removing todo => todo
  | .detaching e _ todo => e :: todo
  | _ => []

end DevicePc

/-! ## The system -/

/-- `thread` is the array `cs_threads`, of which the first `threadCnt` elements exist.  `mutex`
names the device whose thread holds `xdev_mutex` while it destroys the threads.

Ghost fields: `used`, the engines that have been allocated so far; `silent`, the engines with a
transfer that `xdma_xfer_submit_nowait` has queued since the last store of `schedule` for them;
`orphans`, the threads that run on an array that `xdma_threads_create` has freed. -/
structure Pool (δ ε : Type) where
  xdevList : List (δ × BitVec 32)
  mutex : Option δ
  dev : δ → DevicePc ε
  used : ε → Bool
  cmplthp : ε → Option Nat
  threadCnt : Nat
  thread : Nat → XdmaKthread ε
  pend : ε → Bool
  submit : ε → SubmitPc
  silent : ε → Bool
  orphans : Nat

/-- What `xdma_device_open` finds: the engines that get as far as `xdma_thread_add_work`, the
limits on the channels, the online processors, and which allocation or thread cannot be had. -/
structure OpenEnv (ε : Type) where
  engines : List ε
  channelMax : Nat
  cpus : Nat
  arrayOk : Bool
  fails : Nat → Bool

inductive PoolAct (δ ε : Type) where
  | listAdd (d : δ) (env : OpenEnv ε)
  | dev (d : δ) (opens : Bool)
  | close (d : δ)
  | main (t : Nat) (keep : Bool)
  | queue (d : δ) (e : ε)
  | queueNowait (d : δ) (e : ε)
  | wake (e : ε)
  | abort (e : ε)

namespace Pool

variable {δ ε : Type} [DecidableEq δ] [DecidableEq ε]

def start : Pool δ ε where
  xdevList := []
  mutex := none
  dev := fun _ => .closed
  used := fun _ => false
  cmplthp := fun _ => none
  threadCnt := 0
  thread := fun _ => .started
  pend := fun _ => false
  submit := fun _ => .idle
  silent := fun _ => false
  orphans := 0

def setDev (s : Pool δ ε) (d : δ) (pc : DevicePc ε) : Pool δ ε :=
  { s with dev := Function.update s.dev d pc }

def setThread (s : Pool δ ε) (t : Nat) (thp : XdmaKthread ε) : Pool δ ε :=
  { s with thread := Function.update s.thread t thp }

def setCmplthp (s : Pool δ ε) (e : ε) (thp : Option Nat) : Pool δ ε :=
  { s with cmplthp := Function.update s.cmplthp e thp }

def setSubmit (s : Pool δ ε) (e : ε) (pc : SubmitPc) : Pool δ ε :=
  { s with submit := Function.update s.submit e pc }

def enlist (s : Pool δ ε) (d : δ) (env : OpenEnv ε) : Pool δ ε :=
  { s with
    xdevList := s.xdevList ++ [(d, (s.xdevList.getLast?.map fun last => last.2 + 1).getD 0)]
    dev := Function.update s.dev d (.probing [] env.engines)
    used := fun e => s.used e || decide (e ∈ env.engines) }

def xdmaThreadsCreate (s : Pool δ ε) (env : OpenEnv ε) : Pool δ ε × Bool :=
  if s.threadCnt ≠ 0 then (s, true)
  else if !env.arrayOk then (s, false)
  else match startThreads env.channelMax env.fails env.cpus 0 with
    | .error running => ({ s with orphans := s.orphans + running }, false)
    | .ok threadCnt => ({ s with threadCnt := threadCnt, thread := fun _ => .started }, true)

def xdevListAdd (s : Pool δ ε) (d : δ) (env : OpenEnv ε) : Pool δ ε :=
  if s.xdevList = [] then
    let created := s.xdmaThreadsCreate env
    if created.2 then created.1.enlist d env else created.1
  else s.enlist d env

def xdevListRemove (s : Pool δ ε) (d : δ) : Pool δ ε :=
  let rest := s.xdevList.filter fun entry => entry.1 ≠ d
  if rest = [] then
    { s with xdevList := rest, mutex := some d, dev := Function.update s.dev d (.stopping 0) }
  else { s with xdevList := rest, dev := Function.update s.dev d .closed }

/-- What an iteration of the scan of `xdma_thread_add_work` makes of the `work_cnt` it reads:
the thread to take, or the values of `idx` and `v` to go on with. -/
def scanOne (threadCnt i idx v workCnt : Nat) : Nat ⊕ Nat × Nat :=
  if idx = threadCnt then .inr (i, workCnt)
  else if workCnt = 0 then .inl i
  else if workCnt < v then .inr (i, v)
  else .inr (idx, v)

def listAddTail (thp : XdmaKthread ε) (e : ε) : XdmaKthread ε :=
  { thp with workList := thp.workList ++ [e], workCnt := thp.workCnt + 1 }

def listDel (thp : XdmaKthread ε) (e : ε) : XdmaKthread ε :=
  { thp with workList := thp.workList.erase e, workCnt := thp.workCnt - 1 }

def devStep (s : Pool δ ε) (d : δ) (opens : Bool) : Option (Pool δ ε) :=
  match s.dev d with
  | .closed | .opened _ => none
  | .probing found [] => some (s.setDev d (if opens then .opened found else .removing found))
  | .probing found (e :: todo) => some (s.setDev d (.scanning found e todo 0 s.threadCnt 0))
  | .scanning found e todo i idx v =>
      if i < s.threadCnt then
        if (s.thread i).locked then none
        else match scanOne s.threadCnt i idx v (s.thread i).workCnt with
          | .inl i => some (s.setDev d (.placing found e todo i))
          | .inr (idx, v) => some (s.setDev d (.scanning found e todo (i + 1) idx v))
      else some (s.setDev d (.placing found e todo idx))
  | .placing found e todo idx =>
      if (s.thread idx).locked then none
      else some ((s.setThread idx (listAddTail (s.thread idx) e)).setDev d
        (.publishing found e todo idx))
  | .publishing found e todo idx =>
      some ((s.setCmplthp e (some idx)).setDev d (.probing (found ++ [e]) todo))
  | .removing [] => if s.mutex = none then some (s.xdevListRemove d) else none
  | .removing (e :: todo) =>
      some ((s.setCmplthp e none).setDev d (.detaching e (s.cmplthp e) todo))
  | .detaching _ none todo => some (s.setDev d (.removing todo))
  | .detaching e (some t) todo =>
      if (s.thread t).locked then none
      else some ((s.setThread t (listDel (s.thread t) e)).setDev d (.removing todo))
  | .stopping i =>
      if i < s.threadCnt then
        some ((s.setThread i { s.thread i with schedule := true }).setDev d (.stopBit i))
      else some { s.setDev d .closed with threadCnt := 0, mutex := none }
  | .stopBit i =>
      some ((s.setThread i { (s.thread i).wakeUp with stop := true }).setDev d (.joining i))
  | .joining i =>
      if (s.thread i).pc = .exited then some (s.setDev d (.stopping (i + 1))) else none

/-- The next step of a caller of `xdma_xfer_submit` that has queued its transfer.  The macro
`xdma_kthread_wakeup` loads `engine->cmplthp` for each of its two statements. -/
def wakeStep (s : Pool δ ε) (e : ε) : Option (Pool δ ε) :=
  match s.submit e with
  | .idle | .oops => none
  | .queued => some (s.setSubmit e (if s.cmplthp e = none then .idle else .waking))
  | .waking =>
      match s.cmplthp e with
      | none => some (s.setSubmit e .oops)
      | some t =>
          some { (s.setThread t { s.thread t with schedule := true }).setSubmit e .notify with
            silent := Function.update s.silent e false }
  | .notify =>
      match s.cmplthp e with
      | none => some (s.setSubmit e .oops)
      | some t => some ((s.setThread t (s.thread t).wakeUp).setSubmit e .idle)

def step (s : Pool δ ε) : PoolAct δ ε → Option (Pool δ ε)
  | .listAdd d env =>
      if s.mutex = none ∧ s.dev d = .closed ∧ env.engines.Nodup ∧
          (∀ e ∈ env.engines, s.used e = false) ∧ 0 < env.cpus then
        some (s.xdevListAdd d env)
      else none
  | .dev d opens => s.devStep d opens
  | .close d =>
      match s.dev d with
      | .opened engines => some (s.setDev d (.removing engines))
      | _ => none
  | .main t keep =>
      if t < s.threadCnt then
        ((s.thread t).main s.pend keep).map fun out =>
          { s.setThread t out.1 with pend := out.2 }
      else none
  | .queue d e =>
      if e ∈ (s.dev d).serving ∧ s.submit e = .idle then
        some { s.setSubmit e .queued with pend := Function.update s.pend e true }
      else none
  | .queueNowait d e =>
      if e ∈ (s.dev d).serving then
        some { s with
          pend := Function.update s.pend e true
          silent := Function.update s.silent e true }
      else none
  | .wake e => s.wakeStep e
  | .abort e => some { s with pend := Function.update s.pend e false }

/-! ## What a step can do -/

inductive DevMoves (s : Pool δ ε) (d : δ) (opens : Bool) : Pool δ ε → Prop where
  | probed {found : List ε} : s.dev d = .probing found [] →
      DevMoves s d opens (s.setDev d (if opens then .opened found else .removing found))
  | probe {found todo : List ε} {e : ε} : s.dev d = .probing found (e :: todo) →
      DevMoves s d opens (s.setDev d (.scanning found e todo 0 s.threadCnt 0))
  | scan {found todo : List ε} {e : ε} {i idx v idx' v' : Nat} :
      s.dev d = .scanning found e todo i idx v → i < s.threadCnt →
      scanOne s.threadCnt i idx v (s.thread i).workCnt = .inr (idx', v') →
      DevMoves s d opens (s.setDev d (.scanning found e todo (i + 1) idx' v'))
  | take {found todo : List ε} {e : ε} {i idx v idx' : Nat} :
      s.dev d = .scanning found e todo i idx v → i < s.threadCnt →
      scanOne s.threadCnt i idx v (s.thread i).workCnt = .inl idx' →
      DevMoves s d opens (s.setDev d (.placing found e todo idx'))
  | scanned {found todo : List ε} {e : ε} {i idx v : Nat} :
      s.dev d = .scanning found e todo i idx v → s.threadCnt ≤ i →
      DevMoves s d opens (s.setDev d (.placing found e todo idx))
  | place {found todo : List ε} {e : ε} {idx : Nat} : s.dev d = .placing found e todo idx →
      (s.thread idx).locked = false →
      DevMoves s d opens ((s.setThread idx (listAddTail (s.thread idx) e)).setDev d
        (.publishing found e todo idx))
  | publish {found todo : List ε} {e : ε} {idx : Nat} : s.dev d = .publishing found e todo idx →
      DevMoves s d opens
        ((s.setCmplthp e (some idx)).setDev d (.probing (found ++ [e]) todo))
  | unlist : s.dev d = .removing [] → s.mutex = none → DevMoves s d opens (s.xdevListRemove d)
  | unpublish {todo : List ε} {e : ε} : s.dev d = .removing (e :: todo) →
      DevMoves s d opens ((s.setCmplthp e none).setDev d (.detaching e (s.cmplthp e) todo))
  | forget {todo : List ε} {e : ε} : s.dev d = .detaching e none todo →
      DevMoves s d opens (s.setDev d (.removing todo))
  | detach {todo : List ε} {e : ε} {t : Nat} : s.dev d = .detaching e (some t) todo →
      (s.thread t).locked = false →
      DevMoves s d opens ((s.setThread t (listDel (s.thread t) e)).setDev d (.removing todo))
  | stopMark {i : Nat} : s.dev d = .stopping i → i < s.threadCnt →
      DevMoves s d opens
        ((s.setThread i { s.thread i with schedule := true }).setDev d (.stopBit i))
  | free {i : Nat} : s.dev d = .stopping i → s.threadCnt ≤ i →
      DevMoves s d opens { s.setDev d .closed with threadCnt := 0, mutex := none }
  | stop {i : Nat} : s.dev d = .stopBit i →
      DevMoves s d opens
        ((s.setThread i { (s.thread i).wakeUp with stop := true }).setDev d (.joining i))
  | join {i : Nat} : s.dev d = .joining i → (s.thread i).pc = .exited →
      DevMoves s d opens (s.setDev d (.stopping (i + 1)))

private theorem devStep_moves {s s' : Pool δ ε} {d : δ} {opens : Bool}
    (h : s.devStep d opens = some s') : DevMoves s d opens s' := by
  cases hpc : s.dev d with
  | closed | opened =>
      simp only [devStep, hpc] at h
      cases h
  | probing found todo =>
      cases todo <;> simp only [devStep, hpc] at h <;> cases h
      · exact .probed hpc
      · exact .probe hpc
  | scanning found e todo i idx v =>
      simp only [devStep, hpc] at h
      split at h
      · next hi =>
          split at h
          · cases h
          · split at h
            · next htake =>
                cases h
                exact .take hpc hi htake
            · next hscan =>
                cases h
                exact .scan hpc hi hscan
      · next hi =>
          cases h
          exact .scanned hpc (Nat.le_of_not_lt hi)
  | placing found e todo idx =>
      simp only [devStep, hpc] at h
      split at h
      · cases h
      · next hfree =>
          cases h
          exact .place hpc (Bool.eq_false_iff.mpr hfree)
  | publishing found e todo idx =>
      simp only [devStep, hpc] at h
      cases h
      exact .publish hpc
  | removing todo =>
      cases todo with
      | nil =>
          simp only [devStep, hpc] at h
          split at h
          · next hmutex =>
              cases h
              exact .unlist hpc hmutex
          · cases h
      | cons e todo =>
          simp only [devStep, hpc] at h
          cases h
          exact .unpublish hpc
  | detaching e thp todo =>
      cases thp with
      | none =>
          simp only [devStep, hpc] at h
          cases h
          exact .forget hpc
      | some t =>
          simp only [devStep, hpc] at h
          split at h
          · cases h
          · next hfree =>
              cases h
              exact .detach hpc (Bool.eq_false_iff.mpr hfree)
  | stopping i =>
      simp only [devStep, hpc] at h
      split at h
      · next hi =>
          cases h
          exact .stopMark hpc hi
      · next hi =>
          cases h
          exact .free hpc (Nat.le_of_not_lt hi)
  | stopBit i =>
      simp only [devStep, hpc] at h
      cases h
      exact .stop hpc
  | joining i =>
      simp only [devStep, hpc] at h
      split at h
      · next hexited =>
          cases h
          exact .join hpc hexited
      · cases h

inductive ListAddMoves (s : Pool δ ε) (d : δ) (env : OpenEnv ε) : Pool δ ε → Prop where
  | fail {running : Nat} : s.xdevList = [] → s.threadCnt = 0 →
      (0 < running → startThreads env.channelMax env.fails env.cpus 0 = .error running) →
      ListAddMoves s d env { s with orphans := s.orphans + running }
  | create {n : Nat} : s.xdevList = [] → s.threadCnt = 0 →
      startThreads env.channelMax env.fails env.cpus 0 = .ok n →
      ListAddMoves s d env
        (enlist { s with threadCnt := n, thread := fun _ => .started } d env)
  | list : s.xdevList ≠ [] ∨ s.threadCnt ≠ 0 → ListAddMoves s d env (s.enlist d env)

private theorem xdevListAdd_moves (s : Pool δ ε) (d : δ) (env : OpenEnv ε) :
    ListAddMoves s d env (s.xdevListAdd d env) := by
  by_cases hnil : s.xdevList = []
  · by_cases hcnt : s.threadCnt = 0
    · cases hok : env.arrayOk with
      | false =>
          have hcreate : s.xdmaThreadsCreate env = (s, false) := by
            simp [xdmaThreadsCreate, hcnt, hok]
          rw [xdevListAdd, if_pos hnil]
          simp only [hcreate, Bool.false_eq_true, if_false]
          exact @ListAddMoves.fail δ ε _ _ s d env 0 hnil hcnt fun h => absurd h (Nat.lt_irrefl 0)
      | true =>
          cases hstart : startThreads env.channelMax env.fails env.cpus 0 with
          | error running =>
              have hcreate : s.xdmaThreadsCreate env =
                  ({ s with orphans := s.orphans + running }, false) := by
                simp [xdmaThreadsCreate, hcnt, hok, hstart]
              rw [xdevListAdd, if_pos hnil]
              simp only [hcreate, Bool.false_eq_true, if_false]
              exact .fail hnil hcnt fun _ => hstart
          | ok n =>
              have hcreate : s.xdmaThreadsCreate env =
                  ({ s with threadCnt := n, thread := fun _ => .started }, true) := by
                simp [xdmaThreadsCreate, hcnt, hok, hstart]
              rw [xdevListAdd, if_pos hnil]
              simp only [hcreate, if_true]
              exact .create hnil hcnt hstart
    · have hcreate : s.xdmaThreadsCreate env = (s, true) := by
        simp [xdmaThreadsCreate, hcnt]
      rw [xdevListAdd, if_pos hnil]
      simp only [hcreate, if_true]
      exact .list (.inr hcnt)
  · rw [xdevListAdd, if_neg hnil]
    exact .list (.inl hnil)

inductive WakeMoves (s : Pool δ ε) (e : ε) : Pool δ ε → Prop where
  | skip : s.submit e = .queued → s.cmplthp e = none → WakeMoves s e (s.setSubmit e .idle)
  | test {t : Nat} : s.submit e = .queued → s.cmplthp e = some t →
      WakeMoves s e (s.setSubmit e .waking)
  | crash : s.submit e = .waking ∨ s.submit e = .notify → s.cmplthp e = none →
      WakeMoves s e (s.setSubmit e .oops)
  | mark {t : Nat} : s.submit e = .waking → s.cmplthp e = some t →
      WakeMoves s e
        { (s.setThread t { s.thread t with schedule := true }).setSubmit e .notify with
          silent := Function.update s.silent e false }
  | notify {t : Nat} : s.submit e = .notify → s.cmplthp e = some t →
      WakeMoves s e ((s.setThread t (s.thread t).wakeUp).setSubmit e .idle)

omit [DecidableEq δ] in
theorem wakeStep_moves {s s' : Pool δ ε} {e : ε} (h : s.wakeStep e = some s') :
    WakeMoves s e s' := by
  cases hsub : s.submit e with
  | idle | oops =>
      simp only [wakeStep, hsub] at h
      cases h
  | queued =>
      simp only [wakeStep, hsub] at h
      cases hthp : s.cmplthp e with
      | none =>
          rw [hthp, if_pos rfl] at h
          cases h
          exact .skip hsub hthp
      | some t =>
          rw [hthp, if_neg (by simp)] at h
          cases h
          exact .test hsub hthp
  | waking =>
      simp only [wakeStep, hsub] at h
      cases hthp : s.cmplthp e with
      | none =>
          simp only [hthp] at h
          cases h
          exact .crash (.inl hsub) hthp
      | some t =>
          simp only [hthp] at h
          cases h
          exact .mark hsub hthp
  | notify =>
      simp only [wakeStep, hsub] at h
      cases hthp : s.cmplthp e with
      | none =>
          simp only [hthp] at h
          cases h
          exact .crash (.inr hsub) hthp
      | some t =>
          simp only [hthp] at h
          cases h
          exact .notify hsub hthp

inductive Moves (s : Pool δ ε) : PoolAct δ ε → Pool δ ε → Prop where
  | listAdd {d : δ} {env : OpenEnv ε} {s' : Pool δ ε} : s.mutex = none → s.dev d = .closed →
      env.engines.Nodup → (∀ e ∈ env.engines, s.used e = false) → 0 < env.cpus →
      ListAddMoves s d env s' → Moves s (.listAdd d env) s'
  | dev {d : δ} {opens : Bool} {s' : Pool δ ε} : DevMoves s d opens s' →
      Moves s (.dev d opens) s'
  | close {d : δ} {engines : List ε} : s.dev d = .opened engines →
      Moves s (.close d) (s.setDev d (.removing engines))
  | main {t : Nat} {keep : Bool} {thp : XdmaKthread ε} {pend : ε → Bool} : t < s.threadCnt →
      (s.thread t).main s.pend keep = some (thp, pend) →
      Moves s (.main t keep) { s.setThread t thp with pend := pend }
  | queue {d : δ} {e : ε} : e ∈ (s.dev d).serving → s.submit e = .idle →
      Moves s (.queue d e)
        { s.setSubmit e .queued with pend := Function.update s.pend e true }
  | queueNowait {d : δ} {e : ε} : e ∈ (s.dev d).serving →
      Moves s (.queueNowait d e)
        { s with
          pend := Function.update s.pend e true
          silent := Function.update s.silent e true }
  | wake {e : ε} {s' : Pool δ ε} : WakeMoves s e s' → Moves s (.wake e) s'
  | abort {e : ε} : Moves s (.abort e) { s with pend := Function.update s.pend e false }

theorem step_moves {s s' : Pool δ ε} {a : PoolAct δ ε} (h : s.step a = some s') :
    Moves s a s' := by
  cases a with
  | listAdd d env =>
      simp only [step] at h
      split at h
      · next hok =>
          obtain ⟨hmutex, hclosed, hnodup, hfresh, hcpus⟩ := hok
          refine .listAdd hmutex hclosed hnodup hfresh hcpus ?_
          rw [← Option.some.inj h]
          exact xdevListAdd_moves s d env
      · cases h
  | dev d opens => exact .dev (devStep_moves h)
  | close d =>
      simp only [step] at h
      split at h
      · next hpc =>
          cases h
          exact .close hpc
      · cases h
  | main t keep =>
      simp only [step] at h
      split at h
      · next ht =>
          obtain ⟨⟨thp, pend⟩, hmain, rfl⟩ := Option.map_eq_some_iff.mp h
          exact .main ht hmain
      · cases h
  | queue d e =>
      simp only [step] at h
      split at h
      · next hok =>
          cases h
          exact .queue hok.1 hok.2
      · cases h
  | queueNowait d e =>
      simp only [step] at h
      split at h
      · next hok =>
          cases h
          exact .queueNowait hok
      · cases h
  | wake e => exact .wake (wakeStep_moves h)
  | abort e =>
      cases h
      exact .abort

end Pool

end NupaNet.Thread
