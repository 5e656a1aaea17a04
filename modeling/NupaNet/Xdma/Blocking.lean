import NupaNet.Xdma.Channel

/-!
# Waiting for a transfer

After `transfer_queue` the caller should wait until the transfer is decided.
What it waits for is that the state is no longer `TRANSFER_STATE_NEW`, which
`transfer_queue` has already seen to, so it may inspect the transfer at any
moment.  An inspection that comes too early takes the branch meant for a
timeout, and there the transfer is taken off the queue only if the engine's
identifier reads right.
-/

namespace NupaNet.Xdma

open NupaNet.Foundation

/-! ## Linked records -/

def Channel.holder (s : Channel) : Option Nat :=
  if s.phase = .free then none else some s.request

def NoDangling (s : Channel) : Prop :=
  ∀ r ∈ s.engine.transferList, s.holder = some r

/-- An inspection that finds the transfer neither completed nor failed reads a valid
identifier. -/
def identifierReads (s : Channel) : Act → Bool
  | .inspect reads =>
      s.xfer.state = .completed ∨ s.xfer.state = .failed ∨ engineRegDump reads.identifier
  | _ => true

private theorem ChannelInv.noDangling {s : Channel} (inv : ChannelInv s) : NoDangling s := by
  intro r hr
  by_cases hqueued : s.phase = .queued
  · rcases inv.queued hqueued with hpending | hdecided
    · rw [hpending.list, List.mem_singleton] at hr
      simp [Channel.holder, hqueued, hr]
    · simp [hdecided.list] at hr
  · simp [(inv.quiet hqueued).1] at hr

private theorem channelInv_of_identifierReads {pollMode : Bool} {engine : XdmaEngine}
    (idle : IdleEngine engine) {as : List Act} {s : Channel}
    (run : Runs (Channel.step pollMode) (fun s a => identifierReads s a = true)
      (Channel.start engine) as s) : ChannelInv s := by
  refine run.invariant (P := ChannelInv) ?_ (.start idle)
  intro s a t inv ok hstep
  refine inv.moves ?_ (Channel.moves_of_step hstep)
  rintro reads rfl
  simpa [identifierReads] using ok

/-- In every run whose early inspections read a valid identifier, no freed record is on the
queue, and the queue is empty whenever `desc_lock` is free. -/
theorem no_dangling_transfer (pollMode : Bool) (engine : XdmaEngine) (idle : IdleEngine engine)
    (as : List Act) (s : Channel)
    (run : Runs (Channel.step pollMode) (fun s a => identifierReads s a = true)
      (Channel.start engine) as s) :
    NoDangling s ∧ (s.phase = .free → s.engine.transferList = []) := by
  have inv := channelInv_of_identifierReads idle run
  exact ⟨inv.noDangling, fun hfree => (inv.quiet (by simp [hfree])).1⟩

theorem idleEngine_idle (dir : Direction) (descIdx : Nat) :
    IdleEngine (idleEngine dir descIdx) :=
  ⟨rfl, rfl, rfl, by simp [idleEngine]⟩

def busyReads : Reads where
  identifier := 0x1fc00006
  status := 1
  statusRc := 1
  completedDescCount := 0
  eopSeen := false
  written := 0

def oneSegment : List Extent := [⟨0x7000, 0x40⟩]

def submitted : List Act :=
  [.enter 0xfffffff 0x2000 oneSegment, .build, .check, .queue 1]

theorem no_dangling_after_abort :
    ∃ s, Runs (Channel.step false) (fun s a => identifierReads s a = true)
        (Channel.start (idleEngine .toDevice 0))
        (submitted ++ [.inspect busyReads, .release] ++ submitted ++
          [.service 0 { busyReads with statusRc := 6, completedDescCount := 1 },
            .inspect busyReads, .release, .finish]) s ∧
      s.phase = .free ∧ s.request = 2 ∧ NoDangling s ∧
      (s.phase = .free → s.engine.transferList = []) := by
  have h : (exec (guarded (Channel.step false) identifierReads)
      (Channel.start (idleEngine .toDevice 0))
      (submitted ++ [.inspect busyReads, .release] ++ submitted ++
        [.service 0 { busyReads with statusRc := 6, completedDescCount := 1 },
          .inspect busyReads, .release, .finish])).map
        (fun s => (s.phase, s.request)) = some (.free, 2) := by
    decide +kernel
  obtain ⟨s, hexec, hobs⟩ := Option.map_eq_some_iff.mp h
  have hrun := runs_of_guarded hexec
  obtain ⟨hphase, hrequest⟩ := Prod.mk.inj hobs
  exact ⟨s, hrun, hphase, hrequest,
    no_dangling_transfer false _ (idleEngine_idle .toDevice 0) _ s hrun⟩

/-- The device has vanished and reads all ones: the call gives up on its transfer, returns,
and leaves the record of the request it freed on the queue. -/
theorem vanished_device_leaves_dangling :
    ∃ s, Runs (Channel.step false) Any (Channel.start (idleEngine .toDevice 0))
        (submitted ++ [.inspect { busyReads with identifier := 0xffffffff }, .release]) s ∧
      s.phase = .free ∧ s.engine.transferList = [0] ∧ ¬ NoDangling s := by
  have h : (exec (Channel.step false) (Channel.start (idleEngine .toDevice 0))
      (submitted ++ [.inspect { busyReads with identifier := 0xffffffff }, .release])).map
        (fun s => (s.phase, s.engine.transferList)) = some (.free, [0]) := by
    decide +kernel
  obtain ⟨s, hexec, hobs⟩ := Option.map_eq_some_iff.mp h
  obtain ⟨hphase, hlist⟩ := Prod.mk.inj hobs
  refine ⟨s, runs_of_exec hexec, hphase, hlist, ?_⟩
  intro hnone
  have hholder := hnone 0 (by simp [hlist])
  simp [Channel.holder, hphase] at hholder

/-! ## Blocking until the transfer is decided -/

/-- The caller comes to inspect its transfer only after a service has met the running engine
with a descriptor count. -/
def servedFirst (s : Channel) : Act → Bool
  | .inspect _ => s.served
  | _ => true

structure Blocking (s : Channel) : Prop where
  inv : ChannelInv s
  patient : s.phase ≠ .settled .timedOut

private theorem ChannelInv.decided_iff {s : Channel} (inv : ChannelInv s)
    (queued : s.phase = .queued) :
    (s.xfer.state = .completed ∨ s.xfer.state = .failed) ↔ s.served = true := by
  rcases inv.queued queued with hpending | hdecided
  · simp [hpending.state, hpending.unserved]
  · simp [hdecided.state, hdecided.served]

private theorem afterInspect_decided {pollMode : Bool} {s : Channel} (reads : Reads)
    (decided : s.xfer.state = .completed ∨ s.xfer.state = .failed) :
    (s.afterInspect pollMode reads).phase ≠ .settled .timedOut := by
  rcases decided with hstate | hstate
  · simp [Channel.afterInspect, inspectTransfer_completed pollMode reads hstate,
      Channel.outcomeOf]
  · simp [Channel.afterInspect, inspectTransfer_failed pollMode reads hstate, Channel.outcomeOf]

private theorem afterQueue_phase (pollMode : Bool) (s : Channel) (status : U32)
    (outcome : Outcome) :
    (s.afterQueue pollMode status).phase ≠ .settled outcome := by
  unfold Channel.afterQueue
  simp only
  split <;> nofun

theorem Blocking.moves {pollMode : Bool} {s t : Channel} {a : Act} (blocking : Blocking s)
    (ok : servedFirst s a = true) (move : Channel.Moves pollMode s a t) : Blocking t := by
  have hdecided : ∀ reads, a = .inspect reads → s.phase = .queued →
      s.xfer.state = .completed ∨ s.xfer.state = .failed := by
    rintro reads rfl hqueued
    exact (blocking.inv.decided_iff hqueued).mpr ok
  constructor
  · refine blocking.inv.moves ?_ move
    rintro reads rfl
    cases move with
    | inspect queued => exact (hdecided reads rfl queued).imp_right .inl
  · cases move with
    | enter => nofun
    | build => nofun
    | finish => nofun
    | refuse => nofun
    | check => nofun
    | queue => exact afterQueue_phase _ _ _ _
    | inspect queued => exact afterInspect_decided _ (hdecided _ rfl queued)
    | @release outcome => rcases s.afterRelease_phase outcome with h | h <;> simp [h]
    | service => exact blocking.patient
    | offlineFlag => exact blocking.patient
    | offlineEngine => exact blocking.patient
    | onlineEngine => exact blocking.patient
    | onlineFlag => exact blocking.patient

/-- In every run whose inspections come after a service that counted, no call takes the branch
for a timeout; and a call that waits has its transfer decided exactly when such a service has
run. -/
theorem blocks_until_decided (pollMode : Bool) (engine : XdmaEngine) (idle : IdleEngine engine)
    (as : List Act) (s : Channel)
    (run : Runs (Channel.step pollMode) (fun s a => servedFirst s a = true)
      (Channel.start engine) as s) :
    s.phase ≠ .settled .timedOut ∧
      (s.phase = .queued →
        ((s.xfer.state = .completed ∨ s.xfer.state = .failed) ↔ s.served = true)) := by
  have hblocking : Blocking s := by
    refine run.invariant (P := Blocking) ?_ ⟨.start idle, nofun⟩
    intro s a t blocking ok hstep
    exact blocking.moves ok (Channel.moves_of_step hstep)
  exact ⟨hblocking.patient, hblocking.inv.decided_iff⟩

theorem blocks_when_served :
    ∃ s, Runs (Channel.step false) (fun s a => servedFirst s a = true)
        (Channel.start (idleEngine .toDevice 0))
        (submitted ++ [.service 0 busyReads,
          .service 0 { busyReads with statusRc := 6, completedDescCount := 1 }]) s ∧
      s.phase = .queued ∧ s.served = true ∧ s.phase ≠ .settled .timedOut ∧
      ((s.xfer.state = .completed ∨ s.xfer.state = .failed) ↔ s.served = true) := by
  have h : (exec (guarded (Channel.step false) servedFirst)
      (Channel.start (idleEngine .toDevice 0))
      (submitted ++ [.service 0 busyReads,
        .service 0 { busyReads with statusRc := 6, completedDescCount := 1 }])).map
        (fun s => (s.phase, s.served)) = some (.queued, true) := by
    decide +kernel
  obtain ⟨s, hexec, hobs⟩ := Option.map_eq_some_iff.mp h
  have hrun := runs_of_guarded hexec
  obtain ⟨hphase, hserved⟩ := Prod.mk.inj hobs
  obtain ⟨hpatient, hiff⟩ :=
    blocks_until_decided false _ (idleEngine_idle .toDevice 0) _ s hrun
  exact ⟨s, hrun, hphase, hserved, hpatient, hiff hphase⟩

/-- The engine is busy with the transfer and reports no error; the call inspects at once, finds
the transfer submitted, and aborts it. -/
theorem inspects_submitted_transfer :
    ∃ s t, Runs (Channel.step false) Any (Channel.start (idleEngine .toDevice 0)) submitted s ∧
      s.phase = .queued ∧ s.xfer.state = .submitted ∧
      busyReads.status &&& xdmaStatErrMask s.engine.dir = 0 ∧
      s.step false (.inspect busyReads) = some t ∧
      t.phase = .settled .timedOut ∧ t.xfer.state = .aborted ∧ t.engine.running = false := by
  have hwait : (exec (Channel.step false) (Channel.start (idleEngine .toDevice 0)) submitted).map
        (fun s => (s.phase, s.xfer.state, s.engine.dir)) =
      some (.queued, .submitted, .toDevice) := by
    decide +kernel
  have hgives : (exec (Channel.step false) (Channel.start (idleEngine .toDevice 0))
        (submitted ++ [.inspect busyReads])).map
        (fun t => (t.phase, t.xfer.state, t.engine.running)) =
      some (.settled .timedOut, .aborted, false) := by
    decide +kernel
  obtain ⟨s, hexec, hobs⟩ := Option.map_eq_some_iff.mp hwait
  simp only [Prod.mk.injEq] at hobs
  obtain ⟨hphase, hstate, hdir⟩ := hobs
  obtain ⟨t, hmore, hafter⟩ := Option.map_eq_some_iff.mp hgives
  simp only [Prod.mk.injEq] at hafter
  have hstep : s.step false (.inspect busyReads) = some t := by
    simpa [exec_append, hexec, exec] using hmore
  exact ⟨s, t, runs_of_exec hexec, hphase, hstate, by rw [hdir]; decide, hstep, hafter⟩

end NupaNet.Xdma
