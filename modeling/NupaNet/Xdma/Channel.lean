import NupaNet.Foundation.Run
import NupaNet.Xdma.Service
import NupaNet.Xdma.Submit

/-!
# One engine and everything that touches it

`desc_lock` serialises the calls of `xdma_xfer_submit` on an engine, so one call
at a time is past its entry checks; `Phase` is its program point, and `submit`
holds its loop variables and the engine.  The steps of the call are interleaved
with services of the engine (from the interrupt work or from the poll thread,
early, late, or left over from an earlier transfer) and with the device being
taken offline and online.  An action carries what its step reads from the
device.

The wait after `transfer_queue` is the spin that `USE_WAKE_UP 0` compiles to: it
ends as soon as the state is no longer `TRANSFER_STATE_NEW`.
-/

namespace NupaNet.Xdma

open NupaNet.Foundation

inductive Phase
  | free
  | top
  | built
  | admitted
  | queued
  | settled (outcome : Outcome)
deriving DecidableEq, Repr

/-- `request` names the request of the call that holds `desc_lock`, or the next one.
`served` remembers whether a service met a running engine and a descriptor count since the
transfer was queued; no code reads it. -/
structure Channel where
  submit : SubmitState
  request : Nat
  serials : Nat
  phase : Phase
  offline : Bool
  served : Bool

inductive Act
  | enter (descBlenMax : U32) (epAddr : U64) (sgl : List Extent)
  | build
  | finish
  | check
  | queue (status : U32)
  | inspect (reads : Reads)
  | release
  | service (descWriteback : U32) (reads : Reads)
  | offlineFlag
  | offlineEngine
  | onlineEngine
  | onlineFlag

namespace Channel

def engine (s : Channel) : XdmaEngine := s.submit.engine

def xfer (s : Channel) : XdmaTransfer := s.engine.tfer s.request

def withEngine (s : Channel) (engine : XdmaEngine) : Channel :=
  { s with submit := { s.submit with engine } }

def leave (s : Channel) : Channel :=
  { s with phase := .free, request := s.request + 1 }

def afterEnter (s : Channel) (req : XdmaRequestCb) : Channel :=
  { s with
    submit := { s.submit with req, nents := req.swDescCnt, done := 0, log := [] }
    phase := .top }

def afterBuild (s : Channel) : Channel :=
  let built := s.submit.build
  let xfer := { built.2 with serial := s.serials }
  { s with
    submit := { built.1 with engine := setTransfer built.1.engine s.request xfer }
    serials := s.serials + 1
    phase := .built }

def refuse (s : Channel) : Channel :=
  { s with submit := s.submit.settle s.xfer .refused }.leave

def afterQueue (pollMode : Bool) (s : Channel) (status : U32) : Channel :=
  let result := transferQueue pollMode s.engine s.request status
  if result.2 < 0 then (s.withEngine result.1).refuse
  else { s.withEngine result.1 with phase := .queued, served := false }

def outcomeOf (reads : Reads) : TransferState → Outcome
  | .completed => .completed reads.written
  | .failed => .failed
  | _ => .timedOut

def afterInspect (pollMode : Bool) (s : Channel) (reads : Reads) : Channel :=
  let result := inspectTransfer pollMode s.engine s.request reads
  { s.withEngine result.1 with phase := .settled (outcomeOf reads result.2) }

def afterRelease (s : Channel) (outcome : Outcome) : Channel :=
  let settled := { s with submit := s.submit.settle s.xfer outcome }
  if outcome.rv < 0 then settled.leave else { settled with phase := .top }

def serves (s : Channel) (descWriteback : U32) (reads : Reads) : Bool :=
  s.engine.running && decide (serviceCount descWriteback reads ≠ 0)

def afterService (pollMode : Bool) (s : Channel) (descWriteback : U32) (reads : Reads) :
    Channel :=
  { s.withEngine (engineService pollMode s.engine descWriteback reads) with
    served := s.served || s.serves descWriteback reads }

def step (pollMode : Bool) (s : Channel) : Act → Option Channel
  | .enter descBlenMax epAddr sgl =>
      match s.phase, xdmaInitRequest (fun _ => true) descBlenMax sgl epAddr with
      | .free, .ready req => some (s.afterEnter req)
      | _, _ => none
  | .build => if s.phase = .top ∧ s.submit.nents ≠ 0 then some s.afterBuild else none
  | .finish => if s.phase = .top ∧ s.submit.nents = 0 then some s.leave else none
  | .check =>
      if s.phase = .built then
        if transferQueueCheck s.offline s.xfer < 0 then some s.refuse
        else some { s with phase := .admitted }
      else none
  | .queue status =>
      if s.phase = .admitted then some (s.afterQueue pollMode status) else none
  | .inspect reads =>
      if s.phase = .queued ∧ s.xfer.state ≠ .new then some (s.afterInspect pollMode reads)
      else none
  | .release =>
      match s.phase with
      | .settled outcome => some (s.afterRelease outcome)
      | _ => none
  | .service descWriteback reads => some (s.afterService pollMode descWriteback reads)
  | .offlineFlag => some { s with offline := true }
  | .offlineEngine => some (s.withEngine (engineOffline pollMode s.engine))
  | .onlineEngine => some (s.withEngine (engineOnline s.engine))
  | .onlineFlag => some { s with offline := false }

inductive Moves (pollMode : Bool) (s : Channel) : Act → Channel → Prop
  | enter {descBlenMax : U32} {epAddr : U64} {sgl : List Extent} {req : XdmaRequestCb} :
      s.phase = .free → Moves pollMode s (.enter descBlenMax epAddr sgl) (s.afterEnter req)
  | build : s.phase = .top → Moves pollMode s .build s.afterBuild
  | finish : s.phase = .top → Moves pollMode s .finish s.leave
  | refuse : s.phase = .built → Moves pollMode s .check s.refuse
  | check : s.phase = .built → ¬ transferQueueCheck s.offline s.xfer < 0 →
      Moves pollMode s .check { s with phase := .admitted }
  | queue {status : U32} : s.phase = .admitted →
      Moves pollMode s (.queue status) (s.afterQueue pollMode status)
  | inspect {reads : Reads} : s.phase = .queued →
      Moves pollMode s (.inspect reads) (s.afterInspect pollMode reads)
  | release {outcome : Outcome} : s.phase = .settled outcome →
      Moves pollMode s .release (s.afterRelease outcome)
  | service {descWriteback : U32} {reads : Reads} :
      Moves pollMode s (.service descWriteback reads)
        (s.afterService pollMode descWriteback reads)
  | offlineFlag : Moves pollMode s .offlineFlag { s with offline := true }
  | offlineEngine :
      Moves pollMode s .offlineEngine (s.withEngine (engineOffline pollMode s.engine))
  | onlineEngine : Moves pollMode s .onlineEngine (s.withEngine (engineOnline s.engine))
  | onlineFlag : Moves pollMode s .onlineFlag { s with offline := false }

theorem moves_of_step {pollMode : Bool} {s t : Channel} {a : Act}
    (h : s.step pollMode a = some t) : Moves pollMode s a t := by
  cases a with
  | enter descBlenMax epAddr sgl =>
      simp only [step] at h
      split at h
      · next hphase _ => exact Option.some.inj h ▸ .enter hphase
      · cases h
  | build =>
      obtain ⟨⟨htop, -⟩, heq⟩ := Option.ite_none_right_eq_some.mp h
      exact Option.some.inj heq ▸ .build htop
  | finish =>
      obtain ⟨⟨htop, -⟩, heq⟩ := Option.ite_none_right_eq_some.mp h
      exact Option.some.inj heq ▸ .finish htop
  | check =>
      obtain ⟨hbuilt, hchecked⟩ := Option.ite_none_right_eq_some.mp h
      split at hchecked
      · exact Option.some.inj hchecked ▸ .refuse hbuilt
      · next hpassed => exact Option.some.inj hchecked ▸ .check hbuilt hpassed
  | queue status =>
      obtain ⟨hadmitted, heq⟩ := Option.ite_none_right_eq_some.mp h
      exact Option.some.inj heq ▸ .queue hadmitted
  | inspect reads =>
      obtain ⟨⟨hqueued, -⟩, heq⟩ := Option.ite_none_right_eq_some.mp h
      exact Option.some.inj heq ▸ .inspect hqueued
  | release =>
      simp only [step] at h
      split at h
      · next hphase => exact Option.some.inj h ▸ .release hphase
      · cases h
  | service descWriteback reads => exact Option.some.inj h ▸ .service
  | offlineFlag => exact Option.some.inj h ▸ .offlineFlag
  | offlineEngine => exact Option.some.inj h ▸ .offlineEngine
  | onlineEngine => exact Option.some.inj h ▸ .onlineEngine
  | onlineFlag => exact Option.some.inj h ▸ .onlineFlag

end Channel

/-- An engine as `engine_init` leaves it: nothing queued, not running, no flush on
end-of-packet, which no code turns on. -/
structure IdleEngine (engine : XdmaEngine) : Prop where
  list : engine.transferList = []
  idle : engine.running = false
  flush : engine.eopFlush = false
  ring : engine.descMax < 2 ^ 32

def Channel.start (engine : XdmaEngine) : Channel where
  submit :=
    { engine
      req := { epAddr := 0, totalLen := 0, swDescIdx := 0, swDescCnt := 0, sdesc := [] }
      nents := 0
      done := 0
      log := [] }
  request := 0
  serials := 0
  phase := .free
  offline := false
  served := false

/-! ## The invariant -/

structure Pending (s : Channel) : Prop where
  unserved : s.served = false
  list : s.engine.transferList = [s.request]
  state : s.xfer.state = .submitted

structure Decided (s : Channel) : Prop where
  served : s.served = true
  list : s.engine.transferList = []
  idle : s.engine.running = false
  state : s.xfer.state = .completed ∨ s.xfer.state = .failed

structure ChannelInv (s : Channel) : Prop where
  flush : s.engine.eopFlush = false
  ring : s.engine.descMax < 2 ^ 32
  quiet : s.phase ≠ .queued → s.engine.transferList = [] ∧ s.engine.running = false
  descNum : s.phase = .admitted ∨ s.phase = .queued → s.xfer.descNum ≠ 0
  queued : s.phase = .queued → Pending s ∨ Decided s

theorem ChannelInv.start {engine : XdmaEngine} (h : IdleEngine engine) :
    ChannelInv (Channel.start engine) where
  flush := h.flush
  ring := h.ring
  quiet _ := ⟨h.list, h.idle⟩
  descNum := by simp [Channel.start]
  queued := by simp [Channel.start]

private theorem SubmitState.settle_undisturbed (s : SubmitState) (xfer : XdmaTransfer)
    (outcome : Outcome) : Undisturbed s.engine (s.settle xfer outcome).engine := by
  cases outcome with
  | completed written =>
      simp only [SubmitState.settle]
      split <;> constructor <;> simp [transferDestroy]
  | failed => constructor <;> simp [SubmitState.settle, transferDestroy]
  | timedOut => constructor <;> simp [SubmitState.settle, transferDestroy]
  | refused => constructor <;> simp [SubmitState.settle]

theorem Channel.afterRelease_phase (s : Channel) (outcome : Outcome) :
    (s.afterRelease outcome).phase = .free ∨ (s.afterRelease outcome).phase = .top := by
  unfold Channel.afterRelease
  simp only
  split
  · exact .inl rfl
  · exact .inr rfl

theorem Channel.afterRelease_undisturbed (s : Channel) (outcome : Outcome) :
    Undisturbed s.engine (s.afterRelease outcome).engine := by
  have hsettle := s.submit.settle_undisturbed s.xfer outcome
  unfold Channel.afterRelease
  simp only
  split <;> exact hsettle

namespace ChannelInv

variable {pollMode : Bool} {s t : Channel}

private theorem of_quiet (flush : t.engine.eopFlush = false) (ring : t.engine.descMax < 2 ^ 32)
    (list : t.engine.transferList = []) (idle : t.engine.running = false)
    (notAdmitted : t.phase ≠ .admitted) (notQueued : t.phase ≠ .queued) : ChannelInv t where
  flush := flush
  ring := ring
  quiet _ := ⟨list, idle⟩
  descNum h := absurd h (by simp [notAdmitted, notQueued])
  queued h := absurd h notQueued

theorem withEngine (inv : ChannelInv s) {engine : XdmaEngine}
    (undisturbed : Undisturbed s.engine engine) : ChannelInv (s.withEngine engine) where
  flush := undisturbed.flush.trans inv.flush
  ring := undisturbed.ring ▸ inv.ring
  quiet h := by
    obtain ⟨hlist, hidle⟩ := inv.quiet h
    exact ⟨undisturbed.list.trans hlist, undisturbed.idle hidle⟩
  descNum h := by
    have htfer : (s.withEngine engine).xfer = s.xfer := congrFun undisturbed.tfer s.request
    rw [htfer]
    exact inv.descNum h
  queued h := by
    have htfer : (s.withEngine engine).xfer = s.xfer := congrFun undisturbed.tfer s.request
    rcases inv.queued h with hpending | hdecided
    · exact .inl ⟨hpending.unserved, undisturbed.list.trans hpending.list,
        htfer ▸ hpending.state⟩
    · exact .inr ⟨hdecided.served, undisturbed.list.trans hdecided.list,
        undisturbed.idle hdecided.idle, htfer ▸ hdecided.state⟩

theorem afterBuild (inv : ChannelInv s) (top : s.phase = .top) : ChannelInv s.afterBuild := by
  obtain ⟨hlist, hidle⟩ := inv.quiet (by simp [top])
  exact of_quiet inv.flush inv.ring hlist hidle nofun nofun

theorem leave (inv : ChannelInv s) (notQueued : s.phase ≠ .queued) : ChannelInv s.leave := by
  obtain ⟨hlist, hidle⟩ := inv.quiet notQueued
  exact of_quiet inv.flush inv.ring hlist hidle nofun nofun

theorem refuse (inv : ChannelInv s) (notQueued : s.phase ≠ .queued) : ChannelInv s.refuse := by
  obtain ⟨hlist, hidle⟩ := inv.quiet notQueued
  exact of_quiet inv.flush inv.ring hlist hidle nofun nofun

theorem check (inv : ChannelInv s) (built : s.phase = .built)
    (passed : ¬ transferQueueCheck s.offline s.xfer < 0) :
    ChannelInv { s with phase := .admitted } where
  flush := inv.flush
  ring := inv.ring
  quiet _ := inv.quiet (by simp [built])
  descNum _ := by
    intro hzero
    have hfails : transferQueueCheck s.offline s.xfer = -22 := if_pos hzero
    exact passed (hfails ▸ by decide)
  queued := nofun

theorem afterQueue (inv : ChannelInv s) (admitted : s.phase = .admitted) (status : U32) :
    ChannelInv (s.afterQueue pollMode status) := by
  obtain ⟨hlist, hidle⟩ := inv.quiet (by simp [admitted])
  unfold Channel.afterQueue
  cases hshut : s.engine.shutdown.request with
  | true =>
      rw [transferQueue_refuses pollMode s.request hshut]
      exact inv.refuse (by simp [admitted])
  | false =>
      obtain ⟨hstarted, hrv⟩ := transferQueue_starts pollMode s.request hshut hlist hidle status
      rw [if_neg (by simp [hrv])]
      have hxfer : (transferQueue pollMode s.engine s.request status).1.tfer s.request =
          { s.xfer with state := .submitted } := by
        rw [hstarted.tfer, Function.update_self]
        rfl
      constructor
      · exact hstarted.flush.trans inv.flush
      · exact hstarted.ring ▸ inv.ring
      · exact fun h => absurd rfl h
      · intro _
        change ((transferQueue pollMode s.engine s.request status).1.tfer s.request).descNum ≠ 0
        rw [hxfer]
        exact inv.descNum (.inl admitted)
      · intro _
        refine .inl ⟨rfl, hstarted.list, ?_⟩
        change ((transferQueue pollMode s.engine s.request status).1.tfer s.request).state = _
        rw [hxfer]

theorem afterInspect (inv : ChannelInv s) (queued : s.phase = .queued) {reads : Reads}
    (valid : s.xfer.state = .completed ∨ s.xfer.state = .failed ∨
      engineRegDump reads.identifier = true) :
    ChannelInv (s.afterInspect pollMode reads) := by
  unfold Channel.afterInspect
  rcases inv.queued queued with hpending | hdecided
  · have hid : engineRegDump reads.identifier = true := by
      rcases valid with h | h | h
      · simp [hpending.state] at h
      · simp [hpending.state] at h
      · exact h
    obtain ⟨haborted, -⟩ := inspectTransfer_aborts pollMode hpending.state hpending.list
      (inv.descNum (.inr queued)) hid
    exact of_quiet (haborted.flush.trans inv.flush) (haborted.ring ▸ inv.ring) haborted.list
      haborted.stopped nofun nofun
  · rcases hdecided.state with hstate | hstate
    · rw [inspectTransfer_completed pollMode reads hstate]
      exact of_quiet inv.flush inv.ring hdecided.list hdecided.idle nofun nofun
    · rw [inspectTransfer_failed pollMode reads hstate]
      exact of_quiet inv.flush inv.ring hdecided.list hdecided.idle nofun nofun

theorem afterRelease (inv : ChannelInv s) {outcome : Outcome}
    (settled : s.phase = .settled outcome) :
    ChannelInv (s.afterRelease outcome) := by
  obtain ⟨hlist, hidle⟩ := inv.quiet (by simp [settled])
  have hsettle := s.afterRelease_undisturbed outcome
  apply of_quiet (hsettle.flush.trans inv.flush) (hsettle.ring ▸ inv.ring)
    (hsettle.list.trans hlist) (hsettle.idle hidle)
  · rcases s.afterRelease_phase outcome with h | h <;> simp [h]
  · rcases s.afterRelease_phase outcome with h | h <;> simp [h]

theorem pending_of_running (inv : ChannelInv s) (running : s.engine.running = true) :
    s.phase = .queued ∧ Pending s := by
  have hqueued : s.phase = .queued := by
    by_contra hphase
    simp [(inv.quiet hphase).2] at running
  refine ⟨hqueued, (inv.queued hqueued).resolve_right fun hdecided => ?_⟩
  simp [hdecided.idle] at running

theorem afterService (inv : ChannelInv s) (descWriteback : U32) (reads : Reads) :
    ChannelInv (s.afterService pollMode descWriteback reads) := by
  unfold Channel.afterService
  cases hserves : s.serves descWriteback reads with
  | false =>
      have hundisturbed :
          Undisturbed s.engine (engineService pollMode s.engine descWriteback reads) := by
        cases hrunning : s.engine.running with
        | false => exact engineService_idle pollMode hrunning descWriteback reads
        | true =>
            apply engineService_waits
            simpa [Channel.serves, hrunning] using hserves
      rw [Bool.or_false]
      exact inv.withEngine hundisturbed
  | true =>
      obtain ⟨hrunning, hcount⟩ : s.engine.running = true ∧
          serviceCount descWriteback reads ≠ 0 := by
        simpa [Channel.serves] using hserves
      obtain ⟨hqueued, hpending⟩ := inv.pending_of_running hrunning
      have hsettled := engineService_settles pollMode hrunning hpending.list inv.flush hcount
      rw [Bool.or_true]
      constructor
      · exact hsettled.flush.trans inv.flush
      · exact hsettled.ring ▸ inv.ring
      · exact fun h => absurd hqueued h
      · intro _
        exact hsettled.descNum ▸ inv.descNum (.inr hqueued)
      · intro _
        exact .inr ⟨rfl, hsettled.list, hsettled.stopped, hsettled.verdict.imp_left And.left⟩

private theorem withOffline (inv : ChannelInv s) (offline : Bool) :
    ChannelInv { s with offline } where
  flush := inv.flush
  ring := inv.ring
  quiet := inv.quiet
  descNum := inv.descNum
  queued h := by
    rcases inv.queued h with hpending | hdecided
    · exact .inl ⟨hpending.unserved, hpending.list, hpending.state⟩
    · exact .inr ⟨hdecided.served, hdecided.list, hdecided.idle, hdecided.state⟩

theorem moves (inv : ChannelInv s) {a : Act}
    (valid : ∀ reads, a = .inspect reads →
      s.xfer.state = .completed ∨ s.xfer.state = .failed ∨
        engineRegDump reads.identifier = true)
    (move : Channel.Moves pollMode s a t) : ChannelInv t := by
  cases move with
  | enter free =>
      obtain ⟨hlist, hidle⟩ := inv.quiet (by simp [free])
      exact of_quiet inv.flush inv.ring hlist hidle nofun nofun
  | build top => exact inv.afterBuild top
  | finish top => exact inv.leave (by simp [top])
  | refuse built => exact inv.refuse (by simp [built])
  | check built passed => exact inv.check built passed
  | queue admitted => exact inv.afterQueue admitted _
  | inspect queued => exact inv.afterInspect queued (valid _ rfl)
  | release settled => exact inv.afterRelease settled
  | service => exact inv.afterService ..
  | offlineFlag => exact inv.withOffline true
  | offlineEngine => exact inv.withEngine (engineOffline_undisturbed pollMode s.engine)
  | onlineEngine => exact inv.withEngine (engineOnline_undisturbed s.engine)
  | onlineFlag => exact inv.withOffline false

end ChannelInv

/-! ## What a step does to the engine -/

/-- All that a step can do to an engine with at most one queued transfer. -/
inductive Effect (s : Channel) (a : Act) (t : Channel) : Prop
  | undisturbed : Undisturbed s.engine t.engine →
      (t.phase = .queued → s.phase = .queued ∧ t.request = s.request) → Effect s a t
  | built {transfer : XdmaTransfer} : a = .build → transfer.state = .new →
      transfer.descNum < 2 ^ 32 →
      t.engine.tfer = Function.update s.engine.tfer s.request transfer →
      t.engine.regs = s.engine.regs → t.engine.running = false → t.phase ≠ .queued →
      Effect s a t
  | started {status : U32} : a = .queue status → s.engine.shutdown.request = false →
      Started s.engine t.engine s.request → t.request = s.request → t.phase = .queued →
      Effect s a t
  | aborted {reads : Reads} : a = .inspect reads → Aborted s.engine t.engine s.request →
      t.phase ≠ .queued → Effect s a t
  | settled {descWriteback : U32} {reads : Reads} : a = .service descWriteback reads →
      s.engine.running = true → s.phase = .queued →
      serviceCount descWriteback reads ≠ 0 →
      Settled s.engine t.engine s.request
        (serviceCount descWriteback reads - s.engine.descDequeued) →
      t.request = s.request → Effect s a t

namespace ChannelInv

variable {pollMode : Bool} {s : Channel}

theorem listed_submitted (inv : ChannelInv s) {r : Nat} (listed : r ∈ s.engine.transferList) :
    (s.engine.tfer r).state = .submitted := by
  by_cases hqueued : s.phase = .queued
  · rcases inv.queued hqueued with hpending | hdecided
    · rw [hpending.list, List.mem_singleton] at listed
      exact listed ▸ hpending.state
    · simp [hdecided.list] at listed
  · simp [(inv.quiet hqueued).1] at listed

private theorem effect_queue (inv : ChannelInv s) (admitted : s.phase = .admitted) (status : U32) :
    Effect s (.queue status) (s.afterQueue pollMode status) := by
  obtain ⟨hlist, hidle⟩ := inv.quiet (by simp [admitted])
  unfold Channel.afterQueue
  cases hshut : s.engine.shutdown.request with
  | true =>
      rw [transferQueue_refuses pollMode s.request hshut]
      exact .undisturbed (.refl _) nofun
  | false =>
      obtain ⟨hstarted, hrv⟩ := transferQueue_starts pollMode s.request hshut hlist hidle status
      rw [if_neg (by simp [hrv])]
      exact .started rfl hshut hstarted rfl rfl

private theorem effect_inspect (inv : ChannelInv s) (queued : s.phase = .queued) {reads : Reads}
    (valid : s.xfer.state = .completed ∨ s.xfer.state = .failed ∨
      engineRegDump reads.identifier = true) :
    Effect s (.inspect reads) (s.afterInspect pollMode reads) := by
  unfold Channel.afterInspect
  rcases inv.queued queued with hpending | hdecided
  · have hid : engineRegDump reads.identifier = true := by
      rcases valid with h | h | h
      · simp [hpending.state] at h
      · simp [hpending.state] at h
      · exact h
    obtain ⟨haborted, -⟩ := inspectTransfer_aborts pollMode hpending.state hpending.list
      (inv.descNum (.inr queued)) hid
    exact .aborted rfl haborted nofun
  · rcases hdecided.state with hstate | hstate
    · rw [inspectTransfer_completed pollMode reads hstate]
      exact .undisturbed (.refl _) nofun
    · rw [inspectTransfer_failed pollMode reads hstate]
      exact .undisturbed (.refl _) nofun

theorem effect_service (inv : ChannelInv s) (descWriteback : U32) (reads : Reads) :
    Effect s (.service descWriteback reads) (s.afterService pollMode descWriteback reads) := by
  cases hrunning : s.engine.running with
  | false =>
      exact .undisturbed (engineService_idle pollMode hrunning descWriteback reads)
        fun h => ⟨h, rfl⟩
  | true =>
      by_cases hnone : serviceCount descWriteback reads = 0
      · exact .undisturbed (engineService_waits pollMode hnone) fun h => ⟨h, rfl⟩
      · obtain ⟨hqueued, hpending⟩ := inv.pending_of_running hrunning
        exact .settled rfl hrunning hqueued hnone
          (engineService_settles pollMode hrunning hpending.list inv.flush hnone) rfl

theorem effect {t : Channel} (inv : ChannelInv s) {a : Act}
    (valid : ∀ reads, a = .inspect reads →
      s.xfer.state = .completed ∨ s.xfer.state = .failed ∨
        engineRegDump reads.identifier = true)
    (move : Channel.Moves pollMode s a t) : Effect s a t := by
  cases move with
  | enter | finish | refuse | check => exact .undisturbed (.refl _) nofun
  | build top =>
      have hidle := (inv.quiet (by simp [top])).2
      have hsmall : transferCount s.engine s.submit.req < 2 ^ 32 :=
        Nat.lt_of_le_of_lt (transferCount_le_ring _ _) inv.ring
      have htfer : s.afterBuild.engine.tfer = Function.update s.engine.tfer s.request
          { s.submit.build.2 with serial := s.serials } := rfl
      exact .built rfl rfl hsmall htfer rfl hidle nofun
  | queue admitted => exact inv.effect_queue admitted _
  | inspect queued => exact inv.effect_inspect queued (valid _ rfl)
  | @release outcome settled =>
      refine .undisturbed (s.afterRelease_undisturbed outcome) fun h => ?_
      rcases s.afterRelease_phase outcome with hphase | hphase <;> simp [hphase] at h
  | service => exact inv.effect_service ..
  | offlineFlag | onlineFlag => exact .undisturbed (.refl _) fun h => ⟨h, rfl⟩
  | offlineEngine =>
      exact .undisturbed (engineOffline_undisturbed pollMode s.engine) fun h => ⟨h, rfl⟩
  | onlineEngine => exact .undisturbed (engineOnline_undisturbed s.engine) fun h => ⟨h, rfl⟩

end ChannelInv

end NupaNet.Xdma
