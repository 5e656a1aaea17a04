import NupaNet.Foundation.Run
import NupaNet.Xdma.Service

/-!
# Submitting without waiting

`xdma_xfer_submit_nowait` queues the transfers of a request and returns;
`xdma_xfer_completion` is called later, once for each request, and releases them.
Between the two the request stays allocated, and any number of requests may be
queued.  The transfers of a request live in its array `tfer[2]`: element `i` of
request `b` is the record `2 * b + i`.  Requests are allocated zeroed and
numbered in that order; a number is not used again.

The calls of `xdma_xfer_submit_nowait` follow one another.  Their steps are
interleaved with the iterations of any number of completions, with services of
the engine, and with the device being taken offline and online.  An action
carries what its step reads from the device.  An iteration of a completion is
one step: `xdma_xfer_completion` takes no lock, and runs in which an iteration
overlaps one of these steps are outside the model.
-/

namespace NupaNet.Xdma.Nowait

open NupaNet.Foundation

def record (b i : Nat) : Nat := 2 * b + i

inductive Stage
  | top
  | built
  | admitted
deriving DecidableEq, Repr

/-- The local variables of `xdma_xfer_submit_nowait` past its entry checks, and its request. -/
structure Call where
  request : Nat
  req : XdmaRequestCb
  nents : Int
  tferIdx : Nat
  stage : Stage

structure Completion where
  nents : Int
  tferIdx : Nat
  done : Nat

structure Request where
  swDescCnt : Nat
  completion : Option Completion

/-- `overrun` is set by a use of `tfer[tfer_idx]` outside the array. -/
structure Async where
  engine : XdmaEngine
  offline : Bool
  allocated : Nat
  call : Option Call
  requests : Nat → Option Request
  overrun : Bool
  returned : List Int

inductive Act
  | enter (alloc : U32 → Bool) (descBlenMax : U32) (dir : Direction) (epAddr : U64)
      (sgl : List Extent)
  | build
  | check
  | queue (status : U32)
  | completion (b : Nat)
  | collect (b : Nat) (reads : Reads)
  | service (descWriteback : U32) (reads : Reads)
  | offlineFlag
  | offlineEngine
  | onlineEngine
  | onlineFlag

def Call.xfer (call : Call) : Nat := record call.request call.tferIdx

def Completion.xfer (completion : Completion) (b : Nat) : Nat := record b completion.tferIdx

/-! ## One iteration of `xdma_xfer_completion` -/

/-- `engine_status_read` with the register dump, which fails on a wrong identifier. -/
def engineStatusRead (engine : XdmaEngine) (reads : Reads) : XdmaEngine :=
  if engineRegDump reads.identifier then { engine with status := reads.status } else engine

/-- What the `switch` leaves: the engine, the bytes that count, and `rv`. -/
structure Inspected where
  engine : XdmaEngine
  counted : Nat
  rv : Int

/-- No result of the last case is looked at: the engine is stopped whether or not its status
could be read and the transfer aborted. -/
def inspect (pollMode : Bool) (engine : XdmaEngine) (r : Nat) (reads : Reads) : Inspected :=
  match (engine.tfer r).state with
  | .completed =>
      { engine
        counted :=
          if engine.streaming ∧ engine.dir = .fromDevice then reads.written
          else (engine.tfer r).len.toNat
        rv := 0 }
  | .failed => { engine, counted := 0, rv := -5 }
  | _ =>
      { engine := xdmaEngineStop pollMode (transferAbort (engineStatusRead engine reads) r).1
        counted := 0
        rv := -512 }

def release (engine : XdmaEngine) (r : Nat) : XdmaEngine :=
  let destroyed := transferDestroy engine (engine.tfer r)
  { destroyed with descUsed := destroyed.descUsed - (engine.tfer r).descNum }

/-! ## The steps -/

namespace Async

def setRequest (s : Async) (b : Nat) (request : Option Request) : Async :=
  { s with requests := Function.update s.requests b request }

def submitted (s : Async) (b : Nat) (swDescCnt : Nat) : Async :=
  { s.setRequest b (some ⟨swDescCnt, none⟩) with
    call := none
    returned := s.returned ++ [-529] }

def afterEnter (s : Async) (req : XdmaRequestCb) : Async :=
  let entered := { s with allocated := s.allocated + 1 }
  if req.swDescCnt = 0 then entered.submitted s.allocated 0
  else { entered with call := some ⟨s.allocated, req, req.swDescCnt, 0, .top⟩ }

def afterBuild (s : Async) (call : Call) : Async :=
  let built := transferInit s.engine call.req
  let nents := call.nents - built.2.2.descNum
  let xfer := { built.2.2 with lastInRequest := decide (nents = 0) }
  { s with
    engine := setTransfer built.1 call.xfer xfer
    call := some { call with req := built.2.1, nents, stage := .built } }

/-- The transfer is not queued: the request is freed, and nothing else is undone. -/
def refuse (s : Async) (rv : Int) : Async :=
  { s with call := none, returned := s.returned ++ [rv] }

def afterQueue (pollMode : Bool) (s : Async) (call : Call) (status : U32) : Async :=
  let result := transferQueue pollMode s.engine call.xfer status
  let queued := { s with engine := result.1 }
  if result.2 < 0 then queued.refuse result.2
  else if call.nents = 0 then queued.submitted call.request call.req.swDescCnt
  else { queued with call := some { call with tferIdx := call.tferIdx + 1, stage := .top } }

def free (s : Async) (b : Nat) (done : Nat) : Async :=
  { s.setRequest b none with returned := s.returned ++ [(done : Int)] }

def afterCompletion (s : Async) (b : Nat) (swDescCnt : Nat) : Async :=
  if swDescCnt = 0 then s.free b 0
  else s.setRequest b (some ⟨swDescCnt, some ⟨swDescCnt, 0, 0⟩⟩)

def afterCollect (pollMode : Bool) (s : Async) (b : Nat) (swDescCnt : Nat)
    (completion : Completion) (reads : Reads) : Async :=
  let r := completion.xfer b
  let nents := completion.nents - (s.engine.tfer r).descNum
  let inspected := inspect pollMode s.engine r reads
  let done := completion.done + inspected.counted
  let released := { s with engine := release inspected.engine r }
  if inspected.rv < 0 ∨ nents = 0 then released.free b done
  else released.setRequest b (some ⟨swDescCnt, some ⟨nents, completion.tferIdx + 1, done⟩⟩)

def step (pollMode : Bool) (s : Async) (a : Act) : Option Async :=
  -- what was beside the array is lost
  if s.overrun then none
  else
    match a with
    | .enter alloc descBlenMax dir epAddr sgl =>
        match s.call with
        | some _ => none
        | none =>
            if s.offline then some { s with returned := s.returned ++ [-16] }
            else if s.engine.dir ≠ dir then some { s with returned := s.returned ++ [-22] }
            else if sgl = [] then some { s with returned := s.returned ++ [-5] }
            else
              match xdmaInitRequest alloc descBlenMax sgl epAddr with
              | .ready req => some (s.afterEnter req)
              | .null => some { s with returned := s.returned ++ [-12] }
              | _ => none
    | .build =>
        match s.call with
        | some call =>
            if call.stage = .top then
              if 2 ≤ call.tferIdx then some { s with overrun := true }
              else some (s.afterBuild call)
            else none
        | none => none
    | .check =>
        match s.call with
        | some call =>
            if call.stage = .built then
              let rv := transferQueueCheck s.offline (s.engine.tfer call.xfer)
              if rv < 0 then some (s.refuse rv)
              else some { s with call := some { call with stage := .admitted } }
            else none
        | none => none
    | .queue status =>
        match s.call with
        | some call =>
            if call.stage = .admitted then some (s.afterQueue pollMode call status) else none
        | none => none
    | .completion b =>
        match s.requests b with
        | some ⟨swDescCnt, none⟩ => some (s.afterCompletion b swDescCnt)
        | _ => none
    | .collect b reads =>
        match s.requests b with
        | some ⟨swDescCnt, some completion⟩ =>
            if 2 ≤ completion.tferIdx then some { s with overrun := true }
            else some (s.afterCollect pollMode b swDescCnt completion reads)
        | _ => none
    | .service descWriteback reads =>
        some { s with engine := engineService pollMode s.engine descWriteback reads }
    | .offlineFlag => some { s with offline := true }
    | .offlineEngine => some { s with engine := engineOffline pollMode s.engine }
    | .onlineEngine => some { s with engine := engineOnline s.engine }
    | .onlineFlag => some { s with offline := false }

/-- The records that no request has used yet. -/
def unused : XdmaTransfer :=
  { serial := 0, descVirt := 0, descBus := 0, resBus := 0, descAdjacent := 0, descNum := 0,
    descIndex := 0, descCmpl := 0, descCmplTh := 0, dir := .toDevice, state := .new,
    eopRcved := false, cyclic := false, lastInRequest := false, len := 0 }

def start (engine : XdmaEngine) : Async where
  engine := { engine with tfer := fun _ => unused }
  offline := false
  allocated := 0
  call := none
  requests := fun _ => none
  overrun := false
  returned := []

@[simp]
theorem setRequest_self (s : Async) (b : Nat) (request : Option Request) :
    (s.setRequest b request).requests b = request :=
  Function.update_self ..

theorem setRequest_ne (s : Async) {b k : Nat} (request : Option Request) (h : k ≠ b) :
    (s.setRequest b request).requests k = s.requests k :=
  Function.update_of_ne h ..

@[simp]
theorem submitted_self (s : Async) (b n : Nat) :
    (s.submitted b n).requests b = some ⟨n, none⟩ :=
  s.setRequest_self b _

theorem submitted_ne (s : Async) {b k : Nat} (n : Nat) (h : k ≠ b) :
    (s.submitted b n).requests k = s.requests k :=
  s.setRequest_ne _ h

end Async

/-! ## What a step can do -/

inductive Moves (pollMode : Bool) (s : Async) : Act → Async → Prop
  | turnedAway {alloc : U32 → Bool} {descBlenMax : U32} {dir : Direction} {epAddr : U64}
      {sgl : List Extent} (rv : Int) :
      Moves pollMode s (.enter alloc descBlenMax dir epAddr sgl)
        { s with returned := s.returned ++ [rv] }
  | enter {alloc : U32 → Bool} {descBlenMax : U32} {dir : Direction} {epAddr : U64}
      {sgl : List Extent} {req : XdmaRequestCb} : s.call = none →
      xdmaInitRequest alloc descBlenMax sgl epAddr = .ready req →
      Moves pollMode s (.enter alloc descBlenMax dir epAddr sgl) (s.afterEnter req)
  | outside {call : Call} : s.call = some call → call.stage = .top → 2 ≤ call.tferIdx →
      Moves pollMode s .build { s with overrun := true }
  | build {call : Call} : s.call = some call → call.stage = .top → call.tferIdx < 2 →
      Moves pollMode s .build (s.afterBuild call)
  | refuse {call : Call} : s.call = some call → call.stage = .built →
      transferQueueCheck s.offline (s.engine.tfer call.xfer) < 0 →
      Moves pollMode s .check
        (s.refuse (transferQueueCheck s.offline (s.engine.tfer call.xfer)))
  | check {call : Call} : s.call = some call → call.stage = .built →
      ¬ transferQueueCheck s.offline (s.engine.tfer call.xfer) < 0 →
      Moves pollMode s .check { s with call := some { call with stage := .admitted } }
  | queue {call : Call} {status : U32} : s.call = some call → call.stage = .admitted →
      Moves pollMode s (.queue status) (s.afterQueue pollMode call status)
  | completion {b swDescCnt : Nat} : s.requests b = some ⟨swDescCnt, none⟩ →
      Moves pollMode s (.completion b) (s.afterCompletion b swDescCnt)
  | collectOutside {b swDescCnt : Nat} {completion : Completion} {reads : Reads} :
      s.requests b = some ⟨swDescCnt, some completion⟩ → 2 ≤ completion.tferIdx →
      Moves pollMode s (.collect b reads) { s with overrun := true }
  | collect {b swDescCnt : Nat} {completion : Completion} {reads : Reads} :
      s.requests b = some ⟨swDescCnt, some completion⟩ → completion.tferIdx < 2 →
      Moves pollMode s (.collect b reads) (s.afterCollect pollMode b swDescCnt completion reads)
  | service {descWriteback : U32} {reads : Reads} :
      Moves pollMode s (.service descWriteback reads)
        { s with engine := engineService pollMode s.engine descWriteback reads }
  | offlineFlag : Moves pollMode s .offlineFlag { s with offline := true }
  | offlineEngine :
      Moves pollMode s .offlineEngine { s with engine := engineOffline pollMode s.engine }
  | onlineEngine : Moves pollMode s .onlineEngine { s with engine := engineOnline s.engine }
  | onlineFlag : Moves pollMode s .onlineFlag { s with offline := false }

theorem step_moves {pollMode : Bool} {s t : Async} {a : Act}
    (h : s.step pollMode a = some t) : Moves pollMode s a t := by
  unfold Async.step at h
  split at h
  · cases h
  cases a with
  | enter alloc descBlenMax dir epAddr sgl =>
      simp only at h
      split at h
      · cases h
      next hcall =>
        split at h
        · exact Option.some.inj h ▸ .turnedAway _
        split at h
        · exact Option.some.inj h ▸ .turnedAway _
        split at h
        · exact Option.some.inj h ▸ .turnedAway _
        split at h
        · next req hready => exact Option.some.inj h ▸ .enter hcall hready
        · exact Option.some.inj h ▸ .turnedAway _
        · cases h
  | build =>
      simp only at h
      split at h
      · next call hcall =>
          obtain ⟨htop, hbuilt⟩ := Option.ite_none_right_eq_some.mp h
          split at hbuilt
          · next houtside => exact Option.some.inj hbuilt ▸ .outside hcall htop houtside
          · next hinside =>
              exact Option.some.inj hbuilt ▸ .build hcall htop (Nat.lt_of_not_le hinside)
      · cases h
  | check =>
      simp only at h
      split at h
      · next call hcall =>
          obtain ⟨hbuilt, hchecked⟩ := Option.ite_none_right_eq_some.mp h
          split at hchecked
          · next hrefused => exact Option.some.inj hchecked ▸ .refuse hcall hbuilt hrefused
          · next hpassed => exact Option.some.inj hchecked ▸ .check hcall hbuilt hpassed
      · cases h
  | queue status =>
      simp only at h
      split at h
      · next call hcall =>
          obtain ⟨hadmitted, hqueued⟩ := Option.ite_none_right_eq_some.mp h
          exact Option.some.inj hqueued ▸ .queue hcall hadmitted
      · cases h
  | completion b =>
      simp only at h
      split at h
      · next swDescCnt hrequest => exact Option.some.inj h ▸ .completion hrequest
      · cases h
  | collect b reads =>
      simp only at h
      split at h
      · next swDescCnt completion hrequest =>
          split at h
          · next houtside => exact Option.some.inj h ▸ .collectOutside hrequest houtside
          · next hinside =>
              exact Option.some.inj h ▸ .collect hrequest (Nat.lt_of_not_le hinside)
      · cases h
  | service descWriteback reads => exact Option.some.inj h ▸ .service
  | offlineFlag => exact Option.some.inj h ▸ .offlineFlag
  | offlineEngine => exact Option.some.inj h ▸ .offlineEngine
  | onlineEngine => exact Option.some.inj h ▸ .onlineEngine
  | onlineFlag => exact Option.some.inj h ▸ .onlineFlag

end NupaNet.Xdma.Nowait
