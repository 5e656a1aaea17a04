import NupaNet.Xdma.Transfer

/-!
# `xdma_xfer_submit`

A call splits its scatter list into software descriptors and these into
transfers, and queues the transfers one after the other, each only when the one
before has completed.  What becomes of a transfer is decided elsewhere, by the
hardware and by the completion side; here it is an arbitrary sequence of
outcomes, and the log of a call holds the descriptors of each transfer it built
with the outcome it met.
-/

namespace NupaNet.Xdma

open NupaNet.Foundation

/-- How a transfer ends; `written` is the sum of the writeback lengths, which a
streaming engine reports. -/
inductive Outcome
  | completed (written : Nat)
  | failed
  | timedOut
  | refused
deriving DecidableEq, Repr

def Outcome.Completed : Outcome → Prop
  | .completed _ => True
  | _ => False

def Outcome.rv : Outcome → Int
  | .completed _ => 0
  | .failed => -5
  | .timedOut => -512
  | .refused => -16

structure Submitted where
  descs : List XdmaDesc
  outcome : Outcome

structure SubmitState where
  engine : XdmaEngine
  req : XdmaRequestCb
  nents : Int
  done : Int
  log : List Submitted

namespace SubmitState

def build (s : SubmitState) : SubmitState × XdmaTransfer :=
  let (engine, req, xfer) := transferInit s.engine s.req
  let nents := s.nents - xfer.descNum
  ({ s with engine, req, nents }, { xfer with lastInRequest := nents = 0 })

/-- The end of a loop round: a refused transfer keeps its descriptors. -/
def settle (s : SubmitState) (xfer : XdmaTransfer) (outcome : Outcome) : SubmitState :=
  let released := transferDestroy
    { s.engine with descUsed := s.engine.descUsed - xfer.descNum } xfer
  let log := s.log ++ [{ descs := transferDescs s.engine xfer, outcome }]
  match outcome with
  | .refused => { s with log }
  | .failed | .timedOut => { s with engine := released, log }
  | .completed written =>
      if s.engine.streaming ∧ s.engine.dir = .fromDevice then
        { s with
          engine := released
          nents := if s.engine.eopFlush then 0 else s.nents
          done := s.done + written
          log }
      else { s with engine := released, done := s.done + xfer.len.toNat, log }

end SubmitState

/-- The loop over transfers, with the `rv` it leaves; `none` if it is not done after `fuel`
rounds. -/
def submitLoop (outcomes : Nat → Outcome) : Nat → SubmitState → Option (SubmitState × Int)
  | fuel, s =>
      if s.nents = 0 then some (s, 0)
      else
        match fuel with
        | 0 => none
        | fuel + 1 =>
            let outcome := outcomes s.log.length
            let built := s.build
            let settled := built.1.settle built.2 outcome
            if outcome.rv < 0 then some (settled, outcome.rv)
            else submitLoop outcomes fuel settled

def SubmitState.ret (s : SubmitState) (rv : Int) : Int :=
  if s.done ≠ 0 then s.done else rv

inductive XferSubmit
  | returned (ret : Int) (log : List Submitted) (engine : XdmaEngine)
  | overrun
  | divideError
  | hangs

/-- `xdma_xfer_submit` on the engine that `channel` selects, with its table mapped. -/
def xdmaXferSubmit (alloc : U32 → Bool) (descBlenMax : U32) (offline : Bool)
    (engine : XdmaEngine) (dir : Direction) (epAddr : U64) (sgl : List Extent)
    (outcomes : Nat → Outcome) : XferSubmit :=
  if offline then .returned (-16) [] engine
  else if engine.dir ≠ dir then .returned (-22) [] engine
  else if sgl = [] then .returned (-5) [] engine
  else
    match xdmaInitRequest alloc descBlenMax sgl epAddr with
    | .null => .returned (-12) [] engine
    | .overrun => .overrun
    | .divideError => .divideError
    | .stuck => .hangs
    | .ready req =>
        match submitLoop outcomes req.swDescCnt
            { engine, req, nents := req.swDescCnt, done := 0, log := [] } with
        | none => .hangs
        | some (s, rv) => .returned (s.ret rv) s.log s.engine

/-! ## What a call should do -/

def logPairs (log : List Submitted) : List (U64 × U64) :=
  log.flatMap fun submitted => submitted.descs.flatMap XdmaDesc.bytePairs

/-- The transfers move the bytes of the scatter list in order, each to its endpoint address,
and the result accounts for the transfers that completed. -/
structure CopyCorrect (dir : Direction) (epAddr : U64) (sgl : List Extent)
    (outcomes : Nat → Outcome) (ret : Int) (log : List Submitted) : Prop where
  pairs : logPairs log <+: copyPairs dir epAddr (hostBytes sgl)
  asked : log.map Submitted.outcome = (List.range log.length).map outcomes
  verdict :
    ((∀ submitted ∈ log, submitted.outcome.Completed) ∧
        logPairs log = copyPairs dir epAddr (hostBytes sgl) ∧ ret = byteCount sgl) ∨
      ∃ before last, log = before ++ [last] ∧
        (∀ submitted ∈ before, submitted.outcome.Completed) ∧ ¬ last.outcome.Completed ∧
        ret = if 0 < (logPairs before).length then ((logPairs before).length : Int)
          else last.outcome.rv

def XferSubmit.Copies (dir : Direction) (epAddr : U64) (sgl : List Extent)
    (outcomes : Nat → Outcome) : XferSubmit → Prop
  | .returned ret log _ => CopyCorrect dir epAddr sgl outcomes ret log
  | _ => False

/-! ## The loop invariant -/

/-- Between two rounds: the first `swDescIdx` software descriptors have been moved by
completed transfers, and the running endpoint address and byte count stand right after them. -/
structure Progress (dir : Direction) (epAddr : U64) (sdesc : List Extent)
    (outcomes : Nat → Outcome) (s : SubmitState) : Prop where
  mm : MemoryMapped s.engine
  direction : s.engine.dir = dir
  request : s.req.WellFormed
  array : s.req.sdesc = sdesc
  rest : s.nents = s.req.swDescCnt - s.req.swDescIdx
  endpoint : s.req.epAddr =
    epAddr + BitVec.ofNat 64 (byteCount (sdesc.take s.req.swDescIdx))
  moved : logPairs s.log = copyPairs dir epAddr (hostBytes (sdesc.take s.req.swDescIdx))
  completed : ∀ submitted ∈ s.log, submitted.outcome.Completed
  asked : s.log.map Submitted.outcome = (List.range s.log.length).map outcomes
  account : s.done = byteCount (sdesc.take s.req.swDescIdx)

private theorem byteCount_append (first second : List Extent) :
    byteCount (first ++ second) = byteCount first + byteCount second := by
  simp [byteCount]

theorem hostBytes_append (first second : List Extent) :
    hostBytes (first ++ second) = hostBytes first ++ hostBytes second := by
  simp [hostBytes]

private theorem byteCount_take_le (extents : List Extent) (n : Nat) :
    byteCount (extents.take n) ≤ byteCount extents := by
  have hsplit := byteCount_append (extents.take n) (extents.drop n)
  rw [List.take_append_drop] at hsplit
  omega

theorem logPairs_append (log : List Submitted) (submitted : Submitted) :
    logPairs (log ++ [submitted]) =
      logPairs log ++ submitted.descs.flatMap XdmaDesc.bytePairs := by
  simp [logPairs]

section Round

variable {dir : Direction} {epAddr : U64} {sdesc : List Extent} {outcomes : Nat → Outcome}
  {s : SubmitState}

namespace Progress

theorem more (progress : Progress dir epAddr sdesc outcomes s) (left : s.nents ≠ 0) :
    s.req.swDescIdx < s.req.swDescCnt := by
  have hrest := progress.rest
  have hcursor := progress.request.cursor
  omega

private theorem take_next (progress : Progress dir epAddr sdesc outcomes s) :
    sdesc.take (s.req.swDescIdx + transferCount s.engine s.req) =
      sdesc.take s.req.swDescIdx ++ transferChunk s.engine s.req := by
  rw [List.take_add, transferChunk, progress.array]

private theorem moved_next (progress : Progress dir epAddr sdesc outcomes s) (outcome : Outcome) :
    logPairs (s.log ++ [⟨transferDescs s.build.1.engine s.build.2, outcome⟩]) =
      copyPairs dir epAddr
        (hostBytes (sdesc.take (s.req.swDescIdx + transferCount s.engine s.req))) := by
  have hpairs := transferInit_pairs progress.mm progress.request
  rw [progress.endpoint, progress.direction, ← hostBytes_length] at hpairs
  rw [logPairs_append, progress.moved, progress.take_next, hostBytes_append, copyPairs_append]
  exact congrArg (_ ++ ·) hpairs

private theorem asked_next (progress : Progress dir epAddr sdesc outcomes s) {submitted : Submitted}
    (outcome : submitted.outcome = outcomes s.log.length) :
    (s.log ++ [submitted]).map Submitted.outcome =
      (List.range (s.log ++ [submitted]).length).map outcomes := by
  simp [progress.asked, outcome, List.range_succ]

private theorem len_next (progress : Progress dir epAddr sdesc outcomes s)
    (total : byteCount sdesc < 2 ^ 31) :
    s.build.2.len.toNat = byteCount (transferChunk s.engine s.req) := by
  have hlen : s.build.2.len = BitVec.ofNat 32 (byteCount (transferChunk s.engine s.req)) :=
    transferInit_len progress.mm
  have hle := byteCount_take_le sdesc (s.req.swDescIdx + transferCount s.engine s.req)
  rw [progress.take_next, byteCount_append] at hle
  rw [hlen, BitVec.toNat_ofNat, Nat.mod_eq_of_lt (by omega)]

private theorem settle_completed (progress : Progress dir epAddr sdesc outcomes s)
    (total : byteCount sdesc < 2 ^ 31) {written : Nat}
    (outcome : outcomes s.log.length = .completed written) :
    Progress dir epAddr sdesc outcomes (s.build.1.settle s.build.2 (.completed written)) := by
  have hstream : s.build.1.engine.streaming = false := progress.mm.mapped
  have hmm := transferInit_memoryMapped s.req progress.mm
  unfold SubmitState.settle
  rw [hstream]
  simp only [Bool.false_eq_true, false_and, if_false]
  constructor
  · exact ⟨hmm.mapped, hmm.incrementing, hmm.slot⟩
  · exact progress.direction
  · exact transferInit_wellFormed progress.mm.slot progress.request
  · exact progress.array
  · have hrest := progress.rest
    change s.nents - transferCount s.engine s.req =
      s.req.swDescCnt - ((s.req.swDescIdx + transferCount s.engine s.req : Nat) : Int)
    omega
  · have hep := transferInit_epAddr s.req progress.mm
    rw [progress.endpoint, BitVec.add_assoc, ← BitVec.ofNat_add, ← byteCount_append,
      ← progress.take_next] at hep
    exact hep
  · exact progress.moved_next _
  · intro submitted hmem
    rcases List.mem_append.mp hmem with hold | hnew
    · exact progress.completed submitted hold
    · rw [List.mem_singleton.mp hnew]
      trivial
  · exact progress.asked_next outcome.symm
  · have haccount := progress.account
    have hlen := progress.len_next total
    change s.done + s.build.2.len.toNat =
      byteCount (sdesc.take (s.req.swDescIdx + transferCount s.engine s.req))
    rw [progress.take_next, byteCount_append, hlen, haccount]
    rfl

theorem start {engine : XdmaEngine} (mm : MemoryMapped engine) (epAddr : U64)
    (sdesc : List Extent) (outcomes : Nat → Outcome) (totalLen : U32) :
    Progress engine.dir epAddr sdesc outcomes
      { engine
        req := { epAddr, totalLen, swDescIdx := 0, swDescCnt := sdesc.length, sdesc }
        nents := sdesc.length
        done := 0
        log := [] } where
  mm := mm
  direction := rfl
  request := ⟨rfl, Nat.zero_le _⟩
  array := rfl
  rest := by simp
  endpoint := by simp [byteCount]
  moved := by simp [logPairs, hostBytes, copyPairs]
  completed := by simp
  asked := rfl
  account := by simp [byteCount]

private theorem copyCorrect_done (progress : Progress dir epAddr sdesc outcomes s)
    (none_left : s.nents = 0) : CopyCorrect dir epAddr sdesc outcomes (s.ret 0) s.log := by
  have hrest := progress.rest
  have hcount := progress.request.count
  have hall : sdesc.take s.req.swDescIdx = sdesc := by
    apply List.take_of_length_le
    rw [← progress.array]
    omega
  have hmoved := progress.moved
  have haccount := progress.account
  rw [hall] at hmoved haccount
  refine ⟨hmoved ▸ List.prefix_rfl, progress.asked, .inl ⟨progress.completed, hmoved, ?_⟩⟩
  unfold SubmitState.ret
  split <;> omega

private theorem copyCorrect_stopped (progress : Progress dir epAddr sdesc outcomes s)
    (stopped : ¬ (outcomes s.log.length).Completed) :
    CopyCorrect dir epAddr sdesc outcomes (s.ret (outcomes s.log.length).rv)
      (s.log ++ [⟨transferDescs s.build.1.engine s.build.2, outcomes s.log.length⟩]) where
  pairs := by
    rw [progress.moved_next]
    have htake := List.take_append_drop
      (s.req.swDescIdx + transferCount s.engine s.req) sdesc
    conv_rhs => rw [← htake, hostBytes_append, copyPairs_append]
    exact List.prefix_append ..
  asked := progress.asked_next rfl
  verdict := by
    refine .inr ⟨s.log, _, rfl, progress.completed, stopped, ?_⟩
    have hlen : (logPairs s.log).length = byteCount (sdesc.take s.req.swDescIdx) := by
      rw [progress.moved, copyPairs_length, hostBytes_length]
    have haccount := progress.account
    rw [hlen]
    unfold SubmitState.ret
    split
    · rw [if_pos (by omega)]
      exact haccount
    · rw [if_neg (by omega)]

end Progress

theorem settle_req (xfer : XdmaTransfer) (outcome : Outcome) :
    (s.settle xfer outcome).req = s.req := by
  cases outcome with
  | completed written =>
      simp only [SubmitState.settle]
      split <;> rfl
  | failed => rfl
  | timedOut => rfl
  | refused => rfl

theorem settle_log (s : SubmitState) (xfer : XdmaTransfer) (outcome : Outcome) :
    (s.settle xfer outcome).log = s.log ++ [⟨transferDescs s.engine xfer, outcome⟩] := by
  cases outcome with
  | completed written =>
      simp only [SubmitState.settle]
      split <;> rfl
  | failed => rfl
  | timedOut => rfl
  | refused => rfl

private theorem settle_done {s : SubmitState} {outcome : Outcome} (xfer : XdmaTransfer)
    (stopped : ¬ outcome.Completed) : (s.settle xfer outcome).done = s.done := by
  cases outcome with
  | completed written => exact absurd trivial stopped
  | failed => rfl
  | timedOut => rfl
  | refused => rfl

theorem Outcome.Completed.exists_written {outcome : Outcome} (completed : outcome.Completed) :
    ∃ written, outcome = .completed written := by
  cases outcome with
  | completed written => exact ⟨written, rfl⟩
  | failed => cases completed
  | timedOut => cases completed
  | refused => cases completed

theorem Outcome.rv_neg {outcome : Outcome} (stopped : ¬ outcome.Completed) : outcome.rv < 0 := by
  cases outcome with
  | completed written => exact absurd trivial stopped
  | failed => decide
  | timedOut => decide
  | refused => decide

theorem submitLoop_stopped {fuel : Nat} (left : s.nents ≠ 0)
    (stopped : ¬ (outcomes s.log.length).Completed) :
    submitLoop outcomes (fuel + 1) s =
      some (s.build.1.settle s.build.2 (outcomes s.log.length), (outcomes s.log.length).rv) := by
  rw [submitLoop, if_neg left]
  exact if_pos (Outcome.rv_neg stopped)

theorem submitLoop_completed {fuel written : Nat} (left : s.nents ≠ 0)
    (outcome : outcomes s.log.length = .completed written) :
    submitLoop outcomes (fuel + 1) s =
      submitLoop outcomes fuel (s.build.1.settle s.build.2 (.completed written)) := by
  rw [submitLoop, if_neg left, outcome]
  exact if_neg (by simp [Outcome.rv])

/-- The loop ends within as many rounds as there are software descriptors. -/
private theorem submitLoop_copies (total : byteCount sdesc < 2 ^ 31) (fuel : Nat)
    (progress : Progress dir epAddr sdesc outcomes s) (enough : s.nents ≤ fuel) :
    ∃ last rv, submitLoop outcomes fuel s = some (last, rv) ∧
      CopyCorrect dir epAddr sdesc outcomes (last.ret rv) last.log := by
  induction fuel generalizing s with
  | zero =>
      have hcursor := progress.request.cursor
      have hrest := progress.rest
      have hnone : s.nents = 0 := by omega
      exact ⟨s, 0, by simp [submitLoop, hnone], progress.copyCorrect_done hnone⟩
  | succ fuel ih =>
      by_cases hleft : s.nents = 0
      · exact ⟨s, 0, by simp [submitLoop, hleft], progress.copyCorrect_done hleft⟩
      · by_cases hstopped : (outcomes s.log.length).Completed
        · obtain ⟨written, houtcome⟩ := hstopped.exists_written
          have hnext := progress.settle_completed total houtcome
          have hpos := transferCount_pos progress.mm.slot (progress.more hleft)
          have hnents := hnext.rest
          have hrest := progress.rest
          rw [settle_req] at hnents
          have hstep : s.build.1.req.swDescIdx =
              s.req.swDescIdx + transferCount s.engine s.req := rfl
          have hcnt : s.build.1.req.swDescCnt = s.req.swDescCnt := rfl
          rw [submitLoop_completed hleft houtcome]
          exact ih hnext (by omega)
        · refine ⟨_, _, submitLoop_stopped hleft hstopped, ?_⟩
          have hcorrect := progress.copyCorrect_stopped hstopped
          have hlog := settle_log s.build.1 s.build.2 (outcomes s.log.length)
          have hdone : (s.build.1.settle s.build.2 (outcomes s.log.length)).done = s.build.1.done :=
            settle_done s.build.2 hstopped
          rw [hlog]
          unfold SubmitState.ret at hcorrect ⊢
          rw [hdone]
          exact hcorrect

end Round

private theorem CopyCorrect.of_hostBytes {dir : Direction} {epAddr : U64} {sdesc sgl : List Extent}
    {outcomes : Nat → Outcome} {ret : Int} {log : List Submitted}
    (correct : CopyCorrect dir epAddr sdesc outcomes ret log)
    (same : hostBytes sdesc = hostBytes sgl) : CopyCorrect dir epAddr sgl outcomes ret log := by
  have hcount : byteCount sdesc = byteCount sgl := by
    rw [← hostBytes_length, same, hostBytes_length]
  obtain ⟨hpairs, hasked, hverdict⟩ := correct
  rw [same] at hpairs hverdict
  rw [hcount] at hverdict
  exact ⟨hpairs, hasked, hverdict⟩

private theorem not_copyCorrect_nil {dir : Direction} {epAddr : U64} {sgl : List Extent}
    {outcomes : Nat → Outcome} {ret : Int} (negative : ret < 0) :
    ¬ CopyCorrect dir epAddr sgl outcomes ret [] := by
  intro correct
  rcases correct.verdict with ⟨-, -, hret⟩ | ⟨before, last, hlog, -⟩
  · omega
  · simp at hlog

section Call

variable {alloc : U32 → Bool} {descBlenMax : U32} {engine : XdmaEngine} {sgl : List Extent}

theorem xdmaXferSubmit_eq (nonempty : sgl ≠ []) (epAddr : U64) (outcomes : Nat → Outcome) :
    xdmaXferSubmit alloc descBlenMax false engine engine.dir epAddr sgl outcomes =
      match xdmaInitRequest alloc descBlenMax sgl epAddr with
      | .null => .returned (-12) [] engine
      | .overrun => .overrun
      | .divideError => .divideError
      | .stuck => .hangs
      | .ready req =>
          match submitLoop outcomes req.swDescCnt
              { engine, req, nents := req.swDescCnt, done := 0, log := [] } with
          | none => .hangs
          | some (s, rv) => .returned (s.ret rv) s.log s.engine := by
  rw [xdmaXferSubmit, if_neg (by simp), if_neg (by simp), if_neg nonempty]

variable (limit : descBlenMax ≠ 0) (mapped : MappedSgl sgl)

include limit mapped

theorem copies_of_fits (mm : MemoryMapped engine) (epAddr : U64) (outcomes : Nat → Outcome)
    (fits : RequestFits descBlenMax sgl)
    (room : alloc (requestSize (BitVec.ofNat 32 (descsCounted descBlenMax sgl))) = true) :
    (xdmaXferSubmit alloc descBlenMax false engine engine.dir epAddr sgl outcomes).Copies
      engine.dir epAddr sgl outcomes := by
  obtain ⟨sdesc, hbytes, -, hready⟩ := xdmaInitRequest_of_fits limit mapped epAddr fits room
  have htotal : byteCount sdesc < 2 ^ 31 := by
    rw [← hostBytes_length, hbytes, hostBytes_length]
    exact mapped.total
  rw [xdmaXferSubmit_eq mapped.nonempty, hready]
  obtain ⟨last, rv, hloop, hcorrect⟩ := submitLoop_copies htotal sdesc.length
    (Progress.start mm epAddr sdesc outcomes (sgl.foldl (fun total sg => total + sg.len) 0))
    le_rfl
  simp only [hloop]
  exact hcorrect.of_hostBytes hbytes

private theorem not_copies_of_not_fits (epAddr : U64) (outcomes : Nat → Outcome)
    (unfit : ¬ (RequestFits descBlenMax sgl ∧
      alloc (requestSize (BitVec.ofNat 32 (descsCounted descBlenMax sgl))) = true)) :
    ¬ (xdmaXferSubmit alloc descBlenMax false engine engine.dir epAddr sgl outcomes).Copies
      engine.dir epAddr sgl outcomes := by
  rw [xdmaXferSubmit_eq mapped.nonempty]
  rcases xdmaInitRequest_of_not_fits limit mapped epAddr unfit with hnull | hover
  · rw [hnull]
    exact not_copyCorrect_nil (by decide)
  · rw [hover]
    exact id

end Call

/-- The call copies the scatter list as its outcomes allow exactly when the request's size,
computed in 32 bits, covers the request, and memory for it is found. -/
theorem xdmaXferSubmit_copies_iff (alloc : U32 → Bool) (descBlenMax : U32)
    (engine : XdmaEngine) (epAddr : U64) (sgl : List Extent) (outcomes : Nat → Outcome)
    (limit : descBlenMax ≠ 0) (mm : MemoryMapped engine) (mapped : MappedSgl sgl) :
    (xdmaXferSubmit alloc descBlenMax false engine engine.dir epAddr sgl outcomes).Copies
        engine.dir epAddr sgl outcomes ↔
      RequestFits descBlenMax sgl ∧
        alloc (requestSize (BitVec.ofNat 32 (descsCounted descBlenMax sgl))) = true := by
  constructor
  · intro copies
    by_contra unfit
    exact not_copies_of_not_fits limit mapped epAddr outcomes unfit copies
  · rintro ⟨fits, room⟩
    exact copies_of_fits limit mapped mm epAddr outcomes fits room

def idleEngine (dir : Direction) (descIdx : Nat) : XdmaEngine where
  dir := dir
  streaming := false
  nonIncrAddr := false
  eopFlush := false
  descMax := 0x800
  descBus := 0x10000
  cyclicResultBus := 0
  desc := fun _ => .zero
  descIdx := descIdx
  descUsed := 0
  running := false
  shutdown := ⟨false, false⟩
  descDequeued := 0
  status := 0
  regs := ⟨0, 0, 0, 0, 0, 0⟩
  transferList := []
  tfer := fun _ =>
    { serial := 0, descVirt := 0, descBus := 0, resBus := 0, descAdjacent := 0, descNum := 0,
      descIndex := 0, descCmpl := 0, descCmplTh := 0, dir := dir, state := .new,
      eopRcved := false, cyclic := false, lastInRequest := false, len := 0 }

theorem idleEngine_memoryMapped (dir : Direction) {descIdx : Nat} (h : descIdx < 0x800) :
    MemoryMapped (idleEngine dir descIdx) :=
  ⟨rfl, rfl, h⟩

theorem copies_across_ring_end :
    let sgl : List Extent := [⟨0x7000, 0x600⟩, ⟨0x9000, 0⟩, ⟨0xffffffff00, 0x40⟩]
    let outcomes : Nat → Outcome := fun m => if m = 0 then .completed 0 else .failed
    let engine := idleEngine .toDevice 0x7ff
    (xdmaXferSubmit (fun _ => true) 0xfffffff false engine engine.dir 0x2000 sgl outcomes).Copies
      engine.dir 0x2000 sgl outcomes :=
  (xdmaXferSubmit_copies_iff (fun _ => true) 0xfffffff (idleEngine .toDevice 0x7ff) 0x2000 _ _
    (by decide) (idleEngine_memoryMapped _ (by decide)) ⟨by simp, by decide, by decide⟩).mpr
    ⟨⟨by decide, by decide⟩, rfl⟩

/-- With one-byte descriptors a segment of `2 ^ 28` bytes asks for `2 ^ 28 + 1` array entries,
whose size wraps to 352 bytes. -/
theorem wrapped_request_not_copied :
    let sgl : List Extent := [⟨0x100000000, 0x10000000⟩]
    let engine := idleEngine .toDevice 0
    ¬ (xdmaXferSubmit (fun _ => true) 1 false engine engine.dir 0 sgl
        fun _ => .completed 0).Copies engine.dir 0 sgl fun _ => .completed 0 := by
  intro sgl engine
  have unfit : ¬ RequestFits 1 sgl := by
    rintro ⟨-, hsize⟩
    revert hsize
    decide
  exact not_copies_of_not_fits (by decide) ⟨by simp [sgl], by simp [sgl], by decide⟩ 0 _
    fun h => unfit h.1

end NupaNet.Xdma
