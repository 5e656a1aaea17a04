import NupaNet.Xdma.Submit

/-!
# The rounds of a call

A request is split into transfers by the room that the ring has before its end:
the first takes what is left behind `desc_idx`, each later one a whole ring.  So
the number of rounds is known from the number of descriptors, and the outcomes of
the rounds decide how the loop of `xdma_xfer_submit` ends.
-/

namespace NupaNet.Xdma

/-! ## How many transfers a request makes -/

/-- Transfers that `n` descriptors are split into when the first starts at slot `descIdx`. -/
def transferRounds (descMax descIdx n : Nat) : Nat :=
  if n = 0 then 0 else (n - (descMax - descIdx) + descMax - 1) / descMax + 1

private theorem transferRounds_zero (descMax descIdx : Nat) :
    transferRounds descMax descIdx 0 = 0 := rfl

theorem transferRounds_last {descMax descIdx n : Nat} (slot : descIdx < descMax) (some : n ≠ 0)
    (fits : n ≤ descMax - descIdx) : transferRounds descMax descIdx n = 1 := by
  have hnone : n - (descMax - descIdx) + descMax - 1 < descMax := by omega
  rw [transferRounds, if_neg some, Nat.div_eq_of_lt hnone]

private theorem transferRounds_more {descMax descIdx n : Nat} (slot : descIdx < descMax)
    (more : descMax - descIdx < n) :
    transferRounds descMax descIdx n =
      transferRounds descMax 0 (n - (descMax - descIdx)) + 1 := by
  have hn : n ≠ 0 := by omega
  obtain ⟨rest, hrest, hpos⟩ : ∃ rest, n - (descMax - descIdx) = rest ∧ 0 < rest :=
    ⟨_, rfl, by omega⟩
  rw [transferRounds, transferRounds, hrest, if_neg hn, if_neg (by omega), Nat.sub_zero]
  congr 1
  by_cases hfew : rest ≤ descMax
  · have hone : (rest + descMax - 1) / descMax = 1 :=
      Nat.div_eq_of_lt_le (by omega) (by omega)
    rw [hone, Nat.div_eq_of_lt (by omega)]
  · have hsplit : rest + descMax - 1 = rest - descMax + descMax - 1 + descMax := by omega
    rw [hsplit, Nat.add_div_right _ (by omega)]

theorem transferCount_eq {engine : XdmaEngine} (req : XdmaRequestCb)
    (slot : engine.descIdx < engine.descMax) :
    transferCount engine req =
      min (req.swDescCnt - req.swDescIdx) (engine.descMax - engine.descIdx) := by
  unfold transferCount
  simp only
  split <;> omega

/-! ## Between two rounds -/

/-- A stream that may end before its buffer does. -/
def XdmaEngine.endsEarly (engine : XdmaEngine) : Bool :=
  engine.streaming && engine.dir == .fromDevice && engine.eopFlush

structure LoopVars (s : SubmitState) : Prop where
  cursor : s.req.swDescIdx ≤ s.req.swDescCnt
  rest : s.nents = 0 ∨ s.nents = ((s.req.swDescCnt - s.req.swDescIdx : Nat) : Int)

theorem LoopVars.more {s : SubmitState} (h : LoopVars s) (left : s.nents ≠ 0) :
    s.req.swDescIdx < s.req.swDescCnt := by
  have hcursor := h.cursor
  rcases h.rest with hnone | hrest
  · exact absurd hnone left
  · omega

theorem LoopVars.build {s : SubmitState} (h : LoopVars s)
    (slot : s.engine.descIdx < s.engine.descMax) (left : s.nents ≠ 0) : LoopVars s.build.1 := by
  have hcursor := h.cursor
  have hrest := h.rest.resolve_left left
  have hle := transferCount_le s.req slot
  refine ⟨?_, .inr ?_⟩
  · change s.req.swDescIdx + transferCount s.engine s.req ≤ s.req.swDescCnt
    omega
  · change s.nents - (transferCount s.engine s.req : Int) =
      ((s.req.swDescCnt - (s.req.swDescIdx + transferCount s.engine s.req) : Nat) : Int)
    omega

theorem LoopVars.settle {s : SubmitState} (h : LoopVars s) (xfer : XdmaTransfer)
    (outcome : Outcome) : LoopVars (s.settle xfer outcome) := by
  refine ⟨?_, ?_⟩
  · rw [settle_req]
    exact h.cursor
  · rw [settle_req]
    cases outcome with
    | completed written =>
        simp only [SubmitState.settle]
        split
        · simp only
          split
          · exact .inl rfl
          · exact h.rest
        · exact h.rest
    | failed => exact h.rest
    | timedOut => exact h.rest
    | refused => exact h.rest

structure RoundReady (s : SubmitState) : Prop where
  slot : s.engine.descIdx < s.engine.descMax
  cursor : s.req.swDescIdx ≤ s.req.swDescCnt
  rest : s.nents = ((s.req.swDescCnt - s.req.swDescIdx : Nat) : Int)

def SubmitState.roundsLeft (s : SubmitState) : Nat :=
  transferRounds s.engine.descMax s.engine.descIdx (s.req.swDescCnt - s.req.swDescIdx)

namespace RoundReady

variable {s : SubmitState}

theorem settled_engine (s : SubmitState) (written : Nat) :
    let engine := (s.build.1.settle s.build.2 (.completed written)).engine
    engine.descMax = s.engine.descMax ∧ engine.endsEarly = s.engine.endsEarly ∧
      engine.descIdx = (s.engine.descIdx + transferCount s.engine s.req) % s.engine.descMax := by
  simp only [SubmitState.settle]
  split <;> exact ⟨rfl, rfl, rfl⟩

theorem settled_nents (s : SubmitState) (written : Nat) :
    (s.build.1.settle s.build.2 (.completed written)).nents =
      if s.engine.endsEarly then 0 else s.nents - transferCount s.engine s.req := by
  have hends : s.build.1.engine.endsEarly = s.engine.endsEarly := rfl
  have hnents : s.build.1.nents = s.nents - transferCount s.engine s.req := rfl
  rw [← hends, ← hnents]
  simp only [SubmitState.settle]
  split
  · next hstream => simp [XdmaEngine.endsEarly, hstream.1, hstream.2]
  · next hstream =>
      have hno : s.build.1.engine.endsEarly = false := by
        by_contra hends
        rw [Bool.not_eq_false, XdmaEngine.endsEarly, Bool.and_eq_true, Bool.and_eq_true,
          beq_iff_eq] at hends
        exact hstream hends.1
      rw [hno]
      rfl

theorem settled_log (s : SubmitState) (written : Nat) :
    (s.build.1.settle s.build.2 (.completed written)).log.length = s.log.length + 1 := by
  have hlog : s.build.1.log = s.log := rfl
  rw [settle_log, hlog, List.length_append]
  rfl

private theorem count_le (ready : RoundReady s) :
    transferCount s.engine s.req ≤ s.req.swDescCnt - s.req.swDescIdx :=
  transferCount_le s.req ready.slot

theorem roundsLeft_zero (ready : RoundReady s) (none_left : s.nents = 0) : s.roundsLeft = 0 := by
  have hrest := ready.rest
  have hleft : s.req.swDescCnt - s.req.swDescIdx = 0 := by omega
  rw [SubmitState.roundsLeft, hleft, transferRounds_zero]

theorem lastInRequest_iff (ready : RoundReady s) :
    s.build.2.lastInRequest = true ↔
      s.req.swDescCnt - s.req.swDescIdx ≤ s.engine.descMax - s.engine.descIdx := by
  have hflag : s.build.2.lastInRequest =
      decide (s.nents - (transferCount s.engine s.req : Int) = 0) := rfl
  have hcount := transferCount_eq s.req ready.slot
  have hrest := ready.rest
  rw [hflag, decide_eq_true_iff]
  omega

theorem next (ready : RoundReady s) (written : Nat) (goes_on : s.engine.endsEarly = false) :
    RoundReady (s.build.1.settle s.build.2 (.completed written)) := by
  obtain ⟨hmax, -, hidx⟩ := settled_engine s written
  have hreq := settle_req (s := s.build.1) s.build.2 (.completed written)
  have hcursor : s.build.1.req.swDescIdx = s.req.swDescIdx + transferCount s.engine s.req := rfl
  have hcnt : s.build.1.req.swDescCnt = s.req.swDescCnt := rfl
  have hle := ready.count_le
  have hbound := ready.cursor
  constructor
  · rw [hidx, hmax]
    exact Nat.mod_lt _ (Nat.zero_lt_of_lt ready.slot)
  · rw [hreq, hcursor, hcnt]
    omega
  · rw [settled_nents, goes_on, hreq, hcursor, hcnt, ready.rest]
    simp only [Bool.false_eq_true, if_false]
    omega

private theorem roundsLeft_settled (ready : RoundReady s) (written : Nat)
    (more : s.engine.descMax - s.engine.descIdx < s.req.swDescCnt - s.req.swDescIdx) :
    (s.build.1.settle s.build.2 (.completed written)).roundsLeft =
      transferRounds s.engine.descMax 0
        (s.req.swDescCnt - s.req.swDescIdx - (s.engine.descMax - s.engine.descIdx)) := by
  obtain ⟨hmax, -, hidx⟩ := settled_engine s written
  have hreq := settle_req (s := s.build.1) s.build.2 (.completed written)
  have hcount : transferCount s.engine s.req = s.engine.descMax - s.engine.descIdx := by
    rw [transferCount_eq s.req ready.slot]
    omega
  have hwrap : (s.engine.descIdx + transferCount s.engine s.req) % s.engine.descMax = 0 := by
    rw [hcount, Nat.add_sub_cancel' ready.slot.le, Nat.mod_self]
  have hleft : s.build.1.req.swDescCnt - s.build.1.req.swDescIdx =
      s.req.swDescCnt - s.req.swDescIdx - (s.engine.descMax - s.engine.descIdx) := by
    change s.req.swDescCnt - (s.req.swDescIdx + transferCount s.engine s.req) = _
    omega
  rw [SubmitState.roundsLeft, hmax, hidx, hwrap, hreq, hleft]

theorem roundsLeft_next (ready : RoundReady s) (written : Nat)
    (more : s.engine.descMax - s.engine.descIdx < s.req.swDescCnt - s.req.swDescIdx) :
    (s.build.1.settle s.build.2 (.completed written)).roundsLeft ≠ 0 ∧
      s.roundsLeft = (s.build.1.settle s.build.2 (.completed written)).roundsLeft + 1 := by
  rw [ready.roundsLeft_settled written more]
  refine ⟨?_, transferRounds_more ready.slot more⟩
  rw [transferRounds, if_neg (by omega)]
  exact Nat.succ_ne_zero _

private theorem roundsLeft_succ (ready : RoundReady s) (written : Nat) (left : s.nents ≠ 0) :
    s.roundsLeft = (s.build.1.settle s.build.2 (.completed written)).roundsLeft + 1 := by
  have hrest := ready.rest
  by_cases hfits : s.req.swDescCnt - s.req.swDescIdx ≤ s.engine.descMax - s.engine.descIdx
  · have hreq := settle_req (s := s.build.1) s.build.2 (.completed written)
    have hcount := transferCount_eq s.req ready.slot
    have hnone : s.build.1.req.swDescCnt - s.build.1.req.swDescIdx = 0 := by
      change s.req.swDescCnt - (s.req.swDescIdx + transferCount s.engine s.req) = 0
      omega
    rw [SubmitState.roundsLeft, transferRounds_last ready.slot (by omega) hfits,
      SubmitState.roundsLeft, hreq, hnone, transferRounds_zero]
  · exact (ready.roundsLeft_next written (by omega)).2

end RoundReady

/-! ## How the loop ends -/

section Loop

variable {outcomes : Nat → Outcome} {s : SubmitState}

private theorem submitLoop_invariant {P : SubmitState → Prop}
    (keep : ∀ {s outcome}, P s → s.nents ≠ 0 → P (s.build.1.settle s.build.2 outcome))
    {fuel : Nat} {last : SubmitState} {rv : Int} (start : P s)
    (h : submitLoop outcomes fuel s = some (last, rv)) : P last := by
  induction fuel generalizing s with
  | zero =>
      unfold submitLoop at h
      split at h
      · cases h
        exact start
      · cases h
  | succ fuel ih =>
      by_cases hnone : s.nents = 0
      · rw [submitLoop, if_pos hnone] at h
        cases h
        exact start
      · by_cases hcompleted : (outcomes s.log.length).Completed
        · obtain ⟨written, houtcome⟩ := hcompleted.exists_written
          rw [submitLoop_completed hnone houtcome] at h
          exact ih (keep start hnone) h
        · rw [submitLoop_stopped hnone hcompleted] at h
          cases h
          exact keep start hnone

/-- Either every round completes, or the log ends with the first that does not. -/
private theorem submitLoop_rounds (fuel : Nat) (ready : RoundReady s)
    (goes_on : s.engine.endsEarly = false) (enough : s.nents ≤ fuel) :
    ∃ last rv, submitLoop outcomes fuel s = some (last, rv) ∧
      ((∀ i < s.roundsLeft, (outcomes (s.log.length + i)).Completed) ∧
          last.log.length = s.log.length + s.roundsLeft ∨
        ∃ i < s.roundsLeft, ¬ (outcomes (s.log.length + i)).Completed ∧
          last.log.length = s.log.length + i + 1) := by
  induction fuel generalizing s with
  | zero =>
      have hrest := ready.rest
      have hnone : s.nents = 0 := by omega
      have hrounds := ready.roundsLeft_zero hnone
      refine ⟨s, 0, by simp [submitLoop, hnone], .inl ⟨fun i hi => ?_, by omega⟩⟩
      omega
  | succ fuel ih =>
      by_cases hnone : s.nents = 0
      · have hrounds := ready.roundsLeft_zero hnone
        refine ⟨s, 0, by simp [submitLoop, hnone], .inl ⟨fun i hi => ?_, by omega⟩⟩
        omega
      by_cases hcompleted : (outcomes s.log.length).Completed
      · obtain ⟨written, houtcome⟩ := hcompleted.exists_written
        have hrest := ready.rest
        have hpos := transferCount_pos ready.slot (by omega : s.req.swDescIdx < s.req.swDescCnt)
        have hnents := RoundReady.settled_nents s written
        simp only [goes_on, Bool.false_eq_true, if_false] at hnents
        have hrounds := ready.roundsLeft_succ written hnone
        have hlog := RoundReady.settled_log s written
        obtain ⟨last, rv, hloop, hend⟩ := ih (ready.next written goes_on)
          ((RoundReady.settled_engine s written).2.1.trans goes_on) (by omega)
        refine ⟨last, rv, (submitLoop_completed hnone houtcome).trans hloop, ?_⟩
        rw [hlog] at hend
        rcases hend with ⟨hall, hlength⟩ | ⟨i, hi, hstopped, hlength⟩
        · refine .inl ⟨fun i hi => ?_, by omega⟩
          cases i with
          | zero => exact hcompleted
          | succ i =>
              have hlater := hall i (by omega)
              rwa [show s.log.length + 1 + i = s.log.length + (i + 1) by omega] at hlater
        · refine .inr ⟨i + 1, by omega, ?_, by omega⟩
          rwa [show s.log.length + 1 + i = s.log.length + (i + 1) by omega] at hstopped
      · have hrounds := ready.roundsLeft_succ 0 hnone
        refine ⟨_, _, submitLoop_stopped hnone hcompleted, .inr ⟨0, by omega, hcompleted, ?_⟩⟩
        rw [settle_log, List.length_append]
        rfl

structure NonemptyLog (s : SubmitState) : Prop where
  mm : MemoryMapped s.engine
  request : s.req.WellFormed
  pieces : ∀ piece ∈ s.req.sdesc, piece.len ≠ 0
  loop : LoopVars s
  log : ∀ submitted ∈ s.log, submitted.descs.flatMap XdmaDesc.bytePairs ≠ []

private theorem settle_memoryMapped {s : SubmitState} (mm : MemoryMapped s.engine)
    (xfer : XdmaTransfer)
    (outcome : Outcome) : MemoryMapped (s.settle xfer outcome).engine := by
  cases outcome with
  | completed written =>
      simp only [SubmitState.settle]
      split <;> exact ⟨mm.mapped, mm.incrementing, mm.slot⟩
  | failed => exact ⟨mm.mapped, mm.incrementing, mm.slot⟩
  | timedOut => exact ⟨mm.mapped, mm.incrementing, mm.slot⟩
  | refused => exact mm

theorem NonemptyLog.round {s : SubmitState} (h : NonemptyLog s) (left : s.nents ≠ 0)
    (outcome : Outcome) : NonemptyLog (s.build.1.settle s.build.2 outcome) := by
  have hreq := settle_req (s := s.build.1) s.build.2 outcome
  refine ⟨?_, ?_, ?_, ?_, ?_⟩
  · exact settle_memoryMapped (transferInit_memoryMapped s.req h.mm) _ _
  · rw [hreq]
    exact transferInit_wellFormed h.mm.slot h.request
  · rw [hreq]
    exact h.pieces
  · exact (h.loop.build h.mm.slot left).settle _ _
  · rw [settle_log]
    intro submitted hmem
    rcases List.mem_append.mp hmem with hold | hnew
    · exact h.log submitted hold
    · rw [List.mem_singleton.mp hnew]
      have hpairs : (transferDescs s.build.1.engine s.build.2).flatMap XdmaDesc.bytePairs =
          copyPairs s.engine.dir s.req.epAddr (hostBytes (transferChunk s.engine s.req)) :=
        transferInit_pairs h.mm h.request
      have hlength := transferChunk_length h.mm.slot h.request
      have hpos := transferCount_pos h.mm.slot (h.loop.more left)
      obtain ⟨piece, hpiece⟩ : ∃ piece, piece ∈ transferChunk s.engine s.req :=
        List.exists_mem_of_length_pos (by omega)
      have hbyte := toNat_pos (h.pieces piece (List.mem_of_mem_drop (List.mem_of_mem_take hpiece)))
      intro hnone
      have hcount := congrArg List.length (hpairs.symm.trans hnone)
      rw [copyPairs_length, hostBytes_length, List.length_nil] at hcount
      have hle : piece.len.toNat ≤ byteCount (transferChunk s.engine s.req) :=
        List.single_le_sum (by simp) _ (List.mem_map_of_mem hpiece)
      omega

end Loop

/-- The log of a call whose request is built: it copies as the outcomes allow, each of its
transfers moves something, and it is as long as the rounds that were reached. -/
theorem xdmaXferSubmit_log {alloc : U32 → Bool} {descBlenMax : U32} {engine : XdmaEngine}
    {sgl : List Extent} (limit : descBlenMax ≠ 0) (mapped : MappedSgl sgl)
    (mm : MemoryMapped engine) (epAddr : U64) (outcomes : Nat → Outcome)
    (fits : RequestFits descBlenMax sgl)
    (room : alloc (requestSize (BitVec.ofNat 32 (descsCounted descBlenMax sgl))) = true) :
    let rounds := transferRounds engine.descMax engine.descIdx (descsNeeded descBlenMax sgl)
    ∃ ret log engine', xdmaXferSubmit alloc descBlenMax false engine engine.dir epAddr sgl
        outcomes = .returned ret log engine' ∧
      CopyCorrect engine.dir epAddr sgl outcomes ret log ∧
      (∀ submitted ∈ log, submitted.descs.flatMap XdmaDesc.bytePairs ≠ []) ∧
      ((∀ i < rounds, (outcomes i).Completed) ∧ log.length = rounds ∨
        ∃ i < rounds, ¬ (outcomes i).Completed ∧ log.length = i + 1) := by
  intro rounds
  have hcopies := copies_of_fits limit mapped mm epAddr outcomes fits room
  obtain ⟨sdesc, -, hcount, hready⟩ := xdmaInitRequest_of_fits limit mapped epAddr fits room
  have hpieces := splitSegments_nonempty limit (swDescCnt_of_ready hready).2.2
  have hgoes : engine.endsEarly = false := by simp [XdmaEngine.endsEarly, mm.mapped]
  rw [xdmaXferSubmit_eq mapped.nonempty, hready] at hcopies ⊢
  simp only at hcopies ⊢
  obtain ⟨last, rv, hloop, hend⟩ : ∃ last rv, submitLoop outcomes sdesc.length
      { engine
        req := { epAddr, totalLen := sgl.foldl (fun total sg => total + sg.len) 0
                 swDescIdx := 0, swDescCnt := sdesc.length, sdesc }
        nents := sdesc.length, done := 0, log := [] } = some (last, rv) ∧ _ :=
    submitLoop_rounds sdesc.length ⟨mm.slot, Nat.zero_le _, rfl⟩ hgoes le_rfl
  rw [hloop] at hcopies ⊢
  refine ⟨_, _, _, rfl, hcopies, ?_, ?_⟩
  · exact (submitLoop_invariant (P := NonemptyLog) (fun h left => h.round left _)
      ⟨mm, ⟨rfl, Nat.zero_le _⟩, hpieces, ⟨Nat.zero_le _, .inr rfl⟩, by simp⟩ hloop).log
  · simp only [SubmitState.roundsLeft, List.length_nil, Nat.zero_add, Nat.sub_zero, hcount] at hend
    exact hend

section Call

variable {alloc : U32 → Bool} {descBlenMax : U32} {offline : Bool} {engine : XdmaEngine}
  {sgl : List Extent} {epAddr : U64} {outcomes : Nat → Outcome}

theorem log_of_no_descs {ret : Int} {log : List Submitted} {engine' : XdmaEngine}
    (none_needed : descsNeeded descBlenMax sgl = 0)
    (h : xdmaXferSubmit alloc descBlenMax offline engine engine.dir epAddr sgl outcomes =
      .returned ret log engine') : log = [] := by
  unfold xdmaXferSubmit at h
  split at h
  · cases h
    rfl
  split at h
  · cases h
    rfl
  split at h
  · cases h
    rfl
  cases hreq : xdmaInitRequest alloc descBlenMax sgl epAddr with
  | null =>
      simp only [hreq] at h
      cases h
      rfl
  | overrun | divideError | stuck => simp [hreq] at h
  | ready req =>
      have hcount : req.swDescCnt = 0 := (swDescCnt_of_ready hreq).2.1.trans none_needed
      simp only [hreq, hcount] at h
      rw [submitLoop, if_pos (by simp)] at h
      cases h
      rfl

/-- The call comes back unless the request faults or never ends. -/
theorem xdmaXferSubmit_returns_iff (mm : MemoryMapped engine) :
    (∃ ret log engine', xdmaXferSubmit alloc descBlenMax offline engine engine.dir epAddr sgl
        outcomes = .returned ret log engine') ↔
      (offline = false → sgl ≠ [] → xdmaInitRequest alloc descBlenMax sgl epAddr = .null ∨
        ∃ req, xdmaInitRequest alloc descBlenMax sgl epAddr = .ready req) := by
  cases offline with
  | true =>
      have hcall : xdmaXferSubmit alloc descBlenMax true engine engine.dir epAddr sgl outcomes =
          .returned (-16) [] engine := if_pos rfl
      exact iff_of_true ⟨_, _, _, hcall⟩ (fun h => by cases h)
  | false =>
      rw [forall_prop_of_true rfl]
      by_cases hsome : sgl = []
      · have hcall : xdmaXferSubmit alloc descBlenMax false engine engine.dir epAddr sgl
            outcomes = .returned (-5) [] engine := by
          rw [xdmaXferSubmit, if_neg (by simp), if_neg (by simp), if_pos hsome]
        exact iff_of_true ⟨_, _, _, hcall⟩ (fun h => absurd hsome h)
      · rw [forall_prop_of_true hsome, xdmaXferSubmit_eq hsome]
        cases hreq : xdmaInitRequest alloc descBlenMax sgl epAddr with
        | null => simp
        | overrun | divideError | stuck => simp
        | ready req =>
            obtain ⟨hfresh, -, -⟩ := swDescCnt_of_ready hreq
            have hgoes : engine.endsEarly = false := by simp [XdmaEngine.endsEarly, mm.mapped]
            obtain ⟨last, rv, hloop, -⟩ : ∃ last rv, submitLoop outcomes req.swDescCnt
                { engine, req, nents := req.swDescCnt, done := 0, log := [] } =
                  some (last, rv) ∧ _ :=
              submitLoop_rounds req.swDescCnt ⟨mm.slot, by simp [hfresh], by simp [hfresh]⟩ hgoes
                le_rfl
            simp [hloop]

end Call

end NupaNet.Xdma
