import NupaNet.Xdma.Rounds

/-!
# The mapping of the scatter table

`xdma_xfer_submit` maps the table of a caller that has not mapped it.  Two places
unmap it again, `transfer_destroy` for the last transfer of the request and the
`unmap_sgl` exit, and each clears `sgt->nents` so that the other keeps off.  They
pass different counts: the exit passes `orig_nents`, `transfer_destroy` the number
of entries the mapping came back with.
-/

namespace NupaNet.Xdma

/-! ## The calls to the DMA API -/

inductive MapCall
  | map (count : Nat)
  | unmap (count : Nat)
deriving DecidableEq, Repr

structure Mapping where
  nents : Nat
  calls : List MapCall
deriving DecidableEq, Repr

/-- `sgt->nents` is what the two places agree by. -/
def Mapping.unmapSg (dmaMapped : Bool) (count : Nat) (mapping : Mapping) : Mapping :=
  if dmaMapped = false ∧ mapping.nents ≠ 0 then ⟨0, mapping.calls ++ [.unmap count]⟩
  else mapping

/-- What the end of a round does to the table: a refused transfer is not destroyed. -/
def Mapping.settle (dmaMapped : Bool) (mapping : Mapping) (xfer : XdmaTransfer)
    (outcome : Outcome) : Mapping :=
  if outcome = .refused then mapping
  else if xfer.lastInRequest then mapping.unmapSg dmaMapped mapping.nents
  else mapping

def mappingLoop (dmaMapped : Bool) (outcomes : Nat → Outcome) :
    Nat → SubmitState → Mapping → Option ((SubmitState × Int) × Mapping)
  | fuel, s, mapping =>
      if s.nents = 0 then some ((s, 0), mapping)
      else
        match fuel with
        | 0 => none
        | fuel + 1 =>
            let outcome := outcomes s.log.length
            let built := s.build
            let settled := built.1.settle built.2 outcome
            let mapping := mapping.settle dmaMapped built.2 outcome
            if outcome.rv < 0 then some ((settled, outcome.rv), mapping)
            else mappingLoop dmaMapped outcomes fuel settled mapping

def Mapping.start (dmaMapped : Bool) (origNents : Nat) (sgl : List Extent) : Mapping where
  nents := sgl.length
  calls := if dmaMapped then [] else [.map origNents]

/-- `xdma_xfer_submit` with the calls to the DMA API; `sgl` is the table as the mapping leaves it,
by this call or by the caller, and is empty when it fails. -/
def xferSubmitMapping (alloc : U32 → Bool) (descBlenMax : U32) (offline : Bool)
    (engine : XdmaEngine) (dir : Direction) (epAddr : U64) (origNents : Nat) (sgl : List Extent)
    (dmaMapped : Bool) (outcomes : Nat → Outcome) : XferSubmit × List MapCall :=
  if offline then (.returned (-16) [] engine, [])
  else if engine.dir ≠ dir then (.returned (-22) [] engine, [])
  else if sgl = [] then (.returned (-5) [] engine, [])
  else
    let mapped := Mapping.start dmaMapped origNents sgl
    match xdmaInitRequest alloc descBlenMax sgl epAddr with
    | .null => (.returned (-12) [] engine, (mapped.unmapSg dmaMapped origNents).calls)
    | .overrun => (.overrun, mapped.calls)
    | .divideError => (.divideError, mapped.calls)
    | .stuck => (.hangs, mapped.calls)
    | .ready req =>
        match mappingLoop dmaMapped outcomes req.swDescCnt
            { engine, req, nents := req.swDescCnt, done := 0, log := [] } mapped with
        | none => (.hangs, mapped.calls)
        | some ((s, rv), mapping) =>
            (.returned (s.ret rv) s.log s.engine, (mapping.unmapSg dmaMapped origNents).calls)

private theorem mappingLoop_submitLoop (dmaMapped : Bool) (outcomes : Nat → Outcome) (fuel : Nat)
    (s : SubmitState) (mapping : Mapping) :
    (mappingLoop dmaMapped outcomes fuel s mapping).map Prod.fst = submitLoop outcomes fuel s := by
  induction fuel generalizing s mapping with
  | zero =>
      unfold mappingLoop submitLoop
      split <;> rfl
  | succ fuel ih =>
      unfold mappingLoop submitLoop
      split
      · rfl
      · simp only
        split
        · rfl
        · exact ih _ _

theorem xferSubmitMapping_submit (alloc : U32 → Bool) (descBlenMax : U32) (offline : Bool)
    (engine : XdmaEngine) (dir : Direction) (epAddr : U64) (origNents : Nat) (sgl : List Extent)
    (dmaMapped : Bool) (outcomes : Nat → Outcome) :
    (xferSubmitMapping alloc descBlenMax offline engine dir epAddr origNents sgl dmaMapped
        outcomes).1 =
      xdmaXferSubmit alloc descBlenMax offline engine dir epAddr sgl outcomes := by
  unfold xferSubmitMapping xdmaXferSubmit
  split
  · rfl
  split
  · rfl
  split
  · rfl
  cases xdmaInitRequest alloc descBlenMax sgl epAddr with
  | null => rfl
  | overrun => rfl
  | divideError => rfl
  | stuck => rfl
  | ready req =>
      simp only
      rw [← mappingLoop_submitLoop dmaMapped outcomes req.swDescCnt _
        (.start dmaMapped origNents sgl)]
      cases mappingLoop dmaMapped outcomes req.swDescCnt
        { engine, req, nents := req.swDescCnt, done := 0, log := [] }
        (.start dmaMapped origNents sgl) <;> rfl

/-! ## Where the last transfer is destroyed -/

structure LastDestroyed (outcomes : Nat → Outcome) (endsEarly : Bool) (first rounds : Nat) :
    Prop where
  some : rounds ≠ 0
  before : ∀ i, i + 1 < rounds → (outcomes (first + i)).Completed
  queued : outcomes (first + (rounds - 1)) ≠ .refused
  early : endsEarly = true → rounds = 1

section Rounds

variable {outcomes : Nat → Outcome} {endsEarly : Bool} {first rounds : Nat}

private theorem lastDestroyed_one :
    LastDestroyed outcomes endsEarly first 1 ↔ outcomes first ≠ .refused := by
  constructor
  · intro h
    exact h.queued
  · intro h
    exact ⟨Nat.one_ne_zero, fun i hi => absurd hi (by omega), h, fun _ => rfl⟩

private theorem lastDestroyed_succ (more : rounds ≠ 0) :
    LastDestroyed outcomes endsEarly first (rounds + 1) ↔
      (outcomes first).Completed ∧ endsEarly = false ∧
        LastDestroyed outcomes endsEarly (first + 1) rounds := by
  have hlast : first + (rounds + 1 - 1) = first + 1 + (rounds - 1) := by omega
  constructor
  · rintro ⟨-, hbefore, hqueued, hearly⟩
    have hends : endsEarly = false := by
      by_contra hends
      have := hearly (Bool.not_eq_false _ ▸ hends)
      omega
    refine ⟨hbefore 0 (by omega), hends, more, fun i hi => ?_, hlast ▸ hqueued, ?_⟩
    · have hnext := hbefore (i + 1) (by omega)
      rwa [show first + (i + 1) = first + 1 + i by omega] at hnext
    · rw [hends]
      exact fun h => by cases h
  · rintro ⟨hfirst, hends, -, hbefore, hqueued, -⟩
    refine ⟨by omega, fun i hi => ?_, hlast ▸ hqueued, ?_⟩
    · cases i with
      | zero => exact hfirst
      | succ i =>
          have hnext := hbefore i (by omega)
          rwa [show first + 1 + i = first + (i + 1) by omega] at hnext
    · rw [hends]
      exact fun h => by cases h

end Rounds

/-! ## What the loop leaves of the mapping -/

section Loop

variable {dmaMapped : Bool} {outcomes : Nat → Outcome} {s : SubmitState}

private theorem mappingLoop_done (fuel : Nat) (mapping : Mapping) (none_left : s.nents = 0) :
    mappingLoop dmaMapped outcomes fuel s mapping = some ((s, 0), mapping) := by
  unfold mappingLoop
  rw [if_pos none_left]

private theorem mappingLoop_stopped (fuel : Nat) (mapping : Mapping) (left : s.nents ≠ 0)
    (stopped : ¬ (outcomes s.log.length).Completed) :
    mappingLoop dmaMapped outcomes (fuel + 1) s mapping =
      some ((s.build.1.settle s.build.2 (outcomes s.log.length), (outcomes s.log.length).rv),
        mapping.settle dmaMapped s.build.2 (outcomes s.log.length)) := by
  unfold mappingLoop
  rw [if_neg left]
  exact if_pos (Outcome.rv_neg stopped)

private theorem mappingLoop_completed {written : Nat} (fuel : Nat) (mapping : Mapping)
    (left : s.nents ≠ 0) (outcome : outcomes s.log.length = .completed written) :
    mappingLoop dmaMapped outcomes (fuel + 1) s mapping =
      mappingLoop dmaMapped outcomes fuel (s.build.1.settle s.build.2 (.completed written))
        (mapping.settle dmaMapped s.build.2 (.completed written)) := by
  conv_lhs => unfold mappingLoop
  rw [if_neg left, outcome]
  exact if_neg (by simp [Outcome.rv])

private theorem mappingLoop_lastRound (fuel : Nat) (mapping : Mapping) (ready : RoundReady s)
    (left : s.nents ≠ 0)
    (fits : s.req.swDescCnt - s.req.swDescIdx ≤ s.engine.descMax - s.engine.descIdx) :
    ∃ last, mappingLoop dmaMapped outcomes (fuel + 1) s mapping =
      some (last, if outcomes s.log.length = .refused then mapping
        else mapping.unmapSg dmaMapped mapping.nents) := by
  have hlast := ready.lastInRequest_iff.mpr fits
  have hsettle : mapping.settle dmaMapped s.build.2 (outcomes s.log.length) =
      if outcomes s.log.length = .refused then mapping
      else mapping.unmapSg dmaMapped mapping.nents := by
    rw [Mapping.settle, if_pos hlast]
  by_cases hcompleted : (outcomes s.log.length).Completed
  · obtain ⟨written, houtcome⟩ := hcompleted.exists_written
    have hnone : (s.build.1.settle s.build.2 (.completed written)).nents = 0 := by
      have hcount := transferCount_eq s.req ready.slot
      have hrest := ready.rest
      rw [RoundReady.settled_nents]
      split
      · rfl
      · omega
    rw [mappingLoop_completed fuel mapping left houtcome, mappingLoop_done fuel _ hnone,
      ← houtcome, hsettle]
    exact ⟨_, rfl⟩
  · rw [mappingLoop_stopped fuel mapping left hcompleted, hsettle]
    exact ⟨_, rfl⟩

private theorem mappingLoop_earlierRound (dmaMapped : Bool) (outcomes : Nat → Outcome) (fuel : Nat)
    (mapping : Mapping) (ready : RoundReady s) (left : s.nents ≠ 0)
    (more : s.engine.descMax - s.engine.descIdx < s.req.swDescCnt - s.req.swDescIdx) :
    (∃ written, outcomes s.log.length = .completed written ∧ s.engine.endsEarly = false ∧
      mappingLoop dmaMapped outcomes (fuel + 1) s mapping =
        mappingLoop dmaMapped outcomes fuel
          (s.build.1.settle s.build.2 (.completed written)) mapping) ∨
    ((¬ (outcomes s.log.length).Completed ∨ s.engine.endsEarly = true) ∧
      ∃ last, mappingLoop dmaMapped outcomes (fuel + 1) s mapping = some (last, mapping)) := by
  have hlast : s.build.2.lastInRequest = false := by
    rw [Bool.eq_false_iff, Ne, ready.lastInRequest_iff]
    omega
  have hsettle : ∀ outcome, mapping.settle dmaMapped s.build.2 outcome = mapping := by
    intro outcome
    simp [Mapping.settle, hlast]
  by_cases hcompleted : (outcomes s.log.length).Completed
  · obtain ⟨written, houtcome⟩ := hcompleted.exists_written
    have hnext : mappingLoop dmaMapped outcomes (fuel + 1) s mapping =
        mappingLoop dmaMapped outcomes fuel
          (s.build.1.settle s.build.2 (.completed written)) mapping := by
      rw [mappingLoop_completed fuel mapping left houtcome, hsettle]
    cases hends : s.engine.endsEarly with
    | false => exact .inl ⟨written, houtcome, rfl, hnext⟩
    | true =>
        refine .inr ⟨.inr rfl, _, hnext.trans (mappingLoop_done fuel mapping ?_)⟩
        rw [RoundReady.settled_nents, hends]
        rfl
  · rw [mappingLoop_stopped fuel mapping left hcompleted, hsettle]
    exact .inr ⟨.inl hcompleted, _, rfl⟩

/-- `transfer_destroy` unmaps with the count that `sgt->nents` holds, for the last transfer only. -/
private theorem mappingLoop_spec (fuel : Nat) (mapping : Mapping) (ready : RoundReady s)
    (enough : s.nents ≤ fuel) :
    ∃ last after, mappingLoop dmaMapped outcomes fuel s mapping = some (last, after) ∧
      (LastDestroyed outcomes s.engine.endsEarly s.log.length s.roundsLeft →
        after = mapping.unmapSg dmaMapped mapping.nents) ∧
      (¬ LastDestroyed outcomes s.engine.endsEarly s.log.length s.roundsLeft →
        after = mapping) := by
  induction fuel generalizing s mapping with
  | zero =>
      have hrest := ready.rest
      have hnone : s.nents = 0 := by omega
      exact ⟨_, _, mappingLoop_done 0 mapping hnone,
        fun h => absurd (ready.roundsLeft_zero hnone) h.some, fun _ => rfl⟩
  | succ fuel ih =>
      have hrest := ready.rest
      by_cases hnone : s.nents = 0
      · exact ⟨_, _, mappingLoop_done _ mapping hnone,
          fun h => absurd (ready.roundsLeft_zero hnone) h.some, fun _ => rfl⟩
      by_cases hfits : s.req.swDescCnt - s.req.swDescIdx ≤ s.engine.descMax - s.engine.descIdx
      · have hrounds : s.roundsLeft = 1 := transferRounds_last ready.slot (by omega) hfits
        obtain ⟨last, hloop⟩ := mappingLoop_lastRound fuel mapping ready hnone hfits
        refine ⟨last, _, hloop, ?_, ?_⟩
        · rw [hrounds, lastDestroyed_one]
          exact fun hqueued => if_neg hqueued
        · rw [hrounds, lastDestroyed_one, not_not]
          exact fun hrefused => if_pos hrefused
      · have hmore : s.engine.descMax - s.engine.descIdx < s.req.swDescCnt - s.req.swDescIdx := by
          omega
        obtain ⟨written, houtcome, hends, hloop⟩ | ⟨hstops, last, hloop⟩ :=
          mappingLoop_earlierRound dmaMapped outcomes fuel mapping ready hnone hmore
        · have hcompleted : (outcomes s.log.length).Completed := by
            rw [houtcome]
            trivial
          have hnents := RoundReady.settled_nents s written
          have hpos := transferCount_pos ready.slot (by omega : s.req.swDescIdx < s.req.swDescCnt)
          rw [hends] at hnents
          simp only [Bool.false_eq_true, if_false] at hnents
          obtain ⟨last, after, hrun, hyes, hno⟩ :=
            ih mapping (ready.next written hends) (by omega)
          rw [RoundReady.settled_log, (RoundReady.settled_engine s written).2.1] at hyes hno
          obtain ⟨hsome, hrounds⟩ := ready.roundsLeft_next written hmore
          rw [hrounds, lastDestroyed_succ hsome]
          exact ⟨last, after, hloop.trans hrun, fun h => hyes h.2.2,
            fun h => hno fun hlast => h ⟨hcompleted, hends, hlast⟩⟩
        · refine ⟨last, mapping, hloop, ?_, fun _ => rfl⟩
          obtain ⟨hsome, hrounds⟩ := ready.roundsLeft_next 0 hmore
          rw [hrounds, lastDestroyed_succ hsome]
          rintro ⟨hcompleted, hends, -⟩
          rcases hstops with hstopped | hearly
          · exact absurd hcompleted hstopped
          · rw [hends] at hearly
            cases hearly

end Loop

/-! ## The balance of a call -/

def XferSubmit.Returns : XferSubmit → Prop
  | .returned _ _ _ => True
  | .overrun | .divideError | .hangs => False

/-- A table the call maps is unmapped once before it returns, with the count it was mapped with;
the table of a caller is never unmapped. -/
structure MappingBalanced (dmaMapped : Bool) (origNents : Nat) (out : XferSubmit × List MapCall) :
    Prop where
  mapped : .map origNents ∈ out.2 → out.1.Returns ∧ out.2 = [.map origNents, .unmap origNents]
  unmapped : .map origNents ∉ out.2 → out.2 = []
  caller : dmaMapped = true → out.2 = []

structure Admitted (offline : Bool) (engine : XdmaEngine) (dir : Direction) (sgl : List Extent) :
    Prop where
  online : offline = false
  direction : engine.dir = dir
  entries : sgl ≠ []

/-- Either `dma_map_sg` has merged nothing, or `transfer_destroy` does not come to the last
transfer of the `n` descriptors. -/
def ExitUnmaps (engine : XdmaEngine) (origNents n : Nat) (sgl : List Extent)
    (outcomes : Nat → Outcome) : Prop :=
  sgl.length = origNents ∨
    ¬ LastDestroyed outcomes engine.endsEarly 0 (transferRounds engine.descMax engine.descIdx n)

section Balance

variable {alloc : U32 → Bool} {descBlenMax : U32} {offline : Bool} {engine : XdmaEngine}
  {dir : Direction} {epAddr : U64} {origNents : Nat} {sgl : List Extent} {dmaMapped : Bool}
  {outcomes : Nat → Outcome}

private theorem xferSubmitMapping_refused (h : ¬ Admitted offline engine dir sgl) :
    (xferSubmitMapping alloc descBlenMax offline engine dir epAddr origNents sgl dmaMapped
      outcomes).2 = [] := by
  unfold xferSubmitMapping
  split
  · rfl
  next honline =>
    split
    · rfl
    next hdir =>
      split
      · rfl
      next hsome => exact absurd ⟨by simpa using honline, not_not.mp hdir, hsome⟩ h

private theorem xferSubmitMapping_admitted (admitted : Admitted offline engine dir sgl) :
    xferSubmitMapping alloc descBlenMax offline engine dir epAddr origNents sgl dmaMapped
        outcomes =
      match xdmaInitRequest alloc descBlenMax sgl epAddr with
      | .null => (.returned (-12) [] engine,
          ((Mapping.start dmaMapped origNents sgl).unmapSg dmaMapped origNents).calls)
      | .overrun => (.overrun, (Mapping.start dmaMapped origNents sgl).calls)
      | .divideError => (.divideError, (Mapping.start dmaMapped origNents sgl).calls)
      | .stuck => (.hangs, (Mapping.start dmaMapped origNents sgl).calls)
      | .ready req =>
          match mappingLoop dmaMapped outcomes req.swDescCnt
              { engine, req, nents := req.swDescCnt, done := 0, log := [] }
              (.start dmaMapped origNents sgl) with
          | none => (.hangs, (Mapping.start dmaMapped origNents sgl).calls)
          | some ((s, rv), mapping) =>
              (.returned (s.ret rv) s.log s.engine,
                (mapping.unmapSg dmaMapped origNents).calls) := by
  rw [xferSubmitMapping, if_neg (by simp [admitted.online]),
    if_neg (not_not.mpr admitted.direction), if_neg admitted.entries]

private theorem calls_of_ready (origNents : Nat) (dmaMapped : Bool) (outcomes : Nat → Outcome)
    (admitted : Admitted offline engine dir sgl)
    (slot : engine.descIdx < engine.descMax) {req : XdmaRequestCb}
    (built : xdmaInitRequest alloc descBlenMax sgl epAddr = .ready req) :
    let out := xferSubmitMapping alloc descBlenMax offline engine dir epAddr origNents sgl
      dmaMapped outcomes
    let start := Mapping.start dmaMapped origNents sgl
    let destroyed := LastDestroyed outcomes engine.endsEarly 0
      (transferRounds engine.descMax engine.descIdx (descsNeeded descBlenMax sgl))
    out.1.Returns ∧
      (destroyed → out.2 =
        ((start.unmapSg dmaMapped start.nents).unmapSg dmaMapped origNents).calls) ∧
      (¬ destroyed → out.2 = (start.unmapSg dmaMapped origNents).calls) := by
  obtain ⟨hfresh, hcount, -⟩ := swDescCnt_of_ready built
  have hrounds : transferRounds engine.descMax engine.descIdx (descsNeeded descBlenMax sgl) =
      SubmitState.roundsLeft
        { engine, req, nents := req.swDescCnt, done := 0, log := [] } := by
    rw [SubmitState.roundsLeft, hfresh, hcount, Nat.sub_zero]
  obtain ⟨⟨s, rv⟩, after, hloop, hyes, hno⟩ : ∃ last after,
      mappingLoop dmaMapped outcomes req.swDescCnt
          { engine, req, nents := req.swDescCnt, done := 0, log := [] }
          (.start dmaMapped origNents sgl) = some (last, after) ∧ _ ∧ _ :=
    mappingLoop_spec req.swDescCnt (.start dmaMapped origNents sgl)
      ⟨slot, by simp [hfresh], by simp [hfresh]⟩ le_rfl
  simp only [xferSubmitMapping_admitted admitted, built, hloop, hrounds]
  refine ⟨trivial, fun h => ?_, fun h => ?_⟩
  · rw [hyes h]
  · rw [hno h]

private theorem unmapSg_caller (mapping : Mapping) (count : Nat) :
    mapping.unmapSg true count = mapping := by
  simp [Mapping.unmapSg]

private theorem start_unmapSg (entries : sgl ≠ []) (count : Nat) :
    (Mapping.start false origNents sgl).unmapSg false count =
      ⟨0, [.map origNents, .unmap count]⟩ := by
  have hlength : sgl.length ≠ 0 := by
    intro hnone
    exact entries (List.length_eq_zero_iff.mp hnone)
  simp [Mapping.unmapSg, Mapping.start, hlength]

private theorem calls_caller (slot : engine.descIdx < engine.descMax) :
    (xferSubmitMapping alloc descBlenMax offline engine dir epAddr origNents sgl true
      outcomes).2 = [] := by
  by_cases admitted : Admitted offline engine dir sgl
  · cases hreq : xdmaInitRequest alloc descBlenMax sgl epAddr with
    | ready req =>
        obtain ⟨-, hyes, hno⟩ := calls_of_ready origNents true outcomes admitted slot hreq
        simp only [unmapSg_caller] at hyes hno
        by_cases hdestroyed : LastDestroyed outcomes engine.endsEarly 0
            (transferRounds engine.descMax engine.descIdx (descsNeeded descBlenMax sgl))
        · exact hyes hdestroyed
        · exact hno hdestroyed
    | null => simp [xferSubmitMapping_admitted admitted, hreq, unmapSg_caller, Mapping.start]
    | overrun => simp [xferSubmitMapping_admitted admitted, hreq, Mapping.start]
    | divideError => simp [xferSubmitMapping_admitted admitted, hreq, Mapping.start]
    | stuck => simp [xferSubmitMapping_admitted admitted, hreq, Mapping.start]
  · exact xferSubmitMapping_refused admitted

private theorem balanced_of_nil {out : XferSubmit × List MapCall} (h : out.2 = []) :
    MappingBalanced dmaMapped origNents out :=
  ⟨fun hmapped => absurd (h ▸ hmapped) List.not_mem_nil, fun _ => h, fun _ => h⟩

private theorem balanced_of_unmap {out : XferSubmit × List MapCall} {count : Nat}
    (returns : out.1.Returns)
    (h : out.2 = [.map origNents, .unmap count]) :
    MappingBalanced false origNents out ↔ count = origNents := by
  constructor
  · intro balanced
    have hcalls := (balanced.mapped (by simp [h])).2
    simpa [h] using hcalls
  · rintro rfl
    exact ⟨fun _ => ⟨returns, h⟩, fun hnone => absurd (by simp [h]) hnone, fun hcaller => by cases hcaller⟩

private theorem not_balanced_of_fault {out : XferSubmit × List MapCall} (faults : ¬ out.1.Returns)
    (h : out.2 = [.map origNents]) : ¬ MappingBalanced dmaMapped origNents out :=
  fun balanced => faults (balanced.mapped (by simp [h])).1

end Balance

/-- The balance holds exactly when the call is turned away, or the table is the caller's, or the
request returns and the exit unmaps the table or would have passed the same count. -/
theorem xferSubmit_mapping_balanced_iff (alloc : U32 → Bool) (descBlenMax : U32) (offline : Bool)
    (engine : XdmaEngine) (dir : Direction) (epAddr : U64) (origNents : Nat) (sgl : List Extent)
    (dmaMapped : Bool) (outcomes : Nat → Outcome) (slot : engine.descIdx < engine.descMax) :
    MappingBalanced dmaMapped origNents
        (xferSubmitMapping alloc descBlenMax offline engine dir epAddr origNents sgl dmaMapped
          outcomes) ↔
      (dmaMapped = false → Admitted offline engine dir sgl →
        xdmaInitRequest alloc descBlenMax sgl epAddr = .null ∨
          (∃ req, xdmaInitRequest alloc descBlenMax sgl epAddr = .ready req) ∧
            ExitUnmaps engine origNents (descsNeeded descBlenMax sgl) sgl outcomes) := by
  cases dmaMapped with
  | true => exact iff_of_true (balanced_of_nil (calls_caller slot)) (fun h => by cases h)
  | false =>
      rw [forall_prop_of_true rfl]
      by_cases admitted : Admitted offline engine dir sgl
      · rw [forall_prop_of_true admitted]
        cases hreq : xdmaInitRequest alloc descBlenMax sgl epAddr with
        | null =>
            simp only [xferSubmitMapping_admitted admitted, hreq, start_unmapSg admitted.entries]
            refine iff_of_true ?_ (.inl trivial)
            refine (balanced_of_unmap ?_ rfl).mpr rfl
            trivial
        | overrun =>
            simp only [xferSubmitMapping_admitted admitted, hreq]
            exact iff_of_false (not_balanced_of_fault id rfl) (by simp)
        | divideError =>
            simp only [xferSubmitMapping_admitted admitted, hreq]
            exact iff_of_false (not_balanced_of_fault id rfl) (by simp)
        | stuck =>
            simp only [xferSubmitMapping_admitted admitted, hreq]
            exact iff_of_false (not_balanced_of_fault id rfl) (by simp)
        | ready req =>
            obtain ⟨hreturns, hyes, hno⟩ :=
              calls_of_ready origNents false outcomes admitted slot hreq
            simp only [start_unmapSg admitted.entries] at hyes hno
            by_cases hdestroyed : LastDestroyed outcomes engine.endsEarly 0
                (transferRounds engine.descMax engine.descIdx (descsNeeded descBlenMax sgl))
            · rw [balanced_of_unmap hreturns (hyes hdestroyed)]
              simp [ExitUnmaps, hdestroyed, Mapping.start]
            · rw [balanced_of_unmap hreturns (hno hdestroyed)]
              simp [ExitUnmaps, hdestroyed]
      · exact iff_of_true (balanced_of_nil (xferSubmitMapping_refused admitted))
          fun h => absurd h admitted

def mergedSgl : List Extent := [⟨0x100000, 0x2000⟩]

/-- The table of a call whose only transfer completes is unmapped with the merged count. -/
theorem merged_table_unmapped_short :
    let out := xferSubmitMapping (fun _ => true) 0xfffffff false (idleEngine .toDevice 0)
      .toDevice 0 2 mergedSgl false fun _ => .completed 0
    out.2 = [.map 2, .unmap 1] ∧ ¬ MappingBalanced false 2 out := by
  have hcalls : (xferSubmitMapping (fun _ => true) 0xfffffff false (idleEngine .toDevice 0)
      .toDevice 0 2 mergedSgl false fun _ => .completed 0).2 = [.map 2, .unmap 1] := by
    decide +kernel
  refine ⟨hcalls, fun balanced => ?_⟩
  have hmapped := balanced.mapped
  rw [hcalls] at hmapped
  cases (hmapped List.mem_cons_self).2

theorem refused_table_balanced :
    MappingBalanced false 2 (xferSubmitMapping (fun _ => true) 0xfffffff false
      (idleEngine .toDevice 0) .toDevice 0 2 mergedSgl false fun _ => .refused) :=
  (xferSubmit_mapping_balanced_iff (fun _ => true) 0xfffffff false (idleEngine .toDevice 0)
    .toDevice 0 2 mergedSgl false (fun _ => .refused) (by decide)).mpr
    fun _ _ => .inr ⟨⟨_, rfl⟩, .inr fun h => h.queued rfl⟩

end NupaNet.Xdma
