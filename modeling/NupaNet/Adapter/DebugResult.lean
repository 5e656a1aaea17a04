import NupaNet.Adapter.Debug
import NupaNet.Xdma.Rounds

/-!
# What the results of the debug file say

`debug_read` and `debug_write` return `count` and advance the file offset whatever
`dma_xfer_data` made of the request: its result is printed and dropped.  The offset
reaches the engine as an `int` that is extended to 64 bits, and only `debug_write`
has a bound on it.  The results are true exactly when nothing on the way fails.
-/

namespace NupaNet.Adapter

open NupaNet.Foundation NupaNet.Xdma

/-! ## The byte moves of a call -/

def tableOf (env : DmaEnv) (buf : U64) (length : U32) : List Extent :=
  env.mapSg (setPages (pagesNr buf length).toNat buf length)

def xferDir (isH2c : Bool) : Direction := if isH2c then .toDevice else .fromDevice

def DebugCdev.engine (debug : DebugCdev) (isH2c : Bool) : XdmaEngine :=
  if isH2c then debug.engineH2c else debug.engineC2h

/-- `dma_xfer_data` comes as far as `xdma_xfer_submit`. -/
structure HasTable (allocs : Allocs) (buf : U64) (length : U32) : Prop where
  sgt : allocs.sgt = true
  pages : pagesNr buf length ≠ 0
  table : allocs.table = true

instance (allocs : Allocs) (buf : U64) (length : U32) : Decidable (HasTable allocs buf length) :=
  decidable_of_iff (allocs.sgt = true ∧ pagesNr buf length ≠ 0 ∧ allocs.table = true)
    ⟨fun h => ⟨h.1, h.2.1, h.2.2⟩, fun h => ⟨h.sgt, h.pages, h.table⟩⟩

def dmaXferCall (env : DmaEnv) (allocs : Allocs) (debug : DebugCdev) (pos : U32) (buf : U64)
    (length : U32) (isH2c : Bool) : XferSubmit :=
  xdmaXferSubmit allocs.request env.descBlenMax debug.offline (debug.engine isH2c)
    (xferDir isH2c) (pos.signExtend 64) (tableOf env buf length) env.outcomes

/-- The bytes that `dma_xfer_data` has moved, by source and destination. -/
def dmaXferMoves (env : DmaEnv) (allocs : Allocs) (debug : DebugCdev) (pos : U32) (buf : U64)
    (length : U32) (isH2c : Bool) : List (U64 × U64) :=
  if HasTable allocs buf length then
    match dmaXferCall env allocs debug pos buf length isH2c with
    | .returned _ log _ => movedPairs env.partialMove log
    | _ => []
  else []

section Call

variable {env : DmaEnv} {allocs : Allocs} {debug : DebugCdev} {pos : U32} {buf : U64}
  {length : U32} {isH2c : Bool}

private theorem dmaXferData_without_table (env : DmaEnv) (debug : DebugCdev) (pos : U32)
    (isH2c : Bool)
    (h : ¬ HasTable allocs buf length) :
    ∃ res, dmaXferData env allocs debug pos buf length isH2c = some (res, debug) := by
  unfold dmaXferData
  simp only
  split
  · exact ⟨_, rfl⟩
  next hsgt =>
    split
    · exact ⟨_, rfl⟩
    next hpages =>
      split
      · exact ⟨_, rfl⟩
      next htable =>
        exact absurd ⟨by simpa using hsgt, hpages, by simpa using htable⟩ h

private theorem dmaXferData_with_table (h : HasTable allocs buf length) :
    dmaXferData env allocs debug pos buf length isH2c =
      match dmaXferCall env allocs debug pos buf length isH2c with
      | .returned res log engine' =>
          let moved :=
            { debug with
              mem := debug.mem.movePairs (xferDir isH2c) (movedPairs env.partialMove log) }
          some ((BitVec.ofInt 32 res).toInt,
            if isH2c then { moved with engineH2c := engine' }
            else { moved with engineC2h := engine' })
      | _ => none := by
  unfold dmaXferData
  simp only
  rw [if_neg (by simp [h.sgt]), if_neg h.pages, if_neg (by simp [h.table])]
  rfl

private theorem dmaXferData_mem {result : Int × DebugCdev}
    (h : dmaXferData env allocs debug pos buf length isH2c = some result) :
    result.2.mem = debug.mem.movePairs (xferDir isH2c)
      (dmaXferMoves env allocs debug pos buf length isH2c) := by
  by_cases htable : HasTable allocs buf length
  · rw [dmaXferData_with_table htable] at h
    rw [dmaXferMoves, if_pos htable]
    cases hcall : dmaXferCall env allocs debug pos buf length isH2c with
    | returned res log engine' =>
        rw [hcall] at h
        cases h
        cases isH2c <;> rfl
    | overrun => simp [hcall] at h
    | divideError => simp [hcall] at h
    | hangs => simp [hcall] at h
  · obtain ⟨res, hres⟩ := dmaXferData_without_table env debug pos isH2c htable
    rw [hres] at h
    cases h
    rw [dmaXferMoves, if_neg htable]
    rfl

end Call

/-! ## True results -/

def kernelBytes (env : DmaEnv) (allocs : Allocs) (count : Nat) : List U64 :=
  match allocs.buf with
  | none => []
  | some buf => (bufBytes buf count).map env.mapping.busAddr

/-- The whole count was moved to or from the device bytes from `off` on and the file offset says
so, or an error or the shorter count that was moved is returned and the offset advances by no more. -/
structure Truthful (dir : Direction) (off : U64) (count : Nat) (hosts : List U64)
    (moves : List (U64 × U64)) (r : Returned) : Prop where
  full : r.ret = count → moves = copyPairs dir off hosts ∧ r.fOffset = off + BitVec.ofNat 64 count
  short : r.ret ≠ count → r.ret < 0 ∧ r.fOffset = off ∨
    moves <+: copyPairs dir off hosts ∧ r.ret = moves.length ∧
      ((r.fOffset - off).toNat : Int) ≤ r.ret

def readMoves (env : DmaEnv) (allocs : Allocs) (debug : DebugCdev) (count : Nat) (off : U64) :
    List (U64 × U64) :=
  match allocs.buf with
  | none => []
  | some buf => dmaXferMoves env allocs debug (off.setWidth 32) buf (BitVec.ofNat 32 count) false

def OverFile (debug : DebugCdev) (count : Nat) (off : U64) : Prop :=
  debug.bufSize.signExtend 64 < off + BitVec.ofNat 64 count

instance (debug : DebugCdev) (count : Nat) (off : U64) : Decidable (OverFile debug count off) :=
  inferInstanceAs (Decidable (_ < _))

def writeMoves (env : DmaEnv) (allocs : Allocs) (debug : DebugCdev) (copies : Bool)
    (count : Nat) (off : U64) : List (U64 × U64) :=
  match allocs.buf with
  | none => []
  | some buf =>
      if OverFile debug count off ∨ copies = false then []
      else dmaXferMoves env allocs debug (off.setWidth 32) buf (BitVec.ofNat 32 count) true

/-- A transfer that does not complete may have moved any part of its bytes. -/
def ReadTruthful (env : DmaEnv) (allocs : Allocs) (debug : DebugCdev) (copies : Bool)
    (count : Nat) (off : U64) : Prop :=
  ∀ partialMove, ∃ r, debugRead { env with partialMove } allocs debug copies count off = some r ∧
    Truthful .fromDevice off count (kernelBytes env allocs count)
      (readMoves { env with partialMove } allocs debug count off) r ∧
    (r.ret = count → r.data = (bufBytes off count).map debug.mem.dev)

def WriteTruthful (env : DmaEnv) (allocs : Allocs) (debug : DebugCdev) (copies : Bool)
    (src : List UInt8) (off : U64) : Prop :=
  ∀ partialMove, ∃ r, debugWrite { env with partialMove } allocs debug copies src off = some r ∧
    Truthful .toDevice off src.length (kernelBytes env allocs src.length)
      (writeMoves { env with partialMove } allocs debug copies src.length off) r ∧
    (r.ret = src.length → (bufBytes off src.length).map r.debug.mem.dev = src)

/-! ## When the DMA moves everything -/

def XferReturns (env : DmaEnv) (allocs : Allocs) (debug : DebugCdev) (pos : U32) (buf : U64)
    (length : U32) : Prop :=
  HasTable allocs buf length → debug.offline = false → tableOf env buf length ≠ [] →
    xdmaInitRequest allocs.request env.descBlenMax (tableOf env buf length)
        (pos.signExtend 64) = .null ∨
      ∃ req, xdmaInitRequest allocs.request env.descBlenMax (tableOf env buf length)
        (pos.signExtend 64) = .ready req

/-- Nothing fails between `dma_xfer_data` and the last transfer. -/
structure XferWorks (env : DmaEnv) (allocs : Allocs) (debug : DebugCdev) (buf : U64) (length : U32)
    (isH2c : Bool) : Prop where
  table : HasTable allocs buf length
  online : debug.offline = false
  mapped : env.mapSgOk = true
  limit : env.descBlenMax ≠ 0
  fits : RequestFits env.descBlenMax (tableOf env buf length)
  request : allocs.request (requestSize (BitVec.ofNat 32
    (descsCounted env.descBlenMax (tableOf env buf length)))) = true
  completes : ∀ i < transferRounds (debug.engine isH2c).descMax (debug.engine isH2c).descIdx
    (descsNeeded env.descBlenMax (tableOf env buf length)), (env.outcomes i).Completed

structure EngineOf (debug : DebugCdev) (isH2c : Bool) : Prop where
  mm : MemoryMapped (debug.engine isH2c)
  dir : (debug.engine isH2c).dir = xferDir isH2c

section Moves

variable {env : DmaEnv} {allocs : Allocs} {debug : DebugCdev} {pos : U32} {buf : U64}
  {count : Nat} {isH2c : Bool}

private theorem dmaXferData_returns_iff (engine : EngineOf debug isH2c) {length : U32} :
    (∃ result, dmaXferData env allocs debug pos buf length isH2c = some result) ↔
      XferReturns env allocs debug pos buf length := by
  by_cases htable : HasTable allocs buf length
  · rw [XferReturns, forall_prop_of_true htable, dmaXferData_with_table htable, dmaXferCall,
      ← engine.dir, ← xdmaXferSubmit_returns_iff engine.mm]
    cases xdmaXferSubmit allocs.request env.descBlenMax debug.offline (debug.engine isH2c)
      (debug.engine isH2c).dir (pos.signExtend 64) (tableOf env buf length) env.outcomes with
    | returned res log engine' => simp
    | overrun | divideError | hangs => simp
  · obtain ⟨res, hres⟩ := dmaXferData_without_table env debug pos isH2c htable
    exact iff_of_true ⟨_, hres⟩ fun h => absurd h htable

private theorem tableOf_pages (mapped : env.mapSgOk = true) (buf : U64) (small : count < 2 ^ 31) :
    hostBytes (tableOf env buf (BitVec.ofNat 32 count)) =
        (bufBytes buf count).map env.mapping.busAddr ∧
      (tableOf env buf (BitVec.ofNat 32 count)).length ≤ count + 1 := by
  obtain ⟨hbytes, -, hentries⟩ := mapSg_pages env.mapping buf small
  rw [tableOf, DmaEnv.mapSg_ok mapped]
  exact ⟨hbytes, hentries⟩

private theorem tableOf_byteCount (mapped : env.mapSgOk = true) (buf : U64)
    (small : count < 2 ^ 31) :
    byteCount (tableOf env buf (BitVec.ofNat 32 count)) = count := by
  rw [← hostBytes_length, (tableOf_pages mapped buf small).1, List.length_map, bufBytes_length]

private theorem tableOf_mapped (mapped : env.mapSgOk = true) (buf : U64) (positive : 1 ≤ count)
    (small : count < 2 ^ 31) : MappedSgl (tableOf env buf (BitVec.ofNat 32 count)) := by
  have hcount := tableOf_byteCount mapped buf small
  have hentries := (tableOf_pages mapped buf small).2
  refine ⟨fun hnone => ?_, by omega, by omega⟩
  rw [hnone] at hcount
  change 0 = count at hcount
  omega

private theorem dmaXferMoves_zero (engine : EngineOf debug isH2c) :
    dmaXferMoves env allocs debug pos buf (BitVec.ofNat 32 0) isH2c = [] := by
  have hcount : byteCount (tableOf env buf (BitVec.ofNat 32 0)) = 0 := by
    cases hmap : env.mapSgOk with
    | true => exact tableOf_byteCount hmap buf (by decide)
    | false =>
        rw [tableOf, DmaEnv.mapSg_failed hmap]
        rfl
  have hnone : descsNeeded env.descBlenMax (tableOf env buf (BitVec.ofNat 32 0)) = 0 := by
    by_cases hlimit : env.descBlenMax = 0
    · rw [hlimit]
      simp [descsNeeded, pieceCount]
    · have hle := descsNeeded_le hlimit (tableOf env buf (BitVec.ofNat 32 0))
      omega
  unfold dmaXferMoves
  split
  · rw [dmaXferCall, ← engine.dir]
    cases hcall : xdmaXferSubmit allocs.request env.descBlenMax debug.offline
      (debug.engine isH2c) (debug.engine isH2c).dir (pos.signExtend 64)
      (tableOf env buf (BitVec.ofNat 32 0)) env.outcomes with
    | returned res log engine' =>
        simp only
        rw [log_of_no_descs hnone hcall]
        rfl
    | overrun | divideError | hangs => rfl
  · rfl

private theorem completed_of_asked {outcomes : Nat → Outcome} {log : List Submitted}
    (asked : log.map Submitted.outcome = (List.range log.length).map outcomes) :
    (∀ submitted ∈ log, submitted.outcome.Completed) ↔
      ∀ i < log.length, (outcomes i).Completed := by
  have hmap : (∀ outcome ∈ log.map Submitted.outcome, outcome.Completed) ↔
      ∀ outcome ∈ (List.range log.length).map outcomes, outcome.Completed := by
    rw [asked]
  simpa using hmap

private theorem movedPairs_stopped {dir : Direction} {epAddr : U64} {sgl : List Extent}
    {outcomes : Nat → Outcome} {ret : Int} {before : List Submitted} {last : Submitted}
    (correct : CopyCorrect dir epAddr sgl outcomes ret (before ++ [last]))
    (completed : ∀ submitted ∈ before, submitted.outcome.Completed)
    (stopped : ¬ last.outcome.Completed)
    (moves : last.descs.flatMap XdmaDesc.bytePairs ≠ []) :
    (movedPairs 0 (before ++ [last])).length < byteCount sgl := by
  have hlast : movedPairs 0 [last] = [] := by
    obtain ⟨descs, outcome⟩ := last
    cases outcome with
    | completed written => exact absurd trivial stopped
    | failed | timedOut | refused => rfl
  have hmoved : movedPairs 0 (before ++ [last]) = logPairs before := by
    rw [movedPairs, List.flatMap_append]
    change movedPairs 0 before ++ movedPairs 0 [last] = logPairs before
    rw [hlast, List.append_nil, movedPairs_completed 0 completed]
  have hprefix := correct.pairs.length_le
  rw [logPairs_append, List.length_append, copyPairs_length, hostBytes_length] at hprefix
  have hpos := List.length_pos_of_ne_nil moves
  rw [hmoved]
  omega

private theorem dmaXferMoves_built (pos : U32) (engine : EngineOf debug isH2c)
    (positive : 1 ≤ count)
    (small : count < 2 ^ 31) (table : HasTable allocs buf (BitVec.ofNat 32 count))
    (online : debug.offline = false) (mapped : env.mapSgOk = true) (limit : env.descBlenMax ≠ 0)
    (fits : RequestFits env.descBlenMax (tableOf env buf (BitVec.ofNat 32 count)))
    (room : allocs.request (requestSize (BitVec.ofNat 32
      (descsCounted env.descBlenMax (tableOf env buf (BitVec.ofNat 32 count))))) = true) :
    let completes := ∀ i < transferRounds (debug.engine isH2c).descMax
      (debug.engine isH2c).descIdx
      (descsNeeded env.descBlenMax (tableOf env buf (BitVec.ofNat 32 count))),
        (env.outcomes i).Completed
    let moves := fun partialMove => dmaXferMoves { env with partialMove } allocs debug pos buf
      (BitVec.ofNat 32 count) isH2c
    completes ∧ (∀ partialMove, moves partialMove = copyPairs (xferDir isH2c)
        (pos.signExtend 64) ((bufBytes buf count).map env.mapping.busAddr)) ∨
      ¬ completes ∧ (moves 0).length < count := by
  intro completes moves
  obtain ⟨ret, log, engine', hcall, hcorrect, hnonempty, hrounds⟩ := xdmaXferSubmit_log limit
    (tableOf_mapped mapped buf positive small) engine.mm (pos.signExtend 64) env.outcomes fits room
  have hmoves : ∀ partialMove, moves partialMove = movedPairs partialMove log := by
    intro partialMove
    have hsame : dmaXferCall { env with partialMove } allocs debug pos buf (BitVec.ofNat 32 count)
        isH2c = .returned ret log engine' := by
      rw [dmaXferCall, online, ← engine.dir]
      exact hcall
    simp only [moves, dmaXferMoves, if_pos table, hsame]
  have hasked := completed_of_asked hcorrect.asked
  rcases hrounds with ⟨hall, hlength⟩ | ⟨i, hi, hstopped, hlength⟩
  · have hdone := hasked.mpr (hlength ▸ hall)
    refine .inl ⟨hall, fun partialMove => ?_⟩
    rw [hmoves, movedPairs_completed partialMove hdone, ← engine.dir,
      ← (tableOf_pages mapped buf small).1]
    rcases hcorrect.verdict with ⟨-, hpairs, -⟩ | ⟨before, last, rfl, -, hlast, -⟩
    · exact hpairs
    · exact absurd (hdone last (by simp)) hlast
  · refine .inr ⟨fun hall => hstopped (hall i hi), ?_⟩
    rw [hmoves]
    rcases hcorrect.verdict with ⟨hdone, -, -⟩ | ⟨before, last, rfl, hbefore, hlast, -⟩
    · exact absurd (hasked.mp hdone i (by omega)) hstopped
    · have hless := movedPairs_stopped hcorrect hbefore hlast (hnonempty last (by simp))
      rwa [tableOf_byteCount mapped buf small] at hless

private theorem dmaXferMoves_unbuilt (engine : EngineOf debug isH2c) (positive : 1 ≤ count)
    (small : count < 2 ^ 31)
    (unbuilt : ¬ (debug.offline = false ∧ env.mapSgOk = true ∧ env.descBlenMax ≠ 0 ∧
      RequestFits env.descBlenMax (tableOf env buf (BitVec.ofNat 32 count)) ∧
      allocs.request (requestSize (BitVec.ofNat 32
        (descsCounted env.descBlenMax (tableOf env buf (BitVec.ofNat 32 count))))) = true)) :
    dmaXferMoves env allocs debug pos buf (BitVec.ofNat 32 count) isH2c = [] := by
  have hlog : ∀ ret log engine', dmaXferCall env allocs debug pos buf (BitVec.ofNat 32 count)
      isH2c = .returned ret log engine' → log = [] := by
    intro ret log engine' hcall
    rw [dmaXferCall, ← engine.dir] at hcall
    cases honline : debug.offline with
    | true =>
        rw [honline, xdmaXferSubmit, if_pos rfl] at hcall
        cases hcall
        rfl
    | false =>
        by_cases hlimit : env.descBlenMax = 0
        · refine log_of_no_descs ?_ hcall
          simp [descsNeeded, pieceCount, hlimit]
        cases hmap : env.mapSgOk with
        | false =>
            refine log_of_no_descs ?_ hcall
            rw [tableOf, DmaEnv.mapSg_failed hmap]
            rfl
        | true =>
          have hmapped := tableOf_mapped hmap buf positive small
          have hunfit := fun h => unbuilt ⟨honline, hmap, hlimit, h⟩
          rw [honline, xdmaXferSubmit_eq hmapped.nonempty] at hcall
          rcases xdmaInitRequest_of_not_fits hlimit hmapped (pos.signExtend 64) hunfit with
            hnull | hover
          · rw [hnull] at hcall
            cases hcall
            rfl
          · rw [hover] at hcall
            cases hcall
  unfold dmaXferMoves
  split
  · cases hcall : dmaXferCall env allocs debug pos buf (BitVec.ofNat 32 count) isH2c with
    | returned ret log engine' =>
        simp only
        rw [hlog ret log engine' hcall]
        rfl
    | overrun | divideError | hangs => rfl
  · rfl

private theorem copyPairs_epAddr {dir : Direction} {a b : U64} {hosts : List U64}
    (some : hosts ≠ [])
    (h : copyPairs dir a hosts = copyPairs dir b hosts) : a = b := by
  obtain ⟨host, rest, rfl⟩ := List.exists_cons_of_ne_nil some
  have hhead := congrArg List.head? h
  cases dir <;> simpa [copyPairs, orient] using hhead

private theorem dmaXferMoves_all_iff (engine : EngineOf debug isH2c) (positive : 1 ≤ count)
    (small : count < 2 ^ 31) {epAddr : U64} :
    (∀ partialMove, dmaXferMoves { env with partialMove } allocs debug pos buf
        (BitVec.ofNat 32 count) isH2c =
      copyPairs (xferDir isH2c) epAddr ((bufBytes buf count).map env.mapping.busAddr)) ↔
    XferWorks env allocs debug buf (BitVec.ofNat 32 count) isH2c ∧
      pos.signExtend 64 = epAddr := by
  have hlength : (copyPairs (xferDir isH2c) epAddr
      ((bufBytes buf count).map env.mapping.busAddr)).length = count := by
    rw [copyPairs_length, List.length_map, bufBytes_length]
  have hhosts : (bufBytes buf count).map env.mapping.busAddr ≠ [] := by
    intro hnone
    have hcount := congrArg List.length hnone
    rw [List.length_map, bufBytes_length, List.length_nil] at hcount
    omega
  constructor
  · intro h
    have hmoved := congrArg List.length (h 0)
    rw [hlength] at hmoved
    have htable : HasTable allocs buf (BitVec.ofNat 32 count) := by
      by_contra hnone
      rw [dmaXferMoves, if_neg hnone, List.length_nil] at hmoved
      omega
    obtain ⟨honline, hmap, hlimit, hfits, hroom⟩ : debug.offline = false ∧
        env.mapSgOk = true ∧ env.descBlenMax ≠ 0 ∧
        RequestFits env.descBlenMax (tableOf env buf (BitVec.ofNat 32 count)) ∧
        allocs.request (requestSize (BitVec.ofNat 32
          (descsCounted env.descBlenMax (tableOf env buf (BitVec.ofNat 32 count))))) = true := by
      by_contra hunbuilt
      have hnone : dmaXferMoves { env with partialMove := 0 } allocs debug pos buf
          (BitVec.ofNat 32 count) isH2c = [] :=
        dmaXferMoves_unbuilt engine positive small hunbuilt
      rw [hnone, List.length_nil] at hmoved
      omega
    rcases dmaXferMoves_built pos engine positive small htable honline hmap hlimit hfits
      hroom with ⟨hall, hfull⟩ | ⟨-, hless⟩
    · exact ⟨⟨htable, honline, hmap, hlimit, hfits, hroom, hall⟩,
        copyPairs_epAddr hhosts ((hfull 0).symm.trans (h 0))⟩
    · simp only at hless
      omega
  · rintro ⟨works, rfl⟩
    rcases dmaXferMoves_built pos engine positive small works.table works.online
      works.mapped works.limit works.fits works.request with ⟨-, hfull⟩ | ⟨hstopped, -⟩
    · exact hfull
    · exact absurd works.completes hstopped

private theorem dmaXferMoves_all (engine : EngineOf debug isH2c) (small : count < 2 ^ 31)
    {epAddr : U64}
    (works : 1 ≤ count → XferWorks env allocs debug buf (BitVec.ofNat 32 count) isH2c ∧
      pos.signExtend 64 = epAddr) (partialMove : Nat) :
    dmaXferMoves { env with partialMove } allocs debug pos buf (BitVec.ofNat 32 count) isH2c =
      copyPairs (xferDir isH2c) epAddr ((bufBytes buf count).map env.mapping.busAddr) := by
  rcases Nat.eq_zero_or_pos count with rfl | positive
  · exact dmaXferMoves_zero engine
  · exact (dmaXferMoves_all_iff engine positive small).mpr (works positive) partialMove

private theorem load_of_moves {m : Memories} (epAddr : U64) (small : count < 2 ^ 31) :
    (m.movePairs .fromDevice (copyPairs .fromDevice epAddr
        ((bufBytes buf count).map env.mapping.busAddr))).load env.mapping buf count =
      (bufBytes epAddr count).map m.dev := by
  obtain ⟨hkeys, hvalues⟩ := read_pairs m epAddr ((bufBytes buf count).map env.mapping.busAddr)
  rw [List.length_map, bufBytes_length] at hvalues
  have hread := map_scatter m.host (hkeys ▸ busAddr_nodup env.mapping buf small)
  rw [hkeys, hvalues, List.map_map] at hread
  rw [← hread, Memories.movePairs_fromDevice]
  rfl

private theorem dev_of_moves {m : Memories} (epAddr : U64) {src : List UInt8}
    (filled : ((bufBytes buf src.length).map env.mapping.busAddr).map m.host = src)
    (small : src.length < 2 ^ 31) :
    (bufBytes epAddr src.length).map (m.movePairs .toDevice (copyPairs .toDevice epAddr
        ((bufBytes buf src.length).map env.mapping.busAddr))).dev = src := by
  obtain ⟨hkeys, hvalues⟩ := write_pairs m epAddr
    ((bufBytes buf src.length).map env.mapping.busAddr)
  rw [List.length_map, bufBytes_length] at hkeys
  rw [filled] at hvalues
  have hstored := map_scatter m.dev (hkeys ▸ bufBytes_nodup epAddr (by omega))
  rw [hkeys, hvalues] at hstored
  rw [Memories.movePairs_toDevice]
  exact hstored

end Moves

/-! ## `debug_read` -/

section Results

variable {env : DmaEnv} {allocs : Allocs} {debug : DebugCdev} {buf off : U64} {copies : Bool}

theorem Truthful.refused {dir : Direction} {count : Nat} {hosts : List U64}
    {moves : List (U64 × U64)} {r : Returned} (error : r.ret < 0) (offset : r.fOffset = off) :
    Truthful dir off count hosts moves r :=
  ⟨fun h => by omega, fun _ => .inl ⟨error, offset⟩⟩

private theorem EngineOf.withMem {isH2c : Bool} (engine : EngineOf debug isH2c) (mem : Memories) :
    EngineOf { debug with mem } isH2c := ⟨engine.mm, engine.dir⟩

private theorem debugRead_returns_iff (engine : EngineOf debug false)
    (granted : allocs.buf = some buf)
    (count : Nat) :
    (∃ r, debugRead env allocs debug copies count off = some r) ↔
      XferReturns env allocs debug (off.setWidth 32) buf (BitVec.ofNat 32 count) := by
  have hreturns : _ ↔ XferReturns env allocs debug (off.setWidth 32) buf (BitVec.ofNat 32 count) :=
    dmaXferData_returns_iff
      (engine.withMem (debug.mem.fill env.mapping buf (List.replicate count 0)))
  rw [← hreturns]
  simp only [debugRead, granted, Option.map_eq_some_iff]
  constructor
  · rintro ⟨-, result, hresult, -⟩
    exact ⟨result, hresult⟩
  · rintro ⟨result, hresult⟩
    exact ⟨_, result, hresult, rfl⟩

private theorem debugRead_result {count : Nat} {r : Returned} (granted : allocs.buf = some buf)
    (h : debugRead env allocs debug copies count off = some r) :
    copies = false ∧ r.ret = -14 ∧ r.fOffset = off ∨
      copies = true ∧ r.ret = count ∧ r.fOffset = off + BitVec.ofNat 64 count ∧
        r.data = ((debug.mem.fill env.mapping buf (List.replicate count 0)).movePairs .fromDevice
          (readMoves env allocs debug count off)).load env.mapping buf count := by
  simp only [debugRead, granted, Option.map_eq_some_iff] at h
  obtain ⟨result, hresult, rfl⟩ := h
  have hmem := dmaXferData_mem hresult
  cases copies with
  | false => exact .inl ⟨rfl, rfl, rfl⟩
  | true =>
      refine .inr ⟨rfl, rfl, rfl, ?_⟩
      rw [if_pos rfl]
      simp only
      rw [hmem, readMoves, granted]
      rfl

private theorem signExtend_eq_iff (inFile : off.toNat < 2 ^ 63) :
    (off.setWidth 32).signExtend 64 = off ↔ off.toNat < 2 ^ 31 := by
  constructor
  · intro h
    by_contra hlarge
    cases hsign : (off.setWidth 32).msb with
    | false =>
        rw [BitVec.msb_eq_false_iff_two_mul_lt, BitVec.toNat_setWidth] at hsign
        rw [BitVec.signExtend_eq_setWidth_of_msb_false
          (by rw [BitVec.msb_eq_false_iff_two_mul_lt, BitVec.toNat_setWidth]; exact hsign)] at h
        have hvalue := congrArg BitVec.toNat h
        rw [BitVec.toNat_setWidth, BitVec.toNat_setWidth] at hvalue
        omega
    | true =>
        -- a negative position is an address of the upper half
        have hupper : off.msb = true := by
          rw [← h, BitVec.msb_signExtend]
          simpa using hsign
        rw [BitVec.msb_eq_true_iff_two_mul_ge] at hupper
        omega
  · intro h
    have hextend := fileOffset_signExtend h
    rwa [BitVec.ofNat_toNat, BitVec.setWidth_eq] at hextend

private theorem readTruthful_iff (engine : EngineOf debug false) {count : Nat}
    (admitted : count < 2 ^ 31)
    (inFile : off.toNat < 2 ^ 63) :
    ReadTruthful env allocs debug copies count off ↔
      ∀ buf, allocs.buf = some buf →
        XferReturns env allocs debug (off.setWidth 32) buf (BitVec.ofNat 32 count) ∧
        (copies = true → 1 ≤ count →
          XferWorks env allocs debug buf (BitVec.ofNat 32 count) false ∧ off.toNat < 2 ^ 31) := by
  cases hbuf : allocs.buf with
  | none =>
      refine iff_of_true (fun partialMove => ⟨⟨-12, off, [], debug⟩, ?_, ?_, ?_⟩)
        fun buf h => by cases h
      · simp only [debugRead, hbuf]
      · exact .refused (by simp) rfl
      · intro h
        simp at h
  | some buf =>
      have hmoves : ∀ partialMove, readMoves { env with partialMove } allocs debug count off =
          dmaXferMoves { env with partialMove } allocs debug (off.setWidth 32) buf
            (BitVec.ofNat 32 count) false := by
        intro partialMove
        rw [readMoves, hbuf]
      have hhosts : kernelBytes env allocs count = (bufBytes buf count).map env.mapping.busAddr := by
        rw [kernelBytes, hbuf]
      constructor
      · intro h buf' hsame
        cases hsame
        refine ⟨?_, fun hcopies positive => ?_⟩
        · obtain ⟨r, hread, -⟩ := h env.partialMove
          exact (debugRead_returns_iff engine hbuf count).mp ⟨r, hread⟩
        · rw [← signExtend_eq_iff inFile]
          refine (dmaXferMoves_all_iff engine positive admitted).mp fun partialMove => ?_
          obtain ⟨r, hread, htrue, -⟩ := h partialMove
          rw [← hmoves, ← hhosts]
          rcases debugRead_result hbuf hread with ⟨hno, -⟩ | ⟨-, hret, -⟩
          · simp [hcopies] at hno
          · exact (htrue.full hret).1
      · intro h partialMove
        obtain ⟨hreturns, hworks⟩ := h buf rfl
        obtain ⟨r, hread⟩ : ∃ r, debugRead { env with partialMove } allocs debug copies count off =
            some r := (debugRead_returns_iff engine hbuf count).mpr hreturns
        refine ⟨r, hread, ?_⟩
        rcases debugRead_result hbuf hread with ⟨-, hret, hoffset⟩ | ⟨hcopies, hret, hoffset, hdata⟩
        · exact ⟨.refused (by omega) hoffset, fun h => by omega⟩
        · have hall : readMoves { env with partialMove } allocs debug count off =
              copyPairs .fromDevice off (kernelBytes env allocs count) := by
            rw [hmoves, hhosts]
            refine dmaXferMoves_all engine admitted (fun positive => ?_) partialMove
            obtain ⟨works, hsmall⟩ := hworks hcopies positive
            exact ⟨works, (signExtend_eq_iff inFile).mpr hsmall⟩
          refine ⟨⟨fun _ => ⟨hall, hoffset⟩, fun h => absurd hret h⟩, fun _ => ?_⟩
          rw [hdata, hall, hhosts]
          exact load_of_moves off admitted

/-! ## `debug_write` -/

private theorem overFile_iff {count : Nat} (size : debug.bufSize = BitVec.ofNat 32 bufLength)
    (inFile : off.toNat + count < 2 ^ 63) :
    OverFile debug count off ↔ bufLength < off.toNat + count := by
  rw [OverFile, size, show (BitVec.ofNat 32 bufLength).signExtend 64 = 32768#64 by decide,
    BitVec.lt_def, BitVec.toNat_add, BitVec.toNat_ofNat, BitVec.toNat_ofNat,
    Nat.mod_eq_of_lt (show count < 2 ^ 64 by omega), Nat.mod_eq_of_lt (a := _ + _) (by omega)]
  rfl

private theorem debugWrite_returns_iff (engine : EngineOf debug true) {src : List UInt8}
    (granted : allocs.buf = some buf) (room : ¬ OverFile debug src.length off) :
    (∃ r, debugWrite env allocs debug true src off = some r) ↔
      XferReturns env allocs debug (off.setWidth 32) buf (BitVec.ofNat 32 src.length) := by
  have hreturns : _ ↔
      XferReturns env allocs debug (off.setWidth 32) buf (BitVec.ofNat 32 src.length) :=
    dmaXferData_returns_iff (engine.withMem
      ((debug.mem.fill env.mapping buf (List.replicate src.length 0)).fill env.mapping buf src))
  rw [OverFile] at room
  rw [← hreturns]
  simp only [debugWrite]
  rw [if_neg room]
  simp only [granted, if_true, Option.map_eq_some_iff]
  constructor
  · rintro ⟨-, result, hresult, -⟩
    exact ⟨result, hresult⟩
  · rintro ⟨result, hresult⟩
    exact ⟨_, result, hresult, rfl⟩

private theorem debugWrite_result {src : List UInt8} {r : Returned}
    (granted : allocs.buf = some buf)
    (room : ¬ OverFile debug src.length off)
    (h : debugWrite env allocs debug true src off = some r) :
    r.ret = src.length ∧ r.fOffset = off + BitVec.ofNat 64 src.length ∧
      r.debug.mem = ((debug.mem.fill env.mapping buf (List.replicate src.length 0)).fill
        env.mapping buf src).movePairs .toDevice
          (writeMoves env allocs debug true src.length off) := by
  have hroom := room
  rw [OverFile] at room
  simp only [debugWrite] at h
  rw [if_neg room] at h
  simp only [granted, if_true, Option.map_eq_some_iff] at h
  obtain ⟨result, hresult, rfl⟩ := h
  have hmem := dmaXferData_mem hresult
  refine ⟨rfl, rfl, ?_⟩
  simp only
  rw [hmem, writeMoves, granted]
  simp only
  rw [if_neg (by simp [hroom])]
  rfl

/-- A request that is refused before the DMA is told apart from one that was carried out. -/
private theorem debugWrite_refused {src : List UInt8}
    (refused : OverFile debug src.length off ∨ allocs.buf = none ∨ copies = false) :
    ∃ r, debugWrite env allocs debug copies src off = some r ∧ r.ret < 0 ∧ r.fOffset = off := by
  by_cases hover : OverFile debug src.length off
  · refine ⟨⟨-22, off, [], debug⟩, ?_, by simp, rfl⟩
    rw [debugWrite]
    exact if_pos hover
  · cases hbuf : allocs.buf with
    | none =>
        refine ⟨⟨-12, off, [], debug⟩, ?_, by simp, rfl⟩
        rw [OverFile] at hover
        simp only [debugWrite]
        rw [if_neg hover, hbuf]
    | some buf =>
        have hcopies : copies = false := by
          simpa [hover, hbuf] using refused
        refine ⟨⟨-14, off, [], { debug with
          mem := debug.mem.fill env.mapping buf (List.replicate src.length 0) }⟩, ?_, by simp, rfl⟩
        rw [OverFile] at hover
        simp only [debugWrite]
        rw [if_neg hover, hbuf, hcopies]
        rfl

private theorem writeTruthful_admitted (engine : EngineOf debug true) {src : List UInt8}
    (granted : allocs.buf = some buf) (room : ¬ OverFile debug src.length off)
    (inBuffer : off.toNat + src.length ≤ bufLength) :
    WriteTruthful env allocs debug true src off ↔
      XferReturns env allocs debug (off.setWidth 32) buf (BitVec.ofNat 32 src.length) ∧
        (1 ≤ src.length →
          XferWorks env allocs debug buf (BitVec.ofNat 32 src.length) true) := by
  have hsmall : off.toNat + src.length ≤ 32768 := inBuffer
  have hplace : (off.setWidth 32).signExtend 64 = off :=
    (signExtend_eq_iff (by omega)).mpr (by omega)
  have hmoves : ∀ partialMove, writeMoves { env with partialMove } allocs debug true src.length
      off = dmaXferMoves { env with partialMove } allocs debug (off.setWidth 32) buf
        (BitVec.ofNat 32 src.length) true := by
    intro partialMove
    rw [writeMoves, granted]
    simp only
    rw [if_neg (by simp [room])]
  have hhosts : kernelBytes env allocs src.length =
      (bufBytes buf src.length).map env.mapping.busAddr := by
    rw [kernelBytes, granted]
  constructor
  · intro h
    refine ⟨?_, fun positive => ?_⟩
    · obtain ⟨r, hwrite, -⟩ := h env.partialMove
      exact (debugWrite_returns_iff engine granted room).mp ⟨r, hwrite⟩
    · have hall : ∀ partialMove, dmaXferMoves { env with partialMove } allocs debug
          (off.setWidth 32) buf (BitVec.ofNat 32 src.length) true =
            copyPairs .toDevice off ((bufBytes buf src.length).map env.mapping.busAddr) := by
        intro partialMove
        obtain ⟨r, hwrite, htrue, -⟩ := h partialMove
        rw [← hmoves, ← hhosts]
        exact (htrue.full (debugWrite_result granted room hwrite).1).1
      exact ((dmaXferMoves_all_iff engine positive (by omega)).mp hall).1
  · rintro ⟨hreturns, hworks⟩ partialMove
    obtain ⟨r, hwrite⟩ : ∃ r, debugWrite { env with partialMove } allocs debug true src off =
        some r := (debugWrite_returns_iff engine granted room).mpr hreturns
    obtain ⟨hret, hoffset, hmem⟩ := debugWrite_result granted room hwrite
    have hall : writeMoves { env with partialMove } allocs debug true src.length off =
        copyPairs .toDevice off (kernelBytes env allocs src.length) := by
      rw [hmoves, hhosts]
      exact dmaXferMoves_all engine (by omega) (fun positive => ⟨hworks positive, hplace⟩)
        partialMove
    refine ⟨r, hwrite, ⟨fun _ => ⟨hall, hoffset⟩, fun h => absurd hret h⟩, fun _ => ?_⟩
    rw [hmem, hall, hhosts]
    exact dev_of_moves off (fill_host env.mapping _ buf src (by omega)) (by omega)

private theorem writeTruthful_iff (engine : EngineOf debug true)
    (size : debug.bufSize = BitVec.ofNat 32 bufLength) {src : List UInt8}
    (inFile : off.toNat + src.length < 2 ^ 63) :
    WriteTruthful env allocs debug copies src off ↔
      ∀ buf, off.toNat + src.length ≤ bufLength → allocs.buf = some buf → copies = true →
        XferReturns env allocs debug (off.setWidth 32) buf (BitVec.ofNat 32 src.length) ∧
        (1 ≤ src.length →
          XferWorks env allocs debug buf (BitVec.ofNat 32 src.length) true) := by
  have hover := overFile_iff size inFile
  by_cases hrefused : OverFile debug src.length off ∨ allocs.buf = none ∨ copies = false
  · refine iff_of_true (fun partialMove => ?_) fun buf hroom hbuf hcopies => ?_
    · obtain ⟨r, hwrite, herror, hoffset⟩ : ∃ r, debugWrite { env with partialMove } allocs debug
          copies src off = some r ∧ _ := debugWrite_refused hrefused
      exact ⟨r, hwrite, .refused herror hoffset, fun h => by omega⟩
    · rw [hover] at hrefused
      rcases hrefused with hlarge | hnone | hno
      · omega
      · simp [hbuf] at hnone
      · simp [hcopies] at hno
  · rw [not_or, not_or] at hrefused
    obtain ⟨hroom, hsome, hcopies⟩ := hrefused
    obtain ⟨buf, hbuf⟩ := Option.ne_none_iff_exists'.mp hsome
    rw [Bool.not_eq_false] at hcopies
    subst hcopies
    have hsmall : off.toNat + src.length ≤ bufLength := by
      rw [hover] at hroom
      exact Nat.le_of_not_lt hroom
    rw [writeTruthful_admitted engine hbuf hroom hsmall]
    constructor
    · intro h buf' _ hsame _
      rw [hbuf] at hsame
      cases hsame
      exact h
    · intro h
      exact h buf hsmall hbuf rfl

/-- The largest count that `vfs_read` and `vfs_write` pass on, `MAX_RW_COUNT`. -/
def maxRwCount : Nat := 0x7ffff000

theorem XferWorks.returns {isH2c : Bool} {count : Nat} (positive : 1 ≤ count)
    (small : count < 2 ^ 31) (works : XferWorks env allocs debug buf (BitVec.ofNat 32 count) isH2c)
    (pos : U32) : XferReturns env allocs debug pos buf (BitVec.ofNat 32 count) := by
  intro _ _ _
  obtain ⟨sdesc, -, -, hready⟩ := xdmaInitRequest_of_fits works.limit
    (tableOf_mapped works.mapped buf positive small) (pos.signExtend 64) works.fits works.request
  exact .inr ⟨_, hready⟩

end Results

private theorem blankDevice_engine (isH2c : Bool) : EngineOf blankDevice isH2c := by
  cases isH2c with
  | false => exact ⟨idleEngine_memoryMapped _ (by decide), rfl⟩
  | true => exact ⟨idleEngine_memoryMapped _ (by decide), rfl⟩

end NupaNet.Adapter
