import NupaNet.Xdma.Request

/-!
# The allocation of a request

`xdma_init_request` counts in its first loop the pieces that it writes in its
second.  The first rounds a quotient up by a sum that may wrap, in which case
the quotient is 0 and the segment is taken for one piece; the second subtracts.
The two lists of segments that the count gets wrong and that it counts too
generously decide together whether the array is large enough.
-/

namespace NupaNet.Xdma

open NupaNet.Foundation

/-- The rounded-up division of the first loop wraps for this length. -/
def RoundWraps (descBlenMax len : U32) : Prop :=
  descBlenMax < len ∧ 2 ^ 32 ≤ len.toNat + descBlenMax.toNat - 1

instance (descBlenMax len : U32) : Decidable (RoundWraps descBlenMax len) :=
  inferInstanceAs (Decidable (_ ∧ _))

def lostPieces (descBlenMax : U32) (sgl : List Extent) : Nat :=
  (sgl.map fun sg => if RoundWraps descBlenMax sg.len then pieceCount descBlenMax sg.len else 0).sum

def extraPieces (descBlenMax : U32) (sgl : List Extent) : Nat :=
  (sgl.map fun sg =>
    if descBlenMax < sg.len ∧ ¬ RoundWraps descBlenMax sg.len then pieceCount descBlenMax sg.len
    else 0).sum

/-- The segments for which the first loop counts one piece more than is written: the long ones,
whose pieces come on top of their entry, and the empty ones. -/
def sparePieces (descBlenMax : U32) (sgl : List Extent) : Nat :=
  (sgl.map fun sg => if descBlenMax < sg.len ∨ sg.len = 0 then 1 else 0).sum

/-- Both loops end, the second writes below the count of the first, the size of the allocation does
not wrap, and the check behind the loops lets the request pass. -/
def InitSafe (descBlenMax : U32) (sgl : List Extent) : Prop :=
  let nents : U32 := BitVec.ofNat 32 sgl.length
  ∃ extra sdesc, extraDescs descBlenMax 0 (sgl.take nents.toInt.toNat) = some extra ∧
    splitSegments descBlenMax sgl = some sdesc ∧
    (∀ j < sdesc.length, j < (nents + extra).toNat) ∧
    sizeofXdmaRequestCb + sizeofSwDesc * (nents + extra).toNat < 2 ^ 32 ∧
    ∀ alloc epAddr, alloc (requestSize (nents + extra)) = true →
      ∃ req, xdmaInitRequest alloc descBlenMax sgl epAddr = .ready req

/-- The condition: a limit, unless there is nothing to split; enough spare pieces for the lost
ones; and a count of which the size fits 32 bits. -/
structure InitFits (descBlenMax : U32) (sgl : List Extent) : Prop where
  limit : descBlenMax ≠ 0 ∨ ∀ sg ∈ sgl, sg.len = 0
  covered : lostPieces descBlenMax sgl ≤ sparePieces descBlenMax sgl
  sized : sizeofXdmaRequestCb + sizeofSwDesc * (sgl.length + extraPieces descBlenMax sgl) < 2 ^ 32

/-! ## The two counts -/

private theorem roundUp_eq {descBlenMax len : U32} (long : descBlenMax < len) :
    ((len + descBlenMax - 1) / descBlenMax).toNat =
      if RoundWraps descBlenMax len then 0 else pieceCount descBlenMax len := by
  have hlt : descBlenMax.toNat < len.toNat := long
  have hlen := len.isLt
  have hsum : (len + descBlenMax - 1).toNat =
      (len.toNat + descBlenMax.toNat - 1) % 2 ^ 32 := by
    bv_omega
  rw [BitVec.toNat_udiv, hsum]
  by_cases hwraps : RoundWraps descBlenMax len
  · have hover := hwraps.2
    rw [if_pos hwraps]
    apply Nat.div_eq_of_lt
    omega
  · have hunder : len.toNat + descBlenMax.toNat - 1 < 2 ^ 32 := by
      by_contra hover
      exact hwraps ⟨long, Nat.le_of_not_lt hover⟩
    rw [if_neg hwraps, Nat.mod_eq_of_lt hunder]
    rfl

private theorem extraDescs_pieces {descBlenMax : U32} {sgl : List Extent}
    (limit : descBlenMax ≠ 0 ∨ ∀ sg ∈ sgl, sg.len = 0) (extra : Nat) :
    extraDescs descBlenMax (BitVec.ofNat 32 extra) sgl =
      some (BitVec.ofNat 32 (extra + extraPieces descBlenMax sgl)) := by
  induction sgl generalizing extra with
  | nil => rfl
  | cons sg rest ih =>
      have hrest := ih (limit.imp_right fun h sg' hmem => h sg' (List.mem_cons_of_mem sg hmem))
      have hpieces : extraPieces descBlenMax (sg :: rest) =
          (if descBlenMax < sg.len ∧ ¬ RoundWraps descBlenMax sg.len then
            pieceCount descBlenMax sg.len else 0) + extraPieces descBlenMax rest := rfl
      unfold extraDescs
      by_cases hlong : descBlenMax < sg.len
      · have hlimit : descBlenMax ≠ 0 := by
          rcases limit with hlimit | hempty
          · exact hlimit
          · rw [hempty sg List.mem_cons_self] at hlong
            cases hlong
        have hround : (sg.len + descBlenMax - 1) / descBlenMax = BitVec.ofNat 32
            (if descBlenMax < sg.len ∧ ¬ RoundWraps descBlenMax sg.len then
              pieceCount descBlenMax sg.len else 0) := by
          rw [← BitVec.toNat_inj, BitVec.toNat_ofNat, Nat.mod_eq_of_lt]
          · rw [roundUp_eq hlong]
            by_cases hwraps : RoundWraps descBlenMax sg.len
            · simp [hwraps]
            · simp [hwraps, hlong]
          · have hle := pieceCount_le hlimit sg.len
            have hlen := sg.len.isLt
            split <;> omega
        rw [if_pos hlong, if_neg hlimit, hround, ← BitVec.ofNat_add, hrest, hpieces, Nat.add_assoc]
      · rw [if_neg hlong, hrest, hpieces, if_neg (fun h => hlong h.1), Nat.zero_add]

private theorem pieceCount_empty (descBlenMax : U32) : pieceCount descBlenMax 0 = 0 := by
  by_cases hlimit : descBlenMax = 0
  · subst hlimit
    rfl
  · exact pieceCount_zero hlimit

/-- What the second loop writes and what is to spare, against what the first loop counts and what
it loses. -/
private theorem descsNeeded_add_spare {descBlenMax : U32} {sgl : List Extent}
    (limit : descBlenMax ≠ 0 ∨ ∀ sg ∈ sgl, sg.len = 0) :
    descsNeeded descBlenMax sgl + sparePieces descBlenMax sgl =
      sgl.length + extraPieces descBlenMax sgl + lostPieces descBlenMax sgl := by
  induction sgl with
  | nil => rfl
  | cons sg rest ih =>
      have hrest := ih (limit.imp_right fun h sg' hmem => h sg' (List.mem_cons_of_mem sg hmem))
      have hhead : pieceCount descBlenMax sg.len +
            (if descBlenMax < sg.len ∨ sg.len = 0 then 1 else 0) =
          1 + (if descBlenMax < sg.len ∧ ¬ RoundWraps descBlenMax sg.len then
              pieceCount descBlenMax sg.len else 0) +
            (if RoundWraps descBlenMax sg.len then pieceCount descBlenMax sg.len else 0) := by
        by_cases hlong : descBlenMax < sg.len
        · by_cases hwraps : RoundWraps descBlenMax sg.len
          · simp [hlong, hwraps, Nat.add_comm]
          · simp [hlong, hwraps, Nat.add_comm]
        · have hwraps : ¬ RoundWraps descBlenMax sg.len := fun h => hlong h.1
          rw [if_neg (fun h => hlong h.1 : ¬ (_ ∧ ¬ RoundWraps descBlenMax sg.len)), if_neg hwraps]
          by_cases hzero : sg.len = 0
          · rw [if_pos (.inr hzero), hzero, pieceCount_empty]
          · have hlimit : descBlenMax ≠ 0 :=
              limit.resolve_right fun h => hzero (h sg List.mem_cons_self)
            rw [if_neg (not_or.mpr ⟨hlong, hzero⟩), pieceCount_short hlimit hzero hlong]
      simp only [descsNeeded, sparePieces, extraPieces, lostPieces, List.map_cons, List.sum_cons,
        List.length_cons] at hrest ⊢
      omega

private theorem sparePieces_le (descBlenMax : U32) (sgl : List Extent) :
    sparePieces descBlenMax sgl ≤ sgl.length := by
  induction sgl with
  | nil => exact Nat.le_refl 0
  | cons sg rest ih =>
      simp only [sparePieces, List.map_cons, List.sum_cons, List.length_cons] at ih ⊢
      split <;> omega

private theorem splitSegments_pieces {descBlenMax : U32} {sgl : List Extent}
    (limit : descBlenMax ≠ 0 ∨ ∀ sg ∈ sgl, sg.len = 0) :
    ∃ sdesc, splitSegments descBlenMax sgl = some sdesc := by
  by_cases hlimit : descBlenMax = 0
  · have hempty := limit.resolve_left (not_not.mpr hlimit)
    refine ⟨[], ?_⟩
    induction sgl with
    | nil => rfl
    | cons sg rest ih =>
        have hhead : sg.len = 0 := hempty sg List.mem_cons_self
        have hrest : ∀ sg' ∈ rest, sg'.len = 0 := fun sg' hmem =>
          hempty sg' (List.mem_cons_of_mem sg hmem)
        unfold splitSegments splitSegment
        rw [if_pos hhead, ih (.inr hrest) hrest]
        rfl
  · obtain ⟨sdesc, hsplit, -⟩ := splitSegments_spec hlimit sgl
    exact ⟨sdesc, hsplit⟩

private theorem limit_of_splitSegments {descBlenMax : U32} {sgl sdesc : List Extent}
    (split : splitSegments descBlenMax sgl = some sdesc) :
    descBlenMax ≠ 0 ∨ ∀ sg ∈ sgl, sg.len = 0 := by
  by_cases hlimit : descBlenMax = 0
  · subst hlimit
    right
    induction sgl generalizing sdesc with
    | nil => simp
    | cons sg rest ih =>
        obtain ⟨pieces, hpieces, htail⟩ := Option.bind_eq_some_iff.mp split
        obtain ⟨tail, hrest, -⟩ := Option.map_eq_some_iff.mp htail
        refine List.forall_mem_cons.mpr ⟨?_, ih hrest⟩
        by_contra hlen
        rw [splitSegment_zero_limit _ _ hlen] at hpieces
        cases hpieces
  · exact .inl hlimit

/-! ## When the array is large enough -/

section Safe

variable {descBlenMax : U32} {sgl : List Extent}

private theorem firstLoop_eq (limit : descBlenMax ≠ 0 ∨ ∀ sg ∈ sgl, sg.len = 0)
    (few : sgl.length < 2 ^ 31) :
    extraDescs descBlenMax 0 (sgl.take (BitVec.ofNat 32 sgl.length).toInt.toNat) =
      some (BitVec.ofNat 32 (extraPieces descBlenMax sgl)) := by
  rw [toInt_of_small few, Int.toNat_natCast, List.take_length]
  exact (extraDescs_pieces limit 0).trans (by rw [Nat.zero_add])

private theorem initSafe_of_fits (fits : InitFits descBlenMax sgl) : InitSafe descBlenMax sgl := by
  have hsized := fits.sized
  rw [sizeofXdmaRequestCb, sizeofSwDesc] at hsized
  have hneeded := descsNeeded_add_spare fits.limit
  have hcovered := fits.covered
  have hextra := firstLoop_eq fits.limit (by omega)
  obtain ⟨sdesc, hsplit⟩ := splitSegments_pieces fits.limit
  have hlength := splitSegments_length hsplit
  have hmax : (BitVec.ofNat 32 sgl.length + BitVec.ofNat 32 (extraPieces descBlenMax sgl) : U32) =
      BitVec.ofNat 32 (sgl.length + extraPieces descBlenMax sgl) := (BitVec.ofNat_add _ _).symm
  have hvalue : (BitVec.ofNat 32 sgl.length +
      BitVec.ofNat 32 (extraPieces descBlenMax sgl) : U32).toNat =
        sgl.length + extraPieces descBlenMax sgl := by
    rw [hmax, BitVec.toNat_ofNat, Nat.mod_eq_of_lt (by omega)]
  refine ⟨_, sdesc, hextra, hsplit, fun j hj => by omega, by rw [hvalue]; exact fits.sized, ?_⟩
  intro alloc epAddr hroom
  have hroomy : ¬ (requestSize (BitVec.ofNat 32 sgl.length +
      BitVec.ofNat 32 (extraPieces descBlenMax sgl))).toNat <
        sizeofXdmaRequestCb + sizeofSwDesc * sdesc.length := by
    rw [hmax, requestSize_toNat (by omega), sizeofXdmaRequestCb, sizeofSwDesc,
      Nat.mod_eq_of_lt (by omega)]
    omega
  have hpasses : ¬ (BitVec.ofNat 32 sgl.length +
      BitVec.ofNat 32 (extraPieces descBlenMax sgl) : U32).toInt <
        (BitVec.ofNat 32 sdesc.length).toInt := by
    rw [hmax, toInt_of_small (by omega), toInt_of_small (by omega)]
    omega
  simp only [xdmaInitRequest, hextra, hsplit, hroom]
  rw [if_neg (by decide), if_neg hroomy, if_neg hpasses]
  exact ⟨_, rfl⟩

private theorem fits_of_initSafe (entries : sgl.length < 2 ^ 32) (safe : InitSafe descBlenMax sgl) :
    InitFits descBlenMax sgl := by
  obtain ⟨extra, sdesc, hextra, hsplit, hinside, hsized, -⟩ := safe
  have hlimit := limit_of_splitSegments hsplit
  rw [sizeofXdmaRequestCb, sizeofSwDesc] at hsized
  have hfew : sgl.length < 2 ^ 31 := by
    by_contra hmany
    -- a negative bound: the first loop does not run, and the count is that of the entries
    have hnegative := toInt_of_large (Nat.le_of_not_lt hmany) entries
    rw [Int.toNat_of_nonpos hnegative.le] at hextra
    rw [List.take_zero, extraDescs, Option.some.injEq] at hextra
    rw [← hextra, show (0 : U32) = 0#32 from rfl, BitVec.add_zero, BitVec.toNat_ofNat,
       Nat.mod_eq_of_lt entries] at hsized
    omega
  rw [firstLoop_eq hlimit hfew, Option.some.injEq] at hextra
  rw [← hextra, ← BitVec.ofNat_add, BitVec.toNat_ofNat] at hsized hinside
  have hlength := splitSegments_length hsplit
  have hneeded := descsNeeded_add_spare hlimit
  have hbound : sdesc.length ≤ (sgl.length + extraPieces descBlenMax sgl) % 2 ^ 32 := by
    by_contra hmore
    exact absurd (hinside _ (Nat.lt_of_not_le hmore)) (Nat.lt_irrefl _)
  have hspare := sparePieces_le descBlenMax sgl
  refine ⟨hlimit, by omega, ?_⟩
  rw [sizeofXdmaRequestCb, sizeofSwDesc]
  omega

/-- The request is filled inside its allocation, for a table with a 32-bit number of entries,
exactly under the condition. -/
theorem xdmaInitRequest_safe_iff (descBlenMax : U32) (sgl : List Extent)
    (entries : sgl.length < 2 ^ 32) : InitSafe descBlenMax sgl ↔ InitFits descBlenMax sgl :=
  ⟨fits_of_initSafe entries, initSafe_of_fits⟩

end Safe

theorem initSafe_with_spare : InitSafe 0x80000000#32 [⟨0, 0xffffffff#32⟩, ⟨0, 0⟩] :=
  (xdmaInitRequest_safe_iff _ _ (by decide)).mpr ⟨.inl (by decide), by decide, by decide⟩

/-- No limit, a wrapped division, and a size that wraps. -/
theorem initRequest_overruns :
    ¬ InitSafe 0 [⟨0, 4096#32⟩] ∧ ¬ InitSafe 0x80000000#32 [⟨0, 0xffffffff#32⟩] ∧
      ¬ InitSafe 1 [⟨0, 0x10000000#32⟩] := by
  refine ⟨fun safe => ?_, fun safe => ?_, fun safe => ?_⟩
  · rcases (fits_of_initSafe (by decide) safe).limit with hlimit | hempty
    · exact hlimit rfl
    · exact absurd (hempty _ List.mem_cons_self) (by decide)
  · exact absurd (fits_of_initSafe (by decide) safe).covered (by decide)
  · exact absurd (fits_of_initSafe (by decide) safe).sized (by decide)

end NupaNet.Xdma
