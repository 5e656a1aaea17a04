import Mathlib.Algebra.Order.BigOperators.Group.List
import Mathlib.Algebra.Order.Ring.Nat
import NupaNet.Xdma.Descriptor

/-!
# Requests

`xdma_init_request` turns a mapped scatter list into a request: a control block
followed by an array of software descriptors, none longer than
`desc_blen_max`.  A first loop counts the descriptors that long segments need,
the block is allocated for that count, and a second loop fills the array.  The
count is an `int`, the byte size an `unsigned int`, and the array is filled
before its length is compared with the count, so the outcome says whether the
writes stayed inside the allocation.
-/

namespace NupaNet.Xdma

open NupaNet.Foundation

/-- A range of bus addresses: a mapped scatter-list entry, or a `struct sw_desc`. -/
structure Extent where
  addr : U64
  len : U32
deriving DecidableEq, Repr

def Extent.bytes (extent : Extent) : List U64 :=
  (List.range extent.len.toNat).map fun k => extent.addr + BitVec.ofNat 64 k

def hostBytes (extents : List Extent) : List U64 :=
  extents.flatMap Extent.bytes

def byteCount (extents : List Extent) : Nat :=
  (extents.map fun extent => extent.len.toNat).sum

/-- What the callers of `xdma_xfer_submit` guarantee of a mapped table. -/
structure MappedSgl (sgl : List Extent) : Prop where
  nonempty : sgl ≠ []
  entries : sgl.length < 2 ^ 32
  total : byteCount sgl < 2 ^ 31

structure XdmaRequestCb where
  epAddr : U64
  totalLen : U32
  swDescIdx : Nat
  swDescCnt : Nat
  sdesc : List Extent
deriving Repr

def sizeofXdmaRequestCb : Nat := 336

def sizeofSwDesc : Nat := 16

/-- The first loop; `none` is a division by zero. -/
def extraDescs (descBlenMax : U32) : U32 → List Extent → Option U32
  | extra, [] => some extra
  | extra, sg :: rest =>
      if descBlenMax < sg.len then
        if descBlenMax = 0 then none
        else extraDescs descBlenMax (extra + (sg.len + descBlenMax - 1) / descBlenMax) rest
      else extraDescs descBlenMax extra rest

/-- The inner `while (tlen)` loop; `none` is a loop that is not done after `fuel` rounds. -/
def splitSegment (descBlenMax : U32) : Nat → U64 → U32 → Option (List Extent)
  | fuel, addr, tlen =>
      if tlen = 0 then some []
      else
        match fuel with
        | 0 => none
        | fuel + 1 =>
            if descBlenMax < tlen then
              (splitSegment descBlenMax fuel (addr + descBlenMax.setWidth 64)
                (tlen - descBlenMax)).map (⟨addr, descBlenMax⟩ :: ·)
            else some [⟨addr, tlen⟩]

def splitSegments (descBlenMax : U32) : List Extent → Option (List Extent)
  | [] => some []
  | sg :: rest =>
      (splitSegment descBlenMax sg.len.toNat sg.addr sg.len).bind fun pieces =>
        (splitSegments descBlenMax rest).map (pieces ++ ·)

def requestSize (sdescNr : U32) : U32 :=
  BitVec.ofNat 32 (sizeofXdmaRequestCb + sdescNr.toNat * sizeofSwDesc)

inductive InitRequest
  | ready (req : XdmaRequestCb)
  | null
  | overrun
  | divideError
  | stuck

/-- `alloc size` says whether `kzalloc` or `vmalloc` finds `size` bytes. -/
def xdmaInitRequest (alloc : U32 → Bool) (descBlenMax : U32) (sgl : List Extent)
    (epAddr : U64) : InitRequest :=
  let nents : U32 := BitVec.ofNat 32 sgl.length
  match extraDescs descBlenMax 0 (sgl.take nents.toInt.toNat) with
  | none => .divideError
  | some extra =>
      let max := nents + extra
      if alloc (requestSize max) = false then .null
      else
        match splitSegments descBlenMax sgl with
        | none => .stuck
        | some sdesc =>
            if (requestSize max).toNat < sizeofXdmaRequestCb + sizeofSwDesc * sdesc.length then
              .overrun
            else if max.toInt < (BitVec.ofNat 32 sdesc.length).toInt then .null
            else
              .ready
                { epAddr
                  totalLen := sgl.foldl (fun total sg => total + sg.len) 0
                  swDescIdx := 0
                  swDescCnt := sdesc.length
                  sdesc }

/-! ## Counting software descriptors -/

def pieceCount (descBlenMax len : U32) : Nat :=
  (len.toNat + descBlenMax.toNat - 1) / descBlenMax.toNat

def descsNeeded (descBlenMax : U32) (sgl : List Extent) : Nat :=
  (sgl.map fun sg => pieceCount descBlenMax sg.len).sum

def extraCount (descBlenMax len : U32) : Nat :=
  if descBlenMax < len then pieceCount descBlenMax len else 0

def descsCounted (descBlenMax : U32) (sgl : List Extent) : Nat :=
  sgl.length + (sgl.map fun sg => extraCount descBlenMax sg.len).sum

/-- The count fits an `int` and the size, taken modulo `2 ^ 32`, covers the array. -/
def RequestFits (descBlenMax : U32) (sgl : List Extent) : Prop :=
  descsCounted descBlenMax sgl < 2 ^ 31 ∧
    sizeofXdmaRequestCb + sizeofSwDesc * descsNeeded descBlenMax sgl ≤
      (sizeofXdmaRequestCb + sizeofSwDesc * descsCounted descBlenMax sgl) % 2 ^ 32

theorem toNat_pos {w : U32} (nonzero : w ≠ 0) : 0 < w.toNat :=
  Nat.pos_of_ne_zero fun hzero => nonzero (BitVec.eq_of_toNat_eq hzero)

theorem Extent.bytes_length (extent : Extent) : extent.bytes.length = extent.len.toNat := by
  simp [Extent.bytes]

theorem hostBytes_length (extents : List Extent) :
    (hostBytes extents).length = byteCount extents := by
  simp [hostBytes, byteCount, List.length_flatMap, Extent.bytes_length]

theorem Extent.bytes_split {addr : U64} {first len : U32} (h : first < len) :
    (⟨addr, len⟩ : Extent).bytes =
      (⟨addr, first⟩ : Extent).bytes ++
        (⟨addr + first.setWidth 64, len - first⟩ : Extent).bytes := by
  have hlt : first.toNat < len.toNat := h
  have hsub : (len - first).toNat = len.toNat - first.toNat := BitVec.toNat_sub_of_le hlt.le
  have hsum : len.toNat = first.toNat + (len - first).toNat := by omega
  have hofs : first.setWidth 64 = BitVec.ofNat 64 first.toNat := (BitVec.ofNat_toNat ..).symm
  unfold Extent.bytes
  rw [hsum, List.range_add, List.map_append, List.map_map]
  congr 1
  apply List.map_congr_left
  intro k _
  simp only [Function.comp_apply, hofs, BitVec.ofNat_add, BitVec.add_assoc]

section Limit

variable {descBlenMax : U32} (limit : descBlenMax ≠ 0)

include limit

private theorem limit_pos : 0 < descBlenMax.toNat :=
  toNat_pos limit

theorem pieceCount_short {len : U32} (nonzero : len ≠ 0) (short : ¬ descBlenMax < len) :
    pieceCount descBlenMax len = 1 := by
  have hpos := limit_pos limit
  have hlen := toNat_pos nonzero
  have hle : len.toNat ≤ descBlenMax.toNat := Nat.le_of_not_lt short
  unfold pieceCount
  exact Nat.div_eq_of_lt_le (by omega) (by omega)

private theorem pieceCount_long {len : U32} (long : descBlenMax < len) :
    pieceCount descBlenMax len = pieceCount descBlenMax (len - descBlenMax) + 1 := by
  have hpos := limit_pos limit
  have hlt : descBlenMax.toNat < len.toNat := long
  have hsub : (len - descBlenMax).toNat = len.toNat - descBlenMax.toNat :=
    BitVec.toNat_sub_of_le hlt.le
  unfold pieceCount
  rw [hsub, ← Nat.add_div_right _ hpos]
  congr 1
  omega

theorem pieceCount_le (len : U32) : pieceCount descBlenMax len ≤ len.toNat := by
  have hpos := limit_pos limit
  unfold pieceCount
  rcases Nat.eq_zero_or_pos len.toNat with hzero | hlen
  · rw [hzero, Nat.div_eq_of_lt (by omega)]
  · apply Nat.div_le_of_le_mul
    have hmul : len.toNat - 1 ≤ descBlenMax.toNat * (len.toNat - 1) :=
      Nat.le_mul_of_pos_left _ hpos
    have hsplit : descBlenMax.toNat * len.toNat =
        descBlenMax.toNat * (len.toNat - 1) + descBlenMax.toNat := by
      rw [← Nat.mul_succ, Nat.succ_eq_add_one, Nat.sub_add_cancel hlen]
    omega

theorem pieceCount_zero : pieceCount descBlenMax 0 = 0 :=
  Nat.le_zero.mp (pieceCount_le limit 0)

private theorem extraCount_le (len : U32) : extraCount descBlenMax len ≤ len.toNat := by
  unfold extraCount
  split
  · exact pieceCount_le limit len
  · exact Nat.zero_le _

private theorem splitSegment_spec (fuel : Nat) (addr : U64) (len : U32)
    (enough : len.toNat ≤ fuel) :
    ∃ pieces, splitSegment descBlenMax fuel addr len = some pieces ∧
      pieces.length = pieceCount descBlenMax len ∧
      hostBytes pieces = (⟨addr, len⟩ : Extent).bytes := by
  have hpos := limit_pos limit
  induction fuel generalizing addr len with
  | zero =>
      have hzero : len = 0 := BitVec.eq_of_toNat_eq (Nat.le_zero.mp enough)
      subst hzero
      refine ⟨[], by simp [splitSegment], ?_, by simp [hostBytes, Extent.bytes]⟩
      exact (pieceCount_zero limit).symm
  | succ fuel ih =>
      unfold splitSegment
      by_cases hzero : len = 0
      · subst hzero
        refine ⟨[], by simp, ?_, by simp [hostBytes, Extent.bytes]⟩
        exact (pieceCount_zero limit).symm
      · rw [if_neg hzero]
        by_cases hlong : descBlenMax < len
        · have hlt : descBlenMax.toNat < len.toNat := hlong
          have hsub : (len - descBlenMax).toNat = len.toNat - descBlenMax.toNat :=
            BitVec.toNat_sub_of_le hlt.le
          obtain ⟨pieces, hsplit, hcount, hbytes⟩ :=
            ih (addr + descBlenMax.setWidth 64) (len - descBlenMax) (by omega)
          refine ⟨⟨addr, descBlenMax⟩ :: pieces, by simp [hlong, hsplit], ?_, ?_⟩
          · rw [List.length_cons, hcount, pieceCount_long limit hlong]
          · rw [Extent.bytes_split hlong, ← hbytes]
            rfl
        · refine ⟨[⟨addr, len⟩], by simp [hlong], ?_, by simp [hostBytes]⟩
          rw [pieceCount_short limit hzero hlong]
          rfl

theorem splitSegments_spec (sgl : List Extent) :
    ∃ sdesc, splitSegments descBlenMax sgl = some sdesc ∧
      sdesc.length = descsNeeded descBlenMax sgl ∧ hostBytes sdesc = hostBytes sgl := by
  induction sgl with
  | nil => exact ⟨[], rfl, rfl, rfl⟩
  | cons sg rest ih =>
      obtain ⟨pieces, hsplit, hcount, hbytes⟩ :=
        splitSegment_spec limit sg.len.toNat sg.addr sg.len le_rfl
      obtain ⟨tail, htail, htailCount, htailBytes⟩ := ih
      refine ⟨pieces ++ tail, ?_, ?_, ?_⟩
      · simp [splitSegments, hsplit, htail]
      · simp [descsNeeded, hcount, htailCount]
      · simp only [hostBytes, List.flatMap_append, List.flatMap_cons] at *
        rw [hbytes, htailBytes]

theorem extraSum_le (sgl : List Extent) :
    (sgl.map fun sg => extraCount descBlenMax sg.len).sum ≤ byteCount sgl := by
  apply List.sum_le_sum
  intro sg _
  exact extraCount_le limit sg.len

private theorem extraDescs_eq (extra : Nat) (sgl : List Extent) (total : byteCount sgl < 2 ^ 31) :
    extraDescs descBlenMax (BitVec.ofNat 32 extra) sgl =
      some (BitVec.ofNat 32
        (extra + (sgl.map fun sg => extraCount descBlenMax sg.len).sum)) := by
  induction sgl generalizing extra with
  | nil => simp [extraDescs]
  | cons sg rest ih =>
      have hrest : byteCount rest < 2 ^ 31 := by
        simp [byteCount] at total ⊢
        omega
      have hlen : sg.len.toNat < 2 ^ 31 := by
        simp [byteCount] at total
        omega
      unfold extraDescs
      by_cases hlong : descBlenMax < sg.len
      · have hlt : descBlenMax.toNat < sg.len.toNat := hlong
        have hpos := limit_pos limit
        have hdiv : (sg.len + descBlenMax - 1) / descBlenMax =
            BitVec.ofNat 32 (pieceCount descBlenMax sg.len) := by
          apply BitVec.eq_of_toNat_eq
          have hle := pieceCount_le limit sg.len
          rw [BitVec.toNat_ofNat, Nat.mod_eq_of_lt (by omega), BitVec.toNat_udiv]
          unfold pieceCount
          congr 1
          rw [BitVec.toNat_sub, BitVec.toNat_add]
          simp
          omega
        rw [if_pos hlong, if_neg limit, hdiv, ← BitVec.ofNat_add, ih _ hrest]
        simp [extraCount, hlong, Nat.add_assoc]
      · rw [if_neg hlong, ih _ hrest]
        simp [extraCount, hlong]

theorem descsNeeded_le (sgl : List Extent) :
    descsNeeded descBlenMax sgl ≤ byteCount sgl := by
  apply List.sum_le_sum
  intro sg _
  exact pieceCount_le limit sg.len

theorem descsNeeded_le_counted (sgl : List Extent) :
    descsNeeded descBlenMax sgl ≤ descsCounted descBlenMax sgl := by
  induction sgl with
  | nil => simp [descsNeeded, descsCounted]
  | cons sg rest ih =>
      have hone : pieceCount descBlenMax sg.len ≤ 1 + extraCount descBlenMax sg.len := by
        unfold extraCount
        split
        · omega
        · next hshort =>
            by_cases hzero : sg.len = 0
            · rw [hzero, pieceCount_zero limit]
              omega
            · rw [pieceCount_short limit hzero hshort]
      simp only [descsNeeded, descsCounted, List.map_cons, List.sum_cons, List.length_cons] at *
      omega

end Limit

theorem splitSegment_zero_limit (fuel : Nat) (addr : U64) {len : U32} (nonzero : len ≠ 0) :
    splitSegment 0 fuel addr len = none := by
  have hpos : (0 : U32) < len := toNat_pos nonzero
  induction fuel generalizing addr with
  | zero =>
      unfold splitSegment
      rw [if_neg nonzero]
  | succ fuel ih =>
      have hsame : len - 0 = len := by simp
      unfold splitSegment
      rw [if_neg nonzero]
      simp only [if_pos hpos, hsame]
      rw [ih, Option.map_none]

private theorem splitSegments_zero_limit {sgl sdesc : List Extent}
    (h : splitSegments 0 sgl = some sdesc) : sdesc = [] := by
  induction sgl generalizing sdesc with
  | nil => exact (Option.some.inj h).symm
  | cons sg rest ih =>
      obtain ⟨pieces, hpieces, htail⟩ := Option.bind_eq_some_iff.mp h
      obtain ⟨tail, hrest, rfl⟩ := Option.map_eq_some_iff.mp htail
      have hempty : sg.len = 0 := by
        by_contra hlen
        rw [splitSegment_zero_limit _ _ hlen] at hpieces
        cases hpieces
      unfold splitSegment at hpieces
      rw [if_pos hempty] at hpieces
      rw [← Option.some.inj hpieces, ih hrest]
      rfl

private theorem splitSegment_nonempty {descBlenMax : U32} (limit : descBlenMax ≠ 0) {fuel : Nat}
    {addr : U64} {len : U32} {pieces : List Extent}
    (h : splitSegment descBlenMax fuel addr len = some pieces) :
    ∀ piece ∈ pieces, piece.len ≠ 0 := by
  induction fuel generalizing addr len pieces with
  | zero =>
      unfold splitSegment at h
      split at h
      · rw [← Option.some.inj h]
        simp
      · cases h
  | succ fuel ih =>
      unfold splitSegment at h
      split at h
      · rw [← Option.some.inj h]
        simp
      next hlen =>
        simp only at h
        split at h
        · obtain ⟨rest, hrest, rfl⟩ := Option.map_eq_some_iff.mp h
          exact List.forall_mem_cons.mpr ⟨limit, ih hrest⟩
        · rw [← Option.some.inj h]
          exact List.forall_mem_cons.mpr ⟨hlen, by simp⟩

theorem splitSegments_nonempty {descBlenMax : U32} (limit : descBlenMax ≠ 0)
    {sgl sdesc : List Extent} (h : splitSegments descBlenMax sgl = some sdesc) :
    ∀ piece ∈ sdesc, piece.len ≠ 0 := by
  induction sgl generalizing sdesc with
  | nil =>
      rw [← Option.some.inj h]
      simp
  | cons sg rest ih =>
      obtain ⟨pieces, hpieces, htail⟩ := Option.bind_eq_some_iff.mp h
      obtain ⟨tail, hrest, rfl⟩ := Option.map_eq_some_iff.mp htail
      intro piece hmem
      rcases List.mem_append.mp hmem with hhead | htail
      · exact splitSegment_nonempty limit hpieces piece hhead
      · exact ih hrest piece htail

theorem splitSegments_length {descBlenMax : U32} {sgl sdesc : List Extent}
    (h : splitSegments descBlenMax sgl = some sdesc) :
    sdesc.length = descsNeeded descBlenMax sgl := by
  by_cases hlimit : descBlenMax = 0
  · subst hlimit
    rw [splitSegments_zero_limit h]
    simp [descsNeeded, pieceCount]
  · obtain ⟨pieces, hsplit, hcount, -⟩ := splitSegments_spec hlimit sgl
    rw [h] at hsplit
    rw [Option.some.inj hsplit]
    exact hcount

theorem swDescCnt_of_ready {alloc : U32 → Bool} {descBlenMax : U32} {sgl : List Extent}
    {epAddr : U64} {req : XdmaRequestCb}
    (h : xdmaInitRequest alloc descBlenMax sgl epAddr = .ready req) :
    req.swDescIdx = 0 ∧ req.swDescCnt = descsNeeded descBlenMax sgl ∧
      splitSegments descBlenMax sgl = some req.sdesc := by
  simp only [xdmaInitRequest] at h
  split at h
  · cases h
  split at h
  · cases h
  split at h
  · cases h
  next sdesc hsplit =>
    split at h
    · cases h
    split at h
    · cases h
    · cases h
      exact ⟨rfl, splitSegments_length hsplit, hsplit⟩

/-! ## When a request comes back -/

theorem toInt_of_small {n : Nat} (h : n < 2 ^ 31) : (BitVec.ofNat 32 n).toInt = n := by
  rw [BitVec.toInt_eq_toNat_of_lt] <;> rw [BitVec.toNat_ofNat] <;> omega

theorem toInt_of_large {n : Nat} (lower : 2 ^ 31 ≤ n) (upper : n < 2 ^ 32) :
    (BitVec.ofNat 32 n).toInt < 0 := by
  rw [BitVec.toInt_eq_toNat_cond, BitVec.toNat_ofNat]
  split <;> omega

theorem requestSize_toNat {n : Nat} (h : n < 2 ^ 32) :
    (requestSize (BitVec.ofNat 32 n)).toNat =
      (sizeofXdmaRequestCb + sizeofSwDesc * n) % 2 ^ 32 := by
  rw [requestSize, BitVec.toNat_ofNat, BitVec.toNat_ofNat, Nat.mod_eq_of_lt h, Nat.mul_comm]

section Ready

variable {alloc : U32 → Bool} {descBlenMax : U32} {sgl : List Extent}
  (limit : descBlenMax ≠ 0) (mapped : MappedSgl sgl) (epAddr : U64)

include limit mapped

/-- The count that `xdma_request_alloc` is called with, as the `int` holds it. -/
theorem extraDescs_counted (few : sgl.length < 2 ^ 31) :
    (extraDescs descBlenMax 0 (sgl.take (BitVec.ofNat 32 sgl.length).toInt.toNat)).map
        (BitVec.ofNat 32 sgl.length + ·) =
      some (BitVec.ofNat 32 (descsCounted descBlenMax sgl)) := by
  rw [toInt_of_small few, Int.toNat_natCast, List.take_length]
  have hextra := extraDescs_eq limit 0 sgl mapped.total
  simp only [Nat.zero_add] at hextra
  have hzero : (0 : U32) = BitVec.ofNat 32 0 := rfl
  rw [hzero, hextra]
  simp [descsCounted, BitVec.ofNat_add]

theorem xdmaInitRequest_of_fits (fits : RequestFits descBlenMax sgl)
    (room : alloc (requestSize (BitVec.ofNat 32 (descsCounted descBlenMax sgl))) = true) :
    ∃ sdesc, hostBytes sdesc = hostBytes sgl ∧ sdesc.length = descsNeeded descBlenMax sgl ∧
      xdmaInitRequest alloc descBlenMax sgl epAddr =
        .ready
          { epAddr
            totalLen := sgl.foldl (fun total sg => total + sg.len) 0
            swDescIdx := 0
            swDescCnt := sdesc.length
            sdesc } := by
  obtain ⟨hint, hsize⟩ := fits
  have hneeded := descsNeeded_le limit sgl
  have hcounted := descsNeeded_le_counted limit sgl
  have htotal := mapped.total
  have hfew : sgl.length < 2 ^ 31 := by
    unfold descsCounted at hint
    omega
  obtain ⟨extra, hextra, hmax⟩ :=
    Option.map_eq_some_iff.mp (extraDescs_counted limit mapped hfew)
  obtain ⟨sdesc, hsplit, hcount, hbytes⟩ := splitSegments_spec limit sgl
  refine ⟨sdesc, hbytes, hcount, ?_⟩
  simp only [xdmaInitRequest, hextra, hmax, room, hsplit, hcount,
    requestSize_toNat (show descsCounted descBlenMax sgl < 2 ^ 32 by omega),
    toInt_of_small hint, toInt_of_small (show descsNeeded descBlenMax sgl < 2 ^ 31 by omega)]
  rw [if_neg (by simp), if_neg (by omega), if_neg (by omega)]

theorem xdmaInitRequest_of_not_fits
    (h : ¬ (RequestFits descBlenMax sgl ∧
      alloc (requestSize (BitVec.ofNat 32 (descsCounted descBlenMax sgl))) = true)) :
    xdmaInitRequest alloc descBlenMax sgl epAddr = .null ∨
      xdmaInitRequest alloc descBlenMax sgl epAddr = .overrun := by
  have hneeded := descsNeeded_le limit sgl
  have htotal := mapped.total
  have hentries := mapped.entries
  obtain ⟨sdesc, hsplit, hcount, -⟩ := splitSegments_spec limit sgl
  have hj : (BitVec.ofNat 32 sdesc.length).toInt = sdesc.length :=
    toInt_of_small (by omega)
  by_cases hfew : sgl.length < 2 ^ 31
  · obtain ⟨extra, hextra, hmax⟩ :=
      Option.map_eq_some_iff.mp (extraDescs_counted limit mapped hfew)
    have hsum := extraSum_le limit sgl
    have hlt : descsCounted descBlenMax sgl < 2 ^ 32 := by
      unfold descsCounted
      omega
    simp only [xdmaInitRequest, hextra, hmax, hsplit, requestSize_toNat hlt, hj]
    split
    · exact .inl rfl
    · next hroom =>
        split
        · exact .inr rfl
        · next hcover =>
            have hover : 2 ^ 31 ≤ descsCounted descBlenMax sgl := by
              by_contra hint
              apply h
              refine ⟨⟨by omega, ?_⟩, by simpa using hroom⟩
              rw [← hcount]
              omega
            have hneg := toInt_of_large hover hlt
            rw [if_pos (by omega)]
            exact .inl rfl
  · have hneg := toInt_of_large (show 2 ^ 31 ≤ sgl.length by omega) hentries
    have hnone : (BitVec.ofNat 32 sgl.length).toInt.toNat = 0 := by omega
    simp only [xdmaInitRequest, hnone, List.take_zero, extraDescs, hsplit, hj]
    split
    · exact .inl rfl
    · split
      · exact .inr rfl
      · rw [if_pos (by simp; omega)]
        exact .inl rfl

end Ready

end NupaNet.Xdma
