import NupaNet.Adapter.Debug
import NupaNet.Foundation.Cuts
import NupaNet.Ring.Consumption

/-!
# The pages of a kernel buffer

`dma_xfer_data` and `xdma_transfer_data` count the pages of their buffer, allocate
a scatter table with so many entries, and fill it in a loop that carries the rest
of the buffer.  What the table should hold is the cut of the buffer at its page
boundaries.  The copies differ before the loop: the second turns longer buffers
away, and does not look whether its table was allocated.
-/

namespace NupaNet.Adapter

open NupaNet.Foundation NupaNet.Xdma NupaNet.Ring

/-! ## The loop -/

/-- The entries that are filled, and the variables the loop changes. -/
structure PageLoop where
  entries : List Extent
  buf : U64
  length : U32
deriving DecidableEq, Repr

namespace PageLoop

def setBuf (loop : PageLoop) : PageLoop :=
  let offset := offsetInPage loop.buf
  let room := BitVec.ofNat 32 pageSize - offset
  let nbytes := if room < loop.length then room else loop.length
  { entries := loop.entries ++ [⟨loop.buf, nbytes⟩]
    buf := loop.buf + nbytes.setWidth 64
    length := loop.length - nbytes }

def run : Nat → PageLoop → PageLoop
  | 0, loop => loop
  | left + 1, loop => run left loop.setBuf

end PageLoop

inductive TableBuild where
  | refused (res : Int)
  | faults
  | filled (loop : PageLoop)
deriving DecidableEq, Repr

/-- `dma_xfer_data` up to its submission. -/
def dmaXferTable (allocs : Allocs) (buf : U64) (length : U32) : TableBuild :=
  if allocs.sgt = false then .refused (-12)
  else if pagesNr buf length = 0 then .refused (-22)
  else if allocs.table = false then .refused (-12)
  else .filled (PageLoop.run (pagesNr buf length).toNat ⟨[], buf, length⟩)

/-- `xdma_transfer_data` up to its submission. -/
def xdmaTransferTable (allocs : Allocs) (buf : U64) (length : U32) : TableBuild :=
  -- the `int` is compared with an `unsigned long`
  if BitVec.ofNat 64 pageSize < length.signExtend 64 then .refused (-22)
  else if pagesNr buf length = 0 then .refused (-22)
  else if allocs.sgt = false then .faults
  else if allocs.table = false then .refused (-12)
  else .filled (PageLoop.run (pagesNr buf length).toNat ⟨[], buf, length⟩)

theorem PageLoop.run_entries (left : Nat) (loop : PageLoop) :
    (run left loop).entries = loop.entries ++ setPages left loop.buf loop.length := by
  induction left generalizing loop with
  | zero => exact (List.append_nil _).symm
  | succ left ih =>
      rw [run, ih loop.setBuf, setPages]
      exact List.append_assoc _ _ _

/-- The rest of `dma_xfer_data`, from its submission on. -/
def dmaXferSubmit (env : DmaEnv) (allocs : Allocs) (debug : DebugCdev) (pos : U32) (isH2c : Bool)
    (entries : List Extent) : Option (Int × DebugCdev) :=
  let engine := if isH2c then debug.engineH2c else debug.engineC2h
  let dir : Direction := if isH2c then .toDevice else .fromDevice
  match xdmaXferSubmit allocs.request env.descBlenMax debug.offline engine dir
      (pos.signExtend 64) (env.mapSg entries) env.outcomes with
  | .returned res log engine' =>
      let moved :=
        { debug with mem := debug.mem.movePairs dir (movedPairs env.partialMove log) }
      some ((BitVec.ofInt 32 res).toInt,
        if isH2c then { moved with engineH2c := engine' }
        else { moved with engineC2h := engine' })
  | _ => none

theorem dmaXferData_eq_table (env : DmaEnv) (allocs : Allocs) (debug : DebugCdev) (pos : U32)
    (buf : U64) (length : U32) (isH2c : Bool) :
    dmaXferData env allocs debug pos buf length isH2c =
      match dmaXferTable allocs buf length with
      | .refused res => some (res, debug)
      | .faults => none
      | .filled loop => dmaXferSubmit env allocs debug pos isH2c loop.entries := by
  unfold dmaXferData dmaXferTable
  cases hsgt : allocs.sgt with
  | false => rfl
  | true =>
      by_cases hpages : pagesNr buf length = 0
      · simp only [hpages, Bool.true_eq_false, if_true, if_false]
      · cases htable : allocs.table with
        | false => simp only [hpages, Bool.true_eq_false, if_true, if_false]
        | true =>
            simp only [hpages, Bool.true_eq_false, if_false, PageLoop.run_entries,
              List.nil_append]
            rfl

theorem pagesNr_eq_zero_iff (buf : U64) {length : U32} (small : length.toNat < 2 ^ 31) :
    pagesNr buf length = 0 ↔
      (buf.toNat % pageSize + length.toNat + (pageSize - 1)) / pageSize = 0 := by
  rw [← pagesNr_toNat buf length small, ← BitVec.toNat_inj]
  rfl

theorem not_long_iff {length : U32} :
    ¬ BitVec.ofNat 64 pageSize < length.signExtend 64 ↔
      (length.signExtend 64).toNat ≤ pageSize := by
  rw [BitVec.lt_def, Nat.not_lt]
  rfl

private theorem signExtend_small {length : U32} (short : (length.signExtend 64).toNat ≤ pageSize) :
    length.toNat ≤ pageSize := by
  rw [show pageSize = 4096 from rfl] at *
  by_cases hsign : length.msb
  · rw [BitVec.toNat_signExtend, if_pos hsign] at short
    simp at short
  · rwa [BitVec.signExtend_eq_setWidth_of_msb_false (by simpa using hsign), BitVec.toNat_setWidth,
      Nat.mod_eq_of_lt (by omega)] at short

theorem xdmaTransferData_eq_table (env : ReceiveEnv) (buf : U64) (request : U32 → Bool)
    (offset : env.bufOffset = buf.toNat % pageSize) (length : CInt) :
    env.xdmaTransferData length =
      match xdmaTransferTable ⟨some buf, env.sgtOk, env.tableOk, request⟩ buf length with
      | .refused res => some (ReceiveEnv.nothing res)
      | .faults => none
      | .filled _ => some env.submit := by
  unfold ReceiveEnv.xdmaTransferData xdmaTransferTable
  by_cases hlong : BitVec.ofNat 64 pageSize < length.signExtend 64
  · have hrefused : ¬ env.Accepted length := fun h => not_long_iff.mpr h.1 hlong
    rw [if_pos hrefused, if_pos hlong]
  · have hshort := not_long_iff.mp hlong
    have hsmall : length.toNat < 2 ^ 31 :=
      Nat.lt_of_le_of_lt (signExtend_small hshort) (by decide)
    have hpages := pagesNr_eq_zero_iff buf hsmall
    rw [← offset] at hpages
    rw [if_neg hlong]
    by_cases hzero : pagesNr buf length = 0
    · have hrefused : ¬ env.Accepted length := fun h => h.2 (hpages.mp hzero)
      rw [if_pos hrefused, if_pos hzero]
    · have haccepted : env.Accepted length := ⟨hshort, fun h => hzero (hpages.mpr h)⟩
      rw [if_neg (not_not.mpr haccepted), if_neg hzero]
      cases env.sgtOk <;> cases env.tableOk <;> rfl

/-! ## The cut at the page boundaries -/

/-- What is written for a buffer: one piece of it in each page. -/
def pagePieces (buf : U64) (length : U32) : List Piece :=
  cutRun pageSize pageSize buf.toNat length.toNat

def pagesTouched (buf : U64) (length : U32) : Finset Nat :=
  windowsTouched pageSize buf.toNat length.toNat

def pageEntry (piece : Piece) : Extent :=
  ⟨BitVec.ofNat 64 piece.start, BitVec.ofNat 32 piece.len⟩

private theorem nbytes_toNat (buf : U64) (length : U32) :
    (if BitVec.ofNat 32 pageSize - offsetInPage buf < length then
        BitVec.ofNat 32 pageSize - offsetInPage buf
      else length).toNat = cutLen pageSize pageSize buf.toNat length.toNat := by
  have hlt : buf.toNat % pageSize < pageSize := Nat.mod_lt _ (by decide)
  have hoff := offsetInPage_toNat buf
  have hroom : (BitVec.ofNat 32 pageSize - offsetInPage buf).toNat =
      pageSize - buf.toNat % pageSize := by
    rw [show pageSize = 4096 from rfl] at *
    bv_omega
  unfold cutLen
  split
  · next hlong =>
      rw [BitVec.lt_def, hroom] at hlong
      omega
  · next hshort =>
      rw [BitVec.lt_def, hroom] at hshort
      omega

private theorem PageLoop.setBuf_spec (loop : PageLoop)
    (nowrap : loop.buf.toNat + loop.length.toNat < 2 ^ 64) :
    let len := cutLen pageSize pageSize loop.buf.toNat loop.length.toNat
    loop.setBuf.entries = loop.entries ++ [⟨loop.buf, BitVec.ofNat 32 len⟩] ∧
      loop.setBuf.buf.toNat = loop.buf.toNat + len ∧
      loop.setBuf.length.toNat = loop.length.toNat - len := by
  have hnbytes := nbytes_toNat loop.buf loop.length
  have hle := cutLen_le pageSize pageSize loop.buf.toNat loop.length.toNat
  intro len
  unfold PageLoop.setBuf
  simp only
  generalize (if BitVec.ofNat 32 pageSize - offsetInPage loop.buf < loop.length then
    BitVec.ofNat 32 pageSize - offsetInPage loop.buf else loop.length) = nbytes at hnbytes ⊢
  have hlen : nbytes.toNat = len := hnbytes
  have hlt := loop.length.isLt
  refine ⟨?_, ?_, ?_⟩
  · rw [← hlen, BitVec.ofNat_toNat, BitVec.setWidth_eq]
  · rw [BitVec.toNat_add, BitVec.toNat_setWidth, hlen]
    omega
  · rw [BitVec.toNat_sub_of_le (BitVec.le_def.mpr (by omega)), hlen]

private theorem PageLoop.run_pieces (loop : PageLoop)
    (nowrap : loop.buf.toNat + loop.length.toNat < 2 ^ 64) :
    let final := run (pagePieces loop.buf loop.length).length loop
    final.entries = loop.entries ++ (pagePieces loop.buf loop.length).map pageEntry ∧
      final.length = 0 := by
  have hpage : 0 < pageSize := by decide
  unfold pagePieces
  induction hleft : loop.length.toNat using Nat.strongRecOn generalizing loop with
  | ind left ih =>
      rcases Nat.eq_zero_or_pos left with rfl | hpos
      · exact ⟨(List.append_nil _).symm, BitVec.eq_of_toNat_eq hleft⟩
      · have hcut := cutLen_pos hpage hpage loop.buf.toNat hpos
        have hle := cutLen_le pageSize pageSize loop.buf.toNat left
        obtain ⟨hentries, hbuf, hlength⟩ := loop.setBuf_spec nowrap
        simp only [hleft] at hentries hbuf hlength
        have hrest := ih _ (by omega) loop.setBuf (by omega) hlength
        rw [hbuf, hentries] at hrest
        rw [cutRun_step hpage hpage _ hpos, List.length_cons, run, List.map_cons, pageEntry]
        simpa using hrest

section Buffer

variable (buf : U64) {length : U32}

private theorem pagePieces_bytes (length : U32) :
    pieceBytes (pagePieces buf length) = length.toNat :=
  cutRun_bytes (by decide) (by decide) _ _

private theorem pagePieces_consecutive (length : U32) :
    Consecutive buf.toNat (pagePieces buf length) :=
  cutRun_consecutive (by decide) (by decide) _ _

private theorem length_of_toInt_pos (positive : 0 < length.toInt) :
    0 < length.toNat ∧ length.toNat < 2 ^ 31 := by
  have hlt := length.isLt
  rw [BitVec.toInt_eq_toNat_cond] at positive
  split at positive <;> omega

private theorem pagesNr_eq_card (positive : 0 < length.toInt) :
    (pagesNr buf length).toNat = (pagesTouched buf length).card := by
  obtain ⟨hpos, hsmall⟩ := length_of_toInt_pos positive
  rw [pagesNr_toNat buf length hsmall]
  exact (windowsTouched_card (by decide) buf.toNat hpos).symm

private theorem pagePieces_length (positive : 0 < length.toInt) :
    (pagePieces buf length).length = (pagesNr buf length).toNat := by
  rw [pagesNr_eq_card buf positive]
  exact cutRun_length (by decide) (le_refl _) buf.toNat (length_of_toInt_pos positive).1

private theorem pagesNr_ne_zero (positive : 0 < length.toInt) : pagesNr buf length ≠ 0 := by
  intro hzero
  have hnone := pagePieces_length buf positive
  rw [hzero] at hnone
  have hbytes := pagePieces_bytes buf length
  rw [List.length_eq_zero_iff.mp hnone, pieceBytes_nil] at hbytes
  have hpos := (length_of_toInt_pos positive).1
  omega

private theorem pageEntry_toNat (nowrap : buf.toNat + length.toNat < 2 ^ 64) :
    ∀ piece ∈ pagePieces buf length,
      (pageEntry piece).addr.toNat = piece.start ∧ (pageEntry piece).len.toNat = piece.len := by
  intro piece hmem
  have hend := (pagePieces_consecutive buf length).within piece hmem
  rw [pagePieces_bytes] at hend
  have hpage := cutRun_window (by decide) (by decide) _ _ piece hmem
  rw [show pageSize = 4096 from rfl] at hpage
  simp only [pageEntry, BitVec.toNat_ofNat]
  omega

end Buffer

/-- The entries are the buffer, cut at its page boundaries, and nothing is left. -/
structure Splits (buf : U64) (length : U32) (loop : PageLoop) : Prop where
  count : loop.entries.length = (pagesNr buf length).toNat
  nonempty : ∀ entry ∈ loop.entries, 0 < entry.len.toNat
  inPage : ∀ entry ∈ loop.entries,
    (entry.addr.toNat + entry.len.toNat - 1) / pageSize = entry.addr.toNat / pageSize
  whole : (loop.entries.flatMap fun entry => List.range' entry.addr.toNat entry.len.toNat) =
    List.range' buf.toNat length.toNat
  drained : loop.length = 0

private theorem splits_run {buf : U64} {length : U32} (positive : 0 < length.toInt)
    (nowrap : buf.toNat + length.toNat < 2 ^ 64) :
    Splits buf length (PageLoop.run (pagesNr buf length).toNat ⟨[], buf, length⟩) := by
  have hcount := pagePieces_length buf positive
  have hentry := pageEntry_toNat buf nowrap
  obtain ⟨hentries, hdrained⟩ := PageLoop.run_pieces ⟨[], buf, length⟩ nowrap
  rw [hcount, List.nil_append] at hentries
  rw [hcount] at hdrained
  refine ⟨?_, ?_, ?_, ?_, hdrained⟩
  · rw [hentries, List.length_map, hcount]
  · rw [hentries, List.forall_mem_map]
    intro piece hmem
    rw [(hentry piece hmem).2]
    exact cutRun_len_pos (by decide) (by decide) _ _ piece hmem
  · rw [hentries, List.forall_mem_map]
    intro piece hmem
    rw [(hentry piece hmem).1, (hentry piece hmem).2]
    have hpos := cutRun_len_pos (by decide) (by decide) _ _ piece hmem
    have hpage := cutRun_window (by decide) (by decide) _ _ piece hmem
    rw [show pageSize = 4096 from rfl] at *
    omega
  · rw [hentries, List.flatMap_map, ← pagePieces_bytes buf length,
      ← (pagePieces_consecutive buf length).members]
    refine List.flatMap_congr fun piece hmem => ?_
    rw [(hentry piece hmem).1, (hentry piece hmem).2]

/-- Both copies of the code count the pages of the buffer and cut it at their boundaries, into
the same entries; the second takes buffers of up to a page. -/
theorem page_split {allocs : Allocs} (sgt : allocs.sgt = true) (table : allocs.table = true)
    {buf : U64} {length : U32} (positive : 0 < length.toInt)
    (nowrap : buf.toNat + length.toNat + pageSize < 2 ^ 64) :
    (pagesNr buf length).toNat = (pagesTouched buf length).card ∧
      ∃ loop, dmaXferTable allocs buf length = .filled loop ∧ Splits buf length loop ∧
        xdmaTransferTable allocs buf length =
          if length.toNat ≤ pageSize then .filled loop else .refused (-22) := by
  obtain ⟨hpos, hsmall⟩ := length_of_toInt_pos positive
  have hpages := pagesNr_ne_zero buf positive
  have hextend : (length.signExtend 64).toNat = length.toNat := by
    have hsign : length.msb = false := by
      rw [BitVec.msb_eq_false_iff_two_mul_lt]
      omega
    rw [BitVec.signExtend_eq_setWidth_of_msb_false hsign, BitVec.toNat_setWidth]
    omega
  refine ⟨pagesNr_eq_card buf positive, _, ?_, splits_run positive (by omega), ?_⟩
  · simp only [dmaXferTable, sgt, table, hpages, Bool.true_eq_false, if_false]
  · unfold xdmaTransferTable
    by_cases hshort : length.toNat ≤ pageSize
    · have hnot := not_long_iff.mpr (hextend.trans_le hshort)
      simp only [hnot, hpages, sgt, table, hshort, Bool.true_eq_false, if_false, if_true]
    · have hlong : BitVec.ofNat 64 pageSize < length.signExtend 64 := by
        by_contra hnot
        exact hshort (hextend ▸ not_long_iff.mp hnot)
      rw [if_pos hlong, if_neg hshort]

/-- A page's length of bytes from the middle of a page. -/
theorem page_split_straddling :
    (pagesNr 0x10fc0 4096).toNat = (pagesTouched 0x10fc0 4096).card ∧
      ∃ loop, dmaXferTable (allGranted 0x10fc0) 0x10fc0 4096 = .filled loop ∧
        Splits 0x10fc0 4096 loop ∧
        xdmaTransferTable (allGranted 0x10fc0) 0x10fc0 4096 =
          if (4096 : U32).toNat ≤ pageSize then .filled loop else .refused (-22) :=
  page_split rfl rfl (by decide) (by decide)

end NupaNet.Adapter
