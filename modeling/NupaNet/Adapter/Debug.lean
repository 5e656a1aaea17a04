import Mathlib.Data.List.Nodup
import NupaNet.Foundation.Bytes
import NupaNet.Xdma.Submit

/-!
# The debug device

`debug_write` and `debug_read` move a user's bytes between a kernel buffer and
the device through `dma_xfer_data`, which cuts the buffer into the pieces that
lie in one page each, has the pieces mapped, and submits them on the first
engine of its direction.  The device is a byte memory that descriptors address.
The result of the file is that a read gives back what a write has stored and
that the write touches no other byte of the device.
-/

namespace NupaNet.Adapter

open NupaNet.Foundation NupaNet.Xdma

def pageSize : Nat := 4096

def pageMask : U64 := ~~~BitVec.ofNat 64 (pageSize - 1)

def offsetInPage (buf : U64) : U32 := (buf &&& ~~~pageMask).setWidth 32

def bufLength : Nat := 8 <<< 12

/-! ## `dma_xfer_data` -/

/-- The DMA mapping of scatter lists, which may merge entries: it keeps the stream of bytes, and
gives distinct bytes distinct bus addresses. -/
structure DmaMapping where
  busAddr : U64 → U64
  mapSg : List Extent → List Extent
  entries : ∀ segs, (mapSg segs).length ≤ segs.length
  stream : ∀ segs, hostBytes (mapSg segs) = (hostBytes segs).map busAddr
  distinct : ∀ segs, (hostBytes segs).Nodup → (hostBytes (mapSg segs)).Nodup

/-- The results of the allocations of one call: the kernel buffer, the table and its entries, and
the request. -/
structure Allocs where
  buf : Option U64
  sgt : Bool
  table : Bool
  request : U32 → Bool

/-- Host memory by bus address, and the memory of the device. -/
structure Memories where
  host : U64 → UInt8
  dev : U64 → UInt8

structure DebugCdev where
  mem : Memories
  offline : Bool
  engineH2c : XdmaEngine
  engineC2h : XdmaEngine
  bufSize : U32

def pagesNr (buf : U64) (length : U32) : U32 :=
  ((buf + length.signExtend 64 + BitVec.ofNat 64 pageSize - 1 - (buf &&& pageMask)) >>>
    12).setWidth 32

def setPages : Nat → U64 → U32 → List Extent
  | 0, _, _ => []
  | left + 1, buf, length =>
      let room := BitVec.ofNat 32 pageSize - offsetInPage buf
      let nbytes := if room < length then room else length
      ⟨buf, nbytes⟩ :: setPages left (buf + nbytes.setWidth 64) (length - nbytes)

namespace Memories

def movePair (dir : Direction) (m : Memories) (pair : U64 × U64) : Memories :=
  match dir with
  | .toDevice => { m with dev := Function.update m.dev pair.2 (m.host pair.1) }
  | .fromDevice => { m with host := Function.update m.host pair.2 (m.dev pair.1) }

def movePairs (dir : Direction) (m : Memories) (pairs : List (U64 × U64)) : Memories :=
  pairs.foldl (movePair dir) m

end Memories

/-- The bytes that the transfers of a call have moved; one that did not complete has moved the
first `partialMove` of its bytes. -/
def movedPairs (partialMove : Nat) (log : List Submitted) : List (U64 × U64) :=
  log.flatMap fun submitted =>
    let pairs := submitted.descs.flatMap XdmaDesc.bytePairs
    match submitted.outcome with
    | .completed _ => pairs
    | _ => pairs.take partialMove

/-- What the surroundings of a call decide: the mapping and whether it can be made, `desc_blen_max`,
and the fate of each transfer. -/
structure DmaEnv where
  mapping : DmaMapping
  mapSgOk : Bool
  descBlenMax : U32
  outcomes : Nat → Outcome
  partialMove : Nat

/-- No entries are mapped where `dma_map_sg` fails, for which it returns 0. -/
def DmaEnv.mapSg (env : DmaEnv) (segs : List Extent) : List Extent :=
  if env.mapSgOk then env.mapping.mapSg segs else []

theorem DmaEnv.mapSg_ok {env : DmaEnv} (mapped : env.mapSgOk = true) (segs : List Extent) :
    env.mapSg segs = env.mapping.mapSg segs :=
  if_pos mapped

theorem DmaEnv.mapSg_failed {env : DmaEnv} (failed : env.mapSgOk = false) (segs : List Extent) :
    env.mapSg segs = [] :=
  if_neg (by simp [failed])

/-- With the `int` it returns; `none` if `xdma_xfer_submit` does not return. -/
def dmaXferData (env : DmaEnv) (allocs : Allocs) (debug : DebugCdev) (pos : U32) (buf : U64)
    (length : U32) (isH2c : Bool) : Option (Int × DebugCdev) :=
  let engine := if isH2c then debug.engineH2c else debug.engineC2h
  let dir : Direction := if isH2c then .toDevice else .fromDevice
  if allocs.sgt = false then some (-12, debug)
  else if pagesNr buf length = 0 then some (-22, debug)
  else if allocs.table = false then some (-12, debug)
  else
    let sgl := env.mapSg (setPages (pagesNr buf length).toNat buf length)
    match xdmaXferSubmit allocs.request env.descBlenMax debug.offline engine dir
        (pos.signExtend 64) sgl env.outcomes with
    | .returned res log engine' =>
        let moved :=
          { debug with mem := debug.mem.movePairs dir (movedPairs env.partialMove log) }
        some ((BitVec.ofInt 32 res).toInt,
          if isH2c then { moved with engineH2c := engine' }
          else { moved with engineC2h := engine' })
    | _ => none

/-! ## `debug_read` and `debug_write` -/

def bufBytes (buf : U64) (count : Nat) : List U64 :=
  (List.range count).map fun k => buf + BitVec.ofNat 64 k

def Memories.fill (mapping : DmaMapping) (m : Memories) (buf : U64) (data : List UInt8) :
    Memories :=
  { m with host := scatter m.host (((bufBytes buf data.length).map mapping.busAddr).zip data) }

def Memories.load (mapping : DmaMapping) (m : Memories) (buf : U64) (count : Nat) : List UInt8 :=
  (bufBytes buf count).map fun addr => m.host (mapping.busAddr addr)

structure Returned where
  ret : Int
  fOffset : U64
  data : List UInt8
  debug : DebugCdev

def debugRead (env : DmaEnv) (allocs : Allocs) (debug : DebugCdev) (copies : Bool)
    (count : Nat) (fOffset : U64) : Option Returned :=
  match allocs.buf with
  | none => some ⟨-12, fOffset, [], debug⟩
  | some buf =>
      let zeroed :=
        { debug with mem := debug.mem.fill env.mapping buf (List.replicate count 0) }
      (dmaXferData env allocs zeroed (fOffset.setWidth 32) buf (BitVec.ofNat 32 count) false).map
        fun result =>
          if copies then
            ⟨count, fOffset + BitVec.ofNat 64 count,
              result.2.mem.load env.mapping buf count, result.2⟩
          else ⟨-14, fOffset, [], result.2⟩

def debugWrite (env : DmaEnv) (allocs : Allocs) (debug : DebugCdev) (copies : Bool)
    (src : List UInt8) (fOffset : U64) : Option Returned :=
  let count := src.length
  if debug.bufSize.signExtend 64 < fOffset + BitVec.ofNat 64 count then
    some ⟨-22, fOffset, [], debug⟩
  else
    match allocs.buf with
    | none => some ⟨-12, fOffset, [], debug⟩
    | some buf =>
        let zeroed := debug.mem.fill env.mapping buf (List.replicate count 0)
        if copies then
          let filled := { debug with mem := zeroed.fill env.mapping buf src }
          (dmaXferData env allocs filled (fOffset.setWidth 32) buf (BitVec.ofNat 32 count)
            true).map fun result => ⟨count, fOffset + BitVec.ofNat 64 count, [], result.2⟩
        else some ⟨-14, fOffset, [], { debug with mem := zeroed }⟩

/-! ## The pages of a buffer -/

private theorem pageOffset_toNat (buf : U64) :
    (buf &&& ~~~pageMask).toNat = buf.toNat % pageSize := by
  have hmask : ~~~pageMask = BitVec.ofNat 64 4095 := by decide
  rw [hmask, BitVec.toNat_and]
  exact Nat.and_two_pow_sub_one_eq_mod buf.toNat 12

theorem offsetInPage_toNat (buf : U64) : (offsetInPage buf).toNat = buf.toNat % pageSize := by
  have hlt : buf.toNat % pageSize < pageSize := Nat.mod_lt _ (by decide)
  rw [offsetInPage, BitVec.toNat_setWidth, pageOffset_toNat]
  exact Nat.mod_eq_of_lt (hlt.trans (by decide))

private theorem page_add_offset (buf : U64) : buf &&& pageMask = buf - (buf &&& ~~~pageMask) := by
  have hapart : (buf &&& pageMask) &&& (buf &&& ~~~pageMask) = 0#64 := by
    ext i hi
    simp
    cases buf[i] <;> cases pageMask[i] <;> simp
  have hsum : buf &&& pageMask ||| buf &&& ~~~pageMask = buf := by
    ext i hi
    simp
    cases buf[i] <;> cases pageMask[i] <;> simp
  have hadd := BitVec.add_eq_or_of_and_eq_zero _ _ hapart
  rw [hsum] at hadd
  bv_omega

theorem pagesNr_toNat (buf : U64) (length : U32) (small : length.toNat < 2 ^ 31) :
    (pagesNr buf length).toNat =
      (buf.toNat % pageSize + length.toNat + (pageSize - 1)) / pageSize := by
  have hlow := pageOffset_toNat buf
  have hlt : buf.toNat % pageSize < pageSize := Nat.mod_lt _ (by decide)
  have hpositive : length.msb = false := by
    rw [BitVec.msb_eq_false_iff_two_mul_lt]
    omega
  have hextend : (length.signExtend 64).toNat = length.toNat := by
    rw [BitVec.signExtend_eq_setWidth_of_msb_false hpositive, BitVec.toNat_setWidth]
    omega
  have hspan : buf + length.signExtend 64 + BitVec.ofNat 64 pageSize - 1 - (buf &&& pageMask) =
      (buf &&& ~~~pageMask) + length.signExtend 64 + 4095 := by
    rw [page_add_offset, show BitVec.ofNat 64 pageSize = 4096#64 from rfl]
    bv_omega
  have htotal : ((buf &&& ~~~pageMask) + length.signExtend 64 + 4095).toNat =
      buf.toNat % pageSize + length.toNat + (pageSize - 1) := by
    rw [show pageSize = 4096 from rfl] at *
    bv_omega
  rw [pagesNr, hspan, BitVec.toNat_setWidth, BitVec.toNat_ushiftRight, htotal,
    Nat.shiftRight_eq_div_pow, show (2 : Nat) ^ 12 = pageSize from rfl]
  rw [show pageSize = 4096 from rfl] at *
  omega

private theorem setPages_length (left : Nat) (buf : U64) (length : U32) :
    (setPages left buf length).length = left := by
  induction left generalizing buf length with
  | zero => rfl
  | succ left ih => rw [setPages, List.length_cons, ih]

private theorem setPages_bytes (left : Nat) (buf : U64) (length : U32)
    (enough : length = 0 ∨ buf.toNat % pageSize + length.toNat ≤ left * pageSize) :
    hostBytes (setPages left buf length) = (⟨buf, length⟩ : Extent).bytes := by
  induction left generalizing buf length with
  | zero =>
      have hzero : length = 0 := by
        rcases enough with hzero | henough
        · exact hzero
        · exact BitVec.eq_of_toNat_eq (show length.toNat = 0 by omega)
      subst hzero
      rfl
  | succ left ih =>
      have hoff := offsetInPage_toNat buf
      have hlt : buf.toNat % pageSize < pageSize := Nat.mod_lt _ (by decide)
      have hroom : (BitVec.ofNat 32 pageSize - offsetInPage buf).toNat =
          pageSize - buf.toNat % pageSize := by
        rw [show pageSize = 4096 from rfl] at *
        bv_omega
      simp only [setPages, hostBytes, List.flatMap_cons]
      generalize BitVec.ofNat 32 pageSize - offsetInPage buf = room at hroom ⊢
      by_cases hlong : room < length
      · -- the piece ends at a page boundary, so the next buffer address has offset 0
        have hnext : (buf + room.setWidth 64).toNat % pageSize = 0 := by
          rw [BitVec.toNat_add, BitVec.toNat_setWidth, hroom,
            Nat.mod_eq_of_lt (Nat.lt_of_le_of_lt (Nat.sub_le _ _) (by decide)),
            Nat.mod_mod_of_dvd _ (by decide)]
          rw [show pageSize = 4096 from rfl] at *
          omega
        have hlt' : room.toNat < length.toNat := hlong
        have hleft : (length - room).toNat = length.toNat - room.toNat :=
          BitVec.toNat_sub_of_le hlt'.le
        have hrest := ih (buf + room.setWidth 64) (length - room) (.inr (by
          rcases enough with rfl | henough
          · cases hlt'
          · rw [hnext, hleft]
            rw [show pageSize = 4096 from rfl] at *
            omega))
        rw [if_pos hlong, Extent.bytes_split hlong, ← hrest]
        rfl
      · have hrest := ih (buf + length.setWidth 64) (length - length) (.inl (BitVec.sub_self _))
        have hnone : (⟨buf + length.setWidth 64, length - length⟩ : Extent).bytes = [] := by
          rw [BitVec.sub_self]
          rfl
        rw [if_neg hlong]
        exact (congrArg (_ ++ ·) (hrest.trans hnone)).trans (List.append_nil _)

/-! ## Buffers and moves -/

private theorem bufBytes_eq (buf : U64) {count : Nat} (small : count < 2 ^ 32) :
    bufBytes buf count = (⟨buf, BitVec.ofNat 32 count⟩ : Extent).bytes := by
  rw [bufBytes, Extent.bytes, BitVec.toNat_ofNat, Nat.mod_eq_of_lt small]

theorem bufBytes_length (buf : U64) (count : Nat) : (bufBytes buf count).length = count := by
  simp [bufBytes]

theorem bufBytes_nodup (buf : U64) {count : Nat} (small : count < 2 ^ 32) :
    (bufBytes buf count).Nodup := by
  refine List.Nodup.map_on ?_ List.nodup_range
  intro i hi j hj heq
  rw [List.mem_range] at hi hj
  bv_omega

namespace Memories

variable (m : Memories) (pairs : List (U64 × U64))

theorem movePairs_toDevice :
    m.movePairs .toDevice pairs =
      { m with dev := scatter m.dev (pairs.map fun pair => (pair.2, m.host pair.1)) } := by
  induction pairs generalizing m with
  | nil => rfl
  | cons pair pairs ih => exact ih (m.movePair .toDevice pair)

theorem movePairs_fromDevice :
    m.movePairs .fromDevice pairs =
      { m with host := scatter m.host (pairs.map fun pair => (pair.2, m.dev pair.1)) } := by
  induction pairs generalizing m with
  | nil => rfl
  | cons pair pairs ih => exact ih (m.movePair .fromDevice pair)

end Memories

theorem write_pairs (m : Memories) (epAddr : U64) (hosts : List U64) :
    let cells := (copyPairs .toDevice epAddr hosts).map fun pair => (pair.2, m.host pair.1)
    cells.map Prod.fst = bufBytes epAddr hosts.length ∧ cells.map Prod.snd = hosts.map m.host := by
  constructor
  · apply List.ext_getElem
    · simp [copyPairs, bufBytes]
    · intro k _ _
      simp [copyPairs, bufBytes, orient]
  · apply List.ext_getElem
    · simp [copyPairs]
    · intro k _ _
      simp [copyPairs, orient]

theorem read_pairs (m : Memories) (epAddr : U64) (hosts : List U64) :
    let cells := (copyPairs .fromDevice epAddr hosts).map fun pair => (pair.2, m.dev pair.1)
    cells.map Prod.fst = hosts ∧
      cells.map Prod.snd = (bufBytes epAddr hosts.length).map m.dev := by
  constructor
  · apply List.ext_getElem
    · simp [copyPairs]
    · intro k _ _
      simp [copyPairs, orient]
  · apply List.ext_getElem
    · simp [copyPairs, bufBytes]
    · intro k _ _
      simp [copyPairs, bufBytes, orient]

theorem movedPairs_completed (partialMove : Nat) {log : List Submitted}
    (completed : ∀ submitted ∈ log, submitted.outcome.Completed) :
    movedPairs partialMove log = logPairs log := by
  refine List.flatMap_congr fun submitted hmem => ?_
  obtain ⟨written, houtcome⟩ := (completed submitted hmem).exists_written
  simp only [houtcome]

/-! ## One call -/

structure Allocs.Granted (allocs : Allocs) (buf : U64) : Prop where
  buf : allocs.buf = some buf
  sgt : allocs.sgt = true
  table : allocs.table = true
  request : ∀ size, allocs.request size = true

/-- The table is mapped, every transfer completes, and `desc_blen_max` is not 0, by which requests
are divided. -/
structure DmaEnv.Completes (env : DmaEnv) : Prop where
  mapped : env.mapSgOk = true
  outcomes : ∀ i, (env.outcomes i).Completed
  limit : env.descBlenMax ≠ 0

theorem copyCorrect_all {dir : Direction} {epAddr : U64} {sgl : List Extent}
    {outcomes : Nat → Outcome} {ret : Int} {log : List Submitted}
    (correct : CopyCorrect dir epAddr sgl outcomes ret log)
    (completed : ∀ i, (outcomes i).Completed) :
    (∀ submitted ∈ log, submitted.outcome.Completed) ∧
      logPairs log = copyPairs dir epAddr (hostBytes sgl) := by
  have hall : ∀ submitted ∈ log, submitted.outcome.Completed := by
    intro submitted hmem
    have houtcome := List.mem_map_of_mem (f := Submitted.outcome) hmem
    rw [correct.asked] at houtcome
    obtain ⟨i, -, hi⟩ := List.mem_map.mp houtcome
    exact hi ▸ completed i
  rcases correct.verdict with ⟨-, hpairs, -⟩ | ⟨before, last, hlog, -, hlast, -⟩
  · exact ⟨hall, hpairs⟩
  · exact absurd (hall last (by simp [hlog])) hlast

section Call

variable {env : DmaEnv} {buf : U64} {count : Nat}

theorem mapSg_pages (mapping : DmaMapping) (buf : U64) (small : count < 2 ^ 31) :
    let length : U32 := BitVec.ofNat 32 count
    let sgl := mapping.mapSg (setPages (pagesNr buf length).toNat buf length)
    hostBytes sgl = (bufBytes buf count).map mapping.busAddr ∧ (hostBytes sgl).Nodup ∧
      sgl.length ≤ count + 1 := by
  have hlength : (BitVec.ofNat 32 count).toNat = count := by
    rw [BitVec.toNat_ofNat, Nat.mod_eq_of_lt (by omega)]
  have hlt : buf.toNat % pageSize < pageSize := Nat.mod_lt _ (by decide)
  have hpages := pagesNr_toNat buf (BitVec.ofNat 32 count) (by omega)
  rw [hlength] at hpages
  intro length sgl
  have hbytes : hostBytes (setPages (pagesNr buf length).toNat buf length) =
      bufBytes buf count := by
    rw [bufBytes_eq buf (by omega)]
    refine setPages_bytes _ buf length (.inr ?_)
    rw [hpages, hlength]
    rw [show pageSize = 4096 from rfl] at *
    omega
  refine ⟨?_, ?_, ?_⟩
  · rw [mapping.stream, hbytes]
  · refine mapping.distinct _ ?_
    rw [hbytes]
    exact bufBytes_nodup buf (by omega)
  · have hentries : sgl.length ≤ (pagesNr buf length).toNat :=
      (mapping.entries _).trans_eq (setPages_length _ _ _)
    refine hentries.trans (hpages.trans_le ?_)
    rw [show pageSize = 4096 from rfl] at *
    omega

private theorem dmaXferData_moves (completes : env.Completes) {allocs : Allocs}
    (granted : allocs.Granted buf) (debug : DebugCdev) (online : debug.offline = false)
    (isH2c : Bool)
    (mm : MemoryMapped (if isH2c then debug.engineH2c else debug.engineC2h))
    (dir : (if isH2c then debug.engineH2c else debug.engineC2h).dir =
      if isH2c then .toDevice else .fromDevice)
    (pos : U32) (positive : 1 ≤ count) (small : count ≤ bufLength) :
    ∃ result, dmaXferData env allocs debug pos buf (BitVec.ofNat 32 count) isH2c = some result ∧
      result.2.mem = debug.mem.movePairs (if isH2c then .toDevice else .fromDevice)
        (copyPairs (if isH2c then .toDevice else .fromDevice) (pos.signExtend 64)
          ((bufBytes buf count).map env.mapping.busAddr)) ∧
      result.2.offline = false ∧ (isH2c = true → result.2.engineC2h = debug.engineC2h) := by
  have hsmall : count ≤ 32768 := small
  obtain ⟨hbytes, -, hentries⟩ := mapSg_pages env.mapping buf (by omega : count < 2 ^ 31)
  have hpages : pagesNr buf (BitVec.ofNat 32 count) ≠ 0 := by
    intro hzero
    have hlength : (BitVec.ofNat 32 count).toNat = count := by
      rw [BitVec.toNat_ofNat, Nat.mod_eq_of_lt (by omega)]
    have hnr := pagesNr_toNat buf (BitVec.ofNat 32 count) (by omega)
    rw [hzero, hlength, show pageSize = 4096 from rfl] at hnr
    change 0 = _ at hnr
    omega
  generalize hsgl : env.mapping.mapSg (setPages (pagesNr buf (BitVec.ofNat 32 count)).toNat buf
    (BitVec.ofNat 32 count)) = sgl at hbytes hentries
  have hcount : byteCount sgl = count := by
    rw [← hostBytes_length, hbytes, List.length_map, bufBytes_length]
  have hmapped : MappedSgl sgl := by
    refine ⟨?_, by omega, by omega⟩
    rintro rfl
    simp [byteCount] at hcount
    omega
  have hfits : RequestFits env.descBlenMax sgl := by
    have hextra := extraSum_le completes.limit sgl
    have hneeded := descsNeeded_le_counted completes.limit sgl
    have hbound : descsCounted env.descBlenMax sgl ≤ 65537 := by
      rw [descsCounted]
      omega
    refine ⟨by omega, ?_⟩
    rw [sizeofXdmaRequestCb, sizeofSwDesc, Nat.mod_eq_of_lt (by omega)]
    omega
  have hcopies := copies_of_fits completes.limit hmapped mm (pos.signExtend 64) env.outcomes hfits
    (granted.request _)
  rw [dir] at hcopies
  simp only [dmaXferData, granted.sgt, granted.table, Bool.true_eq_false, if_false, hpages,
    DmaEnv.mapSg_ok completes.mapped, hsgl, online]
  generalize xdmaXferSubmit allocs.request env.descBlenMax false _ _ _ sgl env.outcomes = call at *
  cases call with
  | returned res log engine' =>
      obtain ⟨hall, hpairs⟩ := copyCorrect_all hcopies completes.outcomes
      rw [hbytes] at hpairs
      refine ⟨_, rfl, ?_, ?_, ?_⟩
      · rw [movedPairs_completed _ hall, hpairs]
        split <;> rfl
      · split <;> rfl
      · rintro rfl
        rfl
  | overrun | divideError | hangs => exact hcopies.elim

theorem busAddr_nodup (mapping : DmaMapping) (buf : U64) (small : count < 2 ^ 31) :
    ((bufBytes buf count).map mapping.busAddr).Nodup := by
  obtain ⟨hbytes, hnodup, -⟩ := mapSg_pages mapping buf small
  rwa [hbytes] at hnodup

theorem fill_host (mapping : DmaMapping) (m : Memories) (buf : U64) (data : List UInt8)
    (small : data.length < 2 ^ 31) :
    ((bufBytes buf data.length).map mapping.busAddr).map (m.fill mapping buf data).host =
      data := by
  have hlength : ((bufBytes buf data.length).map mapping.busAddr).length = data.length := by
    rw [List.length_map, bufBytes_length]
  have hkeys : (((bufBytes buf data.length).map mapping.busAddr).zip data).map Prod.fst =
      (bufBytes buf data.length).map mapping.busAddr := List.map_fst_zip (by omega)
  have hvalues : (((bufBytes buf data.length).map mapping.busAddr).zip data).map Prod.snd =
      data := List.map_snd_zip (by omega)
  have hread := map_scatter m.host (hkeys ▸ busAddr_nodup mapping buf small)
  rw [hvalues, hkeys] at hread
  exact hread

end Call

theorem fileOffset_signExtend {o : Nat} (small : o < 2 ^ 31) :
    ((BitVec.ofNat 64 o).setWidth 32).signExtend 64 = BitVec.ofNat 64 o := by
  have hpositive : ((BitVec.ofNat 64 o).setWidth 32).msb = false := by
    rw [BitVec.msb_eq_false_iff_two_mul_lt, BitVec.toNat_setWidth, BitVec.toNat_ofNat]
    omega
  rw [BitVec.signExtend_eq_setWidth_of_msb_false hpositive]
  apply BitVec.eq_of_toNat_eq
  simp only [BitVec.toNat_setWidth, BitVec.toNat_ofNat]
  omega

/-! ## The result -/

/-- As `create_debug_cdev` and the probe leave it: a device on the bus with memory-mapped
engines, at any position of their rings. -/
structure DebugCdev.Ready (debug : DebugCdev) : Prop where
  online : debug.offline = false
  h2c : MemoryMapped debug.engineH2c
  h2cDir : debug.engineH2c.dir = .toDevice
  c2h : MemoryMapped debug.engineC2h
  c2hDir : debug.engineC2h.dir = .fromDevice
  size : debug.bufSize = BitVec.ofNat 32 bufLength

section File

variable {env : DmaEnv} {allocs : Allocs} {buf : U64} {debug : DebugCdev} {o : Nat}

private theorem debugWrite_stores (completes : env.Completes) (granted : allocs.Granted buf)
    (ready : debug.Ready) (d : List UInt8) (nonempty : 1 ≤ d.length)
    (fits : o + d.length ≤ bufLength) :
    ∃ w, debugWrite env allocs debug true d (BitVec.ofNat 64 o) = some w ∧
      w.ret = d.length ∧ w.fOffset = BitVec.ofNat 64 (o + d.length) ∧
      (bufBytes (BitVec.ofNat 64 o) d.length).map w.debug.mem.dev = d ∧
      (∀ a : U64, a ∉ bufBytes (BitVec.ofNat 64 o) d.length →
        w.debug.mem.dev a = debug.mem.dev a) ∧
      w.debug.offline = false ∧ w.debug.engineC2h = debug.engineC2h := by
  have hsmall : o + d.length ≤ 32768 := fits
  have hlength : d.length ≤ bufLength := Nat.le_of_add_left_le fits
  have hadmit : ¬ debug.bufSize.signExtend 64 < BitVec.ofNat 64 o + BitVec.ofNat 64 d.length := by
    rw [ready.size, show (BitVec.ofNat 32 bufLength).signExtend 64 = 32768#64 by decide]
    bv_omega
  have hfill := fill_host env.mapping
    (debug.mem.fill env.mapping buf (List.replicate d.length 0)) buf d (by omega)
  generalize hmemory : (debug.mem.fill env.mapping buf (List.replicate d.length 0)).fill
    env.mapping buf d = mem at hfill
  have hdev : mem.dev = debug.mem.dev := by
    rw [← hmemory]
    rfl
  obtain ⟨result, hresult, hmem, honline, hc2h⟩ := dmaXferData_moves completes granted
    { debug with mem } ready.online true ready.h2c ready.h2cDir ((BitVec.ofNat 64 o).setWidth 32)
    nonempty hlength
  rw [fileOffset_signExtend (by omega)] at hmem
  obtain ⟨hkeys, hvalues⟩ := write_pairs mem (BitVec.ofNat 64 o)
    ((bufBytes buf d.length).map env.mapping.busAddr)
  rw [List.length_map, bufBytes_length] at hkeys
  rw [hfill] at hvalues
  have hmoved := mem.movePairs_toDevice (copyPairs .toDevice (BitVec.ofNat 64 o)
    ((bufBytes buf d.length).map env.mapping.busAddr))
  have hafter := hmem.trans hmoved
  have hstored := map_scatter mem.dev (hkeys ▸ bufBytes_nodup (BitVec.ofNat 64 o) (by omega))
  refine ⟨⟨d.length, BitVec.ofNat 64 o + BitVec.ofNat 64 d.length, [], result.2⟩, ?_, rfl,
    (BitVec.ofNat_add o d.length).symm, ?_, ?_, honline, hc2h rfl⟩
  · simp only [debugWrite, hadmit, if_false, granted.buf, if_true, hmemory, hresult,
      Option.map_some]
  · rw [hkeys, hvalues] at hstored
    rw [hafter]
    exact hstored
  · intro a ha
    rw [hafter, ← hdev]
    exact scatter_outside (hkeys ▸ ha)

private theorem debugRead_loads (completes : env.Completes) (granted : allocs.Granted buf)
    (online : debug.offline = false) (c2h : MemoryMapped debug.engineC2h)
    (c2hDir : debug.engineC2h.dir = .fromDevice) {count : Nat} (positive : 1 ≤ count)
    (fits : o + count ≤ bufLength) :
    ∃ r, debugRead env allocs debug true count (BitVec.ofNat 64 o) = some r ∧
      r.ret = count ∧ r.fOffset = BitVec.ofNat 64 (o + count) ∧
      r.data = (bufBytes (BitVec.ofNat 64 o) count).map debug.mem.dev ∧
      r.debug.mem.dev = debug.mem.dev := by
  have hsmall : o + count ≤ 32768 := fits
  have hlength : count ≤ bufLength := Nat.le_of_add_left_le fits
  generalize hmemory : debug.mem.fill env.mapping buf (List.replicate count 0) = mem
  have hdev : mem.dev = debug.mem.dev := by
    rw [← hmemory]
    rfl
  obtain ⟨result, hresult, hmem, -, -⟩ := dmaXferData_moves completes granted
    { debug with mem } online false c2h c2hDir ((BitVec.ofNat 64 o).setWidth 32) positive hlength
  rw [fileOffset_signExtend (by omega)] at hmem
  obtain ⟨hkeys, hvalues⟩ := read_pairs mem (BitVec.ofNat 64 o)
    ((bufBytes buf count).map env.mapping.busAddr)
  rw [List.length_map, bufBytes_length] at hvalues
  have hmoved := mem.movePairs_fromDevice (copyPairs .fromDevice (BitVec.ofNat 64 o)
    ((bufBytes buf count).map env.mapping.busAddr))
  have hafter := hmem.trans hmoved
  have hread := map_scatter mem.host (hkeys ▸ busAddr_nodup env.mapping buf (by omega))
  refine ⟨⟨count, BitVec.ofNat 64 o + BitVec.ofNat 64 count,
    result.2.mem.load env.mapping buf count, result.2⟩, ?_, rfl,
    (BitVec.ofNat_add o count).symm, ?_, ?_⟩
  · simp only [debugRead, granted.buf, if_true, hmemory, hresult, Option.map_some]
  · rw [hkeys, hvalues, List.map_map] at hread
    rw [← hdev, ← hread, hafter]
    rfl
  · rw [hafter, ← hdev]

end File

private theorem not_mem_bufBytes {o count : Nat} (small : o + count ≤ bufLength) {a : U64}
    (outside : a.toNat < o ∨ o + count ≤ a.toNat) : a ∉ bufBytes (BitVec.ofNat 64 o) count := by
  have hsmall : o + count ≤ 32768 := small
  intro hmem
  obtain ⟨k, hk, rfl⟩ := List.mem_map.mp hmem
  rw [List.mem_range] at hk
  rw [← BitVec.ofNat_add, BitVec.toNat_ofNat, Nat.mod_eq_of_lt (by omega)] at outside
  omega

/-- A read of what was written gives it back, both calls count and advance by its length, and no
other byte of the device changes. -/
theorem debugRead_after_debugWrite {debug : DebugCdev} (ready : debug.Ready)
    {writeEnv readEnv : DmaEnv} (writeCompletes : writeEnv.Completes)
    (readCompletes : readEnv.Completes) {writeAllocs readAllocs : Allocs} {writeBuf readBuf : U64}
    (writeGranted : writeAllocs.Granted writeBuf) (readGranted : readAllocs.Granted readBuf)
    (o : Nat) (d : List UInt8) (nonempty : 1 ≤ d.length) (fits : o + d.length ≤ bufLength) :
    ∃ w r, debugWrite writeEnv writeAllocs debug true d (BitVec.ofNat 64 o) = some w ∧
      debugRead readEnv readAllocs w.debug true d.length (BitVec.ofNat 64 o) = some r ∧
      r.data = d ∧ w.ret = d.length ∧ r.ret = d.length ∧
      w.fOffset = BitVec.ofNat 64 (o + d.length) ∧ r.fOffset = BitVec.ofNat 64 (o + d.length) ∧
      ∀ a : U64, a.toNat < o ∨ o + d.length ≤ a.toNat →
        r.debug.mem.dev a = debug.mem.dev a := by
  obtain ⟨w, hwrite, hret, hoffset, hstored, hkept, honline, hc2h⟩ :=
    debugWrite_stores writeCompletes writeGranted ready d nonempty fits
  obtain ⟨r, hread, hret', hoffset', hdata, hdev⟩ :=
    debugRead_loads readCompletes readGranted honline (hc2h ▸ ready.c2h) (hc2h ▸ ready.c2hDir)
      nonempty fits
  refine ⟨w, r, hwrite, hread, hdata.trans hstored, hret, hret', hoffset, hoffset', ?_⟩
  intro a houtside
  rw [hdev]
  exact hkept a (not_mem_bufBytes fits houtside)

def identityMapping : DmaMapping where
  busAddr := id
  mapSg := id
  entries := fun _ => le_rfl
  stream := fun _ => (List.map_id _).symm
  distinct := fun _ h => h

def plainEnv : DmaEnv where
  mapping := identityMapping
  mapSgOk := true
  descBlenMax := 0xfffffff
  outcomes := fun _ => .completed 0
  partialMove := 0

def allGranted (buf : U64) : Allocs := ⟨some buf, true, true, fun _ => true⟩

theorem allGranted_granted (buf : U64) : (allGranted buf).Granted buf :=
  ⟨rfl, rfl, rfl, fun _ => rfl⟩

/-- Both engines are near the end of their rings. -/
def blankDevice : DebugCdev where
  mem := ⟨fun _ => 0, fun _ => 0⟩
  offline := false
  engineH2c := idleEngine .toDevice 0x7ff
  engineC2h := idleEngine .fromDevice 0x7fe
  bufSize := BitVec.ofNat 32 bufLength

/-- A hundred bytes, from a buffer that crosses a page and back to one that does not. -/
theorem debugRead_after_debugWrite_hundred :
    ∃ w r,
      debugWrite plainEnv (allGranted 0x10fc0) blankDevice true (List.replicate 100 7) 0 = some w ∧
      debugRead plainEnv (allGranted 0x20000) w.debug true 100 0 = some r ∧
      r.data = List.replicate 100 7 ∧ w.ret = 100 ∧ r.ret = 100 := by
  have hready : blankDevice.Ready :=
    ⟨rfl, idleEngine_memoryMapped _ (by decide), rfl, idleEngine_memoryMapped _ (by decide), rfl,
      rfl⟩
  have hcompletes : plainEnv.Completes := ⟨rfl, fun _ => trivial, by decide⟩
  obtain ⟨w, r, hwrite, hread, hdata, hret, hret', -⟩ := debugRead_after_debugWrite hready
    hcompletes hcompletes (allGranted_granted 0x10fc0) (allGranted_granted 0x20000) 0
    (List.replicate 100 7) (by decide) (by decide)
  exact ⟨w, r, hwrite, hread, hdata, hret, hret'⟩

end NupaNet.Adapter
