import NupaNet.Foundation.Cuts
import NupaNet.Xdma.Submit

/-!
# `xdma_xfer_aperture`

A call of this function moves a scatter list through a window of the device, of
`aperture` bytes from `ep_addr` on: the byte after the last of the window is the
first again.  Two nested loops fill the free slots of the descriptor ring, one
descriptor for each piece of a segment that lies in the window; when the ring
ends before the list, the request remembers where it stopped, and the next
transfer goes on from there.  This file has the function and what one pass of
the nested loops does with the slots it fills.
-/

namespace NupaNet.Xdma

open NupaNet.Foundation

/-- The fields of `struct xdma_request_cb` that this function uses; `sg` is the table from the
entry on that it points to. -/
structure ApertureReq where
  epAddr : U64
  aperture : U32
  totalLen : U32
  offset : U32
  sg : List Extent
  sgIdx : Nat
  sgOffset : U32

structure Window where
  dir : Direction
  epAddr : U64
  epAddrMax : U64
  maxlen : U32

/-- The variables of the loops, with the slots they write. -/
structure Fill where
  desc : Nat → XdmaDesc
  descIdx : Nat
  epAddr : U64
  sgOffset : U32
  offset : U32
  len : U32

def minT (x y : U32) : U32 := if x < y then x else y

def apertureWindow (dir : Direction) (epAddr : U64) (aperture descBlenMax : U32) : Window where
  dir
  epAddr
  epAddrMax := epAddr + aperture.setWidth 64 - 1
  maxlen := minT aperture descBlenMax

def nextPiece (w : Window) (tlen : U32) (epAddr : U64) : U64 × U32 :=
  let len := minT tlen w.maxlen
  let epAddr := if w.epAddrMax < epAddr then w.epAddr else epAddr
  (epAddr,
    if w.epAddrMax < epAddr + len.setWidth 64 then (w.epAddrMax - epAddr + 1).setWidth 32 else len)

def fillStep (w : Window) (addr : U64) (piece : U64 × U32) (f : Fill) : Fill where
  desc := modifyAt f.desc f.descIdx fun slot => xdmaDescSet slot addr piece.1 piece.2 w.dir
  descIdx := f.descIdx + 1
  epAddr := piece.1 + piece.2.setWidth 64
  sgOffset := f.sgOffset + piece.2
  offset := f.offset + piece.2
  len := f.len + piece.2

/-- The `while (tlen)` loop, with the slots that are left of the ring; it returns the `tlen` it
leaves. -/
def fillSegment (w : Window) : Nat → U64 → U32 → Fill → Fill × U32
  | 0, _, tlen, f => (f, tlen)
  | room + 1, addr, tlen, f =>
      if tlen = 0 then (f, tlen)
      else
        let piece := nextPiece w tlen f.epAddr
        fillSegment w room (addr + piece.2.setWidth 64) (tlen - piece.2) (fillStep w addr piece f)

def fillSegments (w : Window) (sgMax descMax : Nat) : List Extent → Nat → Fill → Fill × Nat
  | [], i, f => (f, i)
  | sg :: rest, i, f =>
      if i < sgMax ∧ f.descIdx < descMax then
        let addr := if f.sgOffset ≠ 0 then sg.addr + f.sgOffset.setWidth 64 else sg.addr
        let tlen := if f.sgOffset ≠ 0 then sg.len - f.sgOffset else sg.len
        let filled := fillSegment w (descMax - f.descIdx) addr tlen f
        if filled.2 = 0 then fillSegments w sgMax descMax rest (i + 1) { filled.1 with sgOffset := 0 }
        else (filled.1, i)
      else (f, i)

def linkTransfer (desc : Nat → XdmaDesc) (descVirt : Nat) (descBus : U64) (descCnt : Nat) :
    Nat → XdmaDesc :=
  let linked := modifyAt
    (modifyRange desc descVirt
      (fun i slot =>
        let next := descBus + BitVec.ofNat 64 (sizeofXdmaDesc * (i + 1))
        { slot with nextLo := pciDmaL next, nextHi := pciDmaH next, control := descMagic })
      (descCnt - 1))
    (descVirt + (descCnt - 1))
    fun slot => { slot with nextLo := 0, nextHi := 0, control := descMagic ||| lastDescControl }
  modifyRange linked descVirt (setAdjacent descCnt) descCnt

def startFill (engine : XdmaEngine) (req : ApertureReq) : Fill where
  desc := engine.desc
  descIdx := engine.descIdx
  epAddr := req.epAddr + (req.offset &&& (req.aperture - 1)).setWidth 64
  sgOffset := req.sgOffset
  offset := req.offset
  len := 0

def apertureFill (descBlenMax : U32) (sgMax : Nat) (engine : XdmaEngine) (req : ApertureReq) :
    Fill × Nat :=
  fillSegments (apertureWindow engine.dir req.epAddr req.aperture descBlenMax) sgMax engine.descMax
    req.sg req.sgIdx (startFill engine req)

def apertureTransfer (descBlenMax : U32) (sgMax : Nat) (engine : XdmaEngine) (req : ApertureReq) :
    XdmaEngine × ApertureReq × XdmaTransfer :=
  let filled := apertureFill descBlenMax sgMax engine req
  let descCnt := filled.1.descIdx - engine.descIdx
  let descBus := engine.descBus + BitVec.ofNat 64 (sizeofXdmaDesc * engine.descIdx)
  ( { engine with
      desc := linkTransfer filled.1.desc engine.descIdx descBus descCnt
      descIdx := (engine.descIdx + descCnt) % engine.descMax
      descUsed := engine.descUsed + descCnt },
    { req with offset := filled.1.offset, sgOffset := filled.1.sgOffset, sgIdx := filled.2 },
    { serial := 0
      descVirt := engine.descIdx
      descBus
      resBus := engine.cyclicResultBus + BitVec.ofNat 64 (sizeofXdmaResult * engine.descIdx)
      descAdjacent := descCnt
      descNum := descCnt
      descIndex := engine.descIdx
      descCmpl := 0
      descCmplTh := descCnt
      dir := engine.dir
      state := .new
      eopRcved := false
      cyclic := false
      lastInRequest := filled.1.offset = req.totalLen
      len := filled.1.len } )

structure ApertureState where
  engine : XdmaEngine
  req : ApertureReq
  done : Int
  log : List Submitted

def ApertureState.settle (s : ApertureState) (xfer : XdmaTransfer) (outcome : Outcome) :
    ApertureState :=
  let released := transferDestroy
    { s.engine with descUsed := s.engine.descUsed - xfer.descNum } xfer
  let log := s.log ++ [{ descs := transferDescs s.engine xfer, outcome }]
  match outcome with
  | .refused => { s with log }
  | .failed | .timedOut => { s with engine := released, log }
  | .completed _ => { s with engine := released, done := s.done + xfer.len.toNat, log }

def ApertureState.ret (s : ApertureState) (rv : Int) : Int := if s.done ≠ 0 then s.done else rv

/-- The loop over transfers.  The chain of a transfer without descriptors, whose last index is
`0 - 1`, is written beyond the ring; a loop that is not done after `fuel` rounds is said to hang. -/
def apertureLoop (descBlenMax : U32) (sgMax : Nat) (outcomes : Nat → Outcome) :
    Nat → ApertureState → XferSubmit
  | fuel, s =>
      if s.req.offset < s.req.totalLen then
        match fuel with
        | 0 => .hangs
        | fuel + 1 =>
            let (engine, req, xfer) := apertureTransfer descBlenMax sgMax s.engine s.req
            if xfer.descNum = 0 then .overrun
            else
              let outcome := outcomes s.log.length
              let settled := { s with engine, req }.settle xfer outcome
              if outcome.rv < 0 then .returned (settled.ret outcome.rv) settled.log settled.engine
              else apertureLoop descBlenMax sgMax outcomes fuel settled
      else .returned (s.ret 0) s.log s.engine

/-- On a mapped table; `alloc` says whether the request is allocated. -/
def xdmaXferAperture (alloc : Bool) (descBlenMax : U32) (offline : Bool) (engine : XdmaEngine)
    (dir : Direction) (epAddr : U64) (aperture : U32) (sgl : List Extent)
    (outcomes : Nat → Outcome) (fuel : Nat) : XferSubmit :=
  if offline then .returned (-16) [] engine
  else if engine.dir ≠ dir then .returned (-22) [] engine
  else if engine.streaming then .returned (-22) [] engine
  else if sgl = [] then .returned (-5) [] engine
  else if alloc = false then .returned (-12) [] engine
  else
    apertureLoop descBlenMax sgl.length outcomes fuel
      { engine
        req :=
          { epAddr
            aperture
            totalLen := sgl.foldl (fun total sg => total + sg.len) 0
            offset := 0
            sg := sgl
            sgIdx := 0
            sgOffset := 0 }
        done := 0
        log := [] }

/-! ## The next piece -/

private theorem minT_toNat (x y : U32) : (minT x y).toNat = min x.toNat y.toNat := by
  unfold minT
  split
  next hlt =>
    have hlt' : x.toNat < y.toNat := hlt
    omega
  next hge =>
    have hge' : ¬ x.toNat < y.toNat := hge
    omega

structure Window.Spans (w : Window) (a m : Nat) : Prop where
  pos : 0 < a
  word : a < 2 ^ 32
  last : w.epAddrMax = w.epAddr + BitVec.ofNat 64 (a - 1)
  space : w.epAddr.toNat + a < 2 ^ 64
  limit : w.maxlen.toNat = m
  some : 0 < m
  small : m ≤ a

theorem apertureWindow_spans {dir : Direction} {epAddr : U64} {aperture descBlenMax : U32}
    (opened : aperture ≠ 0) (limit : descBlenMax ≠ 0)
    (space : epAddr.toNat + aperture.toNat < 2 ^ 64) :
    (apertureWindow dir epAddr aperture descBlenMax).Spans aperture.toNat
      (min aperture.toNat descBlenMax.toNat) where
  pos := toNat_pos opened
  word := aperture.isLt
  last := by
    have hpos := toNat_pos opened
    simp only [apertureWindow]
    bv_omega
  space := space
  limit := minT_toNat ..
  some := by
    have hpos := toNat_pos opened
    have hpos' := toNat_pos limit
    omega
  small := Nat.min_le_left ..

/-- The endpoint address for the byte `j` of the stream; at the end of the window it is set back
only when the next descriptor is made. -/
def EpAt (w : Window) (a j : Nat) (epAddr : U64) : Prop :=
  epAddr = w.epAddr + BitVec.ofNat 64 (j % a) ∨
    j % a = 0 ∧ epAddr = w.epAddr + BitVec.ofNat 64 a

def Unwrapped (w : Window) (a : Nat) (piece : Piece) : Prop :=
  w.epAddr.toNat + piece.start % a + piece.want < 2 ^ 64

instance (w : Window) (a : Nat) (piece : Piece) : Decidable (Unwrapped w a piece) :=
  inferInstanceAs (Decidable (_ < _))

section Piece

variable {w : Window} {a m j : Nat} {epAddr : U64} (spans : w.Spans a m) (tlen : U32)

include spans

theorem nextPiece_epAddr (placed : EpAt w a j epAddr) :
    (nextPiece w tlen epAddr).1 = w.epAddr + BitVec.ofNat 64 (j % a) := by
  have hpos := spans.pos
  have hword := spans.word
  have hspace := spans.space
  have hmod := Nat.mod_lt j hpos
  have hlast : w.epAddrMax.toNat = w.epAddr.toNat + (a - 1) := by
    rw [spans.last]
    bv_omega
  simp only [nextPiece]
  rcases placed with rfl | ⟨hzero, rfl⟩
  · rw [if_neg]
    rw [BitVec.lt_def, hlast]
    bv_omega
  · rw [if_pos, hzero]
    · simp
    · rw [BitVec.lt_def, hlast]
      bv_omega

theorem nextPiece_len (placed : EpAt w a j epAddr) :
    (nextPiece w tlen epAddr).2.toNat =
      if w.epAddr.toNat + j % a + min tlen.toNat m < 2 ^ 64 then cutLen a m j tlen.toNat
      else min tlen.toNat m := by
  have hpos := spans.pos
  have hword := spans.word
  have hspace := spans.space
  have hsmall := spans.small
  have hmod := Nat.mod_lt j hpos
  have hplace := nextPiece_epAddr spans tlen placed
  have hlen : (minT tlen w.maxlen).toNat = min tlen.toNat m := by
    rw [minT_toNat, spans.limit]
  have hlast : w.epAddrMax.toNat = w.epAddr.toNat + (a - 1) := by
    rw [spans.last]
    bv_omega
  simp only [nextPiece] at hplace ⊢
  rw [hplace]
  generalize minT tlen w.maxlen = len at hlen ⊢
  generalize hp : j % a = p at hmod hplace ⊢
  have hcut : cutLen a m j tlen.toNat = min (min tlen.toNat m) (a - p) := by rw [cutLen, hp]
  have hstart : (w.epAddr + BitVec.ofNat 64 p).toNat = w.epAddr.toNat + p := by bv_omega
  have hsum : (w.epAddr + BitVec.ofNat 64 p + len.setWidth 64).toNat =
      (w.epAddr.toNat + p + min tlen.toNat m) % 2 ^ 64 := by
    have hwide : (len.setWidth 64).toNat = min tlen.toNat m := by
      rw [BitVec.toNat_setWidth, hlen, Nat.mod_eq_of_lt (by omega)]
    rw [BitVec.toNat_add, hstart, hwide]
  have hrest : ((w.epAddrMax - (w.epAddr + BitVec.ofNat 64 p) + 1).setWidth 32).toNat = a - p := by
    have hroom : (w.epAddrMax - (w.epAddr + BitVec.ofNat 64 p) + 1).toNat = a - p := by bv_omega
    rw [BitVec.toNat_setWidth, hroom, Nat.mod_eq_of_lt (by omega)]
  by_cases hfits : w.epAddr.toNat + p + min tlen.toNat m < 2 ^ 64
  · rw [if_pos hfits, hcut]
    rw [Nat.mod_eq_of_lt hfits] at hsum
    split
    next hover =>
      rw [BitVec.lt_def, hlast, hsum] at hover
      rw [hrest]
      omega
    next hinside =>
      rw [BitVec.lt_def, hlast, hsum] at hinside
      rw [hlen]
      omega
  · -- the sum has wrapped below the window, so that nothing is cut off
    rw [if_neg hfits, if_neg, hlen]
    rw [BitVec.lt_def, hlast, hsum]
    omega

theorem EpAt.next (j n : Nat) (inside : j % a + n ≤ a) :
    EpAt w a (j + n) (w.epAddr + BitVec.ofNat 64 (j % a) + BitVec.ofNat 64 n) := by
  have hpos := spans.pos
  rw [EpAt, BitVec.add_assoc, ← BitVec.ofNat_add]
  rcases inside.lt_or_eq with hlt | heq
  · left
    rw [← Nat.mod_add_mod, Nat.mod_eq_of_lt hlt]
  · right
    rw [heq, ← Nat.mod_add_mod, heq, Nat.mod_self]
    exact ⟨rfl, rfl⟩

end Piece

/-! ## The slots that are filled -/

def windowPairs (dir : Direction) (epAddr : U64) (a j : Nat) (hosts : List U64) :
    List (U64 × U64) :=
  hosts.mapIdx fun k host => orient dir host (epAddr + BitVec.ofNat 64 ((j + k) % a))

theorem windowPairs_length (dir : Direction) (epAddr : U64) (a j : Nat) (hosts : List U64) :
    (windowPairs dir epAddr a j hosts).length = hosts.length := by
  simp [windowPairs]

theorem windowPairs_append (dir : Direction) (epAddr : U64) (a j : Nat) (first second : List U64) :
    windowPairs dir epAddr a j (first ++ second) =
      windowPairs dir epAddr a j first ++
        windowPairs dir epAddr a (j + first.length) second := by
  simp only [windowPairs, List.mapIdx_append]
  congr 2
  funext k host
  rw [Nat.add_comm k, Nat.add_assoc]

private theorem windowPairs_piece (dir : Direction) (epAddr : U64) {a j : Nat} (extent : Extent)
    (inside : j % a + extent.len.toNat ≤ a) :
    windowPairs dir epAddr a j extent.bytes =
      (List.range extent.len.toNat).map fun k =>
        orient dir (extent.addr + BitVec.ofNat 64 k)
          (epAddr + BitVec.ofNat 64 (j % a) + BitVec.ofNat 64 k) := by
  apply List.ext_getElem
  · simp [windowPairs, Extent.bytes]
  · intro k hk _
    have hlt : k < extent.len.toNat := by simpa [windowPairs, Extent.bytes] using hk
    have hplace : (j + k) % a = j % a + k := by
      rw [← Nat.mod_add_mod, Nat.mod_eq_of_lt (by omega)]
    simp [windowPairs, Extent.bytes, hplace, BitVec.ofNat_add, BitVec.add_assoc]

namespace XdmaDesc

def endpoint (dir : Direction) (desc : XdmaDesc) : U64 :=
  match dir with
  | .toDevice => desc.dstAddr
  | .fromDevice => desc.srcAddr

def InWindow (dir : Direction) (epAddr : U64) (a : Nat) (desc : XdmaDesc) : Prop :=
  (desc.endpoint dir - epAddr).toNat + desc.bytes.toNat ≤ a

end XdmaDesc

private theorem xdmaDescSet_endpoint (desc : XdmaDesc) (host endpoint : U64) (len : U32)
    (dir : Direction) :
    (xdmaDescSet desc host endpoint len dir).endpoint dir = endpoint ∧
      (xdmaDescSet desc host endpoint len dir).bytes = len := by
  cases dir <;> exact ⟨pciDma_append _, rfl⟩

/-- From `f` to `f'` the loops have filled slots with the moves of `hosts`, the stream from its byte
`j` on. -/
structure Filled (w : Window) (a j : Nat) (hosts : List U64) (f f' : Fill) : Prop where
  idx : f.descIdx ≤ f'.descIdx
  kept : ∀ k < f.descIdx, f'.desc k = f.desc k
  pairs : ((List.range' f.descIdx (f'.descIdx - f.descIdx)).flatMap fun k =>
    (f'.desc k).bytePairs) = windowPairs w.dir w.epAddr a j hosts
  inside : ∀ k, f.descIdx ≤ k → k < f'.descIdx → (f'.desc k).InWindow w.dir w.epAddr a
  offset : f'.offset = f.offset + BitVec.ofNat 32 hosts.length
  len : f'.len = f.len + BitVec.ofNat 32 hosts.length

namespace Filled

variable {w : Window} {a m j : Nat} {f f' f'' : Fill} {hosts hosts' : List U64}

theorem refl (w : Window) (a j : Nat) (f : Fill) : Filled w a j [] f f where
  idx := Nat.le_refl _
  kept := fun _ _ => rfl
  pairs := by simp [windowPairs]
  inside := fun k hle hlt => absurd hle (Nat.not_le.mpr hlt)
  offset := by simp
  len := by simp

theorem trans (first : Filled w a j hosts f f')
    (second : Filled w a (j + hosts.length) hosts' f' f'') :
    Filled w a j (hosts ++ hosts') f f'' where
  idx := first.idx.trans second.idx
  kept := by
    intro k hk
    rw [second.kept k (Nat.lt_of_lt_of_le hk first.idx), first.kept k hk]
  pairs := by
    have hidx := first.idx
    have hidx' := second.idx
    have hsplit : List.range' f.descIdx (f''.descIdx - f.descIdx) =
        List.range' f.descIdx (f'.descIdx - f.descIdx) ++
          List.range' f'.descIdx (f''.descIdx - f'.descIdx) := by
      have happend := List.range'_append_1 (s := f.descIdx) (m := f'.descIdx - f.descIdx)
        (n := f''.descIdx - f'.descIdx)
      rw [show f.descIdx + (f'.descIdx - f.descIdx) = f'.descIdx by omega] at happend
      rw [happend]
      congr 1
      omega
    rw [hsplit, List.flatMap_append, second.pairs, windowPairs_append, ← first.pairs]
    refine congrArg (· ++ _) (List.flatMap_congr fun k hk => ?_)
    rw [List.mem_range'_1] at hk
    rw [second.kept k (by omega)]
  inside := by
    intro k hle hlt
    by_cases hk : k < f'.descIdx
    · rw [second.kept k hk]
      exact first.inside k hle hk
    · exact second.inside k (Nat.le_of_not_lt hk) hlt
  offset := by
    rw [second.offset, first.offset, List.length_append, BitVec.ofNat_add, BitVec.add_assoc]
  len := by
    rw [second.len, first.len, List.length_append, BitVec.ofNat_add, BitVec.add_assoc]

private theorem withSgOffset (filled : Filled w a j hosts f f') (x x' : U32) :
    Filled w a j hosts { f with sgOffset := x } { f' with sgOffset := x' } :=
  ⟨filled.idx, filled.kept, filled.pairs, filled.inside, filled.offset, filled.len⟩

theorem step (spans : w.Spans a m) (addr : U64) {len : U32} (f : Fill)
    (inside : j % a + len.toNat ≤ a) :
    Filled w a j (⟨addr, len⟩ : Extent).bytes f
      (fillStep w addr (w.epAddr + BitVec.ofNat 64 (j % a), len) f) where
  idx := Nat.le_succ _
  kept := by
    intro k hk
    simp only [fillStep]
    exact modifyAt_ne (Nat.ne_of_lt hk)
  pairs := by
    simp only [fillStep, Nat.add_sub_cancel_left, List.range'_one, List.flatMap_cons,
      List.flatMap_nil, List.append_nil, modifyAt_same]
    rw [xdmaDescSet_bytePairs, windowPairs_piece _ _ _ inside]
  inside := by
    intro k hle hlt
    have hword := spans.word
    obtain rfl : k = f.descIdx := Nat.le_antisymm (Nat.lt_succ_iff.mp hlt) hle
    obtain ⟨hendpoint, hbytes⟩ := xdmaDescSet_endpoint (f.desc f.descIdx) addr
      (w.epAddr + BitVec.ofNat 64 (j % a)) len w.dir
    simp only [fillStep, modifyAt_same, XdmaDesc.InWindow, hendpoint, hbytes]
    rw [BitVec.add_comm, BitVec.add_sub_cancel, BitVec.toNat_ofNat, Nat.mod_eq_of_lt (by omega)]
    exact inside
  offset := by simp [fillStep, Extent.bytes]
  len := by simp [fillStep, Extent.bytes]

end Filled

structure Fill.Grows (f f' : Fill) : Prop where
  idx : f.descIdx ≤ f'.descIdx
  kept : ∀ k < f.descIdx, f'.desc k = f.desc k

theorem Fill.Grows.trans {f f' f'' : Fill} (first : f.Grows f') (second : f'.Grows f'') :
    f.Grows f'' where
  idx := first.idx.trans second.idx
  kept := fun k hk =>
    (second.kept k (Nat.lt_of_lt_of_le hk first.idx)).trans (first.kept k hk)

private theorem fillStep_grows (w : Window) (addr : U64) (piece : U64 × U32) (f : Fill) :
    f.Grows (fillStep w addr piece f) where
  idx := Nat.le_succ _
  kept := by
    intro k hk
    simp only [fillStep]
    exact modifyAt_ne (Nat.ne_of_lt hk)

theorem fillSegment_grows (w : Window) (room : Nat) (addr : U64) (tlen : U32) (f : Fill) :
    f.Grows (fillSegment w room addr tlen f).1 := by
  induction room generalizing addr tlen f with
  | zero => exact ⟨Nat.le_refl _, fun _ _ => rfl⟩
  | succ room ih =>
      unfold fillSegment
      split
      · exact ⟨Nat.le_refl _, fun _ _ => rfl⟩
      · exact (fillStep_grows w addr _ f).trans (ih _ _ _)

theorem fillSegments_cons (w : Window) (sgMax descMax : Nat) (sg : Extent) (rest : List Extent)
    (i : Nat) (f : Fill) :
    fillSegments w sgMax descMax (sg :: rest) i f =
      if i < sgMax ∧ f.descIdx < descMax then
        let filled := fillSegment w (descMax - f.descIdx) (sg.addr + f.sgOffset.setWidth 64)
          (sg.len - f.sgOffset) f
        if filled.2 = 0 then fillSegments w sgMax descMax rest (i + 1) { filled.1 with sgOffset := 0 }
        else (filled.1, i)
      else (f, i) := by
  have haddr : (if f.sgOffset ≠ 0 then sg.addr + f.sgOffset.setWidth 64 else sg.addr) =
      sg.addr + f.sgOffset.setWidth 64 := by
    by_cases hzero : f.sgOffset = 0
    · simp [hzero]
    · rw [if_pos hzero]
  have hlen : (if f.sgOffset ≠ 0 then sg.len - f.sgOffset else sg.len) = sg.len - f.sgOffset := by
    by_cases hzero : f.sgOffset = 0
    · simp [hzero]
    · rw [if_pos hzero]
  rw [fillSegments]
  simp only [haddr, hlen]

theorem fillSegments_grows (w : Window) (sgMax descMax : Nat) (sgl : List Extent) (i : Nat)
    (f : Fill) : f.Grows (fillSegments w sgMax descMax sgl i f).1 := by
  induction sgl generalizing i f with
  | nil => exact ⟨Nat.le_refl _, fun _ _ => rfl⟩
  | cons sg rest ih =>
      rw [fillSegments_cons]
      have hsegment := fillSegment_grows w (descMax - f.descIdx)
        (sg.addr + f.sgOffset.setWidth 64) (sg.len - f.sgOffset) f
      generalize fillSegment w (descMax - f.descIdx) (sg.addr + f.sgOffset.setWidth 64)
        (sg.len - f.sgOffset) f = filled at hsegment
      split
      · simp only
        split
        · have hrest := ih (i + 1) { filled.1 with sgOffset := 0 }
          exact hsegment.trans ⟨hrest.idx, hrest.kept⟩
        · exact hsegment
      · exact ⟨Nat.le_refl _, fun _ _ => rfl⟩

def Crossed (w : Window) (a : Nat) (f f' : Fill) : Prop :=
  ∃ k, f.descIdx ≤ k ∧ k < f'.descIdx ∧ ¬ (f'.desc k).InWindow w.dir w.epAddr a

theorem Crossed.later {w : Window} {a : Nat} {f f' f'' : Fill} (crossed : Crossed w a f f')
    (grows : f'.Grows f'') : Crossed w a f f'' := by
  obtain ⟨k, hle, hlt, hcrosses⟩ := crossed
  refine ⟨k, hle, Nat.lt_of_lt_of_le hlt grows.idx, ?_⟩
  rwa [grows.kept k hlt]

theorem Crossed.earlier {w : Window} {a : Nat} {f f' f'' : Fill} (idx : f.descIdx ≤ f'.descIdx)
    (crossed : Crossed w a f' f'') : Crossed w a f f'' := by
  obtain ⟨k, hle, hlt, hcrosses⟩ := crossed
  exact ⟨k, idx.trans hle, hlt, hcrosses⟩

private theorem Extent.bytes_cut {addr : U64} {first len : U32} (h : first.toNat ≤ len.toNat) :
    (⟨addr, len⟩ : Extent).bytes =
      (⟨addr, first⟩ : Extent).bytes ++
        (⟨addr + first.setWidth 64, len - first⟩ : Extent).bytes := by
  rcases h.lt_or_eq with hlt | heq
  · exact Extent.bytes_split hlt
  · obtain rfl : first = len := BitVec.eq_of_toNat_eq heq
    rw [BitVec.sub_self]
    simp [Extent.bytes]

/-- The loop has filled slots with the moves of `pieces`, the first of a segment, and leaves the
rest of it. -/
structure Laid (w : Window) (a j : Nat) (addr : U64) (tlen : U32) (pieces : List Piece) (f : Fill)
    (result : Fill × U32) : Prop where
  filled : Filled w a j ((⟨addr, tlen⟩ : Extent).bytes.take (pieceBytes pieces)) f result.1
  idx : result.1.descIdx = f.descIdx + pieces.length
  offset : result.1.sgOffset = f.sgOffset + BitVec.ofNat 32 (pieceBytes pieces)
  placed : EpAt w a (j + pieceBytes pieces) result.1.epAddr
  left : result.2.toNat = tlen.toNat - pieceBytes pieces

section Segment

variable {w : Window} {a m : Nat} {f : Fill} {j : Nat}

theorem Laid.nothing (addr : U64) (tlen : U32) (placed : EpAt w a j f.epAddr) :
    Laid w a j addr tlen [] f (f, tlen) where
  filled := by simpa using Filled.refl w a j f
  idx := rfl
  offset := by simp
  placed := placed
  left := rfl

variable (spans : w.Spans a m)

include spans

theorem Laid.cons {addr : U64} {tlen len : U32} {piece : Piece} {pieces : List Piece}
    {result : Fill × U32} (length : len.toNat = piece.len) (le : piece.len ≤ tlen.toNat)
    (inside : j % a + piece.len ≤ a)
    (rest : Laid w a (j + piece.len) (addr + len.setWidth 64) (tlen - len) pieces
      (fillStep w addr (w.epAddr + BitVec.ofNat 64 (j % a), len) f) result) :
    Laid w a j addr tlen (piece :: pieces) f result := by
  have hstep := Filled.step spans addr f (show j % a + len.toNat ≤ a by omega)
  have hleft : (tlen - len).toNat = tlen.toNat - len.toNat := by bv_omega
  have hidx := rest.idx
  have hrest := rest.left
  simp only [fillStep] at hidx
  refine ⟨?_, ?_, ?_, ?_, ?_⟩
  · have hbytes := hstep.trans (by
      rw [Extent.bytes_length, length]
      exact rest.filled)
    rw [pieceBytes_cons, Extent.bytes_cut (show len.toNat ≤ tlen.toNat by omega), List.take_append,
      Extent.bytes_length, List.take_of_length_le, length, Nat.add_sub_cancel_left]
    · exact hbytes
    · rw [Extent.bytes_length, length]
      exact Nat.le_add_right _ _
  · rw [List.length_cons]
    omega
  · rw [rest.offset, pieceBytes_cons, BitVec.ofNat_add, ← length]
    simp [fillStep, BitVec.add_assoc]
  · rw [pieceBytes_cons, ← Nat.add_assoc]
    exact rest.placed
  · rw [pieceBytes_cons]
    omega

private theorem fillStep_crosses (addr : U64) {len : U32} (f : Fill)
    (wraps : 2 ^ 64 ≤ w.epAddr.toNat + j % a + len.toNat) :
    Crossed w a f (fillStep w addr (w.epAddr + BitVec.ofNat 64 (j % a), len) f) := by
  have hspace := spans.space
  have hmod := Nat.mod_lt j spans.pos
  have hword := spans.word
  obtain ⟨hendpoint, hbytes⟩ := xdmaDescSet_endpoint (f.desc f.descIdx) addr
    (w.epAddr + BitVec.ofNat 64 (j % a)) len w.dir
  refine ⟨f.descIdx, Nat.le_refl _, Nat.lt_succ_self _, ?_⟩
  simp only [fillStep, modifyAt_same, XdmaDesc.InWindow, hendpoint, hbytes]
  rw [BitVec.add_comm, BitVec.add_sub_cancel, BitVec.toNat_ofNat, Nat.mod_eq_of_lt (by omega)]
  omega

/-- What the `while` loop does with a segment: the pieces for which it has slots, or a descriptor
that crosses the end of the window. -/
private theorem fillSegment_spec (room : Nat) (addr : U64) (tlen : U32) {f : Fill} {j : Nat}
    (placed : EpAt w a j f.epAddr) :
    let pieces := (cutRun a m j tlen.toNat).take room
    let result := fillSegment w room addr tlen f
    ((∀ piece ∈ pieces, Unwrapped w a piece) → Laid w a j addr tlen pieces f result) ∧
    (¬ (∀ piece ∈ pieces, Unwrapped w a piece) → Crossed w a f result.1) := by
  have hpos := spans.pos
  induction room generalizing addr tlen f j with
  | zero => exact ⟨fun _ => .nothing addr tlen placed, fun h => absurd (by simp) h⟩
  | succ room ih =>
      by_cases hzero : tlen = 0
      · subst hzero
        have hnone : (cutRun a m j (0 : U32).toNat).take (room + 1) = [] := rfl
        simp only [hnone, fillSegment, if_true]
        exact ⟨fun _ => .nothing addr 0 placed, fun h => absurd (by simp) h⟩
      · have htlen := toNat_pos hzero
        have hplace := nextPiece_epAddr spans tlen placed
        have hlen := nextPiece_len spans tlen placed
        simp only [fillSegment, if_neg hzero]
        rw [cutRun_step hpos spans.some j htlen, List.take_succ_cons, List.forall_mem_cons]
        generalize hpiece : nextPiece w tlen f.epAddr = piece at hplace hlen ⊢
        obtain ⟨endpoint, len⟩ := piece
        simp only at hplace hlen ⊢
        subst hplace
        by_cases hfits : w.epAddr.toNat + j % a + min tlen.toNat m < 2 ^ 64
        · rw [if_pos hfits] at hlen
          have hle := cutLen_le a m j tlen.toNat
          have hwindow := cutLen_window hpos m j tlen.toNat
          have hnext : EpAt w a (j + len.toNat)
              (fillStep w addr (w.epAddr + BitVec.ofNat 64 (j % a), len) f).epAddr := by
            simp only [fillStep, ← BitVec.ofNat_toNat]
            exact EpAt.next spans j len.toNat (by omega)
          obtain ⟨hgood, hbad⟩ := ih (addr + len.setWidth 64) (tlen - len) hnext
          rw [show (tlen - len).toNat = tlen.toNat - len.toNat by bv_omega, hlen] at hgood hbad
          refine ⟨fun hall => ?_, fun hwraps => ?_⟩
          · exact Laid.cons spans hlen hle hwindow (hgood hall.2)
          · exact (hbad fun hrest => hwraps ⟨hfits, hrest⟩).earlier (Nat.le_succ _)
        · rw [if_neg hfits] at hlen
          refine ⟨fun hall => absurd hall.1 hfits, fun _ => ?_⟩
          exact (fillStep_crosses spans addr f (by omega)).later (fillSegment_grows w room _ _ _)

end Segment

/-! ## One pass over the table -/

def piecesFrom (a m j x : Nat) : List Extent → List Piece
  | [] => []
  | sg :: rest =>
      cutRun a m j (sg.len.toNat - x) ++
        cutRuns a m (j + (sg.len.toNat - x)) (rest.map fun sg => sg.len.toNat)

theorem piecesFrom_zero (a m j : Nat) (sgl : List Extent) :
    piecesFrom a m j 0 sgl = cutRuns a m j (sgl.map fun sg => sg.len.toNat) := by
  cases sgl with
  | nil => rfl
  | cons sg rest => rfl

theorem piecesFrom_bytes {a m : Nat} (hwindow : 0 < a) (hlimit : 0 < m) (j : Nat) {x : Nat}
    {sgl : List Extent} (inSegment : ∀ sg ∈ sgl.head?, x < sg.len.toNat ∨ x = 0) :
    pieceBytes (piecesFrom a m j x sgl) = byteCount sgl - x := by
  cases sgl with
  | nil => simp [piecesFrom, byteCount]
  | cons sg rest =>
      have hcursor := inSegment sg rfl
      rw [piecesFrom, pieceBytes_append, cutRun_bytes hwindow hlimit, cutRuns_bytes hwindow hlimit]
      simp only [byteCount, List.map_cons, List.sum_cons]
      omega

structure Stopped (sgl : List Extent) (total i y : Nat) : Prop where
  split : ∃ before seg after, sgl = before ++ seg :: after ∧ i = before.length ∧
    total = byteCount before + y ∧ (y < seg.len.toNat ∨ y = 0)

/-- A pass over the entries has filled `room` slots with the first of `pieces`, or all of them. -/
structure Swept (w : Window) (a : Nat) (sgl : List Extent) (pieces : List Piece)
    (room i j x : Nat) (f : Fill) (result : Fill × Nat) : Prop where
  filled : Filled w a j (((hostBytes sgl).drop x).take (pieceBytes (pieces.take room))) f result.1
  idx : result.1.descIdx = f.descIdx + (pieces.take room).length
  stop : pieces.length ≤ room ∨ ∃ k, result.2 = i + k ∧
    Stopped sgl (x + pieceBytes (pieces.take room)) k result.1.sgOffset.toNat

private theorem hostBytes_drop {sg : Extent} (rest : List Extent) {x : Nat}
    (le : x ≤ sg.len.toNat) :
    (hostBytes (sg :: rest)).drop x = sg.bytes.drop x ++ hostBytes rest := by
  rw [hostBytes, List.flatMap_cons, List.drop_append_of_le_length]
  · rfl
  · rwa [Extent.bytes_length]

namespace Swept

variable {w : Window} {a room i j x : Nat} {f : Fill} {sg : Extent} {rest : List Extent}
  {head tail : List Piece}

theorem full (w : Window) (a : Nat) (rest : List Extent) (pieces : List Piece) (i j : Nat)
    (offset : f.sgOffset.toNat = x) (inSegment : x < sg.len.toNat ∨ x = 0) :
    Swept w a (sg :: rest) pieces 0 i j x f (f, i) where
  filled := by simpa using Filled.refl w a j f
  idx := by simp
  stop := by
    refine .inr ⟨0, rfl, [], sg, rest, rfl, rfl, ?_, ?_⟩
    · simp [byteCount, offset]
    · rwa [offset]

private theorem in_entry (rest : List Extent) (tail : List Piece) (i : Nat) {filled : Fill × U32}
    (pass : Filled w a j ((sg.bytes.drop x).take (pieceBytes (head.take room))) f filled.1)
    (idx : filled.1.descIdx = f.descIdx + (head.take room).length)
    (offset : filled.1.sgOffset.toNat = x + pieceBytes (head.take room))
    (inside : x + pieceBytes (head.take room) < sg.len.toNat) (longer : room < head.length) :
    Swept w a (sg :: rest) (head ++ tail) room i j x f (filled.1, i) := by
  have htake : (head ++ tail).take room = head.take room := List.take_append_of_le_length longer.le
  refine ⟨?_, ?_, .inr ⟨0, rfl, [], sg, rest, rfl, rfl, ?_, ?_⟩⟩
  · rw [htake, hostBytes_drop rest (by omega), List.take_append_of_le_length]
    · exact pass
    · rw [List.length_drop, Extent.bytes_length]
      omega
  · rw [htake, idx]
  · rw [htake, offset]
    exact (Nat.zero_add _).symm
  · rw [offset]
    exact .inl inside

private theorem after_entry {filled : Fill} {result : Fill × Nat}
    (next : Swept w a rest tail (room - head.length) (i + 1) (j + (sg.len.toNat - x)) 0
      { filled with sgOffset := 0 } result)
    (le : x ≤ sg.len.toNat)
    (pass : Filled w a j ((sg.bytes.drop x).take (sg.len.toNat - x)) f filled)
    (idx : filled.descIdx = f.descIdx + head.length)
    (all : pieceBytes head = sg.len.toNat - x) (shorter : head.length ≤ room) :
    Swept w a (sg :: rest) (head ++ tail) room i j x f result := by
  have hdropped : (sg.bytes.drop x).length = sg.len.toNat - x := by
    rw [List.length_drop, Extent.bytes_length]
  have htake : (head ++ tail).take room = head ++ tail.take (room - head.length) := by
    rw [List.take_append, List.take_of_length_le shorter]
  have hfilled := next.filled
  have hidx := next.idx
  rw [List.drop_zero] at hfilled
  rw [List.take_of_length_le hdropped.le] at pass
  refine ⟨?_, ?_, ?_⟩
  · rw [htake, pieceBytes_append, all, hostBytes_drop rest le, List.take_append, hdropped,
      List.take_of_length_le (by omega), Nat.add_sub_cancel_left]
    exact (pass.withSgOffset f.sgOffset 0).trans (by rw [hdropped]; exact hfilled)
  · rw [htake, List.length_append]
    simp only at hidx
    omega
  · rw [htake, pieceBytes_append, List.length_append, all]
    rcases next.stop with hend | ⟨k, hk, before, seg, after, hsplit, hbefore, htotal, hin⟩
    · exact .inl (by omega)
    · refine .inr ⟨k + 1, by omega, sg :: before, seg, after, ?_, ?_, ?_, hin⟩
      · rw [hsplit]
        rfl
      · rw [hbefore, List.length_cons]
      · have hcount : byteCount (sg :: before) = sg.len.toNat + byteCount before := rfl
        omega

end Swept

section Pass

variable {w : Window} {a m : Nat} (spans : w.Spans a m)

include spans

private theorem fillSegment_from (room : Nat) (sg : Extent) {f : Fill} {j x : Nat}
    (placed : EpAt w a j f.epAddr) (offset : f.sgOffset.toNat = x)
    (inSegment : x < sg.len.toNat ∨ x = 0) :
    let run := cutRun a m j (sg.len.toNat - x)
    let filled := fillSegment w room (sg.addr + f.sgOffset.setWidth 64) (sg.len - f.sgOffset) f
    ((∀ piece ∈ run.take room, Unwrapped w a piece) →
      Filled w a j ((sg.bytes.drop x).take (pieceBytes (run.take room))) f filled.1 ∧
      filled.1.descIdx = f.descIdx + (run.take room).length ∧
      filled.1.sgOffset.toNat = x + pieceBytes (run.take room) ∧
      EpAt w a (j + pieceBytes (run.take room)) filled.1.epAddr ∧
      (filled.2 = 0 ∧ pieceBytes (run.take room) = sg.len.toNat - x ∧ run.length ≤ room ∨
        filled.2 ≠ 0 ∧ x + pieceBytes (run.take room) < sg.len.toNat ∧ room < run.length)) ∧
    (¬ (∀ piece ∈ run.take room, Unwrapped w a piece) → Crossed w a f filled.1) := by
  have hpos := spans.pos
  have hx : f.sgOffset.toNat ≤ sg.len.toNat := by omega
  have htlen : (sg.len - f.sgOffset).toNat = sg.len.toNat - x := by bv_omega
  have hbytes : (⟨sg.addr + f.sgOffset.setWidth 64, sg.len - f.sgOffset⟩ : Extent).bytes =
      sg.bytes.drop x := by
    have hfirst : (⟨sg.addr, f.sgOffset⟩ : Extent).bytes.length = x := by
      rw [Extent.bytes_length, offset]
    rw [show sg.bytes = _ from Extent.bytes_cut hx, ← hfirst, List.drop_left]
  obtain ⟨hgood, hbad⟩ := fillSegment_spec spans room (sg.addr + f.sgOffset.setWidth 64)
    (sg.len - f.sgOffset) placed
  obtain ⟨hle, hdrop⟩ := cutRun_drop hpos spans.some room j (sg.len.toNat - x)
  rw [htlen] at hgood hbad
  refine ⟨fun hunwrapped => ?_, hbad⟩
  obtain ⟨hfilled, hidx, hoffset, hplaced, hleft⟩ := hgood hunwrapped
  rw [hbytes] at hfilled
  rw [htlen] at hleft
  have hlen := sg.len.isLt
  refine ⟨hfilled, hidx, ?_, hplaced, ?_⟩
  · rw [hoffset, BitVec.toNat_add, BitVec.toNat_ofNat, offset]
    omega
  · by_cases hzero : (fillSegment w room (sg.addr + f.sgOffset.setWidth 64)
      (sg.len - f.sgOffset) f).2 = 0
    · left
      rw [hzero] at hleft
      change 0 = _ at hleft
      refine ⟨hzero, by omega, ?_⟩
      rw [← hleft, (cutRun_eq_nil_iff hpos spans.some _ 0).mpr rfl] at hdrop
      exact List.drop_eq_nil_iff.mp hdrop
    · right
      have hmore := toNat_pos hzero
      refine ⟨hzero, by omega, ?_⟩
      by_contra hshort
      rw [List.drop_eq_nil_iff.mpr (Nat.le_of_not_lt hshort)] at hdrop
      have hnone := (cutRun_eq_nil_iff hpos spans.some _ _).mp hdrop.symm
      omega

/-- A pass fills the slots that are left with the next pieces, or crosses the end of the window. -/
theorem fillSegments_spec (sgMax descMax : Nat) (sgl : List Extent) {i j x : Nat} {f : Fill}
    (entries : i + sgl.length ≤ sgMax) (room : f.descIdx ≤ descMax)
    (placed : EpAt w a j f.epAddr) (offset : f.sgOffset.toNat = x)
    (inSegment : ∀ sg ∈ sgl.head?, x < sg.len.toNat ∨ x = 0) :
    let pieces := piecesFrom a m j x sgl
    let result := fillSegments w sgMax descMax sgl i f
    ((∀ piece ∈ pieces.take (descMax - f.descIdx), Unwrapped w a piece) →
      Swept w a sgl pieces (descMax - f.descIdx) i j x f result) ∧
    (¬ (∀ piece ∈ pieces.take (descMax - f.descIdx), Unwrapped w a piece) →
      Crossed w a f result.1) := by
  induction sgl generalizing i j x f with
  | nil =>
      simp only [piecesFrom, List.take_nil, fillSegments]
      exact ⟨fun _ => ⟨by simpa using Filled.refl w a j f, by simp, .inl (by simp)⟩,
        fun h => absurd (by simp) h⟩
  | cons sg rest ih =>
      have hcursor := inSegment sg rfl
      rw [List.length_cons] at entries
      rw [fillSegments_cons]
      by_cases hroom : f.descIdx < descMax
      · rw [if_pos ⟨by omega, hroom⟩, piecesFrom]
        obtain ⟨hgood, hbad⟩ := fillSegment_from spans (descMax - f.descIdx) sg placed offset hcursor
        have hgrows := fillSegment_grows w (descMax - f.descIdx)
          (sg.addr + f.sgOffset.setWidth 64) (sg.len - f.sgOffset) f
        generalize fillSegment w (descMax - f.descIdx) (sg.addr + f.sgOffset.setWidth 64)
          (sg.len - f.sgOffset) f = filled at hgood hbad hgrows ⊢
        generalize cutRun a m j (sg.len.toNat - x) = head at hgood hbad ⊢
        by_cases hunwrapped : ∀ piece ∈ head.take (descMax - f.descIdx), Unwrapped w a piece
        · obtain ⟨hfilled, hidx, hoffset, hplaced, hdone | hstopped⟩ := hgood hunwrapped
          · obtain ⟨hzero, hall, hshort⟩ := hdone
            rw [List.take_of_length_le hshort] at hfilled hidx hplaced hall hunwrapped
            rw [hall] at hfilled hplaced
            have hnext := ih (i := i + 1) (j := j + (sg.len.toNat - x)) (x := 0)
              (f := { filled.1 with sgOffset := 0 }) (by omega) (by simp only; omega) hplaced rfl
              (fun _ _ => .inr rfl)
            rw [piecesFrom_zero] at hnext
            have hroom' : descMax - filled.1.descIdx = descMax - f.descIdx - head.length := by omega
            simp only [hroom'] at hnext
            obtain ⟨hgood', hbad'⟩ := hnext
            simp only [if_pos hzero]
            rw [List.take_append, List.take_of_length_le hshort, List.forall_mem_append]
            refine ⟨fun hall' => ?_, fun hwraps => ?_⟩
            · exact (hgood' hall'.2).after_entry (by omega) hfilled hidx hall hshort
            · exact (hbad' fun hrest => hwraps ⟨hunwrapped, hrest⟩).earlier hgrows.idx
          · obtain ⟨hmore, hinside, hlong⟩ := hstopped
            simp only [if_neg hmore]
            rw [List.take_append_of_le_length hlong.le]
            exact ⟨fun _ => Swept.in_entry rest _ i hfilled hidx hoffset hinside hlong,
              fun h => absurd hunwrapped h⟩
        · refine ⟨fun h => absurd ?_ hunwrapped, fun _ => ?_⟩
          · rw [List.take_append, List.forall_mem_append] at h
            exact h.1
          · simp only
            split
            · have hrest := fillSegments_grows w sgMax descMax rest (i + 1)
                { filled.1 with sgOffset := 0 }
              exact (hbad hunwrapped).later ⟨hrest.idx, hrest.kept⟩
            · exact hbad hunwrapped
      · rw [if_neg (fun h => hroom h.2), show descMax - f.descIdx = 0 by omega]
        exact ⟨fun _ => Swept.full w a rest _ i j offset hcursor,
          fun h => absurd (by simp) h⟩

end Pass

end NupaNet.Xdma
