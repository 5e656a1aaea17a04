import NupaNet.Xdma.Request

/-!
# Transfers

An engine owns a ring of `desc_max` descriptor slots.  `transfer_init` cuts the
next transfer off a request: as many software descriptors as the ring holds
before its end, written into consecutive slots, linked, and terminated.

Transfer records live inside requests; a record is named by the number of its
request, and the engine's queue `transfer_list` is a list of such names.  The
record a queue entry names is looked up in `tfer`, whatever happened to the
request since, as the interrupt path would.  `serial` numbers the transfers in
the order they are built; like `starts` and `startedFor` it is read by no code.
-/

namespace NupaNet.Xdma

open NupaNet.Foundation

inductive TransferState
  | new
  | submitted
  | completed
  | failed
  | aborted
deriving DecidableEq, Repr

/-- `struct xdma_transfer`; `descVirt` is an index into the engine's ring. -/
structure XdmaTransfer where
  serial : Nat
  descVirt : Nat
  descBus : U64
  resBus : U64
  descAdjacent : Nat
  descNum : Nat
  descIndex : Nat
  descCmpl : Nat
  descCmplTh : Nat
  dir : Direction
  state : TransferState
  eopRcved : Bool
  cyclic : Bool
  lastInRequest : Bool
  len : U32
deriving DecidableEq, Repr

structure Shutdown where
  request : Bool
  idle : Bool
deriving DecidableEq, Repr

/-- The registers that the driver writes.  `starts` counts the writes that set RUN, and
`startedFor` is the serial of the transfer whose first descriptor the last of them found in
the address registers. -/
structure EngineRegs where
  control : U32
  firstDescLo : U32
  firstDescHi : U32
  firstDescAdjacent : U32
  starts : Nat
  startedFor : Nat
deriving DecidableEq, Repr

structure XdmaEngine where
  dir : Direction
  streaming : Bool
  nonIncrAddr : Bool
  eopFlush : Bool
  descMax : Nat
  descBus : U64
  cyclicResultBus : U64
  desc : Nat → XdmaDesc
  descIdx : Nat
  descUsed : Int
  running : Bool
  shutdown : Shutdown
  descDequeued : U32
  status : U32
  regs : EngineRegs
  transferList : List Nat
  tfer : Nat → XdmaTransfer

/-! ## `transfer_build` -/

structure Build where
  desc : Nat → XdmaDesc
  len : U32
  epAddr : U64
  bus : U64

def buildStep (engine : XdmaEngine) (descVirt j : Nat) (build : Build) (sdesc : Extent) :
    Build :=
  let desc := modifyAt build.desc (descVirt + j) fun slot =>
    xdmaDescSet slot sdesc.addr build.epAddr sdesc.len engine.dir
  let len := build.len + sdesc.len
  let epAddr :=
    if engine.nonIncrAddr then build.epAddr else build.epAddr + sdesc.len.setWidth 64
  if engine.streaming ∧ engine.dir = .fromDevice then
    { desc := modifyAt desc (descVirt + j) fun slot =>
        { slot with srcAddrLo := pciDmaL build.bus, srcAddrHi := pciDmaH build.bus }
      len
      epAddr
      bus := build.bus + BitVec.ofNat 64 sizeofXdmaResult }
  else { desc, len, epAddr, bus := build.bus }

def transferBuild (engine : XdmaEngine) (descVirt : Nat) : Nat → Build → List Extent → Build
  | _, build, [] => build
  | j, build, sdesc :: rest =>
      transferBuild engine descVirt (j + 1) (buildStep engine descVirt j build sdesc) rest

/-! ## `transfer_init` -/

/-- Descriptors of the next transfer: what the request still has and the ring has room for
before it wraps. -/
def transferCount (engine : XdmaEngine) (req : XdmaRequestCb) : Nat :=
  let descMax := min (req.swDescCnt - req.swDescIdx) engine.descMax
  if engine.descMax ≤ engine.descIdx + descMax then engine.descMax - engine.descIdx
  else descMax

def lastDescControl : U32 := xdmaDescStopped ||| xdmaDescEop ||| xdmaDescCompleted

def setAdjacent (descNum i : Nat) (slot : XdmaDesc) : XdmaDesc :=
  xdmaDescAdjacent slot (xdmaGetNextAdj (BitVec.ofNat 32 (descNum - i - 1)) slot.nextLo)

def transferInit (engine : XdmaEngine) (req : XdmaRequestCb) :
    XdmaEngine × XdmaRequestCb × XdmaTransfer :=
  let descMax := transferCount engine req
  let descVirt := engine.descIdx
  let descBus := engine.descBus + BitVec.ofNat 64 (sizeofXdmaDesc * engine.descIdx)
  let resBus := engine.cyclicResultBus + BitVec.ofNat 64 (sizeofXdmaResult * engine.descIdx)
  let build := transferBuild engine descVirt 0
    { desc := transferDescInit engine.desc descVirt descBus descMax
      len := 0
      epAddr := req.epAddr
      bus := resBus }
    ((req.sdesc.drop req.swDescIdx).take descMax)
  let last := descMax - 1
  let terminated := modifyAt build.desc (descVirt + last) (xdmaDescControlSet · lastDescControl)
  let flushed :=
    if engine.eopFlush then
      modifyRange terminated descVirt (fun _ slot => xdmaDescControlSet slot xdmaDescCompleted)
        last
    else terminated
  ( { engine with
      desc := modifyRange flushed descVirt (setAdjacent descMax) descMax
      descIdx := (engine.descIdx + descMax) % engine.descMax
      descUsed := engine.descUsed + descMax },
    { req with epAddr := build.epAddr, swDescIdx := req.swDescIdx + descMax },
    { serial := 0
      descVirt
      descBus
      resBus
      descAdjacent := descMax
      descNum := descMax
      descIndex := engine.descIdx
      descCmpl := 0
      descCmplTh := if engine.eopFlush then 1 else descMax
      dir := engine.dir
      state := .new
      eopRcved := false
      cyclic := false
      lastInRequest := false
      len := build.len } )

/-- `transfer_destroy`, less the unmapping of the scatter list. -/
def transferDestroy (engine : XdmaEngine) (xfer : XdmaTransfer) : XdmaEngine :=
  { engine with desc := xdmaDescDone engine.desc xfer.descVirt xfer.descNum }

def transferDescs (engine : XdmaEngine) (xfer : XdmaTransfer) : List XdmaDesc :=
  (List.range xfer.descNum).map fun i => engine.desc (xfer.descVirt + i)

/-! ## The byte moves of one transfer -/

def copyPairs (dir : Direction) (epAddr : U64) (hosts : List U64) : List (U64 × U64) :=
  hosts.mapIdx fun j host => orient dir host (epAddr + BitVec.ofNat 64 j)

theorem copyPairs_length (dir : Direction) (epAddr : U64) (hosts : List U64) :
    (copyPairs dir epAddr hosts).length = hosts.length := by
  simp [copyPairs]

theorem copyPairs_append (dir : Direction) (epAddr : U64) (first second : List U64) :
    copyPairs dir epAddr (first ++ second) =
      copyPairs dir epAddr first ++
        copyPairs dir (epAddr + BitVec.ofNat 64 first.length) second := by
  simp only [copyPairs, List.mapIdx_append]
  congr 2
  funext j host
  rw [BitVec.add_assoc, ← BitVec.ofNat_add, Nat.add_comm j]

private theorem copyPairs_extent (dir : Direction) (epAddr : U64) (extent : Extent) :
    copyPairs dir epAddr extent.bytes =
      (List.range extent.len.toNat).map fun k =>
        orient dir (extent.addr + BitVec.ofNat 64 k) (epAddr + BitVec.ofNat 64 k) := by
  apply List.ext_getElem
  · simp [copyPairs, Extent.bytes]
  · intro k _ _
    simp [copyPairs, Extent.bytes]

structure MemoryMapped (engine : XdmaEngine) : Prop where
  mapped : engine.streaming = false
  incrementing : engine.nonIncrAddr = false
  slot : engine.descIdx < engine.descMax

section Build

variable {engine : XdmaEngine} (mm : MemoryMapped engine)

include mm

private theorem buildStep_desc (descVirt j : Nat) (build : Build) (sdesc : Extent) :
    (buildStep engine descVirt j build sdesc).desc =
      modifyAt build.desc (descVirt + j) fun slot =>
        xdmaDescSet slot sdesc.addr build.epAddr sdesc.len engine.dir := by
  simp [buildStep, mm.mapped]

private theorem buildStep_len (descVirt j : Nat) (build : Build) (sdesc : Extent) :
    (buildStep engine descVirt j build sdesc).len = build.len + sdesc.len := by
  simp [buildStep, mm.mapped]

private theorem buildStep_epAddr (descVirt j : Nat) (build : Build) (sdesc : Extent) :
    (buildStep engine descVirt j build sdesc).epAddr =
      build.epAddr + BitVec.ofNat 64 sdesc.len.toNat := by
  simp only [buildStep, mm.mapped, mm.incrementing]
  rw [BitVec.ofNat_toNat]
  simp

private theorem transferBuild_outside (descVirt j k : Nat) (build : Build) (sdescs : List Extent)
    (h : k < descVirt + j) :
    (transferBuild engine descVirt j build sdescs).desc k = build.desc k := by
  induction sdescs generalizing j build with
  | nil => rfl
  | cons sdesc rest ih =>
      have hk : k ≠ descVirt + j := by omega
      unfold transferBuild
      rw [ih (j + 1) _ (by omega), buildStep_desc mm, modifyAt_ne hk]

private theorem transferBuild_first (descVirt j : Nat) (build : Build) (sdesc : Extent)
    (rest : List Extent) :
    ((transferBuild engine descVirt j build (sdesc :: rest)).desc (descVirt + j)).bytePairs =
      copyPairs engine.dir build.epAddr sdesc.bytes := by
  unfold transferBuild
  rw [transferBuild_outside mm _ _ _ _ _ (by omega), buildStep_desc mm, modifyAt_same,
    copyPairs_extent]
  exact xdmaDescSet_bytePairs ..

private theorem transferBuild_pairs (descVirt j : Nat) (build : Build) (sdescs : List Extent) :
    ((List.range sdescs.length).flatMap fun i =>
        ((transferBuild engine descVirt j build sdescs).desc (descVirt + j + i)).bytePairs) =
      copyPairs engine.dir build.epAddr (hostBytes sdescs) := by
  induction sdescs generalizing j build with
  | nil => rfl
  | cons sdesc rest ih =>
      have hrest := ih (j + 1) (buildStep engine descVirt j build sdesc)
      rw [buildStep_epAddr mm, ← Extent.bytes_length] at hrest
      rw [hostBytes, List.flatMap_cons, copyPairs_append, List.length_cons,
        List.range_succ_eq_map, List.flatMap_cons, List.flatMap_map, Nat.add_zero,
        transferBuild_first mm, ← hostBytes, ← hrest]
      refine congrArg (_ ++ ·) (List.flatMap_congr fun i _ => ?_)
      have hslot : descVirt + (j + 1) + i = descVirt + j + i.succ := by omega
      rw [hslot, transferBuild]

private theorem transferBuild_epAddr (descVirt j : Nat) (build : Build) (sdescs : List Extent) :
    (transferBuild engine descVirt j build sdescs).epAddr =
      build.epAddr + BitVec.ofNat 64 (byteCount sdescs) := by
  induction sdescs generalizing j build with
  | nil => simp [transferBuild, byteCount]
  | cons sdesc rest ih =>
      unfold transferBuild
      rw [ih, buildStep_epAddr mm, BitVec.add_assoc, ← BitVec.ofNat_add]
      rfl

private theorem transferBuild_len (descVirt j : Nat) (build : Build) (sdescs : List Extent) :
    (transferBuild engine descVirt j build sdescs).len =
      build.len + BitVec.ofNat 32 (byteCount sdescs) := by
  induction sdescs generalizing j build with
  | nil => simp [transferBuild, byteCount]
  | cons sdesc rest ih =>
      unfold transferBuild
      rw [ih, buildStep_len mm]
      simp [byteCount, BitVec.ofNat_add, BitVec.add_assoc]

end Build

/-! ## `transfer_init` -/

section Init

variable {engine : XdmaEngine} {req : XdmaRequestCb}

theorem transferCount_le (req : XdmaRequestCb) (slot : engine.descIdx < engine.descMax) :
    transferCount engine req ≤ req.swDescCnt - req.swDescIdx := by
  unfold transferCount
  simp only
  split <;> omega

theorem transferCount_pos (slot : engine.descIdx < engine.descMax)
    (more : req.swDescIdx < req.swDescCnt) : 0 < transferCount engine req := by
  unfold transferCount
  simp only
  split <;> omega

theorem transferCount_room (req : XdmaRequestCb) (slot : engine.descIdx < engine.descMax) :
    engine.descIdx + transferCount engine req ≤ engine.descMax := by
  unfold transferCount
  simp only
  split <;> omega

theorem transferCount_le_ring (engine : XdmaEngine) (req : XdmaRequestCb) :
    transferCount engine req ≤ engine.descMax := by
  unfold transferCount
  simp only
  split <;> omega

private theorem transferInit_descNum :
    (transferInit engine req).2.2.descNum = transferCount engine req :=
  rfl

theorem transferInit_memoryMapped (req : XdmaRequestCb) (mm : MemoryMapped engine) :
    MemoryMapped (transferInit engine req).1 where
  mapped := mm.mapped
  incrementing := mm.incrementing
  slot := Nat.mod_lt _ (Nat.zero_lt_of_lt mm.slot)

def transferChunk (engine : XdmaEngine) (req : XdmaRequestCb) : List Extent :=
  (req.sdesc.drop req.swDescIdx).take (transferCount engine req)

theorem transferInit_epAddr (req : XdmaRequestCb) (mm : MemoryMapped engine) :
    (transferInit engine req).2.1.epAddr =
      req.epAddr + BitVec.ofNat 64 (byteCount (transferChunk engine req)) :=
  transferBuild_epAddr mm ..

theorem transferInit_len (mm : MemoryMapped engine) :
    (transferInit engine req).2.2.len =
      BitVec.ofNat 32 (byteCount (transferChunk engine req)) := by
  have hlen := transferBuild_len mm engine.descIdx 0
    { desc := transferDescInit engine.desc engine.descIdx
        (engine.descBus + BitVec.ofNat 64 (sizeofXdmaDesc * engine.descIdx))
        (transferCount engine req)
      len := 0
      epAddr := req.epAddr
      bus := engine.cyclicResultBus + BitVec.ofNat 64 (sizeofXdmaResult * engine.descIdx) }
    (transferChunk engine req)
  exact hlen.trans (BitVec.zero_add _)

private theorem finish_bytePairs (desc : Nat → XdmaDesc) (base count k : Nat) (flush : Bool) :
    let terminated := modifyAt desc (base + (count - 1)) (xdmaDescControlSet · lastDescControl)
    let flushed :=
      if flush then
        modifyRange terminated base (fun _ slot => xdmaDescControlSet slot xdmaDescCompleted)
          (count - 1)
      else terminated
    (modifyRange flushed base (setAdjacent count) count k).bytePairs = (desc k).bytePairs := by
  intro terminated flushed
  have hterm : (terminated k).bytePairs = (desc k).bytePairs := by
    by_cases hlast : k = base + (count - 1)
    · subst hlast
      simp only [terminated, modifyAt_same]
      exact xdmaDescControlSet_bytePairs ..
    · simp only [terminated, modifyAt_ne hlast]
  have hflush : (flushed k).bytePairs = (terminated k).bytePairs := by
    simp only [flushed]
    split
    · exact modifyRange_kept (fun _ slot => xdmaDescControlSet_bytePairs slot _) ..
    · rfl
  have hadjacent : ∀ i slot, (setAdjacent count i slot).bytePairs = slot.bytePairs :=
    fun i slot => xdmaDescAdjacent_bytePairs slot _
  rw [modifyRange_kept hadjacent, hflush, hterm]

structure XdmaRequestCb.WellFormed (req : XdmaRequestCb) : Prop where
  count : req.swDescCnt = req.sdesc.length
  cursor : req.swDescIdx ≤ req.swDescCnt

theorem transferInit_wellFormed (slot : engine.descIdx < engine.descMax)
    (wf : req.WellFormed) : (transferInit engine req).2.1.WellFormed where
  count := wf.count
  cursor := by
    have hle := transferCount_le req slot
    have hcursor := wf.cursor
    change req.swDescIdx + transferCount engine req ≤ req.swDescCnt
    omega

theorem transferChunk_length (slot : engine.descIdx < engine.descMax) (wf : req.WellFormed) :
    (transferChunk engine req).length = transferCount engine req := by
  have hle := transferCount_le req slot
  have hcount := wf.count
  rw [transferChunk, List.length_take, List.length_drop]
  omega

theorem transferInit_pairs (mm : MemoryMapped engine) (wf : req.WellFormed) :
    (transferDescs (transferInit engine req).1 (transferInit engine req).2.2).flatMap
        XdmaDesc.bytePairs =
      copyPairs engine.dir req.epAddr (hostBytes (transferChunk engine req)) := by
  rw [transferDescs, List.flatMap_map, transferInit_descNum, ← transferChunk_length mm.slot wf]
  have hbuild := transferBuild_pairs mm engine.descIdx 0
    { desc := transferDescInit engine.desc engine.descIdx
        (engine.descBus + BitVec.ofNat 64 (sizeofXdmaDesc * engine.descIdx))
        (transferCount engine req)
      len := 0
      epAddr := req.epAddr
      bus := engine.cyclicResultBus + BitVec.ofNat 64 (sizeofXdmaResult * engine.descIdx) }
    (transferChunk engine req)
  rw [← hbuild]
  apply List.flatMap_congr
  intro i _
  exact finish_bytePairs _ engine.descIdx (transferCount engine req) (engine.descIdx + i)
    engine.eopFlush

end Init

end NupaNet.Xdma
