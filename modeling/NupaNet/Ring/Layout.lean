import Mathlib.Data.BitVec
import Mathlib.Logic.Function.Basic
import NupaNet.Foundation.Bytes

/-!
# The shared packet rings

Every host owns one area of the shared BAR: a `packets_info` header followed by
`MAX_DESC_NUM` packet descriptors.  The payloads live in device memory, where
the slot of a descriptor is a fixed `DESC_MAX_DMA_SIZE` block of the owner's
`AGENT_TOTAL_DMA_SIZE` region.  A C `int` is a 32-bit word read as signed, and
a descriptor is found by pointer arithmetic on such a word, so the descriptors
of an area form a function of it.  The slots are those of 0..63: at any other
index the arithmetic meets words of the header, of the padding or of the other
area, which the records do not share.
-/

namespace NupaNet.Ring

open NupaNet.Foundation

abbrev CInt := BitVec 32

/-! ## Sizes -/

def totalDmaSize : Nat := 64 <<< 12
def usrBarSharingSize : Nat := 1 <<< 12
def maxAgentNum : Nat := 2
def infoSize : Nat := usrBarSharingSize / maxAgentNum
def maxDescNum : Nat := 64
def agentTotalDmaSize : Nat := totalDmaSize / maxAgentNum
def descMaxDmaSize : Nat := agentTotalDmaSize / maxDescNum

/-- `sizeof(struct packets_info)`: four `int`s and a `bool`, padded to the alignment of `int`. -/
def sizeofPacketsInfo : Nat := 20

/-- `sizeof(struct packet_desc)`: three `int`s and an enumeration. -/
def sizeofPacketDesc : Nat := 16

@[simp] theorem totalDmaSize_eq : totalDmaSize = 262144 := rfl
@[simp] theorem infoSize_eq : infoSize = 2048 := rfl
@[simp] theorem maxAgentNum_eq : maxAgentNum = 2 := rfl
@[simp] theorem maxDescNum_eq : maxDescNum = 64 := rfl
@[simp] theorem agentTotalDmaSize_eq : agentTotalDmaSize = 131072 := rfl
@[simp] theorem descMaxDmaSize_eq : descMaxDmaSize = 2048 := rfl

/-! ## Records -/

inductive PacketDescStatus where
  | packetInit
  | packetFreezing
  | packetSettled
  | packetReleased
  deriving DecidableEq, Repr

structure PacketDesc where
  pos : CInt
  offset : CInt
  length : CInt
  status : PacketDescStatus
  deriving DecidableEq, Repr

structure PacketsInfo where
  hostId : CInt
  head : CInt
  tail : CInt
  totalLen : CInt
  ready : Bool
  deriving DecidableEq, Repr

/-- The slots of the area are `desc 0` to `desc 63`; no word lies behind the other records. -/
structure InfoArea where
  info : PacketsInfo
  desc : CInt → PacketDesc

/-- The shared-memory words the driver loads and stores, each in one access. -/
inductive Word where
  | hostId
  | head
  | tail
  | totalLen
  | ready
  | pos (index : CInt)
  | offset (index : CInt)
  | length (index : CInt)
  | status (index : CInt)
  deriving DecidableEq, Repr

inductive Store where
  | hostId (value : CInt)
  | head (value : CInt)
  | tail (value : CInt)
  | totalLen (value : CInt)
  | ready (value : Bool)
  | pos (index value : CInt)
  | offset (index value : CInt)
  | length (index value : CInt)
  | status (index : CInt) (value : PacketDescStatus)
  deriving DecidableEq, Repr

def Store.word : Store → Word
  | .hostId _ => .hostId
  | .head _ => .head
  | .tail _ => .tail
  | .totalLen _ => .totalLen
  | .ready _ => .ready
  | .pos index _ => .pos index
  | .offset index _ => .offset index
  | .length index _ => .length index
  | .status index _ => .status index

def Store.index : Store → Option CInt
  | .hostId _ | .head _ | .tail _ | .totalLen _ | .ready _ => none
  | .pos index _ | .offset index _ | .length index _ | .status index _ => some index

def Word.zero : Word → Store
  | .hostId => .hostId 0
  | .head => .head 0
  | .tail => .tail 0
  | .totalLen => .totalLen 0
  | .ready => .ready false
  | .pos index => .pos index 0
  | .offset index => .offset index 0
  | .length index => .length index 0
  | .status index => .status index .packetInit

/-- Distance in bytes of a word from the `host_base` of its area. -/
def Word.byteOffset : Word → Int
  | .hostId => 0
  | .head => 4
  | .tail => 8
  | .totalLen => 12
  | .ready => 16
  | .pos index => sizeofPacketsInfo + sizeofPacketDesc * index.toInt
  | .offset index => sizeofPacketsInfo + sizeofPacketDesc * index.toInt + 4
  | .length index => sizeofPacketsInfo + sizeofPacketDesc * index.toInt + 8
  | .status index => sizeofPacketsInfo + sizeofPacketDesc * index.toInt + 12

def Word.byteSize : Word → Int
  | .ready => 1
  | _ => 4

namespace InfoArea

def modifyDesc (area : InfoArea) (index : CInt) (f : PacketDesc → PacketDesc) : InfoArea :=
  { area with desc := Function.update area.desc index (f (area.desc index)) }

def store (area : InfoArea) : Store → InfoArea
  | .hostId value => { area with info.hostId := value }
  | .head value => { area with info.head := value }
  | .tail value => { area with info.tail := value }
  | .totalLen value => { area with info.totalLen := value }
  | .ready value => { area with info.ready := value }
  | .pos index value => area.modifyDesc index ({ · with pos := value })
  | .offset index value => area.modifyDesc index ({ · with offset := value })
  | .length index value => area.modifyDesc index ({ · with length := value })
  | .status index value => area.modifyDesc index ({ · with status := value })

@[simp] theorem modifyDesc_info (area : InfoArea) (index : CInt) (f : PacketDesc → PacketDesc) :
    (area.modifyDesc index f).info = area.info := rfl

@[simp] theorem modifyDesc_same (area : InfoArea) (index : CInt)
    (f : PacketDesc → PacketDesc) :
    (area.modifyDesc index f).desc index = f (area.desc index) := by
  simp [modifyDesc]

theorem modifyDesc_ne (area : InfoArea) {index other : CInt}
    (f : PacketDesc → PacketDesc) (h : other ≠ index) :
    (area.modifyDesc index f).desc other = area.desc other := by
  simp [modifyDesc, h]

theorem store_desc (area : InfoArea) {s : Store} {k : CInt} (h : s.index ≠ some k) :
    (area.store s).desc k = area.desc k := by
  cases s with
  | hostId | head | tail | totalLen | ready => rfl
  | pos index value | offset index value | length index value | status index value =>
      simp only [store]
      refine modifyDesc_ne area _ fun heq => h ?_
      rw [heq]
      rfl

theorem store_info (area : InfoArea) {s : Store} {k : CInt} (h : s.index = some k) :
    (area.store s).info = area.info := by
  cases s with
  | hostId | head | tail | totalLen | ready => cases h
  | pos | offset | length | status => rfl

theorem store_desc_pos (area : InfoArea) {s : Store} (k : CInt) (h : s.word ≠ .pos k) :
    ((area.store s).desc k).pos = (area.desc k).pos := by
  by_cases hk : s.index = some k
  · cases s with
    | hostId | head | tail | totalLen | ready => rfl
    | pos index value =>
        cases hk
        exact absurd rfl h
    | offset index value | length index value | status index value =>
        cases hk
        simp [store]
  · rw [store_desc area hk]

end InfoArea

def zeroArea : InfoArea where
  info := ⟨0, 0, 0, 0, false⟩
  desc := fun _ => ⟨0, 0, 0, .packetInit⟩

/-! ## Slots

`slot n` is the descriptor of the `n`-th packet of a ring: the ring indices wrap
around while packets are counted without bound. -/

def slot (n : Nat) : CInt := BitVec.ofNat 32 (n % maxDescNum)

theorem slot_eq_iff {m n : Nat} : slot m = slot n ↔ m % 64 = n % 64 := by
  simp only [slot, maxDescNum_eq]
  constructor
  · intro h
    have hval := congrArg BitVec.toNat h
    simp only [BitVec.toNat_ofNat] at hval
    omega
  · intro h
    rw [h]

theorem slot_toNat (n : Nat) : (slot n).toNat = n % 64 := by
  simp only [slot, maxDescNum_eq, BitVec.toNat_ofNat]
  omega

theorem toInt_ofNat_small {a : Nat} (h : a < 2 ^ 31) : (BitVec.ofNat 32 a : CInt).toInt = a := by
  have hval : (BitVec.ofNat 32 a).toNat = a := by
    rw [BitVec.toNat_ofNat]
    omega
  rw [BitVec.toInt_eq_toNat_of_lt]
  · rw [hval]
  · rw [hval]
    omega

theorem slot_toInt (n : Nat) : (slot n).toInt = (n % 64 : Nat) := by
  rw [slot, maxDescNum_eq]
  exact toInt_ofNat_small (by omega)

private theorem next_index : ∀ k : Fin 64,
    (BitVec.ofNat 32 k.val + 1).srem 64 = BitVec.ofNat 32 ((k.val + 1) % 64) ∧
      (BitVec.ofNat 32 k.val + 1) &&& (64 - 1) = BitVec.ofNat 32 ((k.val + 1) % 64) := by
  decide

theorem slot_succ_srem (n : Nat) : (slot n + 1).srem 64 = slot (n + 1) := by
  have h := (next_index ⟨n % 64, Nat.mod_lt _ (by decide)⟩).1
  simp only [slot, maxDescNum_eq] at h ⊢
  rw [h, Nat.add_mod n 1 64]

theorem slot_succ_and (n : Nat) : (slot n + 1) &&& (64 - 1) = slot (n + 1) := by
  have h := (next_index ⟨n % 64, Nat.mod_lt _ (by decide)⟩).2
  simp only [slot, maxDescNum_eq] at h ⊢
  rw [h, Nat.add_mod n 1 64]

/-! ## Payload blocks -/

def blockBase (dst n : Nat) : Nat :=
  agentTotalDmaSize * dst + n % maxDescNum * descMaxDmaSize

/-- The endpoint address of a descriptor offset: an `int` widened to `u64`. -/
def devAddr (offset : CInt) : Nat := (offset.signExtend 64).toNat

theorem blockBase_lt {dst : Nat} (h : dst < maxAgentNum) (n : Nat) :
    blockBase dst n + descMaxDmaSize ≤ totalDmaSize := by
  simp only [blockBase, totalDmaSize_eq, agentTotalDmaSize_eq, maxDescNum_eq,
    descMaxDmaSize_eq, maxAgentNum_eq] at h ⊢
  omega

/-- Blocks of different slots of one agent, or of different agents, do not overlap. -/
theorem blockBase_disjoint {dst dst' m n : Nat}
    (h : dst ≠ dst' ∨ m % 64 ≠ n % 64) :
    blockBase dst m + descMaxDmaSize ≤ blockBase dst' n ∨
      blockBase dst' n + descMaxDmaSize ≤ blockBase dst m := by
  simp only [blockBase, agentTotalDmaSize_eq, maxDescNum_eq, descMaxDmaSize_eq]
  have hm : m % 64 < 64 := Nat.mod_lt _ (by decide)
  have hn : n % 64 < 64 := Nat.mod_lt _ (by decide)
  omega

theorem offset_eq_blockBase (dst n : Nat) :
    (131072 : CInt) * BitVec.ofNat 32 dst + slot n * 2048 =
      BitVec.ofNat 32 (blockBase dst n) := by
  simp only [slot, blockBase, agentTotalDmaSize_eq, maxDescNum_eq, descMaxDmaSize_eq,
    BitVec.ofNat_add, BitVec.ofNat_mul]
  rfl

theorem devAddr_ofNat {a : Nat} (h : a < 2 ^ 31) : devAddr (BitVec.ofNat 32 a) = a := by
  have hpos : (BitVec.ofNat 32 a).msb = false := by
    rw [BitVec.msb_eq_false_iff_two_mul_lt, BitVec.toNat_ofNat]
    omega
  rw [devAddr, BitVec.signExtend_eq_setWidth_of_msb_false hpos, BitVec.toNat_setWidth,
    BitVec.toNat_ofNat]
  omega

end NupaNet.Ring
