import Mathlib.Data.List.Range
import NupaNet.Foundation.Update

/-!
# DMA descriptors

`struct xdma_desc` is eight little-endian words that the engine fetches from
host memory; addresses are split over a low and a high word.  The functions
below fill one descriptor, or link the slots of one transfer into a chain.
A descriptor asks for its bytes to be moved one by one from the source address
on to the destination address on: `bytePairs` lists these moves.
-/

namespace NupaNet.Xdma

open NupaNet.Foundation

abbrev U32 := BitVec 32
abbrev U64 := BitVec 64

inductive Direction
  | toDevice
  | fromDevice
deriving DecidableEq, Repr

def pciDmaH (addr : U64) : U32 := ((addr >>> 16) >>> 16).setWidth 32

def pciDmaL (addr : U64) : U32 := (addr &&& 0xffffffff#64).setWidth 32

private theorem pciDmaH_eq (addr : U64) : pciDmaH addr = addr.extractLsb' 32 32 := by
  apply BitVec.eq_of_toNat_eq
  simp only [pciDmaH, BitVec.toNat_setWidth, BitVec.toNat_ushiftRight,
    BitVec.extractLsb'_toNat, ← Nat.shiftRight_add]

theorem pciDmaL_eq (addr : U64) : pciDmaL addr = addr.extractLsb' 0 32 := by
  apply BitVec.eq_of_toNat_eq
  have mask : ∀ n : Nat, n &&& 4294967295 = n % 4294967296 := fun n =>
    Nat.and_two_pow_sub_one_eq_mod n 32
  simp [pciDmaL, mask]

theorem pciDma_append (addr : U64) : pciDmaH addr ++ pciDmaL addr = addr := by
  rw [pciDmaH_eq, pciDmaL_eq, BitVec.extractLsb'_append_extractLsb'_eq_extractLsb' (by rfl)]
  simp

structure XdmaDesc where
  control : U32
  bytes : U32
  srcAddrLo : U32
  srcAddrHi : U32
  dstAddrLo : U32
  dstAddrHi : U32
  nextLo : U32
  nextHi : U32
deriving DecidableEq, Repr

namespace XdmaDesc

def zero : XdmaDesc := ⟨0, 0, 0, 0, 0, 0, 0, 0⟩

def srcAddr (desc : XdmaDesc) : U64 := desc.srcAddrHi ++ desc.srcAddrLo

def dstAddr (desc : XdmaDesc) : U64 := desc.dstAddrHi ++ desc.dstAddrLo

def nextAddr (desc : XdmaDesc) : U64 := desc.nextHi ++ desc.nextLo

def bytePairs (desc : XdmaDesc) : List (U64 × U64) :=
  (List.range desc.bytes.toNat).map fun k =>
    (desc.srcAddr + BitVec.ofNat 64 k, desc.dstAddr + BitVec.ofNat 64 k)

end XdmaDesc

def sizeofXdmaDesc : Nat := 32

def sizeofXdmaResult : Nat := 32

def descMagic : U32 := 0xAD4B0000#32

def lsByteMask : U32 := 0x000000FF#32

def xdmaDescStopped : U32 := 1#32

def xdmaDescCompleted : U32 := 2#32

def xdmaDescEop : U32 := 16#32

def xdmaMaxAdjBlockSize : U32 := 0x40#32

def xdmaPageSize : U32 := 0x1000#32

def xdmaDescSet (desc : XdmaDesc) (rcBusAddr epAddr : U64) (len : U32) :
    Direction → XdmaDesc
  | .toDevice =>
      { desc with
        bytes := len
        srcAddrLo := pciDmaL rcBusAddr
        srcAddrHi := pciDmaH rcBusAddr
        dstAddrLo := pciDmaL epAddr
        dstAddrHi := pciDmaH epAddr }
  | .fromDevice =>
      { desc with
        bytes := len
        srcAddrLo := pciDmaL epAddr
        srcAddrHi := pciDmaH epAddr
        dstAddrLo := pciDmaL rcBusAddr
        dstAddrHi := pciDmaH rcBusAddr }

def xdmaDescAdjacent (desc : XdmaDesc) (nextAdjacent : U32) : XdmaDesc :=
  { desc with
    control := desc.control &&& 0x0000f0ff#32 ||| (0xAD4B0000#32 ||| nextAdjacent <<< 8) }

/-- A field outside the low byte is refused with `-EINVAL` and nothing is written. -/
def xdmaDescControlSet (first : XdmaDesc) (controlField : U32) : XdmaDesc :=
  if controlField &&& ~~~lsByteMask ≠ 0 then first
  else { first with control := first.control &&& ~~~lsByteMask ||| controlField }

def xdmaGetNextAdj (remaining nextLo : U32) : U32 :=
  if remaining ≤ 1 then 0
  else
    let nextIndex := ((nextLo &&& (xdmaPageSize - 1)) >>> 5) % xdmaMaxAdjBlockSize
    let room := xdmaMaxAdjBlockSize - nextIndex - 1
    if room < remaining - 1 then room else remaining - 1

/-- The loop links all slots but the last, which is terminated after it. -/
def transferDescInit (desc : Nat → XdmaDesc) (descVirt : Nat) (descBus : U64)
    (count : Nat) : Nat → XdmaDesc :=
  modifyAt
    (modifyRange desc descVirt
      (fun i slot =>
        let next := descBus + BitVec.ofNat 64 (sizeofXdmaDesc * (i + 1))
        { slot with nextLo := pciDmaL next, nextHi := pciDmaH next, bytes := 0,
                    control := descMagic })
      (count - 1))
    (descVirt + (count - 1))
    fun slot => { slot with nextLo := 0, nextHi := 0, bytes := 0, control := descMagic }

def xdmaDescDone (desc : Nat → XdmaDesc) (descVirt count : Nat) : Nat → XdmaDesc :=
  modifyRange desc descVirt (fun _ _ => .zero) count

/-! ## What a filled descriptor moves -/

def orient : Direction → U64 → U64 → U64 × U64
  | .toDevice, host, endpoint => (host, endpoint)
  | .fromDevice, host, endpoint => (endpoint, host)

theorem xdmaDescSet_bytePairs (desc : XdmaDesc) (host endpoint : U64) (len : U32)
    (dir : Direction) :
    (xdmaDescSet desc host endpoint len dir).bytePairs =
      (List.range len.toNat).map fun k =>
        orient dir (host + BitVec.ofNat 64 k) (endpoint + BitVec.ofNat 64 k) := by
  cases dir <;>
    simp [XdmaDesc.bytePairs, XdmaDesc.srcAddr, XdmaDesc.dstAddr, xdmaDescSet,
      pciDma_append, orient]

theorem bytePairs_congr {d d' : XdmaDesc} (bytes : d'.bytes = d.bytes)
    (src : d'.srcAddr = d.srcAddr) (dst : d'.dstAddr = d.dstAddr) :
    d'.bytePairs = d.bytePairs := by
  simp only [XdmaDesc.bytePairs, bytes, src, dst]

theorem xdmaDescAdjacent_bytePairs (desc : XdmaDesc) (nextAdjacent : U32) :
    (xdmaDescAdjacent desc nextAdjacent).bytePairs = desc.bytePairs :=
  bytePairs_congr rfl rfl rfl

theorem xdmaDescControlSet_bytePairs (desc : XdmaDesc) (controlField : U32) :
    (xdmaDescControlSet desc controlField).bytePairs = desc.bytePairs := by
  unfold xdmaDescControlSet
  split
  · rfl
  · exact bytePairs_congr rfl rfl rfl

end NupaNet.Xdma
