import Mathlib.Order.Interval.Finset.Nat
import NupaNet.Foundation.Chain
import NupaNet.Xdma.Failure

/-!
# The chain of a transfer

The engine follows the links of the descriptors from the address of the first,
and prefetches as many descriptors behind the one it goes to as the adjacent
field says.  The control word holds that field between the magic number and the
flags; `transfer_init` writes it with three helpers, one after the other.  The
result is that the chain is the transfer's slots, in order, and that a prefetch
stays inside it and inside an aligned block of 64 descriptors, so that an engine
reads the transfer whatever part of the allowed descriptors it prefetches.
-/

namespace NupaNet.Xdma

open NupaNet.Foundation

def slotAddr (engine : XdmaEngine) (k : Nat) : U64 :=
  engine.descBus + BitVec.ofNat 64 (sizeofXdmaDesc * k)

def slotAt (engine : XdmaEngine) (addr : U64) : Option Nat :=
  let offset := (addr - engine.descBus).toNat
  if offset % sizeofXdmaDesc = 0 ∧ offset / sizeofXdmaDesc < engine.descMax then
    some (offset / sizeofXdmaDesc)
  else none

/-- The fetch of a descriptor, by its slot, with its link; the null link ends the chain. -/
def fetchDesc (engine : XdmaEngine) (addr : U64) : Option (Nat × Option U64) :=
  (slotAt engine addr).map fun k =>
    (k, if (engine.desc k).nextAddr = 0 then none else some (engine.desc k).nextAddr)

/-- The ring as `dma_alloc_coherent` gives it: on a page, and whole in the address space. -/
structure DescRing (engine : XdmaEngine) : Prop where
  aligned : engine.descBus.toNat % 4096 = 0
  mapped : engine.descBus.toNat + sizeofXdmaDesc * engine.descMax ≤ 2 ^ 64
  count : engine.descMax < 2 ^ 31

/-! ## Control words -/

def magicHalf (control : U32) : U32 := control >>> 16

def adjacentField (control : U32) : U32 := (control >>> 8) &&& 0x3f#32

private theorem adjacent_control {nextAdjacent : U32} (small : nextAdjacent.toNat < 64)
    {flags : U32}
    (known : flags = 0 ∨ flags = lastDescControl) :
    let control :=
      (descMagic ||| flags) &&& 0x0000f0ff#32 ||| (0xAD4B0000#32 ||| nextAdjacent <<< 8)
    magicHalf control = 0xAD4B#32 ∧ control &&& lsByteMask = flags ∧
      adjacentField control = nextAdjacent := by
  obtain ⟨n, hn, rfl⟩ : ∃ n < 64, nextAdjacent = BitVec.ofNat 32 n :=
    ⟨nextAdjacent.toNat, small, by simp⟩
  clear small
  rcases known with rfl | rfl
  · revert n
    decide
  · revert n
    decide

/-! ## Adjacent descriptors -/

private theorem xdmaGetNextAdj_toNat (remaining nextLo : U32) :
    (xdmaGetNextAdj remaining nextLo).toNat =
      if remaining.toNat ≤ 1 then 0
      else min (63 - nextLo.toNat / 32 % 64) (remaining.toNat - 1) := by
  have hindex : (((nextLo &&& (xdmaPageSize - 1)) >>> 5) % xdmaMaxAdjBlockSize).toNat =
      nextLo.toNat / 32 % 64 := by
    have hpage : (nextLo &&& (xdmaPageSize - 1)).toNat = nextLo.toNat % 4096 := by
      rw [show xdmaPageSize - 1 = BitVec.ofNat 32 4095 from rfl, BitVec.toNat_and]
      exact Nat.and_two_pow_sub_one_eq_mod nextLo.toNat 12
    rw [BitVec.toNat_umod, BitVec.toNat_ushiftRight, hpage, Nat.shiftRight_eq_div_pow]
    change nextLo.toNat % 4096 / 32 % 64 = nextLo.toNat / 32 % 64
    omega
  have hroom : (xdmaMaxAdjBlockSize -
      (((nextLo &&& (xdmaPageSize - 1)) >>> 5) % xdmaMaxAdjBlockSize) - 1).toNat =
      63 - nextLo.toNat / 32 % 64 := by
    rw [← hindex]
    generalize ((nextLo &&& (xdmaPageSize - 1)) >>> 5) % xdmaMaxAdjBlockSize = index at hindex ⊢
    rw [show xdmaMaxAdjBlockSize = 64#32 from rfl]
    bv_omega
  unfold xdmaGetNextAdj
  by_cases hfew : remaining ≤ 1
  · rw [if_pos hfew, if_pos (show remaining.toNat ≤ 1 from hfew)]
    rfl
  · have hmany : ¬ remaining.toNat ≤ 1 := hfew
    have hleft : (remaining - 1).toNat = remaining.toNat - 1 := by bv_omega
    rw [if_neg hfew, if_neg hmany]
    simp only
    split
    next hless =>
      rw [BitVec.lt_def, hroom, hleft] at hless
      rw [hroom]
      omega
    next hmore =>
      rw [BitVec.lt_def, hroom, hleft] at hmore
      rw [hleft]
      omega

def blockOf (addr : U64) : Nat := addr.toNat / 2048

def pageOf (addr : U64) : Nat := addr.toNat / 4096

def blockFollowers (addr : Nat → U64) (n k : Nat) : Finset Nat :=
  (Finset.range n).filter fun m => k < m ∧ blockOf (addr m) = blockOf (addr k)

/-- What a prefetch of `adjacent` descriptors behind the `k`-th reads. -/
structure Prefetch (addr : Nat → U64) (n k adjacent : Nat) : Prop where
  counts : adjacent = (blockFollowers addr n k).card
  inChain : ∀ m, 1 ≤ m → m ≤ adjacent → k + m < n
  inBlock : ∀ m ≤ adjacent, blockOf (addr (k + m)) = blockOf (addr k)
  inPage : ∀ m ≤ adjacent, pageOf (addr (k + m)) = pageOf (addr k)

private theorem card_blockFollowers {addr : Nat → U64} {first n k : Nat}
    (placed : ∀ m < n, (addr m).toNat = 32 * (first + m)) (inside : k < n) :
    (blockFollowers addr n k).card = min (63 - (first + k) % 64) (n - k - 1) := by
  have hicc : blockFollowers addr n k =
      Finset.Icc (k + 1) (k + min (63 - (first + k) % 64) (n - k - 1)) := by
    ext m
    rw [blockFollowers, Finset.mem_filter, Finset.mem_range, Finset.mem_Icc]
    by_cases hm : m < n
    · rw [blockOf, blockOf, placed m hm, placed k inside]
      omega
    · omega
  rw [hicc, Nat.card_Icc]
  omega

private theorem prefetch_of_nextAdj {addr : Nat → U64} {n k : Nat} (first : Nat)
    (placed : ∀ m < n, (addr m).toNat = 32 * (first + m)) (small : n < 2 ^ 32) {nextLo : U32}
    (next : k < n → nextLo = pciDmaL (addr k)) (inside : k ≤ n) :
    Prefetch addr n k (xdmaGetNextAdj (BitVec.ofNat 32 (n - k)) nextLo).toNat ∧
      (xdmaGetNextAdj (BitVec.ofNat 32 (n - k)) nextLo).toNat < 64 := by
  rw [xdmaGetNextAdj_toNat, BitVec.toNat_ofNat, Nat.mod_eq_of_lt (by omega)]
  rcases inside.eq_or_lt with rfl | hlt
  · have hnone : blockFollowers addr k k = ∅ := by
      ext m
      simp only [blockFollowers, Finset.mem_filter, Finset.mem_range, Finset.notMem_empty,
        iff_false]
      omega
    rw [if_pos (by omega)]
    refine ⟨⟨by rw [hnone]; rfl, fun m _ _ => by omega, fun m hm => ?_, fun m hm => ?_⟩, by omega⟩
    · rw [Nat.le_zero.mp hm, Nat.add_zero]
    · rw [Nat.le_zero.mp hm, Nat.add_zero]
  · have hlow : nextLo.toNat / 32 % 64 = (first + k) % 64 := by
      rw [next hlt, pciDmaL_eq, BitVec.extractLsb'_toNat, placed k hlt, Nat.shiftRight_zero]
      omega
    have hadjacent : (if n - k ≤ 1 then 0 else min (63 - nextLo.toNat / 32 % 64) (n - k - 1)) =
        min (63 - (first + k) % 64) (n - k - 1) := by
      rw [hlow]
      split <;> omega
    rw [hadjacent]
    refine ⟨⟨(card_blockFollowers placed hlt).symm, fun m _ _ => by omega, fun m hm => ?_,
      fun m hm => ?_⟩, by omega⟩
    · rw [blockOf, blockOf, placed _ (by omega), placed _ hlt]
      omega
    · rw [pageOf, pageOf, placed _ (by omega), placed _ hlt]
      omega

/-! ## The slots of the transfer -/

private theorem transferBuild_nextAddr (engine : XdmaEngine) (descVirt j : Nat) (build : Build)
    (sdescs : List Extent) (k : Nat) :
    ((transferBuild engine descVirt j build sdescs).desc k).nextAddr = (build.desc k).nextAddr := by
  refine transferBuild_kept ?_ (fun _ _ _ => rfl) engine descVirt j build sdescs k
  intro desc host endpoint len dir
  cases dir <;> rfl

private theorem transferDescInit_nextAddr (desc : Nat → XdmaDesc) (descVirt : Nat) (descBus : U64)
    {count i : Nat} (h : i < count) :
    (transferDescInit desc descVirt descBus count (descVirt + i)).nextAddr =
      if i + 1 = count then 0 else descBus + BitVec.ofNat 64 (sizeofXdmaDesc * (i + 1)) := by
  unfold transferDescInit
  by_cases hlast : i + 1 = count
  · rw [if_pos hlast, show count - 1 = i by omega, modifyAt_same]
    simp only [XdmaDesc.nextAddr]
    decide
  · rw [if_neg hlast, modifyAt_ne (by omega), modifyRange_inside (by omega)]
    exact pciDma_append _

private theorem nextLo_eq (desc : XdmaDesc) : desc.nextLo = pciDmaL desc.nextAddr := by
  rw [pciDmaL_eq, XdmaDesc.nextAddr]
  apply BitVec.eq_of_toNat_eq
  rw [BitVec.extractLsb'_toNat, BitVec.toNat_append, Nat.shiftRight_zero]
  have hlt := desc.nextLo.isLt
  rw [Nat.shiftLeft_eq, Nat.mul_comm, ← Nat.two_pow_add_eq_or_of_lt hlt]
  omega

section Slot

variable {engine : XdmaEngine} {req : XdmaRequestCb} {i : Nat}

def slotFlags (n i : Nat) : U32 := if i + 1 = n then lastDescControl else 0

private theorem terminated_slot (engine : XdmaEngine) (req : XdmaRequestCb) (build : Build)
    (inits : build.desc = transferDescInit engine.desc engine.descIdx
      (slotAddr engine engine.descIdx) (transferCount engine req))
    (sdescs : List Extent) (inside : i < transferCount engine req) :
    let slot := modifyAt (transferBuild engine engine.descIdx 0 build sdescs).desc
      (engine.descIdx + (transferCount engine req - 1)) (xdmaDescControlSet · lastDescControl)
      (engine.descIdx + i)
    slot.control = descMagic ||| slotFlags (transferCount engine req) i ∧
      slot.nextAddr = if i + 1 = transferCount engine req then 0
        else slotAddr engine (engine.descIdx + (i + 1)) := by
  have hcontrol := transferBuild_control engine engine.descIdx 0 build sdescs (engine.descIdx + i)
  have hnext := transferBuild_nextAddr engine engine.descIdx 0 build sdescs (engine.descIdx + i)
  rw [inits, transferDescInit_control _ _ _ inside] at hcontrol
  rw [inits, transferDescInit_nextAddr _ _ _ inside] at hnext
  have haddr : slotAddr engine engine.descIdx + BitVec.ofNat 64 (sizeofXdmaDesc * (i + 1)) =
      slotAddr engine (engine.descIdx + (i + 1)) := by
    rw [slotAddr, slotAddr, BitVec.add_assoc, ← BitVec.ofNat_add, ← Nat.mul_add]
  rw [haddr] at hnext
  unfold slotFlags
  by_cases hlast : i + 1 = transferCount engine req
  · rw [if_pos hlast] at hnext
    rw [if_pos hlast, if_pos hlast, show transferCount engine req - 1 = i by omega, modifyAt_same,
      xdmaDescControlSet, if_neg (by decide)]
    refine ⟨?_, hnext⟩
    simp only [hcontrol]
    decide
  · rw [if_neg hlast] at hnext
    rw [if_neg hlast, if_neg hlast, modifyAt_ne (by omega)]
    exact ⟨hcontrol.trans (by decide), hnext⟩

private theorem transferInit_slot (noFlush : engine.eopFlush = false)
    (inside : i < transferCount engine req) :
    let n := transferCount engine req
    let slot := (transferInit engine req).1.desc (engine.descIdx + i)
    (slot.nextAddr = if i + 1 = n then 0 else slotAddr engine (engine.descIdx + (i + 1))) ∧
      slot.control = (descMagic ||| slotFlags n i) &&& 0x0000f0ff#32 |||
        (0xAD4B0000#32 ||| xdmaGetNextAdj (BitVec.ofNat 32 (n - (i + 1))) slot.nextLo <<< 8) := by
  obtain ⟨hcontrol, hnext⟩ := terminated_slot engine req
    { desc := transferDescInit engine.desc engine.descIdx (slotAddr engine engine.descIdx)
        (transferCount engine req)
      len := 0
      epAddr := req.epAddr
      bus := engine.cyclicResultBus + BitVec.ofNat 64 (sizeofXdmaResult * engine.descIdx) }
    rfl ((req.sdesc.drop req.swDescIdx).take (transferCount engine req)) inside
  simp only [transferInit, noFlush, Bool.false_eq_true, if_false]
  rw [modifyRange_inside inside, setAdjacent, ← hcontrol, ← Nat.sub_sub]
  exact ⟨hnext, rfl⟩

end Slot

/-! ## The chain -/

/-- The transfer as the engine reads it, from the address of its first descriptor. -/
structure WellFormedChain (engine : XdmaEngine) (xfer : XdmaTransfer) : Prop where
  nonempty : 1 ≤ xfer.descNum
  inRing : xfer.descVirt + xfer.descNum ≤ engine.descMax
  visits : ∀ fuel, xfer.descNum ≤ fuel → walk (fetchDesc engine) fuel xfer.descBus =
    some (List.range' xfer.descVirt xfer.descNum)
  magic : ∀ i < xfer.descNum, magicHalf (engine.desc (xfer.descVirt + i)).control = 0xAD4B#32
  flags : ∀ i < xfer.descNum, (engine.desc (xfer.descVirt + i)).control &&& lsByteMask =
    if i + 1 = xfer.descNum then xdmaDescStopped ||| xdmaDescEop ||| xdmaDescCompleted else 0
  adjacent : ∀ i < xfer.descNum, Prefetch (fun m => slotAddr engine (xfer.descVirt + m))
    xfer.descNum (i + 1) (adjacentField (engine.desc (xfer.descVirt + i)).control).toNat

section Chain

variable {engine : XdmaEngine}

private theorem slotAddr_toNat (ring : DescRing engine) {k : Nat} (inside : k < engine.descMax) :
    (slotAddr engine k).toNat = engine.descBus.toNat + 32 * k := by
  have hmapped := ring.mapped
  rw [sizeofXdmaDesc] at hmapped
  rw [slotAddr, sizeofXdmaDesc, BitVec.toNat_add, BitVec.toNat_ofNat,
    Nat.mod_eq_of_lt (a := 32 * k) (by omega), Nat.mod_eq_of_lt (by omega)]

private theorem slotAt_slotAddr (ring : DescRing engine) {k : Nat} (inside : k < engine.descMax) :
    slotAt engine (slotAddr engine k) = some k := by
  have hmapped := ring.mapped
  rw [sizeofXdmaDesc] at hmapped
  have hoffset : (slotAddr engine k - engine.descBus).toNat = 32 * k := by
    rw [slotAddr, BitVec.add_comm, BitVec.add_sub_cancel, sizeofXdmaDesc, BitVec.toNat_ofNat,
      Nat.mod_eq_of_lt (by omega)]
  simp only [slotAt, hoffset, sizeofXdmaDesc]
  rw [Nat.mul_div_cancel_left k (by decide), if_pos ⟨Nat.mul_mod_right 32 k, inside⟩]

private theorem slotAddr_placed (ring : DescRing engine) {first k : Nat}
    (inside : first + k < engine.descMax) :
    (slotAddr engine (first + k)).toNat = 32 * (engine.descBus.toNat / 32 + first + k) := by
  have haligned := ring.aligned
  rw [slotAddr_toNat ring inside]
  omega

private theorem fetchDesc_slot (ring : DescRing engine) {k : Nat} (inside : k < engine.descMax)
    (next : Option Nat) (nextInside : ∀ k', next = some k' → 0 < k' ∧ k' < engine.descMax)
    (link : (engine.desc k).nextAddr = (next.map (slotAddr engine)).getD 0) :
    fetchDesc engine (slotAddr engine k) = some (k, next.map (slotAddr engine)) := by
  rw [fetchDesc, slotAt_slotAddr ring inside, Option.map_some, link]
  cases next with
  | none => rfl
  | some k' =>
      obtain ⟨hpos, hinside⟩ := nextInside k' rfl
      have hnotNull : slotAddr engine k' ≠ 0 := by
        intro hnull
        have hvalue := slotAddr_toNat ring hinside
        rw [hnull] at hvalue
        change 0 = _ at hvalue
        omega
      simp only [Option.map_some, Option.getD_some, if_neg hnotNull]

variable {req : XdmaRequestCb} (slot : engine.descIdx < engine.descMax)
  (more : req.swDescIdx < req.swDescCnt) (noFlush : engine.eopFlush = false)
  (ring : DescRing engine)

include slot more noFlush ring

private theorem transferInit_visits {fuel : Nat} (enough : transferCount engine req ≤ fuel) :
    walk (fetchDesc (transferInit engine req).1) fuel (slotAddr engine engine.descIdx) =
      some (List.range' engine.descIdx (transferCount engine req)) := by
  have hpos := transferCount_pos slot more
  have hroom := transferCount_room req slot
  have hring : DescRing (transferInit engine req).1 := ⟨ring.aligned, ring.mapped, ring.count⟩
  have hwalk : walk (fetchDesc (transferInit engine req).1) fuel
      (slotAddr engine (engine.descIdx + 0)) =
        some ((List.range (transferCount engine req - 1 + 1)).map fun i => engine.descIdx + i) := by
    refine walk_linked (fun i => slotAddr engine (engine.descIdx + i))
      (fun i => engine.descIdx + i) ?_ ?_ (by omega)
    · intro i hi
      refine fetchDesc_slot hring (show engine.descIdx + i < engine.descMax by omega)
        (some (engine.descIdx + (i + 1))) ?_ ?_
      · rintro k' ⟨⟩
        exact ⟨by omega, show engine.descIdx + (i + 1) < engine.descMax by omega⟩
      · rw [(transferInit_slot noFlush (by omega)).1, if_neg (by omega)]
        rfl
    · refine fetchDesc_slot hring
        (show engine.descIdx + (transferCount engine req - 1) < engine.descMax by omega) none
        (fun k' h => by cases h) ?_
      rw [(transferInit_slot noFlush (by omega)).1, if_pos (by omega)]
      rfl
  rw [show transferCount engine req - 1 + 1 = transferCount engine req by omega] at hwalk
  rw [List.range'_eq_map_range]
  exact hwalk

omit more noFlush in
private theorem transferInit_prefetch {k : Nat} (inside : k ≤ transferCount engine req)
    (nextLo : U32)
    (next : k < transferCount engine req →
      nextLo = pciDmaL (slotAddr engine (engine.descIdx + k))) :
    let adjacent := xdmaGetNextAdj (BitVec.ofNat 32 (transferCount engine req - k)) nextLo
    Prefetch (fun m => slotAddr engine (engine.descIdx + m)) (transferCount engine req) k
      adjacent.toNat ∧ adjacent.toNat < 64 := by
  have hroom := transferCount_room req slot
  have hcount := ring.count
  refine prefetch_of_nextAdj (engine.descBus.toNat / 32 + engine.descIdx) ?_ (by omega)
    next inside
  intro m hm
  exact slotAddr_placed ring (by omega)

end Chain

private theorem engineStart_isSome (pollMode : Bool) {queue : XdmaEngine}
    (idle : queue.running = false)
    {head : Nat} {rest : List Nat} (queued : queue.transferList = head :: rest) (status : U32) :
    ∃ started, engineStart pollMode queue status = some started := by
  simp only [engineStart, idle, queued, Bool.false_eq_true, if_false]
  exact ⟨_, rfl⟩

/-- `transfer_init` links, terminates and counts the slots of its transfer, whatever they
contained; `engine_start` counts from the first. -/
theorem transferInit_wellFormedChain {engine : XdmaEngine} {req : XdmaRequestCb}
    (slot : engine.descIdx < engine.descMax) (more : req.swDescIdx < req.swDescCnt)
    (noFlush : engine.eopFlush = false) (ring : DescRing engine) :
    let built := (transferInit engine req).1
    let xfer := (transferInit engine req).2.2
    xfer.descVirt = engine.descIdx ∧ WellFormedChain built xfer ∧
      ∀ (pollMode : Bool) (queue started : XdmaEngine) (head : Nat) (rest : List Nat)
        (status : U32), queue.transferList = head :: rest →
        (queue.tfer head).descBus = xfer.descBus →
        (queue.tfer head).descAdjacent = xfer.descAdjacent →
        engineStart pollMode queue status = some started →
          started.regs.firstDescHi ++ started.regs.firstDescLo = xfer.descBus ∧
          Prefetch (fun m => slotAddr built (xfer.descVirt + m)) xfer.descNum 0
            started.regs.firstDescAdjacent.toNat := by
  have hpos := transferCount_pos slot more
  have hslot : ∀ i < transferCount engine req,
      let word := ((transferInit engine req).1.desc (engine.descIdx + i)).control
      magicHalf word = 0xAD4B#32 ∧
        word &&& lsByteMask = slotFlags (transferCount engine req) i ∧
        Prefetch (fun m => slotAddr engine (engine.descIdx + m)) (transferCount engine req) (i + 1)
          (adjacentField word).toNat := by
    intro i hi
    obtain ⟨hnext, hcontrol⟩ := transferInit_slot noFlush hi
    obtain ⟨hprefetch, hsmall⟩ := transferInit_prefetch slot ring
      (show i + 1 ≤ transferCount engine req from hi)
      ((transferInit engine req).1.desc (engine.descIdx + i)).nextLo (by
        intro hlt
        rw [nextLo_eq, hnext, if_neg (by omega)])
    have hflags : slotFlags (transferCount engine req) i = 0 ∨
        slotFlags (transferCount engine req) i = lastDescControl := by
      unfold slotFlags
      split
      · exact .inr rfl
      · exact .inl rfl
    obtain ⟨hmagic, hlow, hadjacent⟩ := adjacent_control hsmall hflags
    intro word
    rw [show word = _ from hcontrol, hadjacent]
    exact ⟨hmagic, hlow, hprefetch⟩
  refine ⟨rfl, ⟨hpos, transferCount_room req slot, ?_, ?_, ?_, ?_⟩, ?_⟩
  · intro fuel enough
    exact transferInit_visits slot more noFlush ring enough
  · exact fun i hi => (hslot i hi).1
  · exact fun i hi => (hslot i hi).2.1
  · exact fun i hi => (hslot i hi).2.2
  · intro pollMode queue started head rest status hqueue hbus hadjacent hstart
    unfold engineStart at hstart
    split at hstart
    · cases hstart
    · rw [hqueue] at hstart
      cases hstart
      simp only [hbus, hadjacent]
      refine ⟨pciDma_append _, ?_⟩
      exact (transferInit_prefetch slot ring (Nat.zero_le _) _ fun _ => rfl).1

/-- Three software descriptors, of which two fit before the end of the ring; the engine is started
on them. -/
theorem wellFormedChain_at_ring_end :
    let engine := idleEngine .toDevice 0x7fe
    let req : XdmaRequestCb :=
      ⟨0, 0x300, 0, 3, [⟨0x1000, 0x100⟩, ⟨0x3000, 0x100⟩, ⟨0x5000, 0x100⟩]⟩
    let built := (transferInit engine req).1
    let xfer := (transferInit engine req).2.2
    let queue := { setTransfer built 0 xfer with transferList := [0] }
    xfer.descNum = 2 ∧ WellFormedChain built xfer ∧
      ∃ started, engineStart false queue 0 = some started ∧
        started.regs.firstDescHi ++ started.regs.firstDescLo = xfer.descBus ∧
        Prefetch (fun m => slotAddr built (xfer.descVirt + m)) xfer.descNum 0
          started.regs.firstDescAdjacent.toNat := by
  intro engine req built xfer queue
  have hring : DescRing engine := ⟨by decide, by decide, by decide⟩
  have hmore : req.swDescIdx < req.swDescCnt := by decide
  obtain ⟨-, hchain, hstarts⟩ :=
    transferInit_wellFormedChain (show engine.descIdx < engine.descMax by decide) hmore rfl hring
  have hhead : queue.tfer 0 = xfer := by
    change Function.update built.tfer 0 xfer 0 = xfer
    exact Function.update_self ..
  have hidle : queue.running = false := rfl
  obtain ⟨started, hstarted⟩ := engineStart_isSome false hidle rfl 0
  obtain ⟨hfirst, hprefetch⟩ := hstarts false queue started 0 [] 0 rfl
    (congrArg XdmaTransfer.descBus hhead) (congrArg XdmaTransfer.descAdjacent hhead) hstarted
  exact ⟨by decide, hchain, started, hstarted, hfirst, hprefetch⟩

/-! ## Reading ahead -/

def fetchAhead (engine : XdmaEngine) (addr : U64) : Option (Nat × Option (U64 × Nat)) :=
  (fetchDesc engine addr).map fun read =>
    (read.1, read.2.map fun next => (next, (adjacentField (engine.desc read.1).control).toNat))

/-- The count of descriptors that may be prefetched behind the `i`-th, which `engine_start` writes
for the first and the slot before it holds for any other. -/
def adjacentTo (engine : XdmaEngine) (xfer : XdmaTransfer) : Nat → Nat
  | 0 => (xdmaGetNextAdj (BitVec.ofNat 32 xfer.descAdjacent) (pciDmaL xfer.descBus)).toNat
  | i + 1 => (adjacentField (engine.desc (xfer.descVirt + i)).control).toNat

private theorem slotAddr_succ (engine : XdmaEngine) (k : Nat) :
    slotAddr engine (k + 1) = slotAddr engine k + 32 := by
  rw [slotAddr, slotAddr, BitVec.add_assoc, sizeofXdmaDesc, Nat.mul_add, BitVec.ofNat_add]
  rfl

section Ahead

variable {engine : XdmaEngine} {req : XdmaRequestCb} (slot : engine.descIdx < engine.descMax)
  (more : req.swDescIdx < req.swDescCnt) (noFlush : engine.eopFlush = false)
  (ring : DescRing engine)

include slot more noFlush ring

private theorem transferInit_adjacentTo {i : Nat} (inside : i < transferCount engine req) :
    Prefetch (fun m => slotAddr engine (engine.descIdx + m)) (transferCount engine req) i
      (adjacentTo (transferInit engine req).1 (transferInit engine req).2.2 i) := by
  cases i with
  | zero => exact (transferInit_prefetch slot ring (Nat.zero_le _) _ fun _ => rfl).1
  | succ i =>
      obtain ⟨-, hchain, -⟩ := transferInit_wellFormedChain slot more noFlush ring
      exact hchain.adjacent i (Nat.lt_of_succ_lt inside)

private theorem transferInit_laidOut :
    LaidOut (fetchAhead (transferInit engine req).1) (· + 32) (transferCount engine req)
      (fun i => slotAddr engine (engine.descIdx + i)) (fun i => engine.descIdx + i)
      (adjacentTo (transferInit engine req).1 (transferInit engine req).2.2) := by
  have hroom := transferCount_room req slot
  have hring : DescRing (transferInit engine req).1 := ⟨ring.aligned, ring.mapped, ring.count⟩
  refine ⟨fun i hi => ?_, fun i hi => ?_, fun i hi m hm => ?_⟩
  · have hfetch : fetchDesc (transferInit engine req).1 (slotAddr engine (engine.descIdx + i)) =
        some (engine.descIdx + i, if i + 1 = transferCount engine req then none
          else some (slotAddr engine (engine.descIdx + (i + 1)))) := by
      have hlink := (transferInit_slot noFlush hi).1
      by_cases hlast : i + 1 = transferCount engine req
      · rw [if_pos hlast] at hlink ⊢
        exact fetchDesc_slot hring (show engine.descIdx + i < engine.descMax by omega) none
          nofun hlink
      · rw [if_neg hlast] at hlink ⊢
        refine fetchDesc_slot hring (show engine.descIdx + i < engine.descMax by omega)
          (some (engine.descIdx + (i + 1))) ?_ hlink
        rintro k' ⟨⟩
        exact ⟨by omega, show engine.descIdx + (i + 1) < engine.descMax by omega⟩
    rw [fetchAhead, hfetch, Option.map_some]
    split <;> rfl
  · have hprefetch := transferInit_adjacentTo slot more noFlush ring hi
    rcases Nat.eq_zero_or_pos (adjacentTo (transferInit engine req).1
      (transferInit engine req).2.2 i) with hzero | hpos
    · rw [hzero]
      exact hi
    · exact hprefetch.inChain _ hpos (Nat.le_refl _)
  · exact slotAddr_succ engine (engine.descIdx + (i + m))

/-- However many of the allowed descriptors the engine prefetches each time, it reads those of the
transfer, each once and in order, and no prefetch leaves its block. -/
theorem transferInit_readAhead (want : Nat → Nat) {fuel : Nat}
    (enough : transferCount engine req ≤ fuel) :
    let built := (transferInit engine req).1
    let xfer := (transferInit engine req).2.2
    ∃ reads, walkAhead (fetchAhead built) (· + 32) want fuel xfer.descBus
        (adjacentTo built xfer 0) = some reads ∧
      reads.flatten = List.range' xfer.descVirt xfer.descNum ∧
      ∀ block ∈ reads, ∀ k ∈ block, ∀ k' ∈ block,
        blockOf (slotAddr engine k) = blockOf (slotAddr engine k') := by
  intro built xfer
  have hlaid := transferInit_laidOut slot more noFlush ring
  obtain ⟨reads, hreads, hflat, hblocks⟩ := hlaid.walkAhead want fuel
    (transferCount_pos slot more) enough
  refine ⟨reads, hreads, ?_, fun block hmem k hk k' hk' => ?_⟩
  · rw [hflat, Nat.sub_zero, ← List.range_eq_range', ← List.range'_eq_map_range]
    rfl
  · obtain ⟨i, ahead, hinside, hallowed, rfl⟩ := hblocks block hmem
    have hprefetch := transferInit_adjacentTo slot more noFlush ring (by omega : i < _)
    obtain ⟨j, hj, rfl⟩ := List.mem_map.mp hk
    obtain ⟨j', hj', rfl⟩ := List.mem_map.mp hk'
    rw [List.mem_range'_1] at hj hj'
    have hsame := hprefetch.inBlock (j - i) (by omega)
    have hsame' := hprefetch.inBlock (j' - i) (by omega)
    rw [show i + (j - i) = j by omega] at hsame
    rw [show i + (j' - i) = j' by omega] at hsame'
    exact hsame.trans hsame'.symm

end Ahead

end NupaNet.Xdma
