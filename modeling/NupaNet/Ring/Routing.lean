import NupaNet.Ring.ControlStep

/-!
# Addresses used by the transmit path

The destination of a unicast frame is the last byte of its MAC address read
through a signed `char`, and it indexes the INFO areas, the DMA regions and a
one-sided `BUG_ON`.  On an area that is set up no serialisation of the senders
is needed for the addresses to stay inside: every sender of a slot stores the
same offset and a length that fits.  Loads made for a debug print only repeat a
field of the descriptor that the thread has at hand.
-/

namespace NupaNet.Ring

open NupaNet.Foundation

namespace Sender

def call : Sender → Option Call
  | .idle | .bug => none
  | .loadHead c | .loadTail c _ | .loadReady c _ _ | .loadTotalLen c _ | .storeTotalLen c _ _
  | .storeFreezing c _ | .storeLength c _ | .storeHead c _ | .loadPos c _ | .storeOffset c _ _
  | .loadOffset c _ | .sendLoadOffset c _ | .sendLoadLength c _ _ | .transfer c _ _ _
  | .storeSettled c _ | .oops c _ => some c

def access : Sender → Option Word
  | .idle | .bug | .oops _ _ | .transfer _ _ _ _ => none
  | .loadHead _ | .storeHead _ _ => some .head
  | .loadTail _ _ => some .tail
  | .loadReady _ _ _ => some .ready
  | .loadTotalLen _ _ | .storeTotalLen _ _ _ => some .totalLen
  | .storeFreezing _ head | .storeSettled _ head => some (.status head)
  | .storeLength _ head | .sendLoadLength _ head _ => some (.length head)
  | .loadPos _ head => some (.pos head)
  | .storeOffset _ head _ | .loadOffset _ head | .sendLoadOffset _ head => some (.offset head)

end Sender

/-- The bytes of the word lie in the INFO area of agent `dst` and in the shared BAR window. -/
def Word.Inside (dst : Int) (w : Word) : Prop :=
  infoSize * dst ≤ infoSize * dst + w.byteOffset ∧
    infoSize * dst + w.byteOffset + w.byteSize ≤ infoSize * (dst + 1) ∧
    0 ≤ infoSize * dst + w.byteOffset ∧
    infoSize * dst + w.byteOffset + w.byteSize ≤ usrBarSharingSize

def Sender.Inside (dst : CInt) (s : Sender) : Prop :=
  (∀ w, s.access = some w → w.Inside dst.toInt) ∧
    ∀ c head offset length, s = .transfer c head offset length →
      agentTotalDmaSize * dst.toInt ≤ offset.toInt ∧ 0 ≤ length.toInt ∧
        offset.toInt + length.toInt ≤ agentTotalDmaSize * (dst.toInt + 1)

/-! ## Bounds of a ring -/

def Sender.Bounded (d : Nat) (area : InfoArea) : Sender → Prop
  | .idle | .bug => True
  | .loadHead c => Fits d c
  | .loadTail c head | .loadReady c head _ | .loadTotalLen c head | .storeTotalLen c head _
  | .storeFreezing c head | .storeLength c head | .storeHead c head | .loadPos c head =>
      Fits d c ∧ ∃ n, head = slot n
  | .storeOffset c head pos => Fits d c ∧ ∃ n, head = slot n ∧ pos = slot n
  | .loadOffset c head | .sendLoadOffset c head | .storeSettled c head | .oops c head =>
      Fits d c ∧ ∃ n, head = slot n ∧ (area.desc head).offset = BitVec.ofNat 32 (blockBase d n)
  | .sendLoadLength c head offset => Fits d c ∧ ∃ n, head = slot n ∧
      (area.desc head).offset = BitVec.ofNat 32 (blockBase d n) ∧
      offset = BitVec.ofNat 32 (blockBase d n)
  | .transfer c head offset length => Fits d c ∧ ∃ n, head = slot n ∧
      (area.desc head).offset = BitVec.ofNat 32 (blockBase d n) ∧
      offset = BitVec.ofNat 32 (blockBase d n) ∧ length.toNat ≤ descMaxDmaSize

structure AreaBounds (area : InfoArea) : Prop where
  head : ∃ n, area.info.head = slot n
  pos : ∀ n, (area.desc (slot n)).pos = slot n
  length : ∀ n, (area.desc (slot n)).length.toNat ≤ descMaxDmaSize

def Store.Bounded (d : Nat) : Store → Prop
  | .head value => ∃ n, value = slot n
  | .pos _ _ => False
  | .length _ value => value.toNat ≤ descMaxDmaSize
  | .offset index value => ∃ n, index = slot n ∧ value = BitVec.ofNat 32 (blockBase d n)
  | .hostId _ | .tail _ | .totalLen _ | .ready _ | .status _ _ => True

theorem AreaBounds.store {d : Nat} {area : InfoArea} {st : Store} (h : AreaBounds area)
    (hst : st.Bounded d) : AreaBounds (area.store st) := by
  have hpos : ∀ n, ((area.store st).desc (slot n)).pos = slot n := by
    intro n
    rw [InfoArea.store_desc_pos]
    · exact h.pos n
    · intro hword
      cases st with
      | pos => exact hst
      | _ => cases hword
  refine ⟨?_, hpos, ?_⟩
  · cases st with
    | head value => exact hst
    | _ => exact h.head
  · intro n
    by_cases hk : st.index = some (slot n)
    · cases st with
      | hostId | head | tail | totalLen | ready => cases hk
      | pos => cases hst
      | length index value =>
          cases hk
          simpa [InfoArea.store, Store.Bounded] using hst
      | offset index value | status index value =>
          cases hk
          simpa [InfoArea.store] using h.length n
    · rw [InfoArea.store_desc area hk]
      exact h.length n

theorem Store.Bounded.offset_kept {d n : Nat} {area : InfoArea} {st : Store}
    (hst : st.Bounded d)
    (h : (area.desc (slot n)).offset = BitVec.ofNat 32 (blockBase d n)) :
    ((area.store st).desc (slot n)).offset = BitVec.ofNat 32 (blockBase d n) := by
  by_cases hk : st.index = some (slot n)
  · cases st with
    | hostId | head | tail | totalLen | ready => cases hk
    | pos => cases hst
    | offset index value =>
        cases hk
        obtain ⟨m, hslot, rfl⟩ := hst
        have hsame := slot_eq_iff.mp hslot
        simp only [InfoArea.store, InfoArea.modifyDesc_same, blockBase, maxDescNum_eq, hsame]
    | length index value | status index value =>
        cases hk
        simpa [InfoArea.store] using h
  · rw [InfoArea.store_desc area hk]
    exact h

theorem Sender.Bounded.mono {d : Nat} {area area' : InfoArea} {s : Sender} (h : s.Bounded d area)
    (hoff : ∀ n, (area.desc (slot n)).offset = BitVec.ofNat 32 (blockBase d n) →
      (area'.desc (slot n)).offset = BitVec.ofNat 32 (blockBase d n)) : s.Bounded d area' := by
  cases s with
  | loadOffset c head | sendLoadOffset c head | storeSettled c head | oops c head =>
      obtain ⟨hfits, n, rfl, hoffset⟩ := h
      exact ⟨hfits, n, rfl, hoff n hoffset⟩
  | sendLoadLength c head offset =>
      obtain ⟨hfits, n, rfl, hoffset, hrest⟩ := h
      exact ⟨hfits, n, rfl, hoff n hoffset, hrest⟩
  | transfer c head offset length =>
      obtain ⟨hfits, n, rfl, hoffset, hrest⟩ := h
      exact ⟨hfits, n, rfl, hoff n hoffset, hrest⟩
  | _ => exact h

theorem Sender.Bounded.step {d : Nat} {m m' : Shm} {env : SendEnv} {s s' : Sender}
    (h : s.Bounded d m.area) (harea : AreaBounds m.area) (hs : s.step m env = some (m', s')) :
    (m'.area = m.area ∨ ∃ st : Store, st.Bounded d ∧ m'.area = m.area.store st) ∧
      s'.Bounded d m'.area := by
  cases s with
  | idle | bug | oops => cases hs
  | loadHead c =>
      cases hs
      exact ⟨.inl rfl, h, harea.head⟩
  | loadTail c head | loadTotalLen c head =>
      cases hs
      exact ⟨.inl rfl, h⟩
  | loadReady c head tail =>
      obtain ⟨rfl, rfl | ⟨-, -, -, rfl⟩⟩ := Sender.step_loadReady hs
      · exact ⟨.inl rfl, trivial⟩
      · exact ⟨.inl rfl, h⟩
  | storeTotalLen c head totalLen | storeFreezing c head =>
      cases hs
      refine ⟨.inr ⟨_, ?_, Shm.store_area _ _⟩, h⟩
      trivial
  | storeLength c head =>
      cases hs
      refine ⟨.inr ⟨_, ?_, Shm.store_area _ _⟩, h⟩
      have hfits := h.1.2
      simp only [Store.Bounded, BitVec.toNat_ofNat, descMaxDmaSize_eq] at hfits ⊢
      omega
  | storeHead c head =>
      cases hs
      refine ⟨.inr ⟨_, ?_, Shm.store_area _ _⟩, h⟩
      obtain ⟨-, n, rfl⟩ := h
      exact ⟨n + 1, slot_succ_srem n⟩
  | loadPos c head =>
      cases hs
      obtain ⟨hfits, n, rfl⟩ := h
      exact ⟨.inl rfl, hfits, n, rfl, harea.pos n⟩
  | storeOffset c head pos =>
      cases hs
      obtain ⟨⟨hdst, hfits⟩, n, rfl, rfl⟩ := h
      have hoffset : (131072 : CInt) * c.dst + slot n * 2048 = BitVec.ofNat 32 (blockBase d n) := by
        rw [hdst]
        exact offset_eq_blockBase d n
      refine ⟨.inr ⟨_, ?_, Shm.store_area _ _⟩, ⟨hdst, hfits⟩, n, rfl, ?_⟩
      · exact ⟨n, rfl, hoffset⟩
      · rw [← hoffset]
        simp [InfoArea.store]
  | loadOffset c head =>
      cases hs
      exact ⟨.inl rfl, h⟩
  | sendLoadOffset c head =>
      cases hs
      obtain ⟨hfits, n, rfl, hoffset⟩ := h
      exact ⟨.inl rfl, hfits, n, rfl, hoffset, hoffset⟩
  | sendLoadLength c head offset =>
      cases hs
      obtain ⟨hfits, n, rfl, hoffset, hlocal⟩ := h
      exact ⟨.inl rfl, hfits, n, rfl, hoffset, hlocal, harea.length n⟩
  | transfer c head offset length =>
      obtain ⟨hfits, n, rfl, hoffset, -⟩ := h
      obtain ⟨rfl, rfl⟩ | ⟨rfl, rfl⟩ := Sender.step_transfer hs <;>
        exact ⟨.inl rfl, hfits, n, rfl, hoffset⟩
  | storeSettled c head =>
      cases hs
      refine ⟨.inr ⟨_, ?_, Shm.store_area _ _⟩, trivial⟩
      trivial

theorem Receiver.step_store {d : Nat} {m m' : Shm} {env : RecvEnv} {rc rc' : Receiver}
    (hs : Receiver.step m env rc = some (m', rc')) :
    m'.area = m.area ∨ ∃ st : Store, st.Bounded d ∧ m'.area = m.area.store st := by
  cases Receiver.step_moves hs with
  | storeTail | storeTotalLen | storeReleased =>
      refine .inr ⟨_, ?_, Shm.store_area _ _⟩
      trivial
  | _ => exact .inl rfl

theorem areaBounds_of_initialised {area : InfoArea} (h : Initialised area) : AreaBounds area := by
  have hdesc : ∀ n, area.desc (slot n) = ⟨slot n, 0, 0, .packetInit⟩ := by
    intro n
    exact h.desc (n % 64) (Nat.mod_lt _ (by decide))
  refine ⟨⟨0, h.head⟩, fun n => ?_, fun n => ?_⟩
  · exact congrArg PacketDesc.pos (hdesc n)
  · rw [hdesc n]
    exact Nat.zero_le _

/-! ## Inside the areas -/

variable {d : Nat}

theorem Word.inside_of_slot (hd : d < maxAgentNum) {w : Word} (n : Nat)
    (hw : w = .head ∨ w = .tail ∨ w = .totalLen ∨ w = .ready ∨ w = .pos (slot n) ∨
      w = .offset (slot n) ∨ w = .length (slot n) ∨ w = .status (slot n)) : w.Inside d := by
  have hn : n % 64 < 64 := Nat.mod_lt _ (by decide)
  simp only [maxAgentNum_eq] at hd
  simp only [Word.Inside, infoSize_eq, usrBarSharingSize]
  rcases hw with rfl | rfl | rfl | rfl | rfl | rfl | rfl | rfl <;>
    simp only [Word.byteOffset, Word.byteSize, sizeofPacketsInfo, sizeofPacketDesc, slot_toInt] <;>
    omega

theorem Sender.Bounded.inside {s : Sender} {area : InfoArea} (h : s.Bounded d area)
    (hd : d < maxAgentNum) : s.Inside (BitVec.ofNat 32 d) := by
  have hint : (BitVec.ofNat 32 d : CInt).toInt = d := by
    simp only [maxAgentNum_eq] at hd
    exact toInt_ofNat_small (by omega)
  rw [Sender.Inside, hint]
  constructor
  · intro w hw
    cases s with
    | idle | bug | oops | transfer => cases hw
    | loadHead c | loadTail c head | loadReady c head tail | loadTotalLen c head
    | storeTotalLen c head totalLen | storeHead c head =>
        cases hw
        exact Word.inside_of_slot hd 0 (by simp)
    | storeFreezing c head | storeLength c head | loadPos c head =>
        obtain ⟨-, n, rfl⟩ := h
        cases hw
        exact Word.inside_of_slot hd n (by simp)
    | storeOffset c head pos | loadOffset c head | sendLoadOffset c head
    | sendLoadLength c head offset | storeSettled c head =>
        obtain ⟨-, n, rfl, -⟩ := h
        cases hw
        exact Word.inside_of_slot hd n (by simp)
  · rintro c head offset length rfl
    obtain ⟨-, n, -, -, rfl, hlength⟩ := h
    have hbound := blockBase_lt hd n
    have hn : n % 64 < 64 := Nat.mod_lt _ (by decide)
    simp only [totalDmaSize_eq, descMaxDmaSize_eq] at hbound hlength
    have hlen : length.toInt = length.toNat := BitVec.toInt_eq_toNat_of_lt (by omega)
    rw [toInt_ofNat_small (by omega), hlen]
    simp only [blockBase, agentTotalDmaSize_eq, maxDescNum_eq, descMaxDmaSize_eq]
    omega

/-! ## Destinations -/

private theorem isMulticast_of_isBroadcast {mac : Nat → UInt8}
    (h : isBroadcastEtherAddr mac = true) :
    isMulticastEtherAddr mac = true := by
  have hfirst : mac 0 = 0xff := by
    simp only [isBroadcastEtherAddr, List.all_eq_true, List.mem_range, decide_eq_true_eq] at h
    exact h 0 (by decide)
  rw [isMulticastEtherAddr, hfirst]
  decide

theorem xmitTarget_eq {hostId : CInt} {hold : Bool} {skb : Skb} :
    xmitTarget hostId hold skb =
      if hold = true ∨ descMaxDmaSize < skb.headlen then none
      else if isMulticastEtherAddr skb.destMac then some (firstOtherAgent hostId)
      else some (macAddrToHostId skb.destMac) := by
  cases hold with
  | true => simp [xmitTarget]
  | false =>
      cases hmulti : isMulticastEtherAddr skb.destMac with
      | true => simp [xmitTarget, macAddrValid, xmitDstId, hmulti]
      | false =>
          have hbroad : isBroadcastEtherAddr skb.destMac = false := by
            rw [Bool.eq_false_iff]
            intro hb
            rw [isMulticast_of_isBroadcast hb] at hmulti
            cases hmulti
          simp [xmitTarget, macAddrValid, xmitDstId, hmulti, hbroad]

/-- Through the signed `char`, only the bytes 0 and 1 name an agent. -/
theorem macAddrToHostId_agent {mac : Nat → UInt8} :
    (0 ≤ (macAddrToHostId mac).toInt ∧ (macAddrToHostId mac).toInt < maxAgentNum) ↔
      mac 5 = 0 ∨ mac 5 = 1 := by
  rw [macAddrToHostId, BitVec.toInt_signExtend_of_le (by decide), BitVec.toInt_eq_toNat_cond,
    ← UInt8.toNat_inj, ← UInt8.toNat_inj, UInt8.toNat_toBitVec, maxAgentNum_eq]
  have hlt := (mac 5).toNat_lt
  simp only [UInt8.reduceToNat]
  split <;> omega

theorem macAddrToHostId_of_agent {mac : Nat → UInt8} (h : mac 5 = 0 ∨ mac 5 = 1) :
    ∃ d : Fin 2, macAddrToHostId mac = BitVec.ofNat 32 d.val := by
  rcases h with h | h
  · exact ⟨0, by rw [macAddrToHostId, h]; rfl⟩
  · exact ⟨1, by rw [macAddrToHostId, h]; rfl⟩

theorem firstOtherAgent_agent (hostId : Fin 2) :
    ∃ d : Fin 2, firstOtherAgent (BitVec.ofNat 32 hostId.val) = BitVec.ofNat 32 d.val := by
  match hostId with
  | 0 => exact ⟨1, by decide⟩
  | 1 => exact ⟨0, by decide⟩

end NupaNet.Ring
