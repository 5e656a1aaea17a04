import Mathlib.Algebra.BigOperators.Intervals
import Mathlib.Algebra.Order.BigOperators.Group.Finset
import NupaNet.Ring.Delivery

/-!
# Byte accounting over whole calls

`fetch_packet_desc` and `nupa_data_available` as functions on the INFO area, for
runs in which neither is interrupted by the other host.  The first charges the
length of a packet to `info->total_len`, the second refunds a whole
`DESC_MAX_DMA_SIZE` block, so the counter stays right exactly while the packets
that are taken out have that length.
-/

namespace NupaNet.Ring

open NupaNet.Foundation

/-! ## The calls -/

/-- `totalLen` is the indeterminate initial value of the local `total_len`. -/
def fetchPacketDesc (area : InfoArea) (dstId length totalLen : CInt) : InfoArea × Option CInt :=
  let head := area.info.head
  if !area.info.ready then (area, none)
  else if !Sender.fits totalLen then (area, none)
  else if Sender.full head area.info.tail then (area, none)
  else
    let charged := area.storeAll [.totalLen (area.info.totalLen + length),
      .status head .packetFreezing, .length head length, .head ((head + 1).srem 64)]
    (charged.store (.offset head (131072 * dstId + (charged.desc head).pos * 2048)), some head)

/-- No result while the descriptor at the tail is `PACKET_FREEZING`: the call spins. -/
def nupaDataAvailable (area : InfoArea) : Option (InfoArea × Option CInt) :=
  let tail := area.info.tail
  if area.info.head = tail then some (area, none)
  else match (area.desc tail).status with
    | .packetFreezing => none
    | .packetSettled =>
        some (area.storeAll [.tail ((tail + 1).srem 64),
          .totalLen (area.info.totalLen - 2048)], some tail)
    | .packetInit | .packetReleased => some (area, none)

def senderStep (x : Shm × Sender) (env : SendEnv) : Option (Shm × Sender) :=
  Sender.step x.1 env x.2

def receiverStep (x : Shm × Receiver) (env : RecvEnv) : Option (Shm × Receiver) :=
  Receiver.step x.1 env x.2

theorem exec_fetchPacketDesc (m : Shm) (c : Call) (env : SendEnv) :
    let out := fetchPacketDesc m.area c.dst (BitVec.ofNat 32 c.skb.headlen) env.totalLen
    exec senderStep (m, .loadHead c) (List.replicate (if out.2.isSome then 10 else 3) env) =
      some ({ m with area := out.1 }, match out.2 with
        | some head => .loadOffset c head
        | none => .idle) := by
  by_cases hready : m.area.info.ready = true
  · by_cases hfits : Sender.fits env.totalLen = true
    · by_cases hfull : Sender.full m.area.info.head m.area.info.tail = true
      · simp [fetchPacketDesc, exec, senderStep, Sender.step, hready, hfits, hfull,
          List.replicate]
      · simp [fetchPacketDesc, exec, senderStep, Sender.step, hready, hfits, hfull,
          List.replicate, Shm.store, InfoArea.store]
    · simp [fetchPacketDesc, exec, senderStep, Sender.step, hready, hfits, List.replicate]
  · simp [fetchPacketDesc, exec, senderStep, Sender.step, hready, List.replicate]

theorem exec_nupaDataAvailable (m : Shm) (r : Receiver) (env : RecvEnv) {area : InfoArea}
    {got : Option CInt} (h : nupaDataAvailable m.area = some (area, got)) :
    ∃ n, exec receiverStep (m, r.goto .loadHead) (List.replicate n env) =
      some ({ m with area := area }, match got with
        | some tail => r.goto (.loadOffset tail)
        | none => r.leave) := by
  simp only [nupaDataAvailable] at h
  split at h
  · next hempty =>
      cases h
      exact ⟨2, by simp [exec, receiverStep, Receiver.step, Receiver.goto, Receiver.leave,
        List.replicate, hempty]⟩
  · next hsome =>
      split at h
      · cases h
      · next hstatus =>
          cases h
          refine ⟨7, ?_⟩
          simp [exec, receiverStep, Receiver.step, Receiver.goto, List.replicate, hsome,
            hstatus, Shm.store, InfoArea.store]
      · next hstatus =>
          cases h
          exact ⟨5, by simp [exec, receiverStep, Receiver.step, Receiver.goto, Receiver.leave,
            List.replicate, hsome, hstatus]⟩
      · next hstatus =>
          cases h
          exact ⟨6, by simp [exec, receiverStep, Receiver.step, Receiver.goto, Receiver.leave,
            List.replicate, hsome, hstatus]⟩

/-! ## Runs of calls -/

/-- One ring with the descriptor its sender has fetched and not settled and the one its receiver
has taken and not finished. -/
structure CallRing where
  area : InfoArea
  sending : Option CInt
  receiving : Option CInt

inductive RingCall where
  | fetch (length totalLen : CInt)
  | settle
  | available
  | finish (released : Bool)
  deriving DecidableEq

namespace CallRing

def fresh (area : InfoArea) : CallRing := ⟨area, none, none⟩

def step (dstId : CInt) (r : CallRing) : RingCall → Option CallRing
  | .fetch length totalLen =>
      match r.sending with
      | some _ => none
      | none =>
          let out := fetchPacketDesc r.area dstId length totalLen
          some { r with area := out.1, sending := out.2 }
  | .settle => r.sending.map fun head =>
      { r with area := r.area.store (.status head .packetSettled), sending := none }
  | .available =>
      match r.receiving with
      | some _ => none
      | none => (nupaDataAvailable r.area).map fun out =>
          { r with area := out.1, receiving := out.2 }
  | .finish released => r.receiving.map fun tail =>
      -- without a buffer `xdma_receive_data` returns before the `PACKET_RELEASED` store
      { r with
        area := if released then r.area.store (.status tail .packetReleased) else r.area
        receiving := none }

end CallRing

def PacketLength (length : CInt) : Prop := 1 ≤ length.toInt ∧ length.toInt ≤ descMaxDmaSize

instance (length : CInt) : Decidable (PacketLength length) :=
  inferInstanceAs (Decidable (_ ∧ _))

def RingCall.Lawful : RingCall → Prop
  | .fetch length _ => PacketLength length
  | _ => True

instance (a : RingCall) : Decidable a.Lawful := by
  cases a <;> unfold RingCall.Lawful <;> infer_instance

/-- What `fetch_packet_desc` charged for the descriptors in `[tail, head)`: it stores the length
it charges in the descriptor. -/
def InfoArea.charged (area : InfoArea) : Int :=
  (area.waiting.map fun k => (area.desc k).length.toInt).sum

structure Balanced (r : CallRing) : Prop where
  accounted : r.area.info.totalLen.toInt = r.area.charged
  empty : r.area.info.head = r.area.info.tail → r.area.info.totalLen = 0
  nonneg : 0 ≤ r.area.info.totalLen.toInt
  bounded : r.area.info.totalLen.toInt ≤ agentTotalDmaSize

def TakesFullBlock (r : CallRing) : RingCall → Prop
  | .available => r.area.info.head ≠ r.area.info.tail →
      (r.area.desc r.area.info.tail).status = .packetSettled →
      (r.area.desc r.area.info.tail).length = 2048
  | _ => True

instance (r : CallRing) (a : RingCall) : Decidable (TakesFullBlock r a) := by
  cases a <;> unfold TakesFullBlock <;> infer_instance

/-! ## What the calls leave behind -/

structure Fetched (area area' : InfoArea) (length index : CInt) : Prop where
  index_eq : index = area.info.head
  room : Sender.full area.info.head area.info.tail = false
  published : area'.info.head = (area.info.head + 1).srem 64
  tail : area'.info.tail = area.info.tail
  totalLen : area'.info.totalLen = area.info.totalLen + length
  stored : (area'.desc index).length = length
  others : ∀ k, k ≠ index → area'.desc k = area.desc k

private theorem fetched_of_fetchPacketDesc {area area' : InfoArea}
    {dstId length totalLen head : CInt}
    (h : fetchPacketDesc area dstId length totalLen = (area', some head)) :
    Fetched area area' length head := by
  simp only [fetchPacketDesc] at h
  split at h
  · cases h
  split at h
  · cases h
  split at h
  · cases h
  next hfull =>
    cases h
    refine ⟨rfl, Bool.eq_false_iff.mpr hfull, rfl, rfl, rfl, ?_, fun k hk => ?_⟩
    · simp [InfoArea.store, InfoArea.modifyDesc]
    · simp [InfoArea.store, InfoArea.modifyDesc, hk]

private theorem eq_of_fetchPacketDesc_none {area area' : InfoArea} {dstId length totalLen : CInt}
    (h : fetchPacketDesc area dstId length totalLen = (area', none)) : area' = area := by
  simp only [fetchPacketDesc] at h
  split at h
  · exact (Prod.mk.inj h).1.symm
  split at h
  · exact (Prod.mk.inj h).1.symm
  split at h
  · exact (Prod.mk.inj h).1.symm
  · cases h

theorem taken_of_nupaDataAvailable {area area' : InfoArea} {tail : CInt}
    (h : nupaDataAvailable area = some (area', some tail)) :
    area.info.head ≠ area.info.tail ∧ (area.desc area.info.tail).status = .packetSettled ∧
      area' = area.storeAll [.tail ((area.info.tail + 1).srem 64),
        .totalLen (area.info.totalLen - 2048)] := by
  simp only [nupaDataAvailable] at h
  split at h
  · cases h
  next hsome =>
    split at h <;> cases h
    next hsettled => exact ⟨hsome, hsettled, rfl⟩

theorem idle_of_nupaDataAvailable {area area' : InfoArea}
    (h : nupaDataAvailable area = some (area', none)) :
    area' = area ∧ (area.info.head ≠ area.info.tail →
      (area.desc area.info.tail).status ≠ .packetSettled) := by
  simp only [nupaDataAvailable] at h
  split at h
  · next hempty =>
      cases h
      exact ⟨rfl, fun hsome => absurd hempty hsome⟩
  · split at h <;> cases h
    · next hinit => exact ⟨rfl, fun _ => by simp [hinit]⟩
    · next hreleased => exact ⟨rfl, fun _ => by simp [hreleased]⟩

/-! ## The packets between tail and head -/

/-- Packets `[taken, published)` are in the ring. -/
structure Spans (area : InfoArea) (taken published : Nat) : Prop where
  tail : area.info.tail = slot taken
  head : area.info.head = slot published
  order : taken ≤ published
  room : published - taken ≤ 63
  lengths : ∀ n, taken ≤ n → n < published → PacketLength (area.desc (slot n)).length

namespace Spans

variable {area area' : InfoArea} {taken published : Nat}

def chargeOf (area : InfoArea) (n : Nat) : Int := (area.desc (slot n)).length.toInt

private theorem waiting_eq (h : Spans area taken published) :
    area.waiting = (List.range (published - taken)).map fun j => slot (taken + j) := by
  have horder := h.order
  have hroom := h.room
  have hcount : (published % 64 + 64 - taken % 64) % 64 = published - taken := by omega
  rw [InfoArea.waiting, h.head, h.tail, slot_toNat, slot_toNat, hcount]
  refine List.map_congr_left fun j _ => ?_
  rw [slot, maxDescNum_eq]
  congr 1
  omega

private theorem charged_eq (h : Spans area taken published) :
    area.charged = (Finset.Ico taken published).sum (chargeOf area) := by
  rw [InfoArea.charged, h.waiting_eq, Finset.sum_Ico_eq_sum_range, List.map_map]
  rfl

private theorem charged_nonneg (h : Spans area taken published) : 0 ≤ area.charged := by
  rw [h.charged_eq]
  refine Finset.sum_nonneg fun n hn => ?_
  obtain ⟨hle, hlt⟩ := Finset.mem_Ico.mp hn
  have hlen := (h.lengths n hle hlt).1
  simp only [chargeOf]
  omega

private theorem charged_le (h : Spans area taken published) : area.charged ≤ 63 * 2048 := by
  have hroom := h.room
  have heach : ∀ n ∈ Finset.Ico taken published, chargeOf area n ≤ 2048 := by
    intro n hn
    obtain ⟨hle, hlt⟩ := Finset.mem_Ico.mp hn
    exact (h.lengths n hle hlt).2
  have hsum := Finset.sum_le_card_nsmul _ _ _ heach
  rw [Nat.card_Ico, nsmul_eq_mul] at hsum
  rw [h.charged_eq]
  have hcast : ((published - taken : Nat) : Int) ≤ 63 := by omega
  omega

private theorem charged_empty (h : Spans area taken published)
    (hempty : area.info.head = area.info.tail) : area.charged = 0 := by
  have horder := h.order
  have hroom := h.room
  rw [h.head, h.tail, slot_eq_iff] at hempty
  have : published = taken := by omega
  rw [h.charged_eq, this, Finset.Ico_self, Finset.sum_empty]

theorem congr (h : Spans area taken published) (hinfo : area'.info = area.info)
    (hlength : ∀ k, (area'.desc k).length = (area.desc k).length) :
    Spans area' taken published ∧ area'.charged = area.charged := by
  refine ⟨⟨by rw [hinfo, h.tail], by rw [hinfo, h.head], h.order, h.room, ?_⟩, ?_⟩
  · intro n hle hlt
    rw [hlength]
    exact h.lengths n hle hlt
  · simp only [InfoArea.charged, InfoArea.waiting, hinfo, hlength]

private theorem store_status (h : Spans area taken published) (k : CInt)
    (status : PacketDescStatus) :
    Spans (area.store (.status k status)) taken published ∧
      (area.store (.status k status)).charged = area.charged := by
  refine h.congr rfl fun other => ?_
  by_cases hk : other = k
  · subst hk
    simp [InfoArea.store]
  · simp [InfoArea.store, InfoArea.modifyDesc_ne, hk]

theorem fetch (h : Spans area taken published) {dstId length totalLen head : CInt}
    (hlen : PacketLength length)
    (hf : fetchPacketDesc area dstId length totalLen = (area', some head)) :
    Spans area' taken (published + 1) ∧ area'.charged = area.charged + length.toInt ∧
      area'.info.totalLen = area.info.totalLen + length := by
  have horder := h.order
  have hfetched := fetched_of_fetchPacketDesc hf
  have hhead : head = slot published := hfetched.index_eq.trans h.head
  have hroom : published + 1 - taken ≤ 63 := by
    have hroom := h.room
    have hnotfull := hfetched.room
    rw [h.head, h.tail] at hnotfull
    change decide ((slot published + 1) &&& (64 - 1) = slot taken) = false at hnotfull
    rw [slot_succ_and, decide_eq_false_iff_not, slot_eq_iff] at hnotfull
    omega
  have hold : ∀ n, taken ≤ n → n < published → area'.desc (slot n) = area.desc (slot n) := by
    intro n hle hlt
    refine hfetched.others _ fun heq => ?_
    rw [hhead, slot_eq_iff] at heq
    omega
  have hnew : (area'.desc (slot published)).length = length := by
    rw [← hhead]
    exact hfetched.stored
  have spans : Spans area' taken (published + 1) := by
    refine ⟨hfetched.tail.trans h.tail, ?_, by omega, hroom, fun n hle hlt => ?_⟩
    · rw [hfetched.published, h.head, slot_succ_srem]
    · rcases Nat.lt_succ_iff_lt_or_eq.mp hlt with hlt | rfl
      · rw [hold n hle hlt]
        exact h.lengths n hle hlt
      · rw [hnew]
        exact hlen
  refine ⟨spans, ?_, hfetched.totalLen⟩
  have hsame : (Finset.Ico taken published).sum (chargeOf area') =
      (Finset.Ico taken published).sum (chargeOf area) := by
    refine Finset.sum_congr rfl fun n hn => ?_
    obtain ⟨hle, hlt⟩ := Finset.mem_Ico.mp hn
    rw [chargeOf, chargeOf, hold n hle hlt]
  rw [spans.charged_eq, Finset.sum_Ico_succ_top horder, hsame, h.charged_eq, chargeOf, hnew]

theorem take (h : Spans area taken published) {tail : CInt}
    (ht : nupaDataAvailable area = some (area', some tail)) :
    Spans area' (taken + 1) published ∧
      area'.charged = area.charged - (area.desc area.info.tail).length.toInt ∧
      area'.info.totalLen = area.info.totalLen - 2048 := by
  obtain ⟨hsome, -, rfl⟩ := taken_of_nupaDataAvailable ht
  have hlt : taken < published := by
    have horder := h.order
    rw [h.head, h.tail, Ne, slot_eq_iff] at hsome
    omega
  have hroom := h.room
  have spans : Spans (area.storeAll [.tail ((area.info.tail + 1).srem 64),
      .totalLen (area.info.totalLen - 2048)]) (taken + 1) published := by
    refine ⟨?_, h.head, hlt, by omega, fun n hle hn => h.lengths n (by omega) hn⟩
    change (area.info.tail + 1).srem 64 = slot (taken + 1)
    rw [h.tail, slot_succ_srem]
  refine ⟨spans, ?_, rfl⟩
  have hrest : chargeOf (area.storeAll [.tail ((area.info.tail + 1).srem 64),
      .totalLen (area.info.totalLen - 2048)]) = chargeOf area := rfl
  have hsplit := Finset.sum_eq_sum_Ico_succ_bot hlt (chargeOf area)
  rw [spans.charged_eq, h.charged_eq, hrest, hsplit, h.tail]
  exact (add_sub_cancel_left _ _).symm

theorem balanced_iff {r : CallRing} (h : Spans r.area taken published) :
    Balanced r ↔ r.area.info.totalLen.toInt = r.area.charged := by
  refine ⟨Balanced.accounted, fun haccounted => ⟨haccounted, fun hempty => ?_, ?_, ?_⟩⟩
  · rw [h.charged_empty hempty] at haccounted
    exact BitVec.eq_of_toInt_eq haccounted
  · rw [haccounted]
    exact h.charged_nonneg
  · have hle := h.charged_le
    rw [haccounted, agentTotalDmaSize_eq]
    omega

end Spans

/-! ## Runs -/

private theorem toInt_add_small {x y : CInt} (hlo : -2 ^ 31 ≤ x.toInt + y.toInt)
    (hhi : x.toInt + y.toInt < 2 ^ 31) : (x + y).toInt = x.toInt + y.toInt := by
  rw [BitVec.toInt_add, Int.bmod_def]
  omega

private theorem toInt_sub_small {x y : CInt} (hlo : -2 ^ 31 ≤ x.toInt - y.toInt)
    (hhi : x.toInt - y.toInt < 2 ^ 31) : (x - y).toInt = x.toInt - y.toInt := by
  rw [BitVec.toInt_sub, Int.bmod_def]
  omega

inductive Accounts (r : CallRing) : RingCall → CallRing → Prop where
  | keep {a : RingCall} {r' : CallRing} : TakesFullBlock r a →
      r'.area.info.totalLen = r.area.info.totalLen → r'.area.charged = r.area.charged →
      Accounts r a r'
  | charge {length totalLen : CInt} {r' : CallRing} : PacketLength length →
      r'.area.info.totalLen = r.area.info.totalLen + length →
      r'.area.charged = r.area.charged + length.toInt → Accounts r (.fetch length totalLen) r'
  | refund {r' : CallRing} {length : CInt} :
      (TakesFullBlock r .available ↔ length = 2048) →
      r'.area.info.totalLen = r.area.info.totalLen - 2048 →
      r'.area.charged = r.area.charged - length.toInt → Accounts r .available r'

def CallRing.Inv (r : CallRing) : Prop := ∃ taken published, Spans r.area taken published

theorem CallRing.Inv.step {dstId : CInt} {r r' : CallRing} {a : RingCall} (h : r.Inv)
    (hok : a.Lawful) (hs : CallRing.step dstId r a = some r') : r'.Inv ∧ Accounts r a r' := by
  obtain ⟨taken, published, h⟩ := h
  cases a with
  | fetch length totalLen =>
      simp only [CallRing.step] at hs
      split at hs
      · cases hs
      · cases hs
        rcases hout : fetchPacketDesc r.area dstId length totalLen with ⟨area', _ | head⟩
        · obtain rfl := eq_of_fetchPacketDesc_none hout
          exact ⟨⟨taken, published, h⟩, .keep trivial rfl rfl⟩
        · obtain ⟨spans, hcharged, htotal⟩ := h.fetch hok hout
          exact ⟨⟨taken, published + 1, spans⟩, .charge hok htotal hcharged⟩
  | settle =>
      simp only [CallRing.step, Option.map_eq_some_iff] at hs
      obtain ⟨head, -, rfl⟩ := hs
      obtain ⟨spans, hcharged⟩ := h.store_status head .packetSettled
      exact ⟨⟨taken, published, spans⟩, .keep trivial rfl hcharged⟩
  | available =>
      simp only [CallRing.step] at hs
      split at hs
      · cases hs
      · simp only [Option.map_eq_some_iff] at hs
        obtain ⟨⟨area', got⟩, hout, rfl⟩ := hs
        cases got with
        | none =>
            obtain ⟨rfl, hnone⟩ := idle_of_nupaDataAvailable hout
            exact ⟨⟨taken, published, h⟩,
              .keep (fun hsome hsettled => absurd hsettled (hnone hsome)) rfl rfl⟩
        | some tail =>
            obtain ⟨hsome, hsettled, -⟩ := taken_of_nupaDataAvailable hout
            obtain ⟨spans, hcharged, htotal⟩ := h.take hout
            refine ⟨⟨taken + 1, published, spans⟩, .refund ?_ htotal hcharged⟩
            exact ⟨fun hfull => hfull hsome hsettled, fun hlen _ _ => hlen⟩
  | finish released =>
      simp only [CallRing.step, Option.map_eq_some_iff] at hs
      obtain ⟨tail, -, rfl⟩ := hs
      cases released with
      | false => exact ⟨⟨taken, published, h⟩, .keep trivial rfl rfl⟩
      | true =>
          obtain ⟨spans, hcharged⟩ := h.store_status tail .packetReleased
          exact ⟨⟨taken, published, spans⟩, .keep trivial rfl hcharged⟩

private theorem CallRing.Inv.balanced_step {dstId : CInt} {r r' : CallRing} {a : RingCall}
    (h : r.Inv)
    (hbal : Balanced r) (hok : a.Lawful) (hs : CallRing.step dstId r a = some r') :
    Balanced r' ↔ TakesFullBlock r a := by
  obtain ⟨⟨taken', published', spans'⟩, haccounts⟩ := h.step hok hs
  obtain ⟨taken, published, spans⟩ := h
  have hnow := hbal.accounted
  have hle := spans.charged_le
  have hnonneg := spans.charged_nonneg
  rw [spans'.balanced_iff]
  cases haccounts with
  | keep hfull htotal hcharged => simp [htotal, hcharged, hnow, hfull]
  | @charge length _ _ hlen htotal hcharged =>
      obtain ⟨hpos, hbound⟩ := hlen
      rw [descMaxDmaSize_eq] at hbound
      have hsum := toInt_add_small (x := r.area.info.totalLen) (y := length) (by omega) (by omega)
      rw [htotal, hcharged, hsum, hnow]
      exact ⟨fun _ => trivial, fun _ => rfl⟩
  | refund hfull htotal hcharged =>
      have hblock : (2048 : CInt).toInt = 2048 := rfl
      have hdiff := toInt_sub_small (x := r.area.info.totalLen) (y := 2048) (by omega) (by omega)
      rw [htotal, hcharged, hdiff, hnow, hfull, ← BitVec.toInt_inj, hblock]
      omega

private theorem CallRing.inv_fresh (area : InfoArea) (hostId : CInt) :
    (CallRing.fresh (area.storeAll (adapterInfoInit hostId))).Inv := by
  have hinfo := adapterInfoInit_info area hostId
  refine ⟨0, 0, ⟨?_, ?_, Nat.le_refl 0, by omega, fun n _ hlt => absurd hlt (by omega)⟩⟩
  · rw [CallRing.fresh, hinfo]
    rfl
  · rw [CallRing.fresh, hinfo]
    rfl

private theorem CallRing.balanced_fresh (area : InfoArea) (hostId : CInt) :
    Balanced (CallRing.fresh (area.storeAll (adapterInfoInit hostId))) := by
  obtain ⟨taken, published, spans⟩ := CallRing.inv_fresh area hostId
  have hinfo := adapterInfoInit_info area hostId
  have hempty : (CallRing.fresh (area.storeAll (adapterInfoInit hostId))).area.info.head =
      (CallRing.fresh (area.storeAll (adapterInfoInit hostId))).area.info.tail := by
    rw [CallRing.fresh, hinfo]
  rw [spans.balanced_iff, spans.charged_empty hempty, CallRing.fresh, hinfo]
  rfl

/-- The counter is right in every state of a run exactly when every packet taken out of the ring
had the length that is refunded. -/
theorem totalLen_balanced_iff (area : InfoArea) (hostId dstId : CInt) {as : List RingCall}
    {r : CallRing} (run : Runs (CallRing.step dstId) (fun _ a => a.Lawful)
      (CallRing.fresh (area.storeAll (adapterInfoInit hostId))) as r) :
    Throughout (CallRing.step dstId) Balanced
        (CallRing.fresh (area.storeAll (adapterInfoInit hostId))) as ↔
      Runs (CallRing.step dstId) TakesFullBlock
        (CallRing.fresh (area.storeAll (adapterInfoInit hostId))) as r :=
  run.throughout_iff (I := CallRing.Inv) (fun h hok hs => (h.step hok hs).1)
    (fun h hbal hok hs => h.balanced_step hbal hok hs)
    (CallRing.inv_fresh area hostId) (CallRing.balanced_fresh area hostId)

def startRing : CallRing := CallRing.fresh (zeroArea.storeAll (adapterInfoInit 1))

def onePacket (length : CInt) : List RingCall := [.fetch length 0, .settle, .available]

theorem totalLen_balanced_full_block :
    ∃ r, Runs (CallRing.step 1) TakesFullBlock startRing (onePacket 2048) r ∧
      r.area.info.tail = 1 ∧
      Throughout (CallRing.step 1) Balanced startRing (onePacket 2048) := by
  have hexec : (exec (guarded (CallRing.step 1) fun r a =>
      decide (a.Lawful ∧ TakesFullBlock r a)) startRing (onePacket 2048)).map
        (fun r => r.area.info.tail) = some 1 := by
    decide +kernel
  obtain ⟨r, hr, htail⟩ := Option.map_eq_some_iff.mp hexec
  have hrun := runs_of_guarded hr
  have hlawful : Runs (CallRing.step 1) (fun _ a => a.Lawful) startRing (onePacket 2048) r :=
    hrun.mono fun _ _ h => (of_decide_eq_true h).1
  have hfull : Runs (CallRing.step 1) TakesFullBlock startRing (onePacket 2048) r :=
    hrun.mono fun _ _ h => (of_decide_eq_true h).2
  exact ⟨r, hfull, htail, (totalLen_balanced_iff zeroArea 1 1 hlawful).mpr hfull⟩

/-- A frame of 14 bytes has been sent and taken: the ring is empty and `total_len` is negative. -/
theorem totalLen_drifts :
    ∃ r, Runs (CallRing.step 1) (fun _ a => a.Lawful) startRing (onePacket 14) r ∧
      r.area.info.head = r.area.info.tail ∧ r.area.info.totalLen.toInt = -2034 ∧
      ¬ Throughout (CallRing.step 1) Balanced startRing (onePacket 14) := by
  have hexec : (exec (guarded (CallRing.step 1) fun _ a => decide a.Lawful) startRing
      (onePacket 14)).map
        (fun r => (r.area.info.head, r.area.info.tail, r.area.info.totalLen.toInt)) =
      some (1, 1, -2034) := by
    decide +kernel
  obtain ⟨r, hr, hobs⟩ := Option.map_eq_some_iff.mp hexec
  simp only [Prod.mk.injEq] at hobs
  obtain ⟨hhead, htail, htotal⟩ := hobs
  have hrun : Runs (CallRing.step 1) (fun _ a => a.Lawful) startRing (onePacket 14) r :=
    (runs_of_guarded hr).mono fun _ _ h => of_decide_eq_true h
  refine ⟨r, hrun, hhead.trans htail.symm, htotal, fun hthrough => ?_⟩
  have hnonneg := (hthrough.final hrun).nonneg
  omega

end NupaNet.Ring
