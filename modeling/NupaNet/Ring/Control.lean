import NupaNet.Ring.Startup
import NupaNet.Ring.System

/-!
# The control invariant of a ring

`Ctl` holds of every state reached while no two `fetch_packet_desc` calls on
the ring overlap, whatever the DMA and the allocator do.  Packets are counted
from the start of the run: `taken ≤ sent ≤ published ≤ taken + 63`, the words
`info->tail` and `info->head` are the slots of the outer two, and the one-slot
gap of the full test keeps the slot being read apart from the slot being
filled.  Each thread adds what it knows at its program point; its knowledge is
only about the slot it owns, so a step of another thread keeps it
(`Sender.Ok.frame`, `Receiver.Ok.frame`).
-/

namespace NupaNet.Ring

open NupaNet.Foundation

variable {ι : Type} {d : Nat} {r r' : PacketRing ι}

/-! ## Slots in use -/

structure Filled (d : Nat) (area : InfoArea) (n : Nat) (frame : List UInt8) : Prop where
  length : (area.desc (slot n)).length = BitVec.ofNat 32 frame.length
  offset : (area.desc (slot n)).offset = BitVec.ofNat 32 (blockBase d n)

def statusAt (area : InfoArea) (n : Nat) : PacketDescStatus := (area.desc (slot n)).status

theorem Filled.congr {area area' : InfoArea} {n : Nat} {frame : List UInt8}
    (h : Filled d area n frame) (same : area'.desc (slot n) = area.desc (slot n)) :
    Filled d area' n frame :=
  ⟨by rw [same]; exact h.length, by rw [same]; exact h.offset⟩

/-! ## Knowledge of the threads -/

namespace Sender

def Fits (d : Nat) (c : Call) : Prop :=
  c.dst = BitVec.ofNat 32 d ∧ c.skb.headlen ≤ descMaxDmaSize

def Room (r : PacketRing ι) (head : CInt) : Prop :=
  head = slot r.sent.length ∧ r.published = r.sent.length ∧
    r.sent.length + 1 ≤ r.taken + 63

/-- The descriptor `head` was returned to this call and is not yet settled. -/
def Owns (r : PacketRing ι) (c : Call) (head : CInt) : Prop :=
  ∃ n, r.taken ≤ n ∧ head = slot n ∧ r.sent[n]? = some ⟨head, c.skb.frame⟩ ∧
    (r.area.desc head).status = .packetFreezing

def Ok (d : Nat) (r : PacketRing ι) : Sender → Prop
  | .idle | .bug => True
  | .loadHead c => Fits d c ∧ r.published = r.sent.length
  | .loadTail c head => Fits d c ∧ r.published = r.sent.length ∧ head = slot r.sent.length
  | .loadReady c head tail => Fits d c ∧ r.published = r.sent.length ∧
      head = slot r.sent.length ∧
      ∃ t, t ≤ r.taken ∧ tail = slot t ∧ r.sent.length ≤ t + 63
  | .loadTotalLen c head | .storeTotalLen c head _ | .storeFreezing c head =>
      Fits d c ∧ Room r head
  | .storeLength c head => Fits d c ∧ Room r head ∧
      (r.area.desc head).status = .packetFreezing
  | .storeHead c head => Fits d c ∧ Room r head ∧
      (r.area.desc head).status = .packetFreezing ∧
      (r.area.desc head).length = BitVec.ofNat 32 c.skb.headlen
  | .loadPos c head => Fits d c ∧ head = slot r.sent.length ∧
      r.published = r.sent.length + 1 ∧
      (r.area.desc head).status = .packetFreezing ∧
      (r.area.desc head).length = BitVec.ofNat 32 c.skb.headlen
  | .storeOffset c head pos => Fits d c ∧ head = slot r.sent.length ∧
      r.published = r.sent.length + 1 ∧
      (r.area.desc head).status = .packetFreezing ∧
      (r.area.desc head).length = BitVec.ofNat 32 c.skb.headlen ∧
      pos = slot r.sent.length
  | .loadOffset c head | .sendLoadOffset c head | .storeSettled c head | .oops c head =>
      Owns r c head
  | .sendLoadLength c head offset => Owns r c head ∧ offset = (r.area.desc head).offset
  | .transfer c head offset length => Owns r c head ∧
      offset = (r.area.desc head).offset ∧ length = (r.area.desc head).length

/-- The slot whose descriptor the thread fills; no step of it writes another one. -/
def owned : Sender → Option CInt
  | .storeFreezing _ head | .storeLength _ head | .storeHead _ head | .loadPos _ head | .storeOffset _ head _
  | .loadOffset _ head | .sendLoadOffset _ head | .sendLoadLength _ head _
  | .transfer _ head _ _ | .storeSettled _ head | .oops _ head => some head
  | _ => none

theorem Room.mono {head : CInt} (h : Room r head) (hpub : r'.published = r.published)
    (hlen : r'.sent.length = r.sent.length) (htaken : r.taken ≤ r'.taken) : Room r' head := by
  obtain ⟨hslot, hquiet, hroom⟩ := h
  refine ⟨by rw [hlen]; exact hslot, by rw [hpub, hlen]; exact hquiet, ?_⟩
  rw [hlen]
  omega

theorem Owns.mono {c : Call} {head : CInt} (h : Owns r c head)
    (hdesc : r'.area.desc head = r.area.desc head)
    (hsent : ∀ (n : Nat) e, r.sent[n]? = some e → r'.sent[n]? = some e)
    (htaken : ∀ n, r.taken ≤ n → statusAt r.area n = .packetFreezing → r'.taken ≤ n) :
    Owns r' c head := by
  obtain ⟨n, hle, rfl, hentry, hfreezing⟩ := h
  exact ⟨n, htaken n hle hfreezing, rfl, hsent n _ hentry, by rw [hdesc]; exact hfreezing⟩

theorem Ok.frame {s : Sender} (h : s.Ok d r)
    (hdesc : ∀ k, s.owned = some k → r'.area.desc k = r.area.desc k)
    (hfetch : s.fetching = true →
      r'.published = r.published ∧ r'.sent.length = r.sent.length)
    (hsent : ∀ (n : Nat) e, r.sent[n]? = some e → r'.sent[n]? = some e)
    (hle : r.taken ≤ r'.taken)
    (htaken : ∀ n, r.taken ≤ n → statusAt r.area n = .packetFreezing → r'.taken ≤ n) :
    s.Ok d r' := by
  cases s with
  | idle => trivial
  | bug => trivial
  | loadHead c =>
      obtain ⟨hpub, hlen⟩ := hfetch rfl
      exact ⟨h.1, by rw [hpub, hlen]; exact h.2⟩
  | loadTail c head =>
      obtain ⟨hpub, hlen⟩ := hfetch rfl
      exact ⟨h.1, by rw [hpub, hlen]; exact h.2.1, by rw [hlen]; exact h.2.2⟩
  | loadReady c head tail =>
      obtain ⟨hpub, hlen⟩ := hfetch rfl
      obtain ⟨hfits, hquiet, hslot, t, ht, htail, hlag⟩ := h
      exact ⟨hfits, by rw [hpub, hlen]; exact hquiet, by rw [hlen]; exact hslot,
        t, by omega, htail, by rw [hlen]; exact hlag⟩
  | loadTotalLen c head | storeTotalLen c head totalLen | storeFreezing c head =>
      obtain ⟨hpub, hlen⟩ := hfetch rfl
      exact ⟨h.1, h.2.mono hpub hlen hle⟩
  | storeLength c head =>
      obtain ⟨hpub, hlen⟩ := hfetch rfl
      have hd := hdesc head rfl
      exact ⟨h.1, h.2.1.mono hpub hlen hle, by rw [hd]; exact h.2.2⟩
  | storeHead c head =>
      obtain ⟨hpub, hlen⟩ := hfetch rfl
      have hd := hdesc head rfl
      exact ⟨h.1, h.2.1.mono hpub hlen hle, by rw [hd]; exact h.2.2.1,
        by rw [hd]; exact h.2.2.2⟩
  | loadPos c head =>
      obtain ⟨hpub, hlen⟩ := hfetch rfl
      have hd := hdesc head rfl
      obtain ⟨hfits, hslot, hone, hfreezing, hlength⟩ := h
      exact ⟨hfits, by rw [hlen]; exact hslot, by rw [hpub, hlen]; exact hone,
        by rw [hd]; exact hfreezing, by rw [hd]; exact hlength⟩
  | storeOffset c head pos =>
      obtain ⟨hpub, hlen⟩ := hfetch rfl
      have hd := hdesc head rfl
      obtain ⟨hfits, hslot, hone, hfreezing, hlength, hpos⟩ := h
      exact ⟨hfits, by rw [hlen]; exact hslot, by rw [hpub, hlen]; exact hone,
        by rw [hd]; exact hfreezing, by rw [hd]; exact hlength, by rw [hlen]; exact hpos⟩
  | loadOffset c head | sendLoadOffset c head | storeSettled c head | oops c head =>
      exact Owns.mono h (hdesc head rfl) hsent htaken
  | sendLoadLength c head offset =>
      have hd := hdesc head rfl
      exact ⟨h.1.mono hd hsent htaken, by rw [hd]; exact h.2⟩
  | transfer c head offset length =>
      have hd := hdesc head rfl
      exact ⟨h.1.mono hd hsent htaken, by rw [hd]; exact h.2.1, by rw [hd]; exact h.2.2⟩

end Sender

namespace Receiver

def Holds (d : Nat) (r : PacketRing ι) (tail : CInt) : Prop :=
  ∃ n e, r.taken = n + 1 ∧ tail = slot n ∧ r.sent[n]? = some e ∧
    Filled d r.area n e.frame ∧ statusAt r.area n = .packetSettled

def PcOk (d : Nat) (r : PacketRing ι) : PollPc → Prop
  | .idle | .loadHead | .oops => True
  | .loadTail head => ∃ h, head = slot h ∧ r.taken ≤ h ∧ h ≤ r.published
  | .spin tail => tail = slot r.taken ∧ r.taken < r.published
  | .testSettled tail | .storeTail tail => tail = slot r.taken ∧
      r.taken < r.sent.length ∧ statusAt r.area r.taken = .packetSettled
  | .testInit _ | .testReleased _ => False
  | .loadTotalLen tail | .storeTotalLen tail _ | .loadOffset tail | .storeReleased tail _ =>
      Holds d r tail
  | .loadLength tail offset => Holds d r tail ∧ offset = (r.area.desc tail).offset
  | .transfer tail offset length => Holds d r tail ∧
      offset = (r.area.desc tail).offset ∧ length = (r.area.desc tail).length
  | .groReceive tail _ => ∃ n, tail = slot n ∧ r.taken = n + 1 ∧ n < r.sent.length

theorem Holds.mono {tail : CInt} (h : Holds d r tail)
    (hdesc : ∀ n, r.taken = n + 1 → r'.area.desc (slot n) = r.area.desc (slot n))
    (hsent : ∀ (n : Nat) e, r.sent[n]? = some e → r'.sent[n]? = some e)
    (htaken : r'.taken = r.taken) : Holds d r' tail := by
  obtain ⟨n, e, hn, htail, hentry, hfilled, hsettled⟩ := h
  refine ⟨n, e, htaken.trans hn, htail, hsent n e hentry, hfilled.congr (hdesc n hn), ?_⟩
  rw [statusAt, hdesc n hn]
  exact hsettled

theorem PcOk.frame {pc : PollPc} (h : PcOk d r pc)
    (hheld : ∀ n, r.taken = n + 1 → r'.area.desc (slot n) = r.area.desc (slot n))
    (hsettled : ∀ n, r.taken ≤ n → n < r.sent.length → statusAt r.area n = .packetSettled →
      statusAt r'.area n = .packetSettled)
    (hsent : ∀ (n : Nat) e, r.sent[n]? = some e → r'.sent[n]? = some e)
    (hlen : r.sent.length ≤ r'.sent.length)
    (hpub : r.published ≤ r'.published) (htaken : r'.taken = r.taken) :
    PcOk d r' pc := by
  cases pc with
  | idle | loadHead | oops => trivial
  | loadTail head =>
      obtain ⟨k, hslot, hle, hlt⟩ := h
      exact ⟨k, hslot, by omega, by omega⟩
  | spin tail =>
      obtain ⟨hslot, hlt⟩ := h
      exact ⟨by rw [htaken]; exact hslot, by omega⟩
  | testSettled tail | storeTail tail =>
      obtain ⟨hslot, hlt, hstatus⟩ := h
      refine ⟨by rw [htaken]; exact hslot, by omega, ?_⟩
      rw [htaken]
      exact hsettled _ (Nat.le_refl _) hlt hstatus
  | testInit tail | testReleased tail => exact h
  | loadTotalLen tail | storeTotalLen tail totalLen | loadOffset tail | storeReleased tail skb =>
      exact Holds.mono h hheld hsent htaken
  | loadLength tail offset =>
      obtain ⟨hholds, hoff⟩ := h
      refine ⟨hholds.mono hheld hsent htaken, ?_⟩
      obtain ⟨n, e, hn, rfl, -⟩ := hholds
      rw [hheld n hn]
      exact hoff
  | transfer tail offset length =>
      obtain ⟨hholds, hoff, hlength⟩ := h
      refine ⟨hholds.mono hheld hsent htaken, ?_⟩
      obtain ⟨n, e, hn, rfl, -⟩ := hholds
      rw [hheld n hn]
      exact ⟨hoff, hlength⟩
  | groReceive tail skb =>
      obtain ⟨n, hslot, hn, hlt⟩ := h
      exact ⟨n, hslot, htaken.trans hn, by omega⟩

end Receiver

/-! ## The invariant -/

structure Ctl (d : Nat) (r : PacketRing ι) : Prop where
  ready : r.area.info.ready = true
  head : r.area.info.head = slot r.published
  tail : r.area.info.tail = slot r.taken
  pos : ∀ n, (r.area.desc (slot n)).pos = slot n
  order : r.taken ≤ r.sent.length
  lag : r.sent.length ≤ r.published
  room : r.published ≤ r.taken + 63
  quiet : (∀ i, (r.sender i).fetching = false) → r.published = r.sent.length
  serial : ∀ i j, (r.sender i).fetching = true → (r.sender j).fetching = true → i = j
  entry : ∀ (n : Nat) e, r.sent[n]? = some e → e.desc = slot n ∧ e.frame.length ≤ descMaxDmaSize
  live : ∀ (n : Nat) e, r.sent[n]? = some e → r.taken ≤ n → Filled d r.area n e.frame ∧
    (statusAt r.area n = .packetFreezing ∨ statusAt r.area n = .packetSettled)
  frozen : ∀ n, r.taken ≤ n → n < r.sent.length → statusAt r.area n = .packetFreezing →
    ∃ i, (r.sender i).inFlight = some (slot n)
  apart : ∀ i j k, (r.sender i).inFlight = some k → (r.sender j).inFlight = some k → i = j
  sender : ∀ i, (r.sender i).Ok d r
  receiver : Receiver.PcOk d r r.receiver.pc

theorem ctl_fresh {area : InfoArea} (h : Initialised area) :
    Ctl d (PacketRing.fresh (ι := ι) area) where
  ready := h.ready
  head := h.head
  tail := h.tail
  pos := by
    intro n
    have hlt : n % 64 < maxDescNum := Nat.mod_lt _ (by decide)
    have hdesc := h.desc (n % 64) hlt
    simpa [PacketRing.fresh, slot, descAt] using congrArg PacketDesc.pos hdesc
  order := Nat.le_refl 0
  lag := Nat.le_refl 0
  room := by simp [PacketRing.fresh]
  quiet := fun _ => rfl
  serial := by simp [PacketRing.fresh, Sender.fetching]
  entry := by simp [PacketRing.fresh]
  live := by simp [PacketRing.fresh]
  frozen := by simp [PacketRing.fresh]
  apart := by simp [PacketRing.fresh, Sender.inFlight]
  sender := fun _ => trivial
  receiver := trivial

/-! ## What a step of a sender can touch -/

namespace Sender

variable {m m' : Shm} {env : SendEnv} {s s' : Sender}

theorem step_desc (h : s.step m env = some (m', s')) {k : CInt} (hk : s.owned ≠ some k) :
    m'.area.desc k = m.area.desc k := by
  cases s with
  | idle | bug | oops => cases h
  | loadHead | loadTail | loadTotalLen | loadPos | loadOffset | sendLoadOffset
  | sendLoadLength => cases h; rfl
  | storeTotalLen | storeHead => cases h; rfl
  | loadReady c head tail =>
      obtain ⟨rfl, -⟩ := step_loadReady h
      rfl
  | transfer c head offset length =>
      obtain ⟨rfl, -⟩ | ⟨rfl, -⟩ := step_transfer h <;> rfl
  | storeFreezing c head | storeLength c head | storeOffset c head pos | storeSettled c head =>
      cases h
      rw [Shm.store_area, InfoArea.store_desc]
      exact hk

end Sender

namespace Ctl

variable {i : ι}

private theorem owned_cases (h : Ctl d r) {k : CInt} (hk : (r.sender i).owned = some k) :
    ((r.sender i).fetching = true ∧ k = slot r.sent.length ∧
        r.sent.length + 1 ≤ r.taken + 63) ∨
      ((r.sender i).inFlight = some k ∧
        ∃ n, r.taken ≤ n ∧ n < r.sent.length ∧ k = slot n ∧
          statusAt r.area n = .packetFreezing) := by
  have hok := h.sender i
  have hroom := h.room
  cases hs : r.sender i with
  | idle | bug | loadHead | loadTail | loadReady | loadTotalLen | storeTotalLen =>
      simp [hs, Sender.owned] at hk
  | storeFreezing c head =>
      rw [hs] at hok hk
      cases hk
      exact .inl ⟨rfl, hok.2.1, hok.2.2.2⟩
  | storeLength c head | storeHead c head =>
      rw [hs] at hok hk
      cases hk
      exact .inl ⟨rfl, hok.2.1.1, hok.2.1.2.2⟩
  | loadPos c head | storeOffset c head pos =>
      rw [hs] at hok hk
      cases hk
      refine .inl ⟨rfl, hok.2.1, ?_⟩
      have := hok.2.2.1
      omega
  | loadOffset c head | sendLoadOffset c head | storeSettled c head | oops c head =>
      rw [hs] at hok hk
      cases hk
      obtain ⟨n, hle, rfl, hentry, hfreezing⟩ := hok
      exact .inr ⟨rfl, n, hle, (List.getElem?_eq_some_iff.mp hentry).1, rfl, hfreezing⟩
  | sendLoadLength c head offset | transfer c head offset length =>
      rw [hs] at hok hk
      cases hk
      obtain ⟨⟨n, hle, rfl, hentry, hfreezing⟩, -⟩ := hok
      exact .inr ⟨rfl, n, hle, (List.getElem?_eq_some_iff.mp hentry).1, rfl, hfreezing⟩

theorem owned_apart (h : Ctl d r) {j : ι} (hij : j ≠ i) {k : CInt}
    (hj : (r.sender j).owned = some k) : (r.sender i).owned ≠ some k := by
  intro hi
  rcases h.owned_cases hi with ⟨hfi, hki, hri⟩ | ⟨hli, n, hn, hlt, hkn, -⟩ <;>
    rcases h.owned_cases hj with ⟨hfj, hkj, hrj⟩ | ⟨hlj, n', hn', hlt', hkn', -⟩
  · exact hij (h.serial j i hfj hfi)
  · have := slot_eq_iff.mp (hki.symm.trans hkn')
    omega
  · have := slot_eq_iff.mp (hkj.symm.trans hkn)
    omega
  · exact hij (h.apart j i k hlj hli)

theorem owned_ne_taken (h : Ctl d r) {n : Nat} (hn : r.taken = n + 1) :
    (r.sender i).owned ≠ some (slot n) := by
  intro hi
  have hroom := h.room
  have hlag := h.lag
  have horder := h.order
  rcases h.owned_cases hi with ⟨-, hk, hr⟩ | ⟨-, n', hn', hlt, hk, -⟩ <;>
    have := slot_eq_iff.mp hk <;> omega

theorem owned_ne_settled (h : Ctl d r) {n : Nat} (hle : r.taken ≤ n)
    (hlt : n < r.sent.length) (hsettled : statusAt r.area n = .packetSettled) :
    (r.sender i).owned ≠ some (slot n) := by
  intro hi
  rcases h.owned_cases hi with ⟨-, hk, hr⟩ | ⟨-, n', hn', hlt', hk, hfreezing⟩
  · have := slot_eq_iff.mp hk
    omega
  · rw [statusAt, ← hk, ← statusAt, hsettled] at hfreezing
    cases hfreezing

theorem others (h : Ctl d r) (i : ι)
    (hdesc : ∀ k, (r.sender i).owned ≠ some k → r'.area.desc k = r.area.desc k)
    (hghost : (r.sender i).fetching = false →
      r'.published = r.published ∧ r'.sent.length = r.sent.length)
    (hsent : ∀ (n : Nat) e, r.sent[n]? = some e → r'.sent[n]? = some e)
    (hlen : r.sent.length ≤ r'.sent.length) (hpub : r.published ≤ r'.published)
    (htaken : r'.taken = r.taken) :
    (∀ j, j ≠ i → (r.sender j).Ok d r') ∧ Receiver.PcOk d r' r.receiver.pc := by
  constructor
  · intro j hj
    refine (h.sender j).frame (fun k hk => hdesc k (h.owned_apart hj hk)) (fun hf => ?_) hsent
      (Nat.le_of_eq htaken.symm) (fun n hn _ => by omega)
    refine hghost (Bool.eq_false_iff.mpr fun hi => ?_)
    exact hj (h.serial j i hf hi)
  · refine h.receiver.frame (fun n hn => hdesc _ (h.owned_ne_taken hn))
      (fun n hle hlt hstatus => ?_) hsent hlen hpub htaken
    rw [statusAt, hdesc _ (h.owned_ne_settled hle hlt hstatus)]
    exact hstatus

private theorem inFlight_of_owned (h : Ctl d r) {n : Nat} (hle : r.taken ≤ n)
    (hlt : n < r.sent.length) (hown : (r.sender i).owned = some (slot n)) :
    (r.sender i).inFlight = some (slot n) ∧ statusAt r.area n = .packetFreezing := by
  rcases h.owned_cases hown with ⟨-, hk, hr⟩ | ⟨hflight, n', -, -, hk, hfreezing⟩
  · have := slot_eq_iff.mp hk
    omega
  · rw [statusAt, ← hk, ← statusAt] at hfreezing
    exact ⟨hflight, hfreezing⟩

theorem owned_of_inFlight {s : Sender} {k : CInt} (h : s.inFlight = some k) :
    s.owned = some k := by
  cases s <;> simp_all [Sender.inFlight, Sender.owned]

theorem owned_of_returns {s : Sender} {p : Call × CInt} (h : s.returns = some p) :
    s.owned = some p.2 := by
  cases s <;> simp_all [Sender.returns, Sender.owned]
  rw [← h]

variable [DecidableEq ι]

/-- The obligations of a step of sender `i` that leaves `area` and the sender `s'`: it writes no
slot but the one it owns, and what the rest of the ring sees of it stays right. -/
structure SendStep (d : Nat) (r : PacketRing ι) (i : ι) (area : InfoArea) (s' : Sender) : Prop where
  desc : ∀ k, (r.sender i).owned ≠ some k → area.desc k = r.area.desc k
  pos : ∀ k, (area.desc k).pos = (r.area.desc k).pos
  ready : area.info.ready = r.area.info.ready
  tail : area.info.tail = r.area.info.tail
  head : area.info.head = slot (r.afterSend i area s').published
  lag : (r.afterSend i area s').sent.length ≤ (r.afterSend i area s').published
  room : (r.afterSend i area s').published ≤ r.taken + 63
  fetch : s'.fetching = true → (r.sender i).fetching = true
  quiet : (r.sender i).fetching = true → s'.fetching = false →
    (r.afterSend i area s').published = (r.afterSend i area s').sent.length
  ghost : (r.sender i).fetching = false → (r.afterSend i area s').published = r.published ∧
    (r.afterSend i area s').sent.length = r.sent.length
  entry : ∀ e, (r.afterSend i area s').sent[r.sent.length]? = some e →
    e.desc = slot r.sent.length ∧ e.frame.length ≤ descMaxDmaSize
  slots : ∀ (n : Nat) e, (r.afterSend i area s').sent[n]? = some e → r.taken ≤ n →
    (r.sender i).owned = some (slot n) → Filled d area n e.frame ∧
      (statusAt area n = .packetFreezing ∧ s'.inFlight = some (slot n) ∨
        statusAt area n = .packetSettled)
  flight : ∀ k, s'.inFlight = some k → (r.sender i).owned = some k
  ok : s'.Ok d (r.afterSend i area s')

namespace SendStep

variable {area : InfoArea} {s' : Sender}

private theorem slot_cases (hs : SendStep d r i area s') {n : Nat} {e : Returned}
    (he : (r.afterSend i area s').sent[n]? = some e) :
    (r.sender i).owned = some (slot n) ∨
      r.sent[n]? = some e ∧ area.desc (slot n) = r.area.desc (slot n) := by
  by_cases hk : (r.sender i).owned = some (slot n)
  · exact .inl hk
  · rcases PacketRing.afterSend_sent_cases he with hin | ⟨rfl, p, hret, rfl⟩
    · exact .inr ⟨hin, hs.desc _ hk⟩
    · left
      rw [owned_of_returns hret, ← (hs.entry _ he).1]

private theorem quiet_after (hs : SendStep d r i area s') (h : Ctl d r)
    (hall : ∀ j, ((r.afterSend i area s').sender j).fetching = false) :
    (r.afterSend i area s').published = (r.afterSend i area s').sent.length := by
  have hi := hall i
  rw [PacketRing.afterSend_self] at hi
  by_cases hf : (r.sender i).fetching = true
  · exact hs.quiet hf hi
  · have hf' := Bool.eq_false_iff.mpr hf
    obtain ⟨hpub, hlen⟩ := hs.ghost hf'
    rw [hpub, hlen]
    refine h.quiet fun j => ?_
    by_cases hj : j = i
    · rw [hj]
      exact hf'
    · rw [← PacketRing.afterSend_of_ne hj]
      exact hall j

private theorem fetching_before (hs : SendStep d r i area s') {j : ι}
    (hj : ((r.afterSend i area s').sender j).fetching = true) :
    (r.sender j).fetching = true := by
  by_cases hji : j = i
  · rw [hji, PacketRing.afterSend_self] at hj
    rw [hji]
    exact hs.fetch hj
  · rw [PacketRing.afterSend_of_ne hji] at hj
    exact hj

private theorem live_after (hs : SendStep d r i area s') (h : Ctl d r) {n : Nat} {e : Returned}
    (he : (r.afterSend i area s').sent[n]? = some e) (hn : r.taken ≤ n) :
    Filled d area n e.frame ∧
      (statusAt area n = .packetFreezing ∨ statusAt area n = .packetSettled) := by
  rcases hs.slot_cases he with hk | ⟨hin, hsl⟩
  · obtain ⟨hfilled, hst⟩ := hs.slots n e he hn hk
    exact ⟨hfilled, hst.imp (·.1) id⟩
  · obtain ⟨hfilled, hst⟩ := h.live n e hin hn
    refine ⟨hfilled.congr hsl, ?_⟩
    rw [statusAt, hsl, ← statusAt]
    exact hst

private theorem inFlight_of_frozen (hs : SendStep d r i area s') {n : Nat} {e : Returned}
    (he : (r.afterSend i area s').sent[n]? = some e) (hn : r.taken ≤ n)
    (hown : (r.sender i).owned = some (slot n)) (hfreezing : statusAt area n = .packetFreezing) :
    ((r.afterSend i area s').sender i).inFlight = some (slot n) := by
  rw [PacketRing.afterSend_self]
  rcases (hs.slots n e he hn hown).2 with ⟨-, hflight⟩ | hsettled
  · exact hflight
  · rw [hsettled] at hfreezing
    cases hfreezing

private theorem frozen_after (hs : SendStep d r i area s') (h : Ctl d r) {n : Nat}
    (hn : r.taken ≤ n)
    (hlt : n < (r.afterSend i area s').sent.length)
    (hfreezing : statusAt area n = .packetFreezing) :
    ∃ j, ((r.afterSend i area s').sender j).inFlight = some (slot n) := by
  have he := List.getElem?_eq_getElem hlt
  rcases hs.slot_cases he with hk | ⟨hin, hsl⟩
  · exact ⟨i, hs.inFlight_of_frozen he hn hk hfreezing⟩
  · have hwas : statusAt r.area n = .packetFreezing := by
      rw [statusAt, ← hsl]
      exact hfreezing
    obtain ⟨j, hj⟩ := h.frozen n hn (List.getElem?_eq_some_iff.mp hin).1 hwas
    by_cases hji : j = i
    · subst hji
      exact ⟨j, hs.inFlight_of_frozen he hn (owned_of_inFlight hj) hfreezing⟩
    · refine ⟨j, ?_⟩
      rw [PacketRing.afterSend_of_ne hji]
      exact hj

private theorem apart_after (hs : SendStep d r i area s') (h : Ctl d r) {j : ι} {k : CInt}
    (hji : j ≠ i)
    (hi : ((r.afterSend i area s').sender i).inFlight = some k)
    (hj : ((r.afterSend i area s').sender j).inFlight = some k) : False := by
  rw [PacketRing.afterSend_self] at hi
  rw [PacketRing.afterSend_of_ne hji] at hj
  exact h.owned_apart hji (owned_of_inFlight hj) (hs.flight k hi)

end SendStep

theorem afterSend (h : Ctl d r) {area : InfoArea} {s' : Sender} (hs : SendStep d r i area s') :
    Ctl d (r.afterSend i area s') := by
  obtain ⟨hothers, hpoll⟩ : (∀ j, j ≠ i → (r.sender j).Ok d (r.afterSend i area s')) ∧
      Receiver.PcOk d (r.afterSend i area s') r.receiver.pc :=
    h.others i hs.desc hs.ghost (fun _ _ => PacketRing.afterSend_sent_kept)
      PacketRing.sent_le_afterSend (Nat.le_add_right _ _) rfl
  refine
    { ready := hs.ready.trans h.ready
      head := hs.head
      tail := hs.tail.trans h.tail
      pos := fun n => (hs.pos _).trans (h.pos n)
      order := Nat.le_trans h.order PacketRing.sent_le_afterSend
      lag := hs.lag
      room := hs.room
      quiet := hs.quiet_after h
      serial := fun j j' hj hj' => h.serial j j' (hs.fetching_before hj) (hs.fetching_before hj')
      entry := ?_
      live := fun n e => hs.live_after h
      frozen := fun n => hs.frozen_after h
      apart := ?_
      sender := ?_
      receiver := hpoll }
  · intro n e he
    rcases PacketRing.afterSend_sent_cases he with hin | ⟨rfl, -⟩
    · exact h.entry n e hin
    · exact hs.entry e he
  · intro j j' k hj hj'
    by_cases hji : j = i <;> by_cases hji' : j' = i
    · rw [hji, hji']
    · subst hji
      exact (hs.apart_after h hji' hj hj').elim
    · subst hji'
      exact (hs.apart_after h hji hj' hj).elim
    · rw [PacketRing.afterSend_of_ne hji] at hj
      rw [PacketRing.afterSend_of_ne hji'] at hj'
      exact h.apart j j' k hj hj'
  · intro j
    by_cases hji : j = i
    · rw [hji, PacketRing.afterSend_self]
      exact hs.ok
    · rw [PacketRing.afterSend_of_ne hji]
      exact hothers j hji

theorem sendLocal (h : Ctl d r) {area : InfoArea} {s' : Sender}
    (hdesc : area.desc = r.area.desc) (hready : area.info.ready = r.area.info.ready)
    (hhead : area.info.head = r.area.info.head) (htail : area.info.tail = r.area.info.tail)
    (hpublishes : (r.sender i).publishes = false) (hreturns : (r.sender i).returns = none)
    (hfetch : s'.fetching = true → (r.sender i).fetching = true)
    (hquiet : (r.sender i).fetching = true → s'.fetching = false →
      r.published = r.sent.length)
    (hflight : s'.inFlight = (r.sender i).inFlight) (hok : s'.Ok d r) :
    Ctl d (r.afterSend i area s') := by
  have hsent : (r.afterSend i area s').sent = r.sent := by
    simp [PacketRing.afterSend, hreturns]
  have hpub : (r.afterSend i area s').published = r.published := by
    simp [PacketRing.afterSend, hpublishes]
  have hstatus : ∀ n, statusAt area n = statusAt r.area n := fun n => by
    rw [statusAt, statusAt, hdesc]
  refine h.afterSend
    { desc := fun k _ => congrFun hdesc k
      pos := fun k => by rw [hdesc]
      ready := hready
      tail := htail
      head := ?_
      lag := ?_
      room := ?_
      fetch := hfetch
      quiet := ?_
      ghost := fun _ => ⟨hpub, by rw [hsent]⟩
      entry := ?_
      slots := ?_
      flight := ?_
      ok := ?_ }
  · rw [hhead, hpub]
    exact h.head
  · rw [hsent, hpub]
    exact h.lag
  · rw [hpub]
    exact h.room
  · rw [hsent, hpub]
    exact hquiet
  · intro e he
    rw [hsent] at he
    exact h.entry _ e he
  · intro n e he hn hown
    rw [hsent] at he
    obtain ⟨hfilled, -⟩ := h.live n e he hn
    obtain ⟨hfl, hfreezing⟩ :=
      h.inFlight_of_owned hn (List.getElem?_eq_some_iff.mp he).1 hown
    exact ⟨hfilled.congr (by rw [hdesc]), .inl ⟨by rw [hstatus]; exact hfreezing,
      by rw [hflight]; exact hfl⟩⟩
  · intro k hk
    rw [hflight] at hk
    exact owned_of_inFlight hk
  · refine hok.frame (fun k _ => congrFun hdesc k) (fun _ => ⟨hpub, by rw [hsent]⟩) ?_
      (Nat.le_refl _) (fun _ hn _ => hn)
    intro n e he
    rw [hsent]
    exact he

theorem sendFill (h : Ctl d r) (st : Store) (s' : Sender)
    (hroom : r.sent.length + 1 ≤ r.taken + 63)
    (hown : (r.sender i).owned = some (slot r.sent.length))
    (hindex : st.index = some (slot r.sent.length)) (hword : ∀ k, st.word ≠ .pos k)
    (hpublishes : (r.sender i).publishes = false) (hreturns : (r.sender i).returns = none)
    (hfetch : (r.sender i).fetching = true) (hfetch' : s'.fetching = true)
    (hflight : s'.inFlight = none)
    (hok : s'.Ok d { r with area := r.area.store st }) :
    Ctl d (r.afterSend i (r.area.store st) s') := by
  have hsent : (r.afterSend i (r.area.store st) s').sent = r.sent := by
    simp [PacketRing.afterSend, hreturns]
  have hpub : (r.afterSend i (r.area.store st) s').published = r.published := by
    simp [PacketRing.afterSend, hpublishes]
  have hinfo := r.area.store_info hindex
  refine h.afterSend
    { desc := ?_
      pos := fun k => r.area.store_desc_pos k (hword k)
      ready := by rw [hinfo]
      tail := by rw [hinfo]
      head := ?_
      lag := ?_
      room := ?_
      fetch := fun _ => hfetch
      quiet := ?_
      ghost := fun _ => ⟨hpub, by rw [hsent]⟩
      entry := ?_
      slots := ?_
      flight := ?_
      ok := ?_ }
  · intro k hk
    exact r.area.store_desc (by rw [hindex, ← hown]; exact hk)
  · rw [hinfo, hpub]
    exact h.head
  · rw [hsent, hpub]
    exact h.lag
  · rw [hpub]
    exact h.room
  · intro _ hf
    rw [hfetch'] at hf
    cases hf
  · intro e he
    rw [hsent] at he
    exact h.entry _ e he
  · intro n e he hn hk
    rw [hsent] at he
    have hlt := (List.getElem?_eq_some_iff.mp he).1
    rw [hown, Option.some.injEq, slot_eq_iff] at hk
    omega
  · intro k hk
    rw [hflight] at hk
    cases hk
  · refine hok.frame (fun _ _ => rfl) (fun _ => ⟨hpub, by rw [hsent]⟩) ?_ (Nat.le_refl _)
      (fun _ hn _ => hn)
    intro n e he
    rw [hsent]
    exact he

/-- `fetch_packet_desc` publishes the slot it is about to return. -/
theorem sendPublish (h : Ctl d r) {c : Call} {head : CInt}
    (hpc : r.sender i = .storeHead c head) :
    Ctl d (r.afterSend i (r.area.store (.head ((head + 1).srem 64))) (.loadPos c head)) := by
  have hok := h.sender i
  rw [hpc] at hok
  obtain ⟨hfits, ⟨rfl, hquiet, hroom⟩, hfreezing, hlength⟩ := hok
  have hsent : (r.afterSend i (r.area.store (.head ((slot r.sent.length + 1).srem 64)))
      (.loadPos c (slot r.sent.length))).sent = r.sent := by
    simp [PacketRing.afterSend, hpc, Sender.returns]
  have hpub : (r.afterSend i (r.area.store (.head ((slot r.sent.length + 1).srem 64)))
      (.loadPos c (slot r.sent.length))).published = r.sent.length + 1 := by
    simp [PacketRing.afterSend, hpc, Sender.publishes, hquiet]
  refine h.afterSend
    { desc := fun _ _ => rfl
      pos := fun _ => rfl
      ready := rfl
      tail := rfl
      head := ?_
      lag := ?_
      room := ?_
      fetch := fun _ => by rw [hpc]; rfl
      quiet := ?_
      ghost := ?_
      entry := ?_
      slots := ?_
      flight := ?_
      ok := ?_ }
  · rw [hpub]
    exact slot_succ_srem _
  · rw [hpub, hsent]
    exact Nat.le_succ _
  · rw [hpub]
    exact hroom
  · intro _ hf
    cases hf
  · intro hf
    rw [hpc] at hf
    cases hf
  · intro e he
    rw [hsent] at he
    exact h.entry _ e he
  · intro n e he hn hk
    rw [hsent] at he
    have hlt := (List.getElem?_eq_some_iff.mp he).1
    rw [hpc, Sender.owned, Option.some.injEq, slot_eq_iff] at hk
    omega
  · intro k hk
    cases hk
  · exact ⟨hfits, by rw [hsent], by rw [hpub, hsent], hfreezing, hlength⟩

theorem sendReturn (h : Ctl d r) {c : Call} {head pos : CInt}
    (hpc : r.sender i = .storeOffset c head pos) :
    Ctl d (r.afterSend i (r.area.store (.offset head (131072 * c.dst + pos * 2048)))
      (.loadOffset c head)) := by
  have hok := h.sender i
  rw [hpc] at hok
  obtain ⟨⟨hdst, hfits⟩, rfl, hone, hfreezing, hlength, rfl⟩ := hok
  rw [hdst, offset_eq_blockBase]
  generalize hst : Store.offset (slot r.sent.length) (BitVec.ofNat 32 (blockBase d r.sent.length))
    = st
  have hindex : st.index = some (slot r.sent.length) := by rw [← hst]; rfl
  have hroom := h.room
  have hsent : (r.afterSend i (r.area.store st) (.loadOffset c (slot r.sent.length))).sent =
      r.sent ++ [⟨slot r.sent.length, c.skb.frame⟩] := by
    simp [PacketRing.afterSend, hpc, Sender.returns]
  have hpub : (r.afterSend i (r.area.store st) (.loadOffset c (slot r.sent.length))).published =
      r.sent.length + 1 := by
    simp [PacketRing.afterSend, hpc, Sender.publishes, hone]
  have hlen : (r.afterSend i (r.area.store st) (.loadOffset c (slot r.sent.length))).sent.length =
      r.sent.length + 1 := by simp [hsent]
  have hlast : (r.afterSend i (r.area.store st)
      (.loadOffset c (slot r.sent.length))).sent[r.sent.length]? =
      some ⟨slot r.sent.length, c.skb.frame⟩ := by
    rw [hsent]
    simp
  have hinfo := r.area.store_info hindex
  have hstatus : ((r.area.store st).desc (slot r.sent.length)).status = .packetFreezing := by
    rw [← hst]
    simpa [InfoArea.store] using hfreezing
  refine h.afterSend
    { desc := ?_
      pos := fun k => ?_
      ready := by rw [hinfo]
      tail := by rw [hinfo]
      head := ?_
      lag := ?_
      room := ?_
      fetch := fun hf => by cases hf
      quiet := ?_
      ghost := ?_
      entry := ?_
      slots := ?_
      flight := ?_
      ok := ?_ }
  · intro k hk
    refine r.area.store_desc ?_
    rw [hpc] at hk
    rw [hindex]
    exact hk
  · exact r.area.store_desc_pos k (by rw [← hst]; simp [Store.word])
  · rw [hinfo, hpub, ← hone]
    exact h.head
  · rw [hpub, hlen]
  · rw [hpub, ← hone]
    exact hroom
  · intro _ _
    rw [hpub, hlen]
  · intro hf
    rw [hpc] at hf
    cases hf
  · intro e he
    rw [hlast, Option.some.injEq] at he
    rw [← he]
    exact ⟨rfl, by rw [Skb.frame_length]; exact hfits⟩
  · intro n e he hn hk
    have hlt := (List.getElem?_eq_some_iff.mp he).1
    rw [hlen] at hlt
    rw [hpc, Sender.owned, Option.some.injEq, slot_eq_iff] at hk
    obtain rfl : n = r.sent.length := by omega
    rw [hlast, Option.some.injEq] at he
    subst he
    refine ⟨⟨?_, ?_⟩, .inl ⟨hstatus, rfl⟩⟩
    · rw [← hst]
      simpa [InfoArea.store] using hlength
    · rw [← hst]
      simp [InfoArea.store]
  · intro k hk
    rw [hpc]
    exact hk
  · exact ⟨r.sent.length, h.order, rfl, hlast, hstatus⟩

theorem sendSettle (h : Ctl d r) {c : Call} {head : CInt}
    (hpc : r.sender i = .storeSettled c head) :
    Ctl d (r.afterSend i (r.area.store (.status head .packetSettled)) .idle) := by
  have hok := h.sender i
  rw [hpc] at hok
  obtain ⟨m, hle, rfl, hentry, -⟩ := hok
  have hlt := (List.getElem?_eq_some_iff.mp hentry).1
  have hsent : (r.afterSend i (r.area.store (.status (slot m) .packetSettled)) .idle).sent =
      r.sent := by
    simp [PacketRing.afterSend, hpc, Sender.returns]
  have hpub : (r.afterSend i (r.area.store (.status (slot m) .packetSettled)) .idle).published =
      r.published := by
    simp [PacketRing.afterSend, hpc, Sender.publishes]
  refine h.afterSend
    { desc := ?_
      pos := fun k => ?_
      ready := rfl
      tail := rfl
      head := ?_
      lag := ?_
      room := ?_
      fetch := fun hf => by cases hf
      quiet := ?_
      ghost := fun _ => ⟨hpub, by rw [hsent]⟩
      entry := ?_
      slots := ?_
      flight := ?_
      ok := trivial }
  · intro k hk
    refine r.area.store_desc ?_
    rw [hpc] at hk
    exact hk
  · exact r.area.store_desc_pos k (by simp [Store.word])
  · rw [hpub]
    exact h.head
  · rw [hsent, hpub]
    exact h.lag
  · rw [hpub]
    exact h.room
  · intro hf
    rw [hpc] at hf
    cases hf
  · intro e he
    rw [hsent] at he
    exact h.entry _ e he
  · intro n e he hn hk
    rw [hsent] at he
    have hlt' := (List.getElem?_eq_some_iff.mp he).1
    have hroom := h.room
    have hlag := h.lag
    rw [hpc, Sender.owned, Option.some.injEq, slot_eq_iff] at hk
    obtain rfl : n = m := by omega
    obtain ⟨hfilled, -⟩ := h.live n e he hn
    refine ⟨⟨?_, ?_⟩, .inr ?_⟩
    · simpa [InfoArea.store] using hfilled.length
    · simpa [InfoArea.store] using hfilled.offset
    · simp [statusAt, InfoArea.store]
  · intro k hk
    cases hk

end Ctl

end NupaNet.Ring
