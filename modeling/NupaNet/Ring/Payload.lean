import NupaNet.Ring.ControlStep

/-!
# The payload of a ring

`Ctl` says which slot a DMA writes; when every DMA moves the whole length, the
block of a settled packet holds its frame until the receiver has read it.  The
block of the packet taken last stays as it is even after its release, because
the full test never lets a sender come round to it.  `Dat` is kept by steps of
the ring itself and by anything outside the region of its owner, so the two
rings of a device can be treated one at a time.
-/

namespace NupaNet.Ring

open NupaNet.Foundation

variable {ι : Type} {d : Nat} {r r' : PacketRing ι} {dev dev' : Memory} {i : ι}

def Stored (d : Nat) (dev : Memory) (n : Nat) (frame : List UInt8) : Prop :=
  block dev (blockBase d n) frame.length = frame

theorem Stored.congr {n : Nat} {frame : List UInt8} (h : Stored d dev n frame)
    (hlen : frame.length ≤ descMaxDmaSize)
    (same : ∀ a, blockBase d n ≤ a → a < blockBase d n + descMaxDmaSize → dev' a = dev a) :
    Stored d dev' n frame := by
  have hblock : block dev' (blockBase d n) frame.length = block dev (blockBase d n) frame.length :=
    block_congr fun a hlo hhi => same a hlo (by omega)
  rw [Stored, hblock]
  exact h

/-! ## Where a sender writes -/

private theorem Ctl.transfer_range (h : Ctl d r) (hd : d < maxAgentNum) {c : Call}
    {head offset length : CInt} (hpc : r.sender i = .transfer c head offset length) :
    ∃ n, r.taken ≤ n ∧ n < r.sent.length ∧ head = slot n ∧
      r.sent[n]? = some ⟨head, c.skb.frame⟩ ∧ devAddr offset = blockBase d n ∧
      length.toNat = c.skb.headlen ∧ c.skb.headlen ≤ descMaxDmaSize := by
  have hok := h.sender i
  rw [hpc] at hok
  obtain ⟨⟨n, hle, rfl, hentry, -⟩, rfl, rfl⟩ := hok
  have hfits := (h.entry n _ hentry).2
  obtain ⟨hfilled, -⟩ := h.live n _ hentry hle
  have hbound := blockBase_lt hd n
  simp only [Skb.frame_length, descMaxDmaSize_eq, totalDmaSize_eq] at hfits hbound
  refine ⟨n, hle, (List.getElem?_eq_some_iff.mp hentry).1, rfl, hentry, ?_, ?_, hfits⟩
  · rw [hfilled.offset]
    exact devAddr_ofNat (by omega)
  · rw [hfilled.length, Skb.frame_length, BitVec.toNat_ofNat]
    omega

theorem Sender.step_dev {m m' : Shm} {env : SendEnv} {s s' : Sender}
    (hs : s.step m env = some (m', s'))
    (hpc : ∀ c head offset length, s ≠ .transfer c head offset length) : m'.dev = m.dev := by
  cases s with
  | idle | bug | oops => cases hs
  | loadReady c head tail =>
      obtain ⟨rfl, -⟩ := Sender.step_loadReady hs
      rfl
  | transfer c head offset length => exact absurd rfl (hpc c head offset length)
  | _ => cases hs; rfl

private theorem Ctl.send_dev (h : Ctl d r) (hd : d < maxAgentNum) {env : SendEnv} {m : Shm}
    {s' : Sender}
    (hs : Sender.step ⟨r.area, dev⟩ env (r.sender i) = some (m, s')) {a : Nat}
    (ha : ∀ n, (r.sender i).owned = some (slot n) →
      a < blockBase d n ∨ blockBase d n + descMaxDmaSize ≤ a) : m.dev a = dev a := by
  by_cases hpc : ∃ c head offset length, r.sender i = .transfer c head offset length
  · obtain ⟨c, head, offset, length, hpc⟩ := hpc
    obtain ⟨n, -, -, rfl, -, hoffset, hlength, hfits⟩ := h.transfer_range hd hpc
    have houtside := ha n (by rw [hpc]; rfl)
    rw [hpc] at hs
    obtain ⟨rfl, -⟩ | ⟨rfl, -⟩ := Sender.step_transfer hs
    · rfl
    · refine overlay_outside ?_
      rw [hoffset, hlength]
      omega
  · rw [Sender.step_dev hs fun c head offset length heq => hpc ⟨c, head, offset, length, heq⟩]

theorem Ctl.send_block (h : Ctl d r) (hd : d < maxAgentNum) {env : SendEnv} {m : Shm}
    {s' : Sender} (hs : Sender.step ⟨r.area, dev⟩ env (r.sender i) = some (m, s')) {n : Nat}
    (hn : (r.sender i).owned ≠ some (slot n)) {a : Nat} (hlo : blockBase d n ≤ a)
    (hhi : a < blockBase d n + descMaxDmaSize) : m.dev a = dev a := by
  refine h.send_dev hd hs fun k hk => ?_
  have hne : n % 64 ≠ k % 64 := by
    intro heq
    apply hn
    rw [hk, slot_eq_iff.mpr heq]
  have hdisjoint : blockBase d n + descMaxDmaSize ≤ blockBase d k ∨
      blockBase d k + descMaxDmaSize ≤ blockBase d n := blockBase_disjoint (.inr hne)
  omega

theorem Ctl.send_region (h : Ctl d r) (hd : d < maxAgentNum) {env : SendEnv} {m : Shm}
    {s' : Sender} (hs : Sender.step ⟨r.area, dev⟩ env (r.sender i) = some (m, s')) {a : Nat}
    (ha : a < agentTotalDmaSize * d ∨ agentTotalDmaSize * (d + 1) ≤ a) : m.dev a = dev a := by
  refine h.send_dev hd hs fun n _ => ?_
  have hlt : n % 64 < 64 := Nat.mod_lt _ (by decide)
  simp only [blockBase, agentTotalDmaSize_eq, maxDescNum_eq, descMaxDmaSize_eq] at ha ⊢
  omega

/-! ## The invariant -/

structure Dat (d : Nat) (r : PacketRing ι) (dev : Memory) : Prop where
  settled : ∀ (n : Nat) e, r.sent[n]? = some e → r.taken ≤ n →
    statusAt r.area n = .packetSettled → Stored d dev n e.frame
  last : ∀ (n : Nat) e, r.sent[n]? = some e → r.taken = n + 1 → Stored d dev n e.frame
  moved : ∀ i c head, r.sender i = .storeSettled c head →
    ∃ n, r.taken ≤ n ∧ head = slot n ∧ r.sent[n]? = some ⟨head, c.skb.frame⟩ ∧
      Stored d dev n c.skb.frame
  skb : ∀ tail skb, r.receiver.pc = .storeReleased tail skb ∨ r.receiver.pc = .groReceive tail skb →
    ∃ n e, r.taken = n + 1 ∧ r.sent[n]? = some e ∧ skb = e.frame
  delivered : ∀ (n : Nat) frame, (n, frame) ∈ r.delivered → ∃ e, r.sent[n]? = some e ∧ e.frame = frame

theorem dat_fresh (area : InfoArea) : Dat d (PacketRing.fresh (ι := ι) area) dev where
  settled := by simp [PacketRing.fresh]
  last := by simp [PacketRing.fresh]
  moved := by simp [PacketRing.fresh]
  skb := by simp [PacketRing.fresh]
  delivered := by simp [PacketRing.fresh]

theorem Dat.dev_congr (h : Dat d r dev) (hc : Ctl d r)
    (same : ∀ a, agentTotalDmaSize * d ≤ a → a < agentTotalDmaSize * (d + 1) → dev' a = dev a) :
    Dat d r dev' := by
  have hkeep : ∀ (n : Nat) e, r.sent[n]? = some e → Stored d dev n e.frame →
      Stored d dev' n e.frame := by
    intro n e he hst
    refine hst.congr (hc.entry n e he).2 fun a hlo hhi => same a ?_ ?_
    all_goals
      have hlt : n % 64 < 64 := Nat.mod_lt _ (by decide)
      simp only [blockBase, agentTotalDmaSize_eq, maxDescNum_eq, descMaxDmaSize_eq] at hlo hhi ⊢
      omega
  refine ⟨?_, ?_, ?_, h.skb, h.delivered⟩
  · intro n e he hn hst
    exact hkeep n e he (h.settled n e he hn hst)
  · intro n e he hn
    exact hkeep n e he (h.last n e he hn)
  · intro i c head hpc
    obtain ⟨n, hn, hslot, he, hst⟩ := h.moved i c head hpc
    exact ⟨n, hn, hslot, he, hkeep n _ he hst⟩

/-- The DMA that the action performs, if any, moves all the bytes it was asked for. -/
def dmaComplete (r : PacketRing ι) : Act ι → Bool
  | .send i env =>
      match r.sender i with
      | .transfer _ _ _ length => env.dma.Complete length.toNat
      | _ => true
  | .recv env =>
      match r.receiver.pc with
      | .transfer _ _ length => env.dma.Complete length.toNat
      | _ => true
  | _ => true

private theorem dmaComplete_send {env : SendEnv} {c : Call} {head offset length : CInt}
    (h : dmaComplete r (.send i env) = true) (hpc : r.sender i = .transfer c head offset length) :
    env.dma.Complete length.toNat := by
  simpa [dmaComplete, hpc] using h

private theorem dmaComplete_recv {env : RecvEnv} {tail offset length : CInt}
    (h : dmaComplete r (.recv env) = true)
    (hpc : r.receiver.pc = .transfer tail offset length) : env.dma.Complete length.toNat := by
  simpa [dmaComplete, hpc] using h

/-! ## Steps -/

private theorem Sender.owned_step {m m' : Shm} {env : SendEnv} {s s' : Sender} {k : CInt}
    (hs : s.step m env = some (m', s')) (hk : s.owned = some k) :
    s'.owned = some k ∨ ∃ c, s = .storeSettled c k := by
  cases s with
  | idle | bug | oops => cases hs
  | loadHead | loadTail | loadReady | loadTotalLen | storeTotalLen => cases hk
  | storeSettled c head =>
      cases hk
      exact .inr ⟨c, rfl⟩
  | transfer c head offset length =>
      obtain ⟨-, rfl⟩ | ⟨-, rfl⟩ := Sender.step_transfer hs <;> exact .inl hk
  | _ =>
      cases hs
      exact .inl hk

private theorem Sender.returns_step {m m' : Shm} {env : SendEnv} {s s' : Sender} {p : Call × CInt}
    (hs : s.step m env = some (m', s')) (hp : s.returns = some p) : s'.owned = some p.2 := by
  rcases Sender.owned_step hs (Ctl.owned_of_returns hp) with hown | ⟨c, rfl⟩
  · exact hown
  · cases hp

namespace Dat

private theorem transfer_stored (hc : Ctl d r) (hd : d < maxAgentNum) {env : SendEnv} {m : Shm}
    {c : Call} {head : CInt}
    (hcomplete : dmaComplete r (.send i env) = true)
    (hs : Sender.step ⟨r.area, dev⟩ env (r.sender i) = some (m, .storeSettled c head)) :
    ∃ n, r.taken ≤ n ∧ head = slot n ∧ r.sent[n]? = some ⟨head, c.skb.frame⟩ ∧
      Stored d m.dev n c.skb.frame := by
  cases hpc : r.sender i with
  | transfer c' head' offset length =>
      obtain ⟨n, hle, -, hslot, hentry, hoffset, hlength, -⟩ := hc.transfer_range hd hpc
      obtain ⟨-, hmoved⟩ := dmaComplete_send hcomplete hpc
      rw [hpc] at hs
      obtain ⟨-, hnext⟩ | ⟨rfl, hnext⟩ := Sender.step_transfer hs
      · cases hnext
      · cases hnext
        refine ⟨n, hle, hslot, hentry, ?_⟩
        rw [Stored, Skb.frame_length, hoffset, ← hlength, block_overlay hmoved, Skb.frame, hlength]
  | loadReady c' head' tail =>
      rw [hpc] at hs
      obtain ⟨-, hnext | ⟨-, -, -, hnext⟩⟩ := Sender.step_loadReady hs <;> cases hnext
  | _ =>
      rw [hpc] at hs
      cases hs

variable [DecidableEq ι]

private theorem settled_after (hc : Ctl d r) {env : SendEnv} {m : Shm} {s' : Sender} {n : Nat}
    {e : Returned}
    (hs : Sender.step ⟨r.area, dev⟩ env (r.sender i) = some (m, s'))
    (he : (r.afterSend i m.area s').sent[n]? = some e) (hn : r.taken ≤ n)
    (hst : statusAt m.area n = .packetSettled) :
    r.sent[n]? = some e ∧ (statusAt r.area n = .packetSettled ∨
      ∃ c, r.sender i = .storeSettled c (slot n)) := by
  have hafter := hc.send hs
  have hlt := (List.getElem?_eq_some_iff.mp he).1
  have hfree : s'.owned ≠ some (slot n) := by
    have := hafter.owned_ne_settled (i := i) hn hlt hst
    rw [PacketRing.afterSend_self] at this
    exact this
  constructor
  · rcases PacketRing.afterSend_sent_cases he with hold | ⟨rfl, p, hret, rfl⟩
    · exact hold
    · have hdesc : p.2 = slot r.sent.length := (hafter.entry _ _ he).1
      exact absurd (by rw [Sender.returns_step hs hret, hdesc]) hfree
  · by_cases hown : (r.sender i).owned = some (slot n)
    · rcases Sender.owned_step hs hown with hkeep | hsettle
      · exact absurd hkeep hfree
      · exact .inr hsettle
    · left
      rw [statusAt, ← Sender.step_desc hs hown]
      exact hst

theorem send (h : Dat d r dev) (hc : Ctl d r) (hd : d < maxAgentNum) {env : SendEnv} {m : Shm}
    {s' : Sender} (hcomplete : dmaComplete r (.send i env) = true)
    (hs : Sender.step ⟨r.area, dev⟩ env (r.sender i) = some (m, s')) :
    Dat d (r.afterSend i m.area s') m.dev := by
  have hkeep : ∀ (n : Nat) e, r.sent[n]? = some e → (r.sender i).owned ≠ some (slot n) →
      Stored d dev n e.frame → Stored d m.dev n e.frame := by
    intro n e he hown hst
    exact hst.congr (hc.entry n e he).2 fun a hlo hhi => hc.send_block hd hs hown hlo hhi
  refine ⟨?_, ?_, ?_, ?_, ?_⟩
  · intro n e he hn hst
    obtain ⟨hold, hsettled | ⟨c, hpc⟩⟩ := settled_after hc hs he hn hst
    · have hlt := (List.getElem?_eq_some_iff.mp hold).1
      exact hkeep n e hold (hc.owned_ne_settled hn hlt hsettled) (h.settled n e hold hn hsettled)
    · obtain ⟨k, hk, hslot, hentry, hstored⟩ := h.moved i c _ hpc
      have hsame : k = n := by
        have hroom := hc.room
        have hlag := hc.lag
        have hlt := (List.getElem?_eq_some_iff.mp hold).1
        have hlt' := (List.getElem?_eq_some_iff.mp hentry).1
        have := slot_eq_iff.mp hslot
        have hn' : r.taken ≤ n := hn
        omega
      subst hsame
      rw [hold, Option.some.injEq] at hentry
      rw [Sender.step_dev hs (by rw [hpc]; simp), hentry]
      exact hstored
  · intro n e he hn
    have hn' : r.taken = n + 1 := hn
    have hlt : n < r.sent.length := by
      have := hc.order
      omega
    have hold : r.sent[n]? = some e := by
      rcases PacketRing.afterSend_sent_cases he with hin | ⟨rfl, -⟩
      · exact hin
      · exact absurd hlt (Nat.lt_irrefl _)
    exact hkeep n e hold (hc.owned_ne_taken hn') (h.last n e hold hn')
  · intro j c head hpc
    by_cases hj : j = i
    · rw [hj] at hpc
      rw [PacketRing.afterSend_self] at hpc
      rw [hpc] at hs
      obtain ⟨n, hn, hslot, hentry, hstored⟩ := transfer_stored hc hd hcomplete hs
      exact ⟨n, hn, hslot, PacketRing.afterSend_sent_kept hentry, hstored⟩
    · rw [PacketRing.afterSend_of_ne hj] at hpc
      obtain ⟨n, hn, hslot, hentry, hstored⟩ := h.moved j c head hpc
      refine ⟨n, hn, hslot, PacketRing.afterSend_sent_kept hentry, hkeep n _ hentry ?_ hstored⟩
      refine hc.owned_apart hj ?_
      rw [hpc, ← hslot]
      rfl
  · intro tail skb hpc
    obtain ⟨n, e, hn, hentry, heq⟩ := h.skb tail skb hpc
    exact ⟨n, e, hn, PacketRing.afterSend_sent_kept hentry, heq⟩
  · intro n frame hmem
    obtain ⟨e, hentry, heq⟩ := h.delivered n frame hmem
    exact ⟨e, PacketRing.afterSend_sent_kept hentry, heq⟩

end Dat

/-! ## The receiver -/

theorem Receiver.step_dev {m m' : Shm} {env : RecvEnv} {rc rc' : Receiver}
    (hs : Receiver.step m env rc = some (m', rc')) : m'.dev = m.dev := by
  cases Receiver.step_moves hs <;> rfl

private theorem Ctl.recv_desc (h : Ctl d r) {env : RecvEnv} {m : Shm} {rc : Receiver}
    (hs : Receiver.step ⟨r.area, dev⟩ env r.receiver = some (m, rc)) {k : CInt}
    (hk : ∀ n, r.taken = n + 1 → k ≠ slot n) : m.area.desc k = r.area.desc k := by
  have hok := h.receiver
  cases Receiver.step_moves hs with
  | storeReleased hpc =>
      rw [hpc] at hok
      obtain ⟨n, e, hn, rfl, -⟩ := hok
      rw [Shm.store_area, InfoArea.store_desc]
      intro heq
      exact hk n hn (Option.some.inj heq).symm
  | _ => rfl

namespace Dat

theorem afterRecv (h : Dat d r dev) (hc : Ctl d r) {area : InfoArea} {rc : Receiver}
    (hdesc : ∀ k, (∀ n, r.taken = n + 1 → k ≠ slot n) → area.desc k = r.area.desc k)
    (htake : r.receiver.takes = true → statusAt r.area r.taken = .packetSettled)
    (hskb : ∀ tail skb, rc.pc = .storeReleased tail skb ∨ rc.pc = .groReceive tail skb →
      ∃ n e, (r.afterRecv area rc).taken = n + 1 ∧ r.sent[n]? = some e ∧ skb = e.frame) :
    Dat d (r.afterRecv area rc) dev := by
  have hle : r.taken ≤ (r.afterRecv area rc).taken := Nat.le_add_right _ _
  refine ⟨?_, ?_, ?_, hskb, ?_⟩
  · intro n e he hn hst
    have hn' : r.taken ≤ n := Nat.le_trans hle hn
    refine h.settled n e he hn' ?_
    rw [statusAt, ← hdesc]
    · exact hst
    · intro k hk heq
      have hlt : n < r.sent.length := (List.getElem?_eq_some_iff.mp he).1
      have hroom := hc.room
      have hlag := hc.lag
      have := slot_eq_iff.mp heq
      omega
  · intro n e he hn
    cases htakes : r.receiver.takes with
    | false =>
        simp only [PacketRing.afterRecv, htakes] at hn
        exact h.last n e he hn
    | true =>
        simp only [PacketRing.afterRecv, htakes, if_true] at hn
        obtain rfl : n = r.taken := by omega
        exact h.settled _ e he (Nat.le_refl _) (htake htakes)
  · intro j c head hpc
    obtain ⟨n, hn, hslot, hentry, hstored⟩ := h.moved j c head hpc
    refine ⟨n, ?_, hslot, hentry, hstored⟩
    have hok := hc.sender j
    rw [show r.sender j = _ from hpc] at hok
    obtain ⟨-, -, -, -, hfreezing⟩ := hok
    change r.taken + (if r.receiver.takes = true then 1 else 0) ≤ n
    split
    · next ht =>
        rcases Nat.lt_or_eq_of_le hn with hlt | heq
        · exact hlt
        · have hsettled := htake ht
          rw [heq, statusAt, ← hslot, hfreezing] at hsettled
          cases hsettled
    · exact hn
  · intro n frame hmem
    rcases List.mem_append.mp hmem with hold | hnew
    · exact h.delivered n frame hold
    · cases hpc : r.receiver.pc with
      | groReceive tail skb =>
          obtain ⟨k, e, hk, hentry, heq⟩ := h.skb tail skb (.inr hpc)
          simp only [Receiver.delivers, hpc, Option.map_some, Option.toList_some,
            List.mem_singleton, Prod.mk.injEq] at hnew
          obtain ⟨rfl, rfl⟩ := hnew
          refine ⟨e, ?_, heq.symm⟩
          rw [hk]
          exact hentry
      | _ => simp [Receiver.delivers, hpc] at hnew

private theorem read_frame (h : Dat d r dev) (hc : Ctl d r) (hd : d < maxAgentNum) {env : RecvEnv}
    {tail offset length : CInt} (hpc : r.receiver.pc = .transfer tail offset length)
    (hcomplete : env.dma.Complete length.toNat) :
    ∃ n e, r.taken = n + 1 ∧ r.sent[n]? = some e ∧
      block (overlay env.buf 0 length.toNat env.dma.moved (fun k => dev (devAddr offset + k))) 0
        length.toNat = e.frame := by
  have hok := hc.receiver
  rw [hpc] at hok
  obtain ⟨⟨n, e, hn, rfl, hentry, hfilled, -⟩, rfl, rfl⟩ := hok
  have hfits := (hc.entry n e hentry).2
  have hbound := blockBase_lt hd n
  simp only [descMaxDmaSize_eq, totalDmaSize_eq] at hfits hbound
  have hlength : (r.area.desc (slot n)).length.toNat = e.frame.length := by
    rw [hfilled.length, BitVec.toNat_ofNat]
    omega
  have hoffset : devAddr (r.area.desc (slot n)).offset = blockBase d n := by
    rw [hfilled.offset]
    exact devAddr_ofNat (by omega)
  refine ⟨n, e, hn, hentry, ?_⟩
  rw [block_overlay hcomplete.2, hlength, hoffset]
  have hstored : Stored d dev n e.frame := h.last n e hentry hn
  calc block (fun k => dev (blockBase d n + k)) 0 e.frame.length
      = block dev (blockBase d n) e.frame.length := by simp [block]
    _ = e.frame := hstored

theorem recv (h : Dat d r dev) (hc : Ctl d r) (hd : d < maxAgentNum) {env : RecvEnv} {m : Shm}
    {rc : Receiver} (hcomplete : dmaComplete r (.recv env) = true)
    (hs : Receiver.step ⟨r.area, dev⟩ env r.receiver = some (m, rc)) :
    Dat d (r.afterRecv m.area rc) m.dev := by
  have hdev : m.dev = dev := Receiver.step_dev hs
  have hok := hc.receiver
  rw [hdev]
  refine h.afterRecv hc (fun k hk => hc.recv_desc hs hk) ?_ ?_
  · intro ht
    cases hpc : r.receiver.pc with
    | storeTail tail =>
        rw [hpc] at hok
        exact hok.2.2
    | _ => simp [Receiver.takes, hpc] at ht
  · intro tail skb hnext
    cases Receiver.step_moves hs with
    | transfer hpc =>
        obtain ⟨n, e, hn, hentry, hframe⟩ := h.read_frame hc hd hpc (dmaComplete_recv hcomplete hpc)
        refine ⟨n, e, by simp [PacketRing.afterRecv, Receiver.takes, hpc, hn], hentry, ?_⟩
        simp only [Receiver.goto, PollPc.storeReleased.injEq, reduceCtorEq, or_false] at hnext
        rw [← hnext.2]
        exact hframe
    | storeReleased hpc =>
        obtain ⟨n, e, hn, hentry, hframe⟩ := h.skb _ _ (.inl hpc)
        refine ⟨n, e, by simp [PacketRing.afterRecv, Receiver.takes, hpc, hn], hentry, ?_⟩
        simp only [Receiver.goto, PollPc.groReceive.injEq, reduceCtorEq, false_or] at hnext
        rw [← hnext.2]
        exact hframe
    | spin hpc => simp [hpc] at hnext
    | _ => simp [Receiver.leave, Receiver.goto] at hnext

variable [DecidableEq ι] {hostOf : ι → CInt}

theorem step {a : Act ι} (hd : d < maxAgentNum) (h : Dat d r dev) (hc : Ctl d r)
    (hcomplete : dmaComplete r a = true)
    (hs : PacketRing.step hostOf (BitVec.ofNat 32 d) (r, dev) a = some (r', dev')) :
    Dat d r' dev' := by
  cases PacketRing.step_moves hs with
  | drop => exact h
  | @xmit i hold skb hidle htarget =>
      rw [xmitFrame_of_target hd htarget]
      refine { h with moved := fun j c head hpc => h.moved j c head ?_ }
      by_cases hj : j = i
      · rw [hj, PacketRing.setSender_self] at hpc
        cases hpc
      · rw [PacketRing.setSender_of_ne hj] at hpc
        exact hpc
  | send hstep => exact h.send hc hd hcomplete hstep
  | @poll hold budget hidle =>
      refine { h with skb := fun tail skb hpc => h.skb tail skb ?_ }
      cases hold with
      | false => simp [Receiver.poll] at hpc
      | true => simpa [Receiver.poll] using hpc
  | recv hstep => exact h.recv hc hd hcomplete hstep

end Dat

end NupaNet.Ring
