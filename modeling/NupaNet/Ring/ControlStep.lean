import NupaNet.Ring.Control

/-!
# Every step keeps the control invariant

The receiver writes one descriptor only, the one it has just taken, and the
full test of the senders keeps that slot away from every packet in the ring.
`Ctl.step` collects the four kinds of action; its one premise is that a
`fetch_packet_desc` call starts when no other one is under way.
-/

namespace NupaNet.Ring

open NupaNet.Foundation

variable {ι : Type} {d : Nat} {r r' : PacketRing ι} {i : ι}

namespace Ctl

section

variable [DecidableEq ι]

/-- A step inside a call: the sender goes on in the same phase and writes
nothing that the control invariant reads. -/
private theorem sendOn (h : Ctl d r) {area : InfoArea} {s s' : Sender} (hpc : r.sender i = s)
    (hdesc : area.desc = r.area.desc)
    (hinfo : { area.info with totalLen := r.area.info.totalLen } = r.area.info)
    (hpublishes : s.publishes = false) (hreturns : s.returns = none)
    (hfetch : s'.fetching = s.fetching) (hflight : s'.inFlight = s.inFlight)
    (hok : s'.Ok d r) : Ctl d (r.afterSend i area s') := by
  subst hpc
  refine h.sendLocal hdesc ?_ ?_ ?_ hpublishes hreturns ?_ ?_ hflight hok
  · rw [← hinfo]
  · rw [← hinfo]
  · rw [← hinfo]
  · rw [hfetch]
    exact id
  · intro ht hf
    rw [← hfetch, hf] at ht
    cases ht

theorem send (h : Ctl d r) {dev : Memory} {env : SendEnv} {m : Shm} {s' : Sender}
    (hs : Sender.step ⟨r.area, dev⟩ env (r.sender i) = some (m, s')) :
    Ctl d (r.afterSend i m.area s') := by
  have hok := h.sender i
  cases hpc : r.sender i with
  | idle | bug | oops =>
      rw [hpc] at hs
      cases hs
  | loadHead c =>
      rw [hpc] at hs hok
      cases hs
      obtain ⟨hfits, hquiet⟩ := hok
      refine h.sendOn hpc rfl rfl rfl rfl rfl rfl ⟨hfits, hquiet, ?_⟩
      rw [← hquiet]
      exact h.head
  | loadTail c head =>
      rw [hpc] at hs hok
      cases hs
      obtain ⟨hfits, hquiet, hslot⟩ := hok
      have hroom := h.room
      exact h.sendOn hpc rfl rfl rfl rfl rfl rfl
        ⟨hfits, hquiet, hslot, r.taken, Nat.le_refl _, h.tail, by omega⟩
  | loadReady c head tail =>
      rw [hpc] at hs hok
      obtain ⟨hfits, hquiet, rfl, t, ht, rfl, hlag⟩ := hok
      have hdrop : Ctl d (r.afterSend i r.area .idle) := by
        refine h.sendLocal rfl rfl rfl rfl ?_ ?_ ?_ (fun _ _ => hquiet) ?_ trivial <;>
          simp [hpc, Sender.publishes, Sender.returns, Sender.fetching, Sender.inFlight]
      obtain ⟨rfl, rfl | ⟨-, -, hfull, rfl⟩⟩ := Sender.step_loadReady hs
      · exact hdrop
      · have horder := h.order
        have hgap : (r.sent.length + 1) % 64 ≠ t % 64 := by
          rw [ne_eq, ← slot_eq_iff, ← slot_succ_and]
          simpa [Sender.full] using hfull
        exact h.sendOn hpc rfl rfl rfl rfl rfl rfl ⟨hfits, rfl, hquiet, by omega⟩
  | loadTotalLen c head | storeTotalLen c head totalLen =>
      rw [hpc] at hs hok
      cases hs
      exact h.sendOn hpc rfl rfl rfl rfl rfl rfl hok
  | storeFreezing c head =>
      rw [hpc] at hs hok
      cases hs
      obtain ⟨hfits, rfl, hquiet, hroom⟩ := hok
      refine h.sendFill (.status (slot r.sent.length) .packetFreezing)
        (.storeLength c (slot r.sent.length)) hroom ?_ rfl ?_ ?_ ?_ ?_ rfl rfl
        ⟨hfits, ⟨rfl, hquiet, hroom⟩, ?_⟩ <;>
        simp [hpc, Sender.owned, Sender.publishes, Sender.returns, Sender.fetching, Store.word,
          InfoArea.store]
  | storeLength c head =>
      rw [hpc] at hs hok
      cases hs
      obtain ⟨hfits, ⟨rfl, hquiet, hroom⟩, hfreezing⟩ := hok
      refine h.sendFill (.length (slot r.sent.length) (BitVec.ofNat 32 c.skb.headlen))
        (.storeHead c (slot r.sent.length)) hroom ?_ rfl ?_ ?_ ?_ ?_ rfl rfl
        ⟨hfits, ⟨rfl, hquiet, hroom⟩, ?_, ?_⟩ <;>
        simp [hpc, Sender.owned, Sender.publishes, Sender.returns, Sender.fetching, Store.word,
          InfoArea.store, hfreezing]
  | storeHead c head =>
      rw [hpc] at hs
      cases hs
      exact h.sendPublish hpc
  | loadPos c head =>
      rw [hpc] at hs hok
      cases hs
      obtain ⟨hfits, rfl, hone, hfreezing, hlength⟩ := hok
      exact h.sendOn hpc rfl rfl rfl rfl rfl rfl
        ⟨hfits, rfl, hone, hfreezing, hlength, h.pos _⟩
  | storeOffset c head pos =>
      rw [hpc] at hs
      cases hs
      exact h.sendReturn hpc
  | loadOffset c head =>
      rw [hpc] at hs hok
      cases hs
      exact h.sendOn hpc rfl rfl rfl rfl rfl rfl hok
  | sendLoadOffset c head =>
      rw [hpc] at hs hok
      cases hs
      exact h.sendOn hpc rfl rfl rfl rfl rfl rfl ⟨hok, rfl⟩
  | sendLoadLength c head offset =>
      rw [hpc] at hs hok
      cases hs
      exact h.sendOn hpc rfl rfl rfl rfl rfl rfl ⟨hok.1, hok.2, rfl⟩
  | transfer c head offset length =>
      rw [hpc] at hs hok
      obtain ⟨rfl, rfl⟩ | ⟨rfl, rfl⟩ := Sender.step_transfer hs
      · exact h.sendOn hpc rfl rfl rfl rfl rfl rfl hok.1
      · exact h.sendOn hpc rfl rfl rfl rfl rfl rfl hok.1
  | storeSettled c head =>
      rw [hpc] at hs
      cases hs
      exact h.sendSettle hpc

end

theorem afterRecv (h : Ctl d r) {area : InfoArea} {rc : Receiver}
    (hr' : r' = r.afterRecv area rc)
    (hdesc : ∀ k, (∀ n, r.taken = n + 1 → k ≠ slot n) → area.desc k = r.area.desc k)
    (hpos : ∀ k, (area.desc k).pos = (r.area.desc k).pos)
    (hready : area.info.ready = r.area.info.ready)
    (hhead : area.info.head = r.area.info.head)
    (htail : area.info.tail = slot r'.taken)
    (htake : r.receiver.takes = true →
      r.taken < r.sent.length ∧ statusAt r.area r.taken = .packetSettled)
    (hpc : Receiver.PcOk d r' rc.pc) : Ctl d r' := by
  subst hr'
  have hroom := h.room
  have hlag := h.lag
  have hle : r.taken ≤ (r.afterRecv area rc).taken := Nat.le_add_right _ _
  have hwait : ∀ n, r.taken ≤ n → n < r.sent.length → area.desc (slot n) = r.area.desc (slot n) := by
    intro n hn hlt
    refine hdesc _ fun m hm heq => ?_
    have := slot_eq_iff.mp heq
    omega
  have hstatus : ∀ n, r.taken ≤ n → n < r.sent.length →
      statusAt area n = statusAt r.area n := fun n hn hlt => by
    rw [statusAt, hwait n hn hlt, ← statusAt]
  refine
    { ready := hready.trans h.ready
      head := hhead.trans h.head
      tail := htail
      pos := fun n => (hpos _).trans (h.pos n)
      order := ?_
      lag := h.lag
      room := Nat.le_trans h.room (Nat.add_le_add_right hle 63)
      quiet := h.quiet
      serial := h.serial
      entry := h.entry
      live := ?_
      frozen := ?_
      apart := h.apart
      sender := ?_
      receiver := hpc }
  · have horder := h.order
    change r.taken + (if r.receiver.takes = true then 1 else 0) ≤ r.sent.length
    split
    · next ht => exact (htake ht).1
    · exact horder
  · intro n e he hn
    have hlt := (List.getElem?_eq_some_iff.mp he).1
    have hn' : r.taken ≤ n := Nat.le_trans hle hn
    obtain ⟨hfilled, hst⟩ := h.live n e he hn'
    refine ⟨hfilled.congr (hwait n hn' hlt), ?_⟩
    change statusAt area n = _ ∨ statusAt area n = _
    rw [hstatus n hn' hlt]
    exact hst
  · intro n hn hlt hfreezing
    have hn' : r.taken ≤ n := Nat.le_trans hle hn
    change statusAt area n = _ at hfreezing
    rw [hstatus n hn' hlt] at hfreezing
    exact h.frozen n hn' hlt hfreezing
  · intro j
    refine (h.sender j).frame (fun k hk => ?_) (fun _ => ⟨rfl, rfl⟩) (fun _ _ he => he) hle ?_
    · refine hdesc k fun n hn heq => ?_
      rw [heq] at hk
      exact h.owned_ne_taken hn hk
    · intro n hn hfreezing
      change r.taken + (if r.receiver.takes = true then 1 else 0) ≤ n
      split
      · next ht =>
          have hsettled := (htake ht).2
          rcases Nat.lt_or_eq_of_le hn with hlt | rfl
          · exact hlt
          · rw [hfreezing] at hsettled
            cases hsettled
      · exact hn

private theorem recvLocal (h : Ctl d r) {area : InfoArea} {rc : Receiver}
    (hdesc : area.desc = r.area.desc) (hready : area.info.ready = r.area.info.ready)
    (hhead : area.info.head = r.area.info.head) (htail : area.info.tail = r.area.info.tail)
    (htakes : r.receiver.takes = false) (hpc : Receiver.PcOk d r rc.pc) :
    Ctl d (r.afterRecv area rc) := by
  have htaken : (r.afterRecv area rc).taken = r.taken := by
    simp [PacketRing.afterRecv, htakes]
  refine h.afterRecv rfl (fun k _ => congrFun hdesc k) (fun k => by rw [hdesc]) hready hhead
    ?_ ?_ ?_
  · rw [htail, htaken]
    exact h.tail
  · intro ht
    rw [htakes] at ht
    cases ht
  · refine hpc.frame (fun n _ => congrFun hdesc _) (fun n _ _ hst => ?_) (fun _ _ he => he)
      (Nat.le_refl _) (Nat.le_refl _) htaken
    change (area.desc (slot n)).status = _
    rw [hdesc]
    exact hst

theorem published_cases (h : Ctl d r) : r.published = r.sent.length ∨
    r.published = r.sent.length + 1 ∧ statusAt r.area r.sent.length = .packetFreezing ∧
      ∃ i, (r.sender i).owned = some (slot r.sent.length) := by
  by_cases hfree : ∃ i, (r.sender i).fetching = true
  · obtain ⟨i, hi⟩ := hfree
    have hok := h.sender i
    cases hpc : r.sender i with
    | idle | bug | loadOffset | sendLoadOffset | sendLoadLength | transfer | storeSettled | oops =>
        rw [hpc] at hi
        cases hi
    | loadHead c =>
        rw [hpc] at hok
        exact .inl hok.2
    | loadTail c head | loadReady c head tail =>
        rw [hpc] at hok
        exact .inl hok.2.1
    | loadTotalLen c head | storeTotalLen c head totalLen | storeFreezing c head =>
        rw [hpc] at hok
        exact .inl hok.2.2.1
    | storeLength c head | storeHead c head =>
        rw [hpc] at hok
        exact .inl hok.2.1.2.1
    | loadPos c head =>
        rw [hpc] at hok
        obtain ⟨-, rfl, hone, hfreezing, -⟩ := hok
        exact .inr ⟨hone, hfreezing, i, by rw [hpc]; rfl⟩
    | storeOffset c head pos =>
        rw [hpc] at hok
        obtain ⟨-, rfl, hone, hfreezing, -, -⟩ := hok
        exact .inr ⟨hone, hfreezing, i, by rw [hpc]; rfl⟩
  · left
    exact h.quiet fun i => Bool.eq_false_iff.mpr fun hf => hfree ⟨i, hf⟩

theorem waiting (h : Ctl d r) {n : Nat} (hle : r.taken ≤ n) (hlt : n < r.published) :
    (n < r.sent.length ∧ statusAt r.area n = .packetSettled) ∨
      (statusAt r.area n = .packetFreezing ∧ ∃ i, (r.sender i).owned = some (slot n)) := by
  by_cases hin : n < r.sent.length
  · obtain ⟨-, hst⟩ := h.live n _ (List.getElem?_eq_getElem hin) hle
    rcases hst with hfreezing | hsettled
    · obtain ⟨i, hi⟩ := h.frozen n hle hin hfreezing
      exact .inr ⟨hfreezing, i, owned_of_inFlight hi⟩
    · exact .inl ⟨hin, hsettled⟩
  · rcases h.published_cases with hall | ⟨hone, hfreezing, hown⟩
    · omega
    · obtain rfl : n = r.sent.length := by omega
      exact .inr ⟨hfreezing, hown⟩

/-- The receiver stores the advanced tail: from here on the packet is its own. -/
private theorem recvTake (h : Ctl d r) {tail : CInt} (hpc : r.receiver.pc = .storeTail tail) :
    Ctl d (r.afterRecv (r.area.store (.tail ((tail + 1).srem 64)))
      (r.receiver.goto (.loadTotalLen tail))) := by
  have hok := h.receiver
  rw [hpc] at hok
  obtain ⟨rfl, hlt, hsettled⟩ := hok
  have htakes : r.receiver.takes = true := by rw [Receiver.takes, hpc]
  have htaken : (r.afterRecv (r.area.store (.tail ((slot r.taken + 1).srem 64)))
      (r.receiver.goto (.loadTotalLen (slot r.taken)))).taken = r.taken + 1 := by
    simp [PacketRing.afterRecv, htakes]
  have hentry := List.getElem?_eq_getElem hlt
  refine h.afterRecv rfl (fun _ _ => rfl) (fun _ => rfl) rfl rfl ?_ (fun _ => ⟨hlt, hsettled⟩)
    ⟨r.taken, _, htaken, rfl, hentry, ?_, hsettled⟩
  · rw [htaken]
    exact slot_succ_srem _
  · exact (h.live _ _ hentry (Nat.le_refl _)).1.congr rfl

private theorem recvRelease (h : Ctl d r) {tail : CInt} {skb : List UInt8}
    (hpc : r.receiver.pc = .storeReleased tail skb) :
    Ctl d (r.afterRecv (r.area.store (.status tail .packetReleased))
      (r.receiver.goto (.groReceive tail skb))) := by
  have hok := h.receiver
  rw [hpc] at hok
  obtain ⟨n, e, hn, rfl, hentry, -, -⟩ := hok
  have htakes : r.receiver.takes = false := by rw [Receiver.takes, hpc]
  have htaken : (r.afterRecv (r.area.store (.status (slot n) .packetReleased))
      (r.receiver.goto (.groReceive (slot n) skb))).taken = r.taken := by
    simp [PacketRing.afterRecv, htakes]
  refine h.afterRecv rfl (fun k hk => ?_) (fun k => ?_) rfl rfl ?_ ?_
    ⟨n, rfl, htaken.trans hn, (List.getElem?_eq_some_iff.mp hentry).1⟩
  · refine r.area.store_desc fun heq => hk n hn ?_
    exact (Option.some.inj heq).symm
  · exact r.area.store_desc_pos k (by simp [Store.word])
  · rw [htaken]
    exact h.tail
  · intro ht
    rw [htakes] at ht
    cases ht

theorem recv (h : Ctl d r) {dev : Memory} {env : RecvEnv} {m : Shm} {rc : Receiver}
    (hs : Receiver.step ⟨r.area, dev⟩ env r.receiver = some (m, rc)) :
    Ctl d (r.afterRecv m.area rc) := by
  have hok := h.receiver
  cases Receiver.step_moves hs with
  | loadHead hpc =>
      refine h.recvLocal rfl rfl rfl rfl (by rw [Receiver.takes, hpc]) ?_
      have horder := h.order
      have hlag := h.lag
      exact ⟨r.published, h.head, by omega, Nat.le_refl _⟩
  | empty hpc => exact h.recvLocal rfl rfl rfl rfl (by rw [Receiver.takes, hpc]) trivial
  | loadTail hpc hne =>
      rw [hpc] at hok
      obtain ⟨k, rfl, hle, hpub⟩ := hok
      refine h.recvLocal rfl rfl rfl rfl (by rw [Receiver.takes, hpc]) ⟨h.tail, ?_⟩
      have hk : k ≠ r.taken := by
        intro heq
        apply hne
        rw [heq]
        exact h.tail.symm
      omega
  | spin hpc => exact h.recvLocal rfl rfl rfl rfl (by rw [Receiver.takes, hpc]) hok
  | unfrozen hpc hfree =>
      rw [hpc] at hok
      obtain ⟨rfl, hlt⟩ := hok
      refine h.recvLocal rfl rfl rfl rfl (by rw [Receiver.takes, hpc]) ⟨rfl, ?_⟩
      rcases h.waiting (Nat.le_refl _) hlt with hsettled | ⟨hfreezing, -⟩
      · exact hsettled
      · exact absurd hfreezing hfree
  | settled hpc =>
      rw [hpc] at hok
      exact h.recvLocal rfl rfl rfl rfl (by rw [Receiver.takes, hpc]) hok
  | unsettled hpc hnot =>
      rw [hpc] at hok
      obtain ⟨rfl, -, hsettled⟩ := hok
      exact absurd hsettled hnot
  | init hpc | notInit hpc | released hpc | changed hpc =>
      rw [hpc] at hok
      cases hok
  | storeTail hpc => exact h.recvTake hpc
  | loadTotalLen hpc | storeTotalLen hpc =>
      rw [hpc] at hok
      exact h.recvLocal rfl rfl rfl rfl (by rw [Receiver.takes, hpc]) hok
  | loadOffset hpc =>
      rw [hpc] at hok
      exact h.recvLocal rfl rfl rfl rfl (by rw [Receiver.takes, hpc]) ⟨hok, rfl⟩
  | loadLength hpc =>
      rw [hpc] at hok
      exact h.recvLocal rfl rfl rfl rfl (by rw [Receiver.takes, hpc]) ⟨hok.1, hok.2, rfl⟩
  | noBuffer hpc | noSkb hpc | full hpc | again hpc =>
      exact h.recvLocal rfl rfl rfl rfl (by rw [Receiver.takes, hpc]) trivial
  | transfer hpc =>
      rw [hpc] at hok
      exact h.recvLocal rfl rfl rfl rfl (by rw [Receiver.takes, hpc]) hok.1
  | storeReleased hpc => exact h.recvRelease hpc

theorem poll (h : Ctl d r) (hold : Bool) (budget : Int) (hidle : r.receiver.pc = .idle) :
    Ctl d { r with receiver := r.receiver.poll hold budget } := by
  have hpc : Receiver.PcOk d r (r.receiver.poll hold budget).pc := by
    cases hold with
    | false => trivial
    | true =>
        simp only [Receiver.poll, if_true, hidle]
        trivial
  refine { h with sender := fun i => ?_, receiver := ?_ }
  · exact (h.sender i).frame (fun _ _ => rfl) (fun _ => ⟨rfl, rfl⟩) (fun _ _ he => he)
      (Nat.le_refl _) (fun _ hn _ => hn)
  · exact hpc.frame (fun _ _ => rfl) (fun _ _ _ hst => hst) (fun _ _ he => he)
      (Nat.le_refl _) (Nat.le_refl _) rfl

variable [DecidableEq ι]

theorem start (h : Ctl d r) {c : Call} (hfits : Sender.Fits d c) (hidle : r.sender i = .idle)
    (hfree : ∀ j, (r.sender j).fetching = false) : Ctl d (r.setSender i (.loadHead c)) := by
  have hquiet := h.quiet hfree
  have hflight : ∀ j, ((r.setSender i (.loadHead c)).sender j).inFlight =
      (r.sender j).inFlight := by
    intro j
    by_cases hj : j = i
    · rw [hj, PacketRing.setSender_self, hidle]
      rfl
    · rw [PacketRing.setSender_of_ne hj]
  have hfetch : ∀ j, ((r.setSender i (.loadHead c)).sender j).fetching = true → j = i := by
    intro j hf
    by_contra hj
    rw [PacketRing.setSender_of_ne hj, hfree j] at hf
    cases hf
  refine
    { h with
      quiet := fun _ => hquiet
      serial := ?_
      frozen := ?_
      apart := ?_
      sender := ?_
      receiver := ?_ }
  · intro j k hj hk
    rw [hfetch j hj, hfetch k hk]
  · intro n hn hlt hfreezing
    obtain ⟨j, hj⟩ := h.frozen n hn hlt hfreezing
    exact ⟨j, by rw [hflight]; exact hj⟩
  · intro j k slot hj hk
    rw [hflight] at hj hk
    exact h.apart j k slot hj hk
  · intro j
    by_cases hj : j = i
    · rw [hj, PacketRing.setSender_self]
      exact ⟨hfits, hquiet⟩
    · rw [PacketRing.setSender_of_ne hj]
      exact (h.sender j).frame (fun _ _ => rfl) (fun _ => ⟨rfl, rfl⟩) (fun _ _ he => he)
        (Nat.le_refl _) (fun _ hn _ => hn)
  · exact h.receiver.frame (fun _ _ => rfl) (fun _ _ _ hst => hst) (fun _ _ he => he)
      (Nat.le_refl _) (Nat.le_refl _) rfl

end Ctl

/-! ## Runs of a ring -/

theorem xmitTarget_fits {hostId target : CInt} {hold : Bool} {skb : Skb}
    (h : xmitTarget hostId hold skb = some target) : skb.headlen ≤ descMaxDmaSize := by
  simp only [xmitTarget] at h
  split at h
  · cases h
  · split at h
    · cases h
    · split at h
      · cases h
      · next hlen => omega

theorem xmitFrame_of_target {hostId : CInt} {hold : Bool} {skb : Skb} (hd : d < 2)
    (h : xmitTarget hostId hold skb = some (BitVec.ofNat 32 d)) :
    Sender.xmitFrame hostId hold skb = .loadHead ⟨BitVec.ofNat 32 d, skb⟩ := by
  have hguard : (2 : CInt).sle (BitVec.ofNat 32 d) = false := by
    obtain rfl | rfl : d = 0 ∨ d = 1 := by omega
    · decide
    · decide
  rw [Sender.xmitFrame, h]
  simp only [hguard]
  rfl

/-- No call of `fetch_packet_desc` on the ring is under way when another one begins. -/
def Serialised : PacketRing ι × Memory → Act ι → Prop
  | s, .xmit _ _ _ => ∀ j, (s.1.sender j).fetching = false
  | _, _ => True

variable [DecidableEq ι] {hostOf : ι → CInt}

theorem Ctl.step {dev dev' : Memory} {a : Act ι} (hd : d < 2) (h : Ctl d r)
    (hok : Serialised (r, dev) a)
    (hs : PacketRing.step hostOf (BitVec.ofNat 32 d) (r, dev) a = some (r', dev')) : Ctl d r' := by
  cases PacketRing.step_moves hs with
  | drop => exact h
  | xmit hidle htarget =>
      rw [xmitFrame_of_target hd htarget]
      exact h.start ⟨rfl, xmitTarget_fits htarget⟩ hidle hok
  | send hstep => exact h.send hstep
  | poll hidle => exact h.poll _ _ hidle
  | recv hstep => exact h.recv hstep

/-- With one sending thread an `xmit` action finds it idle, so calls never overlap. -/
theorem serialised_of_subsingleton [Subsingleton ι] {s s' : PacketRing ι × Memory} {a : Act ι}
    {dst : CInt} (hs : PacketRing.step hostOf dst s a = some s') : Serialised s a := by
  cases PacketRing.step_moves hs with
  | send | poll | recv => trivial
  | @drop i _ _ hidle | @xmit i _ _ hidle =>
      intro j
      rw [Subsingleton.elim j i, hidle]
      rfl

end NupaNet.Ring
