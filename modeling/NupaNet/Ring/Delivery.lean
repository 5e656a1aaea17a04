import NupaNet.Ring.Payload

/-!
# Delivery between two hosts

Two hosts, each with the ring it receives on, over one device memory: host
`1 - d` is the only sender of ring `d`.  An action is one step of one thread on
one ring, so a list of actions is an interleaving of both directions.
-/

namespace NupaNet.Ring

open NupaNet.Foundation

structure World where
  ring : Fin 2 → PacketRing Unit
  dev : Memory

namespace World

def step (w : World) (x : Fin 2 × Act Unit) : Option World :=
  (PacketRing.step (fun _ => BitVec.ofNat 32 (1 - x.1.val)) (BitVec.ofNat 32 x.1.val)
    (w.ring x.1, w.dev) x.2).map fun p =>
      { ring := Function.update w.ring x.1 p.1, dev := p.2 }

/-- Both hosts have finished `adapter_info_init`, whatever their areas held before. -/
def start (areas : Fin 2 → InfoArea) (dev : Memory) : World where
  ring := fun d => PacketRing.fresh ((areas d).storeAll (adapterInfoInit (BitVec.ofNat 32 d.val)))
  dev := dev

def dmaOk (w : World) (x : Fin 2 × Act Unit) : Bool := dmaComplete (w.ring x.1) x.2

end World

def allocOk {ι : Type} : Act ι → Bool
  | .send _ env => env.bufOk
  | .recv env => env.bufOk && env.skbOk
  | _ => true

def World.allOk (w : World) (x : Fin 2 × Act Unit) : Bool := w.dmaOk x && allocOk x.2

/-! ## The invariant of both rings -/

structure World.Inv (w : World) : Prop where
  ctl : ∀ d : Fin 2, Ctl d.val (w.ring d)
  dat : ∀ d : Fin 2, Dat d.val (w.ring d) w.dev

theorem World.inv_start (areas : Fin 2 → InfoArea) (dev : Memory) :
    (World.start areas dev).Inv where
  ctl := fun _ => ctl_fresh (adapterInfoInit_initialised _ _)
  dat := fun _ => dat_fresh _

section

variable {ι : Type} [DecidableEq ι] {d : Nat} {r r' : PacketRing ι} {dev dev' : Memory}
  {hostOf : ι → CInt}

/-- A step of ring `d` changes no device byte outside its region. -/
private theorem Ctl.step_region {a : Act ι} (h : Ctl d r) (hd : d < maxAgentNum)
    (hs : PacketRing.step hostOf (BitVec.ofNat 32 d) (r, dev) a = some (r', dev')) {b : Nat}
    (hb : b < agentTotalDmaSize * d ∨ agentTotalDmaSize * (d + 1) ≤ b) : dev' b = dev b := by
  cases PacketRing.step_moves hs with
  | drop | xmit | poll => rfl
  | send hstep => exact h.send_region hd hstep hb
  | recv hstep => rw [Receiver.step_dev hstep]

end

theorem World.Inv.step {w w' : World} {x : Fin 2 × Act Unit} (h : w.Inv)
    (hok : w.dmaOk x = true) (hs : w.step x = some w') : w'.Inv := by
  obtain ⟨d, a⟩ := x
  simp only [World.step, Option.map_eq_some_iff] at hs
  obtain ⟨⟨r', dev'⟩, hring, rfl⟩ := hs
  have hd : d.val < maxAgentNum := d.isLt
  have hctl := (h.ctl d).step hd (serialised_of_subsingleton hring) hring
  have hdat := (h.dat d).step hd (h.ctl d) hok hring
  refine ⟨fun e => ?_, fun e => ?_⟩
  · by_cases he : e = d
    · subst he
      simpa using hctl
    · simpa [he] using h.ctl e
  · by_cases he : e = d
    · subst he
      simpa using hdat
    · simp only [Function.update_of_ne he]
      refine (h.dat e).dev_congr (h.ctl e) fun b hlo hhi => ?_
      refine (h.ctl d).step_region hd hring ?_
      have hne : e.val ≠ d.val := fun heq => he (Fin.ext heq)
      simp only [agentTotalDmaSize_eq] at hlo hhi ⊢
      omega

theorem World.Inv.run {areas : Fin 2 → InfoArea} {dev : Memory} {as : List (Fin 2 × Act Unit)}
    {w : World} (run : Runs World.step (fun w x => w.dmaOk x = true) (World.start areas dev) as w) :
    w.Inv :=
  run.invariant World.Inv.step (World.inv_start areas dev)

/-! ## Nothing is lost while allocations succeed -/

def PollPc.pending : PollPc → Nat
  | .loadTotalLen _ | .storeTotalLen _ _ | .loadOffset _ | .loadLength _ _ | .transfer _ _ _
  | .storeReleased _ _ | .groReceive _ _ => 1
  | _ => 0

def NoLoss {ι : Type} (r : PacketRing ι) : Prop :=
  r.delivered.map Prod.fst = List.range (r.taken - r.receiver.pc.pending)

section

variable {ι : Type} {d : Nat} {r r' : PacketRing ι} {dev dev' : Memory}

private theorem noLoss_fresh (area : InfoArea) : NoLoss (PacketRing.fresh (ι := ι) area) := by
  simp [NoLoss, PacketRing.fresh]

theorem NoLoss.recv (h : NoLoss r) (hc : Ctl d r) {env : RecvEnv} {m : Shm} {rc : Receiver}
    (hok : allocOk (.recv env : Act ι) = true)
    (hs : Receiver.step ⟨r.area, dev⟩ env r.receiver = some (m, rc)) :
    NoLoss (r.afterRecv m.area rc) := by
  have hpcok := hc.receiver
  unfold NoLoss at h ⊢
  -- the last packet taken counts as pending from the store of the tail to `napi_gro_receive`
  have hgro : ∀ {tail : CInt} {skb : List UInt8}, r.receiver.pc = .groReceive tail skb →
      rc.pc.pending = 0 → (r.afterRecv m.area rc).delivered.map Prod.fst =
        List.range ((r.afterRecv m.area rc).taken - rc.pc.pending) := by
    intro tail skb hpc hnext
    rw [hpc] at hpcok
    obtain ⟨n, -, hn, -⟩ := hpcok
    simp only [hpc, PollPc.pending, hn, Nat.add_sub_cancel] at h
    simp [PacketRing.afterRecv, Receiver.takes, Receiver.delivers, hpc, hnext, hn, h,
      List.range_succ]
  simp only [allocOk, Bool.and_eq_true] at hok
  cases Receiver.step_moves hs with
  | full hpc | again hpc => exact hgro hpc rfl
  | noBuffer hpc hbuf => simp [hbuf] at hok
  | noSkb hpc hbuf hskb => simp [hskb] at hok
  | init hpc | notInit hpc | released hpc | changed hpc =>
      rw [hpc] at hpcok
      cases hpcok
  | _ hpc =>
      simpa [PacketRing.afterRecv, Receiver.takes, Receiver.delivers, Receiver.goto,
        Receiver.leave, hpc, PollPc.pending] using h

theorem NoLoss.step [DecidableEq ι] {hostOf : ι → CInt} {dst : CInt} {a : Act ι} (h : NoLoss r)
    (hc : Ctl d r) (hok : allocOk a = true)
    (hs : PacketRing.step hostOf dst (r, dev) a = some (r', dev')) : NoLoss r' := by
  cases PacketRing.step_moves hs with
  | drop | xmit | send => exact h
  | @poll hold budget hidle =>
      change r.receiver.pc = .idle at hidle
      unfold NoLoss at h ⊢
      simp only [hidle, PollPc.pending] at h
      cases hold with
      | false => simpa [Receiver.poll, PollPc.pending] using h
      | true => simpa [Receiver.poll, hidle, PollPc.pending] using h
  | recv hstep => exact h.recv hc hok hstep

theorem NoLoss.prefix_sent (h : NoLoss r) (hdat : Dat d r dev) :
    r.delivered.map Prod.snd <+: r.sent.map Returned.frame := by
  have hlen : r.delivered.length = r.taken - r.receiver.pc.pending := by
    have := congrArg List.length h
    simpa using this
  rw [List.prefix_iff_eq_take, List.length_map]
  apply List.ext_getElem?
  intro n
  by_cases hn : n < r.delivered.length
  · have hnum : r.delivered[n].1 = n := by
      have hget : (r.delivered.map Prod.fst)[n]? =
          (List.range (r.taken - r.receiver.pc.pending))[n]? := by rw [h]
      rw [List.getElem?_map, List.getElem?_eq_getElem hn, List.getElem?_range (by omega)] at hget
      simpa using hget
    have hmem : (r.delivered[n].1, r.delivered[n].2) ∈ r.delivered := List.getElem_mem hn
    obtain ⟨e, hentry, hframe⟩ := hdat.delivered _ _ hmem
    rw [hnum] at hentry
    rw [List.getElem?_map, List.getElem?_eq_getElem hn, List.getElem?_take, if_pos hn,
      List.getElem?_map, hentry]
    simp [hframe]
  · rw [List.getElem?_eq_none (by simpa using hn), List.getElem?_take, if_neg hn]

/-! ## The slots between tail and head -/

def InfoArea.waiting (area : InfoArea) : List CInt :=
  (List.range ((area.info.head.toNat + 64 - area.info.tail.toNat) % 64)).map fun j =>
    BitVec.ofNat 32 ((area.info.tail.toNat + j) % 64)

private theorem Ctl.mem_waiting (h : Ctl d r) {k : CInt} (hk : k ∈ r.area.waiting) :
    ∃ n, r.taken ≤ n ∧ n < r.published ∧ k = slot n := by
  have horder := h.order
  have hlag := h.lag
  have hroom := h.room
  simp only [InfoArea.waiting, h.head, h.tail, slot_toNat, List.mem_map, List.mem_range] at hk
  obtain ⟨j, hj, rfl⟩ := hk
  refine ⟨r.taken + j, by omega, by omega, ?_⟩
  rw [slot, maxDescNum_eq]
  congr 1
  omega

end

def slotBase (d : Nat) (k : CInt) : Nat := agentTotalDmaSize * d + k.toNat * descMaxDmaSize

private theorem slotBase_slot (d n : Nat) : slotBase d (slot n) = blockBase d n := by
  rw [slotBase, slot_toNat, blockBase, maxDescNum_eq]

/-- A slot between tail and head is being filled by the sender, or it is settled and holds the
frame of the packet that waits there. -/
def WaitingOk (d : Nat) (r : PacketRing Unit) (dev : Memory) (k : CInt) : Prop :=
  (r.area.desc k).pos = k ∧
    ((r.area.desc k).status = .packetFreezing ∧ (r.sender ()).owned = some k ∨
      (r.area.desc k).status = .packetSettled ∧ ∃ n e, r.taken ≤ n ∧ r.sent[n]? = some e ∧
        e.desc = k ∧ (r.area.desc k).length.toNat = e.frame.length ∧
        devAddr (r.area.desc k).offset = slotBase d k ∧
        block dev (slotBase d k) e.frame.length = e.frame)

private theorem Ctl.waitingOk {d : Nat} (hd : d < maxAgentNum) {r : PacketRing Unit} {dev : Memory}
    (h : Ctl d r) (hdat : Dat d r dev) {k : CInt} (hk : k ∈ r.area.waiting) :
    WaitingOk d r dev k := by
  obtain ⟨n, hle, hlt, rfl⟩ := h.mem_waiting hk
  refine ⟨h.pos n, ?_⟩
  rcases h.waiting hle hlt with ⟨hin, hsettled⟩ | ⟨hfreezing, i, hown⟩
  · have hentry := List.getElem?_eq_getElem hin
    obtain ⟨hdesc, hfits⟩ := h.entry n _ hentry
    obtain ⟨hfilled, -⟩ := h.live n _ hentry hle
    have hbound := blockBase_lt hd n
    simp only [descMaxDmaSize_eq, totalDmaSize_eq] at hfits hbound
    refine .inr ⟨hsettled, n, _, hle, hentry, hdesc, ?_, ?_, ?_⟩
    · rw [hfilled.length, BitVec.toNat_ofNat]
      omega
    · rw [hfilled.offset, slotBase_slot]
      exact devAddr_ofNat (by omega)
    · rw [slotBase_slot]
      exact hdat.settled n _ hentry hle hsettled
  · exact .inl ⟨hfreezing, hown⟩

/-! ## The slot being read -/

def Act.bySender {ι : Type} : Act ι → Bool
  | .xmit _ _ _ | .send _ _ => true
  | .poll _ _ | .recv _ => false

private theorem Ctl.holding_slot {ι : Type} {d : Nat} {r : PacketRing ι} (h : Ctl d r) {k : CInt}
    (hk : r.receiver.holding = some k) : ∃ n, r.taken = n + 1 ∧ k = slot n := by
  have hok := h.receiver
  cases hpc : r.receiver.pc with
  | loadTotalLen tail | storeTotalLen tail totalLen | loadOffset tail | storeReleased tail skb =>
      rw [hpc] at hok
      simp only [Receiver.holding, hpc, Option.some.injEq] at hk
      obtain ⟨n, e, hn, hslot, -⟩ := hok
      exact ⟨n, hn, hk.symm.trans hslot⟩
  | loadLength tail offset | transfer tail offset length =>
      rw [hpc] at hok
      simp only [Receiver.holding, hpc, Option.some.injEq] at hk
      obtain ⟨⟨n, e, hn, hslot, -⟩, -⟩ := hok
      exact ⟨n, hn, hk.symm.trans hslot⟩
  | _ => simp [Receiver.holding, hpc] at hk

private theorem Ctl.sender_keeps_held {ι : Type} [DecidableEq ι] {hostOf : ι → CInt} {d : Nat}
    {r r' : PacketRing ι} {dev dev' : Memory} {a : Act ι} (h : Ctl d r) (hd : d < maxAgentNum)
    {k : CInt} (hk : r.receiver.holding = some k) (ha : a.bySender = true)
    (hs : PacketRing.step hostOf (BitVec.ofNat 32 d) (r, dev) a = some (r', dev')) :
    r'.area.desc k = r.area.desc k ∧
      ∀ b, slotBase d k ≤ b → b < slotBase d k + descMaxDmaSize → dev' b = dev b := by
  obtain ⟨n, hn, rfl⟩ := h.holding_slot hk
  cases PacketRing.step_moves hs with
  | poll | recv => cases ha
  | drop | xmit => exact ⟨rfl, fun _ _ _ => rfl⟩
  | send hstep =>
      rw [slotBase_slot]
      exact ⟨Sender.step_desc hstep (h.owned_ne_taken hn),
        fun b hlo hhi => h.send_block hd hstep (h.owned_ne_taken hn) hlo hhi⟩

private theorem World.Inv.sender_keeps_held {w w' : World} (h : w.Inv) {d : Fin 2} {k : CInt}
    (hk : (w.ring d).receiver.holding = some k) {x : Fin 2 × Act Unit} (hx : x.2.bySender = true)
    (hs : w.step x = some w') :
    (w'.ring d).area.desc k = (w.ring d).area.desc k ∧
      ∀ b, slotBase d.val k ≤ b → b < slotBase d.val k + descMaxDmaSize → w'.dev b = w.dev b := by
  obtain ⟨e, a⟩ := x
  simp only [World.step, Option.map_eq_some_iff] at hs
  obtain ⟨⟨r', dev'⟩, hring, rfl⟩ := hs
  by_cases he : d = e
  · subst he
    simpa using (h.ctl d).sender_keeps_held d.isLt hk hx hring
  · simp only [Function.update_of_ne he]
    refine ⟨trivial, fun b hlo hhi => ?_⟩
    obtain ⟨n, -, rfl⟩ := (h.ctl d).holding_slot hk
    rw [slotBase_slot] at hlo hhi
    refine (h.ctl e).step_region e.isLt hring ?_
    have hne : d.val ≠ e.val := fun heq => he (Fin.ext heq)
    have hlt : n % 64 < 64 := Nat.mod_lt _ (by decide)
    simp only [blockBase, agentTotalDmaSize_eq, maxDescNum_eq, descMaxDmaSize_eq] at hlo hhi ⊢
    omega

/-! ## Main results -/

section

variable {areas : Fin 2 → InfoArea} {dev : Memory} {as : List (Fin 2 × Act Unit)} {w : World}

theorem World.noLoss
    (run : Runs World.step (fun w x => w.allOk x = true) (World.start areas dev) as w) :
    w.Inv ∧ ∀ d, NoLoss (w.ring d) := by
  have hstart : (World.start areas dev).Inv ∧ ∀ d, NoLoss ((World.start areas dev).ring d) :=
    ⟨World.inv_start areas dev, fun d => noLoss_fresh _⟩
  refine run.invariant (P := fun w => w.Inv ∧ ∀ d, NoLoss (w.ring d)) ?_ hstart
  rintro s a t ⟨h, hloss⟩ hok hs
  simp only [World.allOk, Bool.and_eq_true] at hok
  refine ⟨h.step hok.1 hs, fun e => ?_⟩
  obtain ⟨d, b⟩ := a
  simp only [World.step, Option.map_eq_some_iff] at hs
  obtain ⟨⟨r', dev'⟩, hring, rfl⟩ := hs
  by_cases he : e = d
  · subst he
    simpa using (hloss e).step (h.ctl e) hok.2 hring
  · simpa [he] using hloss e

/-- In every interleaving of both directions in which DMA and allocation succeed: what reaches
the stack is a prefix of what was sent, a slot between the tail store and its release is left
alone by the senders, and every slot from tail to head is being filled or holds its packet. -/
theorem ring_delivery
    (run : Runs World.step (fun w x => w.allOk x = true) (World.start areas dev) as w)
    (d : Fin 2) :
    ((w.ring d).delivered.map Prod.snd <+: (w.ring d).sent.map Returned.frame) ∧
      (∀ k, (w.ring d).receiver.holding = some k → ∀ x w', x.2.bySender = true →
        w.step x = some w' → (w'.ring d).area.desc k = (w.ring d).area.desc k ∧
          ∀ b, slotBase d.val k ≤ b → b < slotBase d.val k + descMaxDmaSize →
            w'.dev b = w.dev b) ∧
      ∀ k ∈ (w.ring d).area.waiting, WaitingOk d.val (w.ring d) w.dev k := by
  obtain ⟨hinv, hloss⟩ := World.noLoss run
  refine ⟨(hloss d).prefix_sent (hinv.dat d), ?_, ?_⟩
  · intro k hk x w' hx hs
    exact hinv.sender_keeps_held hk hx hs
  · intro k hk
    exact (hinv.ctl d).waitingOk d.isLt (hinv.dat d) hk

end

def sampleSkb : Skb where
  data := fun k => [0xfc, 0xaf, 0xac, 0, 0, 0, 0xfc, 0xaf, 0xac, 0, 0, 1, 8, 0].getD k 0
  headlen := 14

def oneFrame (sendDma recvDma : Dma) : List (Fin 2 × Act Unit) :=
  (0, .xmit () false sampleSkb) ::
    (List.replicate 15 (0, .send () ⟨0, true, sendDma⟩) ++
      (0, .poll false 64) :: List.replicate 12 (0, .recv ⟨true, true, fun _ => 0, recvDma⟩))

theorem ring_delivery_oneFrame :
    ∃ as w, Runs World.step (fun w x => w.allOk x = true)
        (World.start (fun _ => zeroArea) (fun _ => 0)) as w ∧
      (w.ring 0).delivered.map Prod.snd = [sampleSkb.frame] ∧
      [sampleSkb.frame] <+: (w.ring 0).sent.map Returned.frame := by
  have hexec : (exec (guarded World.step World.allOk)
      (World.start (fun _ => zeroArea) (fun _ => 0)) (oneFrame (Dma.full 14) (Dma.full 14))).map
        (fun w => (w.ring 0).delivered.map Prod.snd) = some [sampleSkb.frame] := by
    decide +kernel
  obtain ⟨w, hw, hdelivered⟩ := Option.map_eq_some_iff.mp hexec
  have hrun := runs_of_guarded hw
  refine ⟨_, w, hrun, hdelivered, ?_⟩
  rw [← hdelivered]
  exact (ring_delivery hrun 0).1

/-! ## Corrupted frames

Neither host looks at the result of its DMA, so the status word says nothing
about the bytes unless every transfer was complete. -/

/-- Every buffer passed up, every buffer about to be, and the block of every settled packet hold
the frame that was put in the descriptor. -/
structure Intact (d : Nat) (r : PacketRing Unit) (dev : Memory) : Prop where
  delivered : ∀ (n : Nat) skb, (n, skb) ∈ r.delivered →
    ∃ e, r.sent[n]? = some e ∧ e.desc = slot n ∧ skb = e.frame
  settled : ∀ (n : Nat) e, r.sent[n]? = some e → r.taken ≤ n →
    (r.area.desc e.desc).status = .packetSettled →
      block dev (slotBase d e.desc) (r.area.desc e.desc).length.toNat = e.frame
  skb : ∀ tail skb, r.receiver.pc = .storeReleased tail skb ∨ r.receiver.pc = .groReceive tail skb →
    ∃ (n : Nat) (e : Returned), r.taken = n + 1 ∧ r.sent[n]? = some e ∧ e.desc = tail ∧
      skb = e.frame

theorem World.Inv.intact {w : World} (h : w.Inv) (d : Fin 2) : Intact d.val (w.ring d) w.dev where
  delivered := by
    intro n skb hmem
    obtain ⟨e, hentry, hframe⟩ := (h.dat d).delivered n skb hmem
    exact ⟨e, hentry, ((h.ctl d).entry n e hentry).1, hframe.symm⟩
  settled := by
    intro n e hentry hn hsettled
    obtain ⟨hdesc, hfits⟩ := (h.ctl d).entry n e hentry
    obtain ⟨hfilled, -⟩ := (h.ctl d).live n e hentry hn
    rw [hdesc] at hsettled ⊢
    have hlength : ((w.ring d).area.desc (slot n)).length.toNat = e.frame.length := by
      simp only [descMaxDmaSize_eq] at hfits
      rw [hfilled.length, BitVec.toNat_ofNat]
      omega
    rw [slotBase_slot, hlength]
    exact (h.dat d).settled n e hentry hn hsettled
  skb := by
    intro tail skb hpc
    obtain ⟨n, e, hn, hentry, hframe⟩ := (h.dat d).skb tail skb hpc
    refine ⟨n, e, hn, hentry, ?_, hframe⟩
    rw [((h.ctl d).entry n e hentry).1]
    have hok := (h.ctl d).receiver
    rcases hpc with hpc | hpc
    · rw [hpc] at hok
      obtain ⟨k, -, hk, htail, -⟩ := hok
      obtain rfl : k = n := by omega
      exact htail.symm
    · rw [hpc] at hok
      obtain ⟨k, htail, hk, -⟩ := hok
      obtain rfl : k = n := by omega
      exact htail.symm

end NupaNet.Ring
