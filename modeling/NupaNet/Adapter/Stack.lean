import NupaNet.Adapter.Frame
import NupaNet.Ring.Queue

/-!
# Both hosts with their DMA

The two rings over the driver's own transfers.  In `World` a step of a ring is
told what became of its DMA; here the step is a call of `xdma_send_data` or
`xdma_receive_data`, on the first engine of its host and through the page table,
the request and the descriptors, over one device memory that is addressed by 64
bits.  Every run here is a run of `World`, and where everything completes it is
a run of two queues.
-/

namespace NupaNet.Adapter

open NupaNet.Foundation NupaNet.Xdma NupaNet.Ring

/-- What a host moves its frames with: its memory by bus address, and the first engine of each
direction. -/
structure Card where
  host : U64 → UInt8
  engineH2c : XdmaEngine
  engineC2h : XdmaEngine

structure Stack where
  ring : Fin 2 → PacketRing Unit
  card : Fin 2 → Card
  dev : U64 → UInt8

/-- A thread's step; the environment of a transfer is used by the step that makes one. -/
inductive StackAct where
  | xmit (holdIcCtl : Bool) (skb : Skb)
  | send (totalLen : CInt) (env : TransferEnv)
  | poll (holdIcCtl : Bool) (budget : Int)
  | recv (skbOk : Bool) (env : TransferEnv)

namespace Stack

def peer (d : Fin 2) : Fin 2 := d.rev

def world (s : Stack) : World := { ring := s.ring, dev := bytesOf s.dev }

def setRing (s : Stack) (d : Fin 2) (ring : PacketRing Unit) : Stack :=
  { s with ring := Function.update s.ring d ring }

def setCard (s : Stack) (h : Fin 2) (card : Card) : Stack :=
  { s with card := Function.update s.card h card }

def ringStep (s : Stack) (d : Fin 2) (a : Act Unit) : Option Stack :=
  (PacketRing.step (fun _ => BitVec.ofNat 32 (1 - d.val)) (BitVec.ofNat 32 d.val)
    (s.ring d, bytesOf s.dev) a).map fun p => s.setRing d p.1

def sendCall (s : Stack) (d : Fin 2) (env : TransferEnv) (offset length : CInt) (skb : Skb) :
    SendData :=
  let card := s.card (peer d)
  xdmaSendData env card.engineH2c ⟨card.host, s.dev⟩ offset length skb

def receiveCall (s : Stack) (d : Fin 2) (skbOk : Bool) (env : TransferEnv)
    (offset length : CInt) : ReceiveData :=
  let card := s.card d
  xdmaReceiveData env skbOk card.engineC2h ⟨card.host, s.dev⟩ offset length

/-- `nupanet_xmit_frame` at its call of `xdma_send_data`. -/
def transmit (s : Stack) (d : Fin 2) (env : TransferEnv) (c : Call)
    (head offset length : CInt) : Option Stack :=
  let ring := s.ring d
  let card := s.card (peer d)
  match s.sendCall d env offset length c.skb with
  | .hangs => none
  | .faults mem =>
      some { (s.setRing d (ring.afterSend () ring.area (.oops c head))).setCard (peer d)
        { card with host := mem.host } with dev := mem.dev }
  | .returned _ _ mem engine =>
      some { (s.setRing d (ring.afterSend () ring.area (.storeSettled c head))).setCard (peer d)
        { card with host := mem.host, engineH2c := engine } with dev := mem.dev }

/-- `nupanet_poll` at its call of `xdma_receive_data`. -/
def receive (s : Stack) (d : Fin 2) (skbOk : Bool) (env : TransferEnv)
    (tail offset length : CInt) : Option Stack :=
  let ring := s.ring d
  let card := s.card d
  match s.receiveCall d skbOk env offset length with
  | .hangs => none
  | .null => some (s.setRing d (ring.afterRecv ring.area ring.receiver.leave))
  | .faults mem engine =>
      some { (s.setRing d (ring.afterRecv ring.area (ring.receiver.goto .oops))).setCard d
        { card with host := mem.host, engineC2h := engine } with dev := mem.dev }
  | .returned _ _ skb mem engine =>
      some { (s.setRing d (ring.afterRecv ring.area
          (ring.receiver.goto (.storeReleased tail skb)))).setCard d
        { card with host := mem.host, engineC2h := engine } with dev := mem.dev }

def idleSend (totalLen : CInt) : Act Unit := .send () ⟨totalLen, true, Dma.full 0⟩

def idleRecv : Act Unit := .recv ⟨true, true, fun _ => 0, Dma.full 0⟩

def step (s : Stack) (x : Fin 2 × StackAct) : Option Stack :=
  match x.2 with
  | .xmit holdIcCtl skb => s.ringStep x.1 (.xmit () holdIcCtl skb)
  | .poll holdIcCtl budget => s.ringStep x.1 (.poll holdIcCtl budget)
  | .send totalLen env =>
      match (s.ring x.1).sender () with
      | .transfer c head offset length => s.transmit x.1 env c head offset length
      | _ => s.ringStep x.1 (idleSend totalLen)
  | .recv skbOk env =>
      match (s.ring x.1).receiver.pc with
      | .transfer tail offset length => s.receive x.1 skbOk env tail offset length
      | _ => s.ringStep x.1 idleRecv

/-! ## What a step is to the rings -/

/-- Of a frame without bytes nothing is left to move, whatever the call returned. -/
def dmaOf (length : CInt) (res : Int) (moved : Nat) : Dma where
  res := if length.toNat = 0 then 0 else res
  moved := fun k => k < moved

def sendEnvOf (totalLen length : CInt) : SendData → SendEnv
  | .returned ret moved _ _ => ⟨totalLen, true, dmaOf length ret moved⟩
  | _ => ⟨totalLen, false, Dma.full 0⟩

def recvEnvOf (length : CInt) (fresh : Memory) : ReceiveData → RecvEnv
  | .returned res moved _ _ _ => ⟨true, true, fresh, dmaOf length res moved⟩
  | .null => ⟨true, false, fresh, Dma.full 0⟩
  | _ => ⟨false, true, fresh, Dma.full 0⟩

def ringAct (s : Stack) (x : Fin 2 × StackAct) : Act Unit :=
  match x.2 with
  | .xmit holdIcCtl skb => .xmit () holdIcCtl skb
  | .poll holdIcCtl budget => .poll holdIcCtl budget
  | .send totalLen env =>
      match (s.ring x.1).sender () with
      | .transfer c _ offset length =>
          .send () (sendEnvOf totalLen length (s.sendCall x.1 env offset length c.skb))
      | _ => idleSend totalLen
  | .recv skbOk env =>
      match (s.ring x.1).receiver.pc with
      | .transfer _ offset length =>
          .recv (recvEnvOf length (env.fresh ⟨(s.card x.1).host, s.dev⟩ length)
            (s.receiveCall x.1 skbOk env offset length))
      | _ => idleRecv

def label (s : Stack) (x : Fin 2 × StackAct) : Option (Fin 2 × Act Unit) :=
  some (x.1, s.ringAct x)

end Stack

/-! ## The invariant -/

/-- The engines of both hosts take memory-mapped transfers. -/
def Stack.Serving (s : Stack) : Prop :=
  ∀ h, Serves .toDevice (s.card h).engineH2c ∧ Serves .fromDevice (s.card h).engineC2h

structure Stack.Inv (s : Stack) : Prop where
  ctl : ∀ d : Fin 2, Ctl d.val (s.ring d)
  serving : s.Serving

/-- `desc_blen_max`, by which requests are divided, is not 0. -/
def StackAct.Limited : StackAct → Prop
  | .send _ env | .recv _ env => env.dma.descBlenMax ≠ 0
  | _ => True

/-- Every allocation succeeds and every transfer completes. -/
def StackAct.Completes : StackAct → Prop
  | .send _ env => env.Completes
  | .recv skbOk env => skbOk = true ∧ env.Completes
  | _ => True

theorem StackAct.Completes.limited {a : StackAct} (h : a.Completes) : a.Limited := by
  cases a with
  | xmit | poll => trivial
  | send totalLen env => exact h.dma.limit
  | recv skbOk env => exact h.2.dma.limit

section Bounds

variable {d : Nat} {r : PacketRing Unit}

private theorem Filled.bounds {n : Nat} {frame : List UInt8} (h : Filled d r.area n frame)
    (hd : d < maxAgentNum) (fits : frame.length ≤ descMaxDmaSize) :
    (r.area.desc (slot n)).length.toNat ≤ pageSize ∧
      devAddr (r.area.desc (slot n)).offset + (r.area.desc (slot n)).length.toNat ≤ 2 ^ 64 := by
  have hblock := blockBase_lt hd n
  simp only [descMaxDmaSize_eq, totalDmaSize_eq] at fits hblock
  rw [h.offset, h.length, devAddr_ofNat (by omega), BitVec.toNat_ofNat,
    show pageSize = 4096 from rfl]
  omega

private theorem Ctl.send_bounds (h : Ctl d r) (hd : d < maxAgentNum) {c : Call}
    {head offset length : CInt} (hpc : r.sender () = .transfer c head offset length) :
    length.toNat ≤ pageSize ∧ devAddr offset + length.toNat ≤ 2 ^ 64 := by
  have hok := h.sender ()
  rw [hpc] at hok
  obtain ⟨⟨n, hle, rfl, hentry, -⟩, rfl, rfl⟩ := hok
  exact Filled.bounds (h.live n _ hentry hle).1 hd (h.entry n _ hentry).2

private theorem Ctl.recv_bounds (h : Ctl d r) (hd : d < maxAgentNum) {tail offset length : CInt}
    (hpc : r.receiver.pc = .transfer tail offset length) :
    length.toNat ≤ pageSize ∧ devAddr offset + length.toNat ≤ 2 ^ 64 := by
  have hok := h.receiver
  rw [hpc] at hok
  obtain ⟨⟨n, e, -, rfl, hentry, hfilled, -⟩, rfl, rfl⟩ := hok
  exact Filled.bounds hfilled hd (h.entry n e hentry).2

end Bounds

/-! ## One step -/

private theorem world_step_ctl {w w' : World} {x : Fin 2 × Act Unit}
    (h : ∀ d : Fin 2, Ctl d.val (w.ring d)) (hs : w.step x = some w') :
    ∀ d : Fin 2, Ctl d.val (w'.ring d) := by
  obtain ⟨d, a⟩ := x
  simp only [World.step, Option.map_eq_some_iff] at hs
  obtain ⟨⟨r', dev'⟩, hring, rfl⟩ := hs
  intro e
  by_cases he : e = d
  · subst he
    simpa using (h e).step e.isLt (serialised_of_subsingleton hring) hring
  · simpa [he] using h e

namespace Stack

variable {s t : Stack} {d : Fin 2}

private theorem ringStep_world {a : Act Unit}
    (quiet : ∀ env, a = .send () env → ∀ c head offset length,
      (s.ring d).sender () ≠ .transfer c head offset length) :
    s.world.step (d, a) = (s.ringStep d a).map world := by
  unfold ringStep World.step
  cases hring : PacketRing.step (fun _ => BitVec.ofNat 32 (1 - d.val)) (BitVec.ofNat 32 d.val)
      (s.ring d, bytesOf s.dev) a with
  | none =>
      simp only [world, hring, Option.map_none]
  | some p =>
      obtain ⟨r', dev'⟩ := p
      have hdev : dev' = bytesOf s.dev := by
        cases PacketRing.step_moves hring with
        | drop | xmit | poll => rfl
        | send hstep => exact Sender.step_dev hstep (quiet _ rfl)
        | recv hstep => exact Receiver.step_dev hstep
      subst hdev
      simp only [world, hring, Option.map_some]
      rfl

private theorem ringStep_serving {a : Act Unit} (serving : s.Serving)
    (hs : s.ringStep d a = some t) :
    t.Serving := by
  simp only [ringStep, Option.map_eq_some_iff] at hs
  obtain ⟨p, -, rfl⟩ := hs
  exact serving

private theorem world_send (s : Stack) (d : Fin 2) (env : SendEnv) :
    s.world.step (d, .send () env) =
      (Sender.step ⟨(s.ring d).area, bytesOf s.dev⟩ env ((s.ring d).sender ())).map fun p =>
        { ring := Function.update s.ring d ((s.ring d).afterSend () p.1.area p.2)
          dev := p.1.dev } := by
  simp only [World.step, world, PacketRing.step, Option.map_map]
  rfl

private theorem world_recv (s : Stack) (d : Fin 2) (env : RecvEnv) :
    s.world.step (d, .recv env) =
      (Receiver.step ⟨(s.ring d).area, bytesOf s.dev⟩ env (s.ring d).receiver).map fun p =>
        { ring := Function.update s.ring d ((s.ring d).afterRecv p.1.area p.2)
          dev := p.1.dev } := by
  simp only [World.step, world, PacketRing.step, Option.map_map]
  rfl

private theorem Serving.setCard (h : s.Serving) {card : Card} (host : Fin 2)
    (h2c : Serves .toDevice card.engineH2c) (c2h : Serves .fromDevice card.engineC2h) :
    (s.setCard host card).Serving := by
  intro k
  by_cases hk : k = host
  · subst hk
    simpa [Stack.setCard] using ⟨h2c, c2h⟩
  · simpa [Stack.setCard, hk] using h k

private theorem dmaOf_complete {length : CInt} {res : Int} {moved : Nat}
    (hmoved : moved = length.toNat)
    (hres : 0 < length.toNat → res = length.toNat) :
    (dmaOf length res moved).Complete length.toNat := by
  refine ⟨?_, fun k hk => decide_eq_true (hmoved ▸ hk)⟩
  unfold dmaOf
  split
  · next hzero => rw [hzero]; rfl
  · exact hres (by omega)

private theorem transmit_world (h : s.Inv) (totalLen : CInt) {env : TransferEnv}
    (limit : env.dma.descBlenMax ≠ 0) {c : Call} {head offset length : CInt}
    (hpc : (s.ring d).sender () = .transfer c head offset length) :
    let act : Act Unit :=
      .send () (sendEnvOf totalLen length (s.sendCall d env offset length c.skb))
    ∃ t, s.transmit d env c head offset length = some t ∧
      s.world.step (d, act) = some t.world ∧ t.Serving ∧
      (env.Completes → s.world.allOk (d, act) = true) := by
  obtain ⟨hshort, hwithin⟩ := Ctl.send_bounds (h.ctl d) d.isLt hpc
  intro act
  unfold transmit
  rcases xdmaSendData_overlay limit (h.serving (peer d)).1 ⟨(s.card (peer d)).host, s.dev⟩ c.skb
    hshort hwithin with
      ⟨mem, hcall, hdev, hfaults⟩ | ⟨ret, moved, mem, engine, hcall, hserves, hdev, hfull⟩
  · replace hcall : s.sendCall d env offset length c.skb = .faults mem := hcall
    simp only [hcall]
    refine ⟨_, rfl, ?_, ?_, fun completes => absurd completes hfaults⟩
    · simp only [act, hcall, world_send, hpc, Sender.step, sendEnvOf, Bool.not_false, if_true,
        Option.map_some]
      rw [world, hdev]
      rfl
    · exact h.serving.setCard _ (h.serving _).1 (h.serving _).2
  · replace hcall : s.sendCall d env offset length c.skb = .returned ret moved mem engine := hcall
    simp only [hcall]
    refine ⟨_, rfl, ?_, ?_, fun completes => ?_⟩
    · simp only [act, hcall, world_send, hpc, Sender.step, sendEnvOf, Bool.not_true,
        Bool.false_eq_true, if_false, Option.map_some]
      rw [world, hdev]
      rfl
    · exact h.serving.setCard _ hserves (h.serving _).2
    · obtain ⟨hmoved, hret⟩ := hfull completes
      have hcomplete := dmaOf_complete hmoved hret
      simp only [World.allOk, World.dmaOk, dmaComplete, world, act, hcall, hpc, sendEnvOf,
        allocOk, Bool.and_true, decide_eq_true hcomplete]

private theorem receive_world (h : s.Inv) (skbOk : Bool) {env : TransferEnv}
    (limit : env.dma.descBlenMax ≠ 0) {tail offset length : CInt}
    (hpc : (s.ring d).receiver.pc = .transfer tail offset length) :
    let act : Act Unit :=
      .recv (recvEnvOf length (env.fresh ⟨(s.card d).host, s.dev⟩ length)
        (s.receiveCall d skbOk env offset length))
    ∃ t, s.receive d skbOk env tail offset length = some t ∧
      s.world.step (d, act) = some t.world ∧ t.Serving ∧
      (skbOk = true ∧ env.Completes → s.world.allOk (d, act) = true) := by
  obtain ⟨hshort, hwithin⟩ := Ctl.recv_bounds (h.ctl d) d.isLt hpc
  intro act
  unfold receive
  rcases xdmaReceiveData_overlay limit (h.serving d).2 skbOk ⟨(s.card d).host, s.dev⟩
    hshort hwithin with
      ⟨hcall, hnull⟩ | ⟨mem, engine, hcall, hserves, hdev, hfaults⟩ |
        ⟨res, moved, skb, mem, engine, hcall, hserves, hdev, hskb, hfull⟩
  · replace hcall : s.receiveCall d skbOk env offset length = .null := hcall
    simp only [hcall]
    refine ⟨_, rfl, ?_, h.serving, fun completes => absurd completes.2 hnull⟩
    simp only [act, hcall, world_recv, Receiver.step, hpc, recvEnvOf, Bool.not_false, if_true,
      Option.map_some]
    rfl
  · replace hcall : s.receiveCall d skbOk env offset length = .faults mem engine := hcall
    simp only [hcall]
    refine ⟨_, rfl, ?_, h.serving.setCard _ (h.serving _).1 hserves,
      fun completes => absurd completes hfaults⟩
    simp only [act, hcall, world_recv, Receiver.step, hpc, recvEnvOf, Bool.not_true,
      Bool.not_false, Bool.false_eq_true, if_false, if_true, Option.map_some]
    rw [world, hdev]
    rfl
  · replace hcall : s.receiveCall d skbOk env offset length =
      .returned res moved skb mem engine := hcall
    simp only [hcall]
    refine ⟨_, rfl, ?_, h.serving.setCard _ (h.serving _).1 hserves, fun completes => ?_⟩
    · simp only [act, hcall, world_recv, Receiver.step, hpc, recvEnvOf, Bool.not_true,
        Bool.false_eq_true, if_false, Option.map_some]
      rw [world, hdev, hskb]
      rfl
    · obtain ⟨hmoved, hres⟩ := hfull completes.2
      have hcomplete := dmaOf_complete hmoved hres
      simp only [World.allOk, World.dmaOk, dmaComplete, world, act, hcall, hpc, recvEnvOf,
        allocOk, Bool.and_true, decide_eq_true hcomplete]

/-- What a step here is to the rings: the same step there, with a DMA that moves what the call
has moved, and possible when this one is. -/
structure StepAgrees (s : Stack) (x : Fin 2 × StackAct) : Prop where
  world : s.world.step (x.1, s.ringAct x) = (s.step x).map Stack.world
  serving : ∀ t, s.step x = some t → t.Serving
  allOk : x.2.Completes → s.world.allOk (x.1, s.ringAct x) = true

private theorem Inv.stepAgrees (h : s.Inv) {x : Fin 2 × StackAct} (limited : x.2.Limited) :
    StepAgrees s x := by
  obtain ⟨d, a⟩ := x
  cases a with
  | xmit hold skb | poll hold budget =>
      exact ⟨ringStep_world (by simp [ringAct]), fun t => ringStep_serving h.serving, fun _ => rfl⟩
  | send totalLen env =>
      cases hpc : (s.ring d).sender () with
      | transfer c head offset length =>
          obtain ⟨t, hstep, hworld, hserving, hok⟩ := transmit_world h totalLen limited hpc
          have hs : s.step (d, .send totalLen env) = some t := by simp only [step, hpc, hstep]
          refine ⟨?_, fun t' ht => ?_, ?_⟩
          · simp only [ringAct, hpc, hworld, hs, Option.map_some]
          · rw [hs, Option.some.injEq] at ht
            exact ht ▸ hserving
          · simp only [ringAct, hpc]
            exact hok
      | _ =>
          refine ⟨?_, fun t ht => ?_, fun _ => ?_⟩
          · simp only [step, ringAct, hpc]
            exact ringStep_world (by simp [hpc])
          · simp only [step, hpc] at ht
            exact ringStep_serving h.serving ht
          · simp [World.allOk, World.dmaOk, dmaComplete, Stack.world, ringAct, hpc, idleSend,
              allocOk]
  | recv skbOk env =>
      cases hpc : (s.ring d).receiver.pc with
      | transfer tail offset length =>
          obtain ⟨t, hstep, hworld, hserving, hok⟩ := receive_world h skbOk limited hpc
          have hs : s.step (d, .recv skbOk env) = some t := by simp only [step, hpc, hstep]
          refine ⟨?_, fun t' ht => ?_, ?_⟩
          · simp only [ringAct, hpc, hworld, hs, Option.map_some]
          · rw [hs, Option.some.injEq] at ht
            exact ht ▸ hserving
          · simp only [ringAct, hpc]
            exact hok
      | _ =>
          refine ⟨?_, fun t ht => ?_, fun _ => ?_⟩
          · simp only [step, ringAct, hpc]
            exact ringStep_world (by simp [idleRecv])
          · simp only [step, hpc] at ht
            exact ringStep_serving h.serving ht
          · simp [World.allOk, World.dmaOk, dmaComplete, Stack.world, ringAct, hpc, idleRecv,
              allocOk]

theorem Inv.step {x : Fin 2 × StackAct} (h : s.Inv) (limited : x.2.Limited)
    (hs : s.step x = some t) : t.Inv := by
  have hagrees := h.stepAgrees limited
  have hworld := hagrees.world
  rw [hs, Option.map_some] at hworld
  exact ⟨world_step_ctl (w := s.world) h.ctl hworld, hagrees.serving t hs⟩

/-! ## Whole runs -/

/-- Both hosts have probed and started their rings, whatever the memories held. -/
def start (areas : Fin 2 → InfoArea) (card : Fin 2 → Card) (dev : U64 → UInt8) : Stack where
  ring := (World.start areas (bytesOf dev)).ring
  card := card
  dev := dev

private theorem world_start (areas : Fin 2 → InfoArea) (card : Fin 2 → Card) (dev : U64 → UInt8) :
    (start areas card dev).world = World.start areas (bytesOf dev) := rfl

theorem inv_start {areas : Fin 2 → InfoArea} {card : Fin 2 → Card} {dev : U64 → UInt8}
    (serving : (start areas card dev).Serving) : (start areas card dev).Inv where
  ctl := (World.inv_start areas (bytesOf dev)).ctl
  serving := serving

private theorem refines_world :
    Refines Stack.step (fun _ x => x.2.Limited) World.step Inv world label where
  keep := Inv.step
  silent := fun _ _ _ h => by cases h
  visible := by
    intro s x t b h limited hs hlabel
    cases hlabel
    rw [(h.stepAgrees limited).world, hs, Option.map_some]

private theorem refines_world_completes :
    Refines Stack.step (fun _ x => x.2.Completes) (guarded World.step World.allOk) Inv world
      label where
  keep := fun h completes hs => h.step completes.limited hs
  silent := fun _ _ _ h => by cases h
  visible := by
    intro s x t b h completes hs hlabel
    cases hlabel
    have hagrees := h.stepAgrees completes.limited
    rw [guarded, if_pos (hagrees.allOk completes), hagrees.world, hs, Option.map_some]

section

variable {areas : Fin 2 → InfoArea} {card : Fin 2 → Card} {dev : U64 → UInt8}
  {as : List (Fin 2 × StackAct)} {s : Stack}

/-- Whatever becomes of the transfers, both hosts over the driver's DMA run as the rings over a
DMA that moves the first so many bytes of each frame, and from every state they reach a thread
can take its next step, with the same effect, exactly when it can there. -/
theorem stack_refines_rings (serving : (start areas card dev).Serving)
    (run : Runs Stack.step (fun _ x => x.2.Limited) (start areas card dev) as s) :
    Runs World.step Any (World.start areas (bytesOf dev))
        (trace Stack.step label (start areas card dev) as) s.world ∧
      ∀ x, x.2.Limited → s.world.step (x.1, s.ringAct x) = (s.step x).map world := by
  have hruns := refines_world.runs run (inv_start serving)
  rw [world_start] at hruns
  refine ⟨hruns, fun x limited => ?_⟩
  have hinv : s.Inv := run.invariant Inv.step (inv_start serving)
  exact (hinv.stepAgrees limited).world

/-- While everything completes, the frames that are passed up on each host, byte for byte, and
the at most 64 that are on their way to it are the frames that its peer has had accepted, in that
order: the whole stack is two queues. -/
theorem stack_delivers (serving : (start areas card dev).Serving)
    (run : Runs Stack.step (fun _ x => x.2.Completes) (start areas card dev) as s) :
    Runs (fifoStep 64) Any (fun _ => [])
        (trace World.step World.label (World.start areas (bytesOf dev))
          (trace Stack.step label (start areas card dev) as)) s.world.queue ∧
      ∀ d, (s.ring d).sent.map Returned.frame =
          (s.ring d).delivered.map Prod.snd ++ s.world.queue d ∧
        (s.world.queue d).length ≤ 64 := by
  have hguarded := refines_world_completes.runs run (inv_start serving)
  rw [world_start] at hguarded
  have hruns := hguarded.of_guarded
  have hqueue := (World.refines_fifo areas (bytesOf dev)).runs hruns ⟨[], .refl _⟩
  obtain ⟨hinv, hloss⟩ := World.noLoss hruns
  refine ⟨hqueue, fun d => ⟨?_, fifo_bounded hqueue (fun _ => Nat.zero_le 64) d⟩⟩
  have hfront := List.prefix_iff_eq_take.mp ((hloss d).prefix_sent (hinv.dat d))
  rw [List.length_map] at hfront
  change (s.ring d).delivered.map Prod.snd = _ at hfront
  rw [hfront]
  exact (List.take_append_drop _ _).symm

end

/-! ## A frame through the stack -/

def sampleEnv (buf : U64) : TransferEnv where
  dma := plainEnv
  allocs := allGranted buf
  offline := false

/-- The write is not done in time, five bytes into the frame. -/
def lateEnv (buf : U64) : TransferEnv :=
  { sampleEnv buf with dma := { plainEnv with outcomes := fun _ => .timedOut, partialMove := 5 } }

def sampleCard : Card where
  host := fun _ => 0
  engineH2c := idleEngine .toDevice 0x7ff
  engineC2h := idleEngine .fromDevice 0x7fe

def sampleStart : Stack := start (fun _ => zeroArea) (fun _ => sampleCard) fun _ => 0

private theorem sampleStart_serving : sampleStart.Serving := fun _ =>
  ⟨⟨idleEngine_memoryMapped _ (by decide), rfl⟩, ⟨idleEngine_memoryMapped _ (by decide), rfl⟩⟩

def sampleActs (d : Fin 2) (env : TransferEnv) : List (Fin 2 × StackAct) :=
  (d, .xmit false sampleSkb) ::
    (List.replicate 15 (d, .send 0 env) ++
      (d, .poll false 64) :: List.replicate 12 (d, .recv true (sampleEnv 0x20000)))

private theorem sampleActs_forall {P : StackAct → Prop} {d : Fin 2} {env : TransferEnv}
    (xmit : P (.xmit false sampleSkb)) (send : P (.send 0 env)) (poll : P (.poll false 64))
    (recv : P (.recv true (sampleEnv 0x20000))) : ∀ x ∈ sampleActs d env, P x.2 := by
  intro x hmem
  simp only [sampleActs, List.mem_cons, List.mem_append, List.mem_replicate] at hmem
  rcases hmem with rfl | ⟨-, rfl⟩ | rfl | ⟨-, rfl⟩
  · exact xmit
  · exact send
  · exact poll
  · exact recv

private theorem sampleEnv_completes (buf : U64) : (sampleEnv buf).Completes where
  dma := ⟨rfl, fun _ => trivial, show plainEnv.descBlenMax ≠ 0 by decide⟩
  allocs := ⟨buf, allGranted_granted buf⟩
  online := rfl

theorem stack_refines_rings_late :
    ∃ s : Stack, Runs World.step Any (World.start (fun _ => zeroArea) (bytesOf fun _ => 0))
        (trace Stack.step label sampleStart (sampleActs 0 (lateEnv 0x10ff8))) s.world ∧
      (s.ring 0).delivered.map Prod.snd =
        [[0xfc, 0xaf, 0xac, 0, 0, 0, 0, 0, 0, 0, 0, 0, 0, 0]] := by
  have hexec : (exec Stack.step sampleStart (sampleActs 0 (lateEnv 0x10ff8))).map
      (fun s => (s.ring 0).delivered.map Prod.snd) =
        some [[0xfc, 0xaf, 0xac, 0, 0, 0, 0, 0, 0, 0, 0, 0, 0, 0]] := by
    decide +kernel
  obtain ⟨s, hs, hdelivered⟩ := Option.map_eq_some_iff.mp hexec
  have hlimit : (0xfffffff : U32) ≠ 0 := by decide
  have hall : ∀ x ∈ sampleActs 0 (lateEnv 0x10ff8), x.2.Limited :=
    sampleActs_forall trivial hlimit trivial hlimit
  have hrun := (runs_of_exec hs).of_forall hall
  exact ⟨s, (stack_refines_rings sampleStart_serving hrun).1, hdelivered⟩

theorem stack_delivers_sample :
    ∃ s, Runs Stack.step (fun _ x => x.2.Completes) sampleStart
        (sampleActs 0 (sampleEnv 0x10ff8)) s ∧
      (s.ring 0).sent.map Returned.frame = [sampleSkb.frame] ++ s.world.queue 0 := by
  have hexec : (exec Stack.step sampleStart (sampleActs 0 (sampleEnv 0x10ff8))).map
      (fun s => (s.ring 0).delivered.map Prod.snd) = some [sampleSkb.frame] := by
    decide +kernel
  obtain ⟨s, hs, hdelivered⟩ := Option.map_eq_some_iff.mp hexec
  have hcompletes := sampleEnv_completes
  have hall : ∀ x ∈ sampleActs 0 (sampleEnv 0x10ff8), x.2.Completes :=
    sampleActs_forall trivial (hcompletes _) trivial ⟨rfl, hcompletes _⟩
  have hrun := (runs_of_exec hs).of_forall hall
  refine ⟨s, hrun, ?_⟩
  rw [← hdelivered]
  exact ((stack_delivers sampleStart_serving hrun).2 0).1

end Stack

end NupaNet.Adapter
