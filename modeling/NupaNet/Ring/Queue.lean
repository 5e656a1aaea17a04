import NupaNet.Foundation.Fifo
import NupaNet.Foundation.Refinement
import NupaNet.Ring.Delivery

/-!
# The two rings as queues

What the shared memory of the two hosts is for: a bounded first-in first-out
queue of frames in each direction.  A frame enters the queue when
`fetch_packet_desc` returns its descriptor and leaves it when it is passed to
`napi_gro_receive`; 63 frames fit in the ring, and the receiver holds one more.
-/

namespace NupaNet.Ring

open NupaNet.Foundation

/-! ## One ring -/

section

variable {d : Nat} {r : PacketRing Unit} {dev : Memory}

def PacketRing.queue (r : PacketRing Unit) : List (List UInt8) :=
  (r.sent.map Returned.frame).drop r.delivered.length

theorem NoLoss.delivered_length (h : NoLoss r) :
    r.delivered.length = r.taken - r.receiver.pc.pending := by
  have := congrArg List.length h
  simpa using this

theorem NoLoss.delivered_le (h : NoLoss r) (hc : Ctl d r) : r.delivered.length ≤ r.sent.length := by
  rw [h.delivered_length]
  have := hc.order
  omega

private theorem PollPc.pending_le (pc : PollPc) : pc.pending ≤ 1 := by
  cases pc <;> simp [pending]

theorem NoLoss.enqueue (h : NoLoss r) (hc : Ctl d r) (area : InfoArea) (s : Sender)
    {p : Call × CInt} (hreturns : (r.sender ()).returns = some p) :
    r.queue.length < 64 ∧ (r.afterSend () area s).queue = r.queue ++ [p.1.skb.frame] := by
  have hle := h.delivered_le hc
  constructor
  · have hok := hc.sender ()
    have hroom := hc.room
    have hpending := PollPc.pending_le r.receiver.pc
    have hlen := h.delivered_length
    have hone : r.published = r.sent.length + 1 := by
      cases hs : r.sender () with
      | storeOffset c head pos =>
          rw [hs] at hok
          exact hok.2.2.1
      | _ => simp [hs, Sender.returns] at hreturns
    simp only [PacketRing.queue, List.length_drop, List.length_map]
    omega
  · have hle' : r.delivered.length ≤ (r.sent.map Returned.frame).length := by simpa using hle
    simp only [PacketRing.queue, PacketRing.afterSend, hreturns, Option.map_some,
      Option.toList_some, List.map_append, List.map_cons, List.map_nil]
    rw [List.drop_append_of_le_length hle']

theorem NoLoss.dequeue (h : NoLoss r) (hdat : Dat d r dev) (area : InfoArea) (rc : Receiver)
    {skb : List UInt8} (hdelivers : r.receiver.delivers = some skb) :
    r.queue = skb :: (r.afterRecv area rc).queue := by
  obtain ⟨tail, hpc⟩ : ∃ tail, r.receiver.pc = .groReceive tail skb := by
    cases hpc : r.receiver.pc with
    | groReceive tail skb' =>
        simp only [Receiver.delivers, hpc, Option.some.injEq] at hdelivers
        exact ⟨tail, by rw [hdelivers]⟩
    | _ => simp [Receiver.delivers, hpc] at hdelivers
  obtain ⟨n, e, htaken, hentry, hframe⟩ := hdat.skb tail skb (.inr hpc)
  have hlen : r.delivered.length = n := by
    rw [h.delivered_length, htaken, hpc]
    simp [PollPc.pending]
  have hget : (r.sent.map Returned.frame)[n]? = some skb := by
    rw [List.getElem?_map, hentry, hframe]
    rfl
  obtain ⟨hlt, hval⟩ := List.getElem?_eq_some_iff.mp hget
  have hnext : (r.afterRecv area rc).queue = (r.sent.map Returned.frame).drop (n + 1) := by
    simp [PacketRing.queue, PacketRing.afterRecv, hdelivers, hlen]
  rw [hnext, PacketRing.queue, hlen, List.drop_eq_getElem_cons hlt, hval]

end

/-! ## Both rings -/

namespace World

def queue (w : World) (d : Fin 2) : List (List UInt8) := (w.ring d).queue

/-- What a step is to the queues. -/
def label (w : World) (x : Fin 2 × Act Unit) : Option (FifoAct (Fin 2) (List UInt8)) :=
  match x.2 with
  | .send i _ => ((w.ring x.1).sender i).returns.map fun p => .enq x.1 p.1.skb.frame
  | .recv _ => (w.ring x.1).receiver.delivers.map fun skb => .deq x.1 skb
  | _ => none

end World

section

variable {areas : Fin 2 → InfoArea} {dev : Memory} {as : List (Fin 2 × Act Unit)} {w w' : World}

private theorem World.queue_update {r : PacketRing Unit} {dev : Memory} {d : Fin 2} :
    (World.queue { ring := Function.update w.ring d r, dev := dev }) =
      Function.update w.queue d r.queue := by
  funext e
  by_cases he : e = d
  · subst he
    simp [World.queue]
  · simp [World.queue, he]

def World.Reached (areas : Fin 2 → InfoArea) (dev : Memory) (w : World) : Prop :=
  ∃ as, Runs World.step (fun w x => w.allOk x = true) (World.start areas dev) as w

theorem World.refines_fifo (areas : Fin 2 → InfoArea) (dev : Memory) :
    Refines World.step (fun w x => w.allOk x = true) (fifoStep 64) (World.Reached areas dev)
      World.queue World.label where
  keep := by
    rintro w x w' ⟨as, run⟩ hok hs
    exact ⟨as ++ [x], run.append (.next hok hs (.refl w'))⟩
  silent := by
    rintro w ⟨d, a⟩ w' - - hs hnone
    simp only [World.step, Option.map_eq_some_iff] at hs
    obtain ⟨⟨r', dev'⟩, hring, rfl⟩ := hs
    rw [World.queue_update]
    have hsame : r'.queue = (w.ring d).queue := by
      cases PacketRing.step_moves hring with
      | drop | xmit | poll => rfl
      | send =>
          simp only [World.label, Option.map_eq_none_iff] at hnone
          simp [PacketRing.queue, PacketRing.afterSend, hnone]
      | recv =>
          simp only [World.label, Option.map_eq_none_iff] at hnone
          simp [PacketRing.queue, PacketRing.afterRecv, hnone]
    rw [hsame]
    exact Function.update_eq_self d w.queue
  visible := by
    rintro w ⟨d, a⟩ w' b ⟨as, run⟩ - hs hlabel
    obtain ⟨hinv, hloss⟩ := World.noLoss run
    simp only [World.step, Option.map_eq_some_iff] at hs
    obtain ⟨⟨r', dev'⟩, hring, rfl⟩ := hs
    rw [World.queue_update]
    cases PacketRing.step_moves hring with
    | drop | xmit | poll => cases hlabel
    | @send i env m t =>
        obtain ⟨p, hreturns, rfl⟩ := Option.map_eq_some_iff.mp hlabel
        obtain ⟨hroom, hqueue⟩ := (hloss d).enqueue (hinv.ctl d) m.area t hreturns
        change fifoStep 64 w.queue (.enq d p.1.skb.frame) =
          some (Function.update w.queue d ((w.ring d).afterSend () m.area t).queue)
        rw [hqueue, fifoStep]
        exact if_pos hroom
    | @recv env m rc =>
        obtain ⟨skb, hdelivers, rfl⟩ := Option.map_eq_some_iff.mp hlabel
        have hqueue : w.queue d = skb :: ((w.ring d).afterRecv m.area rc).queue :=
          (hloss d).dequeue (hinv.dat d) m.area rc hdelivers
        simp only [fifoStep, hqueue, if_true]

/-- Every interleaving of both directions in which DMA and allocation succeed is a run of two
queues of capacity 64 over the frames that `fetch_packet_desc` accepts and the frames that are
passed up: each direction passes up what it has accepted, in that order, up to the at most 64
frames that are on their way. -/
theorem rings_are_queues
    (run : Runs World.step (fun w x => w.allOk x = true) (World.start areas dev) as w) :
    Runs (fifoStep 64) Any (fun _ => [])
      (trace World.step World.label (World.start areas dev) as) w.queue ∧
    ∀ d, (trace World.step World.label (World.start areas dev) as).filterMap
        (FifoAct.enqueued d) =
      (trace World.step World.label (World.start areas dev) as).filterMap
        (FifoAct.dequeued d) ++ w.queue d ∧ (w.queue d).length ≤ 64 := by
  have hruns : Runs (fifoStep 64) Any (fun _ => [])
      (trace World.step World.label (World.start areas dev) as) w.queue :=
    (World.refines_fifo areas dev).runs run ⟨[], .refl _⟩
  refine ⟨hruns, fun d => ⟨?_, fifo_bounded hruns (fun _ => Nat.zero_le 64) d⟩⟩
  simpa using fifo_balance hruns d

end

theorem rings_are_queues_oneFrame :
    ∃ w, Runs World.step (fun w x => w.allOk x = true)
        (World.start (fun _ => zeroArea) (fun _ => 0)) (oneFrame (Dma.full 14) (Dma.full 14)) w ∧
      Runs (fifoStep 64) Any (fun _ => []) [.enq 0 sampleSkb.frame, .deq 0 sampleSkb.frame]
        w.queue := by
  have hexec : (exec (guarded World.step World.allOk)
      (World.start (fun _ => zeroArea) (fun _ => 0)) (oneFrame (Dma.full 14) (Dma.full 14))).isSome
        = true := by
    decide +kernel
  obtain ⟨w, hw⟩ := Option.isSome_iff_exists.mp hexec
  have htrace : trace World.step World.label (World.start (fun _ => zeroArea) (fun _ => 0))
      (oneFrame (Dma.full 14) (Dma.full 14)) =
        [.enq 0 sampleSkb.frame, .deq 0 sampleSkb.frame] := by
    decide +kernel
  have hrun := runs_of_guarded hw
  refine ⟨w, hrun, ?_⟩
  rw [← htrace]
  exact (rings_are_queues hrun).1

end NupaNet.Ring
