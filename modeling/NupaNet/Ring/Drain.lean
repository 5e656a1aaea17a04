import NupaNet.Ring.Queue
import NupaNet.Ring.Wedge

/-!
# One poll empties the ring

While nobody sends, a call of `nupanet_poll` whose budget is not smaller than the
number of waiting frames passes all of them up and ends: each step of the call
brings the receiver nearer to the end of its loop body or the tail nearer to the
head, the wait for `PACKET_SETTLED` does not spin because every waiting slot is
settled, and the loop is left at the empty ring only.
-/

namespace NupaNet.Ring

open NupaNet.Foundation

/-! ## The steps that are left -/

def PollPc.rank : PollPc → Nat
  | .loadTotalLen _ => 11
  | .storeTotalLen _ _ => 10
  | .loadOffset _ => 9
  | .loadLength _ _ => 8
  | .transfer _ _ _ => 7
  | .storeReleased _ _ => 6
  | .groReceive _ _ => 5
  | .loadHead => 4
  | .loadTail _ => 3
  | .spin _ => 2
  | .testSettled _ => 1
  | .storeTail _ | .idle | .testInit _ | .testReleased _ | .oops => 0

def PacketRing.rank {ι : Type} (r : PacketRing ι) : Nat :=
  12 * (r.published - r.taken) + r.receiver.pc.rank

/-- What a call knows at a program point: the head it has loaded is the last one, and when it has
ended no frame is waiting. -/
def Knows {ι : Type} (r : PacketRing ι) : PollPc → Prop
  | .loadTail head => head = slot r.published
  | .idle => r.published = r.taken
  | .oops => False
  | _ => True

structure Draining {ι : Type} (r : PacketRing ι) (n : Nat) : Prop where
  work : r.receiver.workDone + r.receiver.pc.pending + (r.published - r.taken) = n
  budget : (n : Int) ≤ r.receiver.budget
  knows : Knows r r.receiver.pc

section

variable {ι : Type} {d : Nat} {r : PacketRing ι} {dev : Memory} {n : Nat} {env : RecvEnv} {m : Shm}
  {rc : Receiver}

theorem Draining.goto (h : Draining r n) {area : InfoArea} {pc pc' : PollPc}
    (hpc : r.receiver.pc = pc) (htakes : r.receiver.takes = false)
    (hpending : pc'.pending = pc.pending) (hrank : pc'.rank < pc.rank) (hknows : Knows r pc') :
    Draining (r.afterRecv area (r.receiver.goto pc')) n ∧
      (r.afterRecv area (r.receiver.goto pc')).rank < r.rank := by
  have htaken : (r.afterRecv area (r.receiver.goto pc')).taken = r.taken := by
    simp [PacketRing.afterRecv, htakes]
  have hpublished : (r.afterRecv area (r.receiver.goto pc')).published = r.published := rfl
  refine ⟨⟨?_, h.budget, ?_⟩, ?_⟩
  · have hwork := h.work
    rw [hpc] at hwork
    rw [htaken, hpublished]
    change r.receiver.workDone + pc'.pending + (r.published - r.taken) = n
    rw [hpending]
    exact hwork
  · change Knows (r.afterRecv area (r.receiver.goto pc')) pc'
    cases pc' with
    | idle => exact Eq.trans hknows htaken.symm
    | _ => exact hknows
  · rw [PacketRing.rank, PacketRing.rank, htaken, hpublished, hpc]
    change _ + pc'.rank < _
    omega

theorem Draining.recv (h : Draining r n) (hc : Ctl d r) (hidle : ∀ i, r.sender i = .idle)
    (hok : allocOk (.recv env : Act ι) = true)
    (hs : Receiver.step ⟨r.area, dev⟩ env r.receiver = some (m, rc)) :
    Draining (r.afterRecv m.area rc) n ∧ (r.afterRecv m.area rc).rank < r.rank := by
  have hpcok := hc.receiver
  have hlag := hc.lag
  have hroom := hc.room
  have horder := hc.order
  have hwork := h.work
  simp only [allocOk, Bool.and_eq_true] at hok
  cases Receiver.step_moves hs with
  | @spin tail hpc hfreezing =>
      rw [hpc] at hpcok
      obtain ⟨rfl, hlt⟩ := hpcok
      rcases hc.waiting (Nat.le_refl _) hlt with ⟨-, hsettled⟩ | ⟨-, i, hown⟩
      · rw [statusAt] at hsettled
        rw [hsettled] at hfreezing
        cases hfreezing
      · rw [hidle i] at hown
        cases hown
  | @unsettled tail hpc hnot =>
      rw [hpc] at hpcok
      obtain ⟨rfl, -, hsettled⟩ := hpcok
      exact absurd hsettled hnot
  | init hpc | notInit hpc | released hpc | changed hpc =>
      rw [hpc] at hpcok
      cases hpcok
  | noBuffer _ hbuf => simp [hbuf] at hok
  | noSkb _ _ hskb => simp [hskb] at hok
  | full hpc hfull =>
      have hbudget := h.budget
      rw [hpc] at hwork
      simp only [PollPc.pending] at hwork
      omega
  | again hpc =>
      rw [hpc] at hwork
      simp only [PollPc.pending] at hwork
      refine ⟨⟨?_, h.budget, True.intro⟩, ?_⟩
      · simp only [PacketRing.afterRecv, Receiver.takes, hpc, PollPc.pending]
        simp only [Bool.false_eq_true, if_false]
        omega
      · simp [PacketRing.rank, PacketRing.afterRecv, Receiver.takes, hpc, PollPc.rank]
  | @empty head hpc hempty =>
      have hknows := h.knows
      rw [hpc] at hknows hwork
      have hslot : slot r.published = slot r.taken := by
        rw [← hc.tail, ← hempty]
        exact hknows.symm
      have hsame := slot_eq_iff.mp hslot
      have heq : r.published = r.taken := by omega
      simp only [PollPc.pending] at hwork
      have htaken : (r.afterRecv r.area r.receiver.leave).taken = r.taken := by
        simp [PacketRing.afterRecv, Receiver.takes, hpc]
      refine ⟨⟨?_, h.budget, heq.trans htaken.symm⟩, ?_⟩
      · rw [htaken]
        exact hwork
      · rw [PacketRing.rank, PacketRing.rank, htaken, hpc]
        change 12 * (r.published - r.taken) + 0 < 12 * (r.published - r.taken) + 3
        omega
  | @storeTail tail hpc =>
      generalize (Shm.store _ _).area = area
      rw [hpc] at hpcok hwork
      obtain ⟨-, hlt, -⟩ := hpcok
      simp only [PollPc.pending] at hwork
      have htakes : r.receiver.takes = true := by rw [Receiver.takes, hpc]
      have htaken :
          (r.afterRecv area (r.receiver.goto (.loadTotalLen tail))).taken = r.taken + 1 := by
        simp [PacketRing.afterRecv, htakes]
      refine ⟨⟨?_, h.budget, True.intro⟩, ?_⟩
      · rw [htaken]
        change r.receiver.workDone + 1 + (r.published - (r.taken + 1)) = n
        omega
      · rw [PacketRing.rank, PacketRing.rank, htaken, hpc]
        change 12 * (r.published - (r.taken + 1)) + 11 < 12 * (r.published - r.taken) + 0
        omega
  | loadHead hpc =>
      exact h.goto hpc (by simp [Receiver.takes, hpc]) rfl (by simp [PollPc.rank]) hc.head
  | loadTail hpc | unfrozen hpc | settled hpc | loadTotalLen hpc | storeTotalLen hpc
  | loadOffset hpc | loadLength hpc | transfer hpc | storeReleased hpc =>
      exact h.goto hpc (by simp [Receiver.takes, hpc]) rfl (by simp [PollPc.rank]) True.intro

theorem Draining.progress (h : Draining r n) (hpc : r.receiver.pc ≠ .idle) (dev : Memory) :
    ∃ env, dmaComplete r (.recv env) = true ∧ allocOk (.recv env : Act ι) = true ∧
      (Receiver.step ⟨r.area, dev⟩ env r.receiver).isSome = true := by
  have hknows := h.knows
  cases hcase : r.receiver.pc with
  | idle => exact absurd hcase hpc
  | oops =>
      rw [hcase] at hknows
      cases hknows
  | transfer tail offset length =>
      refine ⟨⟨true, true, fun _ => 0, Dma.full length.toNat⟩, ?_, rfl, ?_⟩
      · simp [dmaComplete, hcase, Dma.Complete, Dma.full]
      · simp [Receiver.step, hcase]
  | _ =>
      refine ⟨⟨true, true, fun _ => 0, Dma.full 0⟩, ?_, rfl, ?_⟩
      · simp [dmaComplete, hcase]
      · simp only [Receiver.step, hcase]
        repeat' split
        all_goals rfl

end

/-! ## The call on a ring of the two -/

def Act.isRecv {ι : Type} : Act ι → Bool
  | .recv _ => true
  | _ => false

/-- A step of the polling thread of ring `d`, with DMA and allocation in order. -/
def World.polls (w : World) (d : Fin 2) (x : Fin 2 × Act Unit) : Bool :=
  w.allOk x && decide (x.1 = d) && x.2.isRecv

private theorem World.polls_iff {d : Fin 2} {w : World} {x : Fin 2 × Act Unit} :
    w.polls d x = true ↔ w.allOk x = true ∧ x.1 = d ∧ ∃ env, x.2 = .recv env := by
  obtain ⟨e, a⟩ := x
  simp only [World.polls, Bool.and_eq_true, decide_eq_true_eq, and_assoc]
  cases a <;> simp [Act.isRecv]

structure Polling (areas : Fin 2 → InfoArea) (dev : Memory) (d : Fin 2) (n : Nat)
    (sent : List Returned) (w : World) : Prop where
  reached : World.Reached areas dev w
  idle : (w.ring d).sender () = .idle
  draining : Draining (w.ring d) n
  sent : (w.ring d).sent = sent

namespace Polling

variable {areas : Fin 2 → InfoArea} {dev : Memory} {d : Fin 2} {n : Nat} {sent : List Returned}
  {w w' : World}

theorem step (h : Polling areas dev d n sent w) {x : Fin 2 × Act Unit} (hx : w.polls d x = true)
    (hs : w.step x = some w') :
    Polling areas dev d n sent w' ∧ (w'.ring d).rank < (w.ring d).rank := by
  obtain ⟨e, a⟩ := x
  obtain ⟨hok, rfl, env, rfl⟩ := World.polls_iff.mp hx
  have hreached : World.Reached areas dev w' := (World.refines_fifo areas dev).keep h.reached hok hs
  obtain ⟨as, run⟩ := h.reached
  have hinv := (World.noLoss run).1
  simp only [World.allOk, Bool.and_eq_true] at hok
  simp only [World.step, Option.map_eq_some_iff] at hs
  obtain ⟨⟨r', dev'⟩, hring, rfl⟩ := hs
  cases PacketRing.step_moves hring with
  | recv hstep =>
      obtain ⟨hdraining, hless⟩ :=
        h.draining.recv (hinv.ctl e) (fun _ => h.idle) hok.2 hstep
      refine ⟨⟨hreached, ?_, ?_, ?_⟩, ?_⟩
      · simpa [PacketRing.afterRecv] using h.idle
      · simpa using hdraining
      · simpa [PacketRing.afterRecv] using h.sent
      · simpa using hless

theorem run {as : List (Fin 2 × Act Unit)} (h : Polling areas dev d n sent w)
    (hrun : Runs World.step (fun w x => w.polls d x = true) w as w') :
    Polling areas dev d n sent w' ∧ as.length + (w'.ring d).rank ≤ (w.ring d).rank := by
  induction hrun with
  | refl w => exact ⟨h, by simp⟩
  | next hx hs _ ih =>
      obtain ⟨hnext, hless⟩ := h.step hx hs
      obtain ⟨hend, hle⟩ := ih hnext
      refine ⟨hend, ?_⟩
      simp only [List.length_cons]
      omega

theorem progress (h : Polling areas dev d n sent w) (hpc : (w.ring d).receiver.pc ≠ .idle) :
    ∃ x w', w.polls d x = true ∧ w.step x = some w' := by
  obtain ⟨env, hdma, halloc, hsome⟩ := h.draining.progress hpc w.dev
  obtain ⟨⟨m, rc⟩, hstep⟩ := Option.isSome_iff_exists.mp hsome
  have hok : w.allOk (d, .recv env) = true := by
    simp only [World.allOk, World.dmaOk, hdma, halloc, Bool.and_self]
  refine ⟨(d, .recv env), ⟨Function.update w.ring d ((w.ring d).afterRecv m.area rc), m.dev⟩,
    World.polls_iff.mpr ⟨hok, rfl, env, rfl⟩, ?_⟩
  simp [World.step, PacketRing.step, hstep]

theorem ended (h : Polling areas dev d n sent w) (hpc : (w.ring d).receiver.pc = .idle) :
    w.queue d = [] ∧ (w.ring d).delivered.map Prod.snd = sent.map Returned.frame ∧
      (w.ring d).receiver.workDone = n := by
  obtain ⟨as, run⟩ := h.reached
  obtain ⟨hinv, hloss⟩ := World.noLoss run
  have hknows := h.draining.knows
  have hwork := h.draining.work
  have hlag := (hinv.ctl d).lag
  have horder := (hinv.ctl d).order
  rw [hpc] at hknows hwork
  have heq : (w.ring d).published = (w.ring d).taken := hknows
  have hlen : (w.ring d).delivered.length = (w.ring d).sent.length := by
    have hall := (hloss d).delivered_length
    rw [hpc] at hall
    simp only [PollPc.pending] at hall
    omega
  refine ⟨?_, ?_, ?_⟩
  · simp [World.queue, PacketRing.queue, hlen]
  · rw [← h.sent]
    exact ((hloss d).prefix_sent (hinv.dat d)).eq_of_length (by simpa using hlen)
  · simp only [PollPc.pending] at hwork
    omega

end Polling

section

variable {areas : Fin 2 → InfoArea} {dev : Memory} {as : List (Fin 2 × Act Unit)} {w w₀ : World}

private theorem World.poll_ring {d : Fin 2} {budget : Int}
    (hcall : w.step (d, .poll false budget) = some w₀) : (w.ring d).receiver.pc = .idle ∧
      w₀.ring d = { w.ring d with receiver := (w.ring d).receiver.poll false budget } := by
  simp only [World.step, Option.map_eq_some_iff] at hcall
  obtain ⟨⟨r', dev'⟩, hring, rfl⟩ := hcall
  cases PacketRing.step_moves hring with
  | poll hidle => exact ⟨hidle, Function.update_self ..⟩

/-- `nupanet_poll` is called on a ring that nobody sends on, with a budget that covers the frames
on their way.  While its DMA and allocations succeed it makes a bounded number of steps, is never
stuck, and when it returns it has passed up all the frames, in their order, and no other. -/
theorem poll_drains {d : Fin 2} {budget : Int}
    (run : Runs World.step (fun w x => w.allOk x = true) (World.start areas dev) as w)
    (hsender : (w.ring d).sender () = .idle) (hbudget : ((w.queue d).length : Int) ≤ budget)
    (hcall : w.step (d, .poll false budget) = some w₀) :
    ∀ as' w', Runs World.step (fun w x => w.polls d x = true) w₀ as' w' →
      as'.length ≤ 12 * (w.queue d).length + 4 ∧
      ((w'.ring d).receiver.pc ≠ .idle → ∃ x w'', w'.polls d x = true ∧ w'.step x = some w'') ∧
      ((w'.ring d).receiver.pc = .idle → w'.queue d = [] ∧
        (w'.ring d).delivered.map Prod.snd = (w.ring d).sent.map Returned.frame ∧
        (w'.ring d).receiver.workDone = (w.queue d).length) := by
  obtain ⟨hinv, hloss⟩ := World.noLoss run
  have hreached : World.Reached areas dev w₀ :=
    (World.refines_fifo areas dev).keep ⟨as, run⟩ rfl hcall
  obtain ⟨hidle, hring⟩ := World.poll_ring hcall
  have hquiet : (w.ring d).published = (w.ring d).sent.length :=
    (hinv.ctl d).quiet fun _ => by rw [hsender]; rfl
  have hcount : (w.queue d).length = (w.ring d).published - (w.ring d).taken := by
    have hlen := (hloss d).delivered_length
    rw [hidle] at hlen
    simp only [PollPc.pending] at hlen
    simp only [World.queue, PacketRing.queue, List.length_drop, List.length_map]
    omega
  have hpolling : Polling areas dev d (w.queue d).length (w.ring d).sent w₀ := by
    refine ⟨hreached, ?_, ?_, ?_⟩ <;> rw [hring]
    · exact hsender
    · refine ⟨?_, hbudget, True.intro⟩
      simp [Receiver.poll, PollPc.pending, hcount]
  have hrank : (w₀.ring d).rank = 12 * (w.queue d).length + 4 := by
    rw [hring, hcount]
    rfl
  intro as' w' hrun
  obtain ⟨hend, hle⟩ := hpolling.run hrun
  exact ⟨by omega, hend.progress, hend.ended⟩

end

theorem poll_drains_oneFrame : ∃ w w₀ w' : World,
    Runs World.step (fun w x => w.allOk x = true) (World.start (fun _ => zeroArea) (fun _ => 0))
      ((oneFrame (Dma.full 14) (Dma.full 14)).take 16) w ∧
    w.step (0, .poll false 64) = some w₀ ∧
    Runs World.step (fun w x => w.polls 0 x = true) w₀
      (List.replicate 14 (0, .recv ⟨true, true, fun _ => 0, Dma.full 14⟩)) w' ∧
    w.queue 0 = [sampleSkb.frame] ∧ w'.queue 0 = [] ∧ (w'.ring 0).receiver.workDone = 1 := by
  have hexec : ((exec (guarded World.step World.allOk)
      (World.start (fun _ => zeroArea) (fun _ => 0))
        ((oneFrame (Dma.full 14) (Dma.full 14)).take 16)).bind fun w =>
      (w.step (0, .poll false 64)).bind fun w₀ =>
        (exec (guarded World.step fun w x => w.polls 0 x) w₀
          (List.replicate 14 (0, .recv ⟨true, true, fun _ => 0, Dma.full 14⟩))).map fun w' =>
            (w.queue 0, ((w.ring 0).sender ()).isIdle, (w'.ring 0).receiver.pc)) =
      some ([sampleSkb.frame], true, .idle) := by
    decide +kernel
  obtain ⟨w, hw, hrest⟩ := Option.bind_eq_some_iff.mp hexec
  obtain ⟨w₀, hcall, hrest⟩ := Option.bind_eq_some_iff.mp hrest
  obtain ⟨w', hw', hobs⟩ := Option.map_eq_some_iff.mp hrest
  simp only [Prod.mk.injEq] at hobs
  obtain ⟨hqueue, hsender, hpc⟩ := hobs
  have hrun := runs_of_guarded hw
  have hpolls := runs_of_guarded hw'
  have hdrains := poll_drains (d := 0) hrun (Sender.eq_idle hsender) (by simp [hqueue])
    hcall _ w' hpolls
  obtain ⟨hempty, -, hdone⟩ := hdrains.2.2 hpc
  rw [hqueue] at hdone
  exact ⟨w, w₀, w', hrun, hcall, hpolls, hqueue, hempty, hdone⟩

end NupaNet.Ring
