import NupaNet.Ring.Delivery

/-!
# Several senders on one ring

`fetch_packet_desc` loads `info->head`, tests it and stores it back in separate
accesses, and no lock spans the hosts.  The ring is correct for one call at a
time, from however many hosts, the owner included; two calls that overlap are
given the same descriptor and advance the head once.
-/

namespace NupaNet.Ring

open NupaNet.Foundation

variable {ι : Type} [DecidableEq ι] {hostOf : ι → CInt} {area : InfoArea} {dev : Memory}
  {as : List (Act ι)} {s : PacketRing ι × Memory}

theorem Ctl.run {d : Fin 2} (hinit : Initialised area)
    (run : Runs (PacketRing.step hostOf (BitVec.ofNat 32 d.val)) Serialised
      (PacketRing.fresh area, dev) as s) : Ctl d.val s.1 := by
  refine run.invariant (P := fun s => Ctl d.val s.1) ?_ (ctl_fresh hinit)
  intro s a t h hok hs
  exact h.step d.isLt hok hs

/-- The packet of number `n` is in the ring, or it is the one that the receiver took last. -/
def Outstanding (r : PacketRing ι) (n : Nat) : Prop := n < r.sent.length ∧ r.taken ≤ n + 1

/-- While calls do not overlap, outstanding packets have different descriptors and the head has
advanced once for every descriptor returned. -/
theorem slots_distinct_of_serialised {d : Fin 2} (hinit : Initialised area)
    (run : Runs (PacketRing.step hostOf (BitVec.ofNat 32 d.val)) Serialised
      (PacketRing.fresh area, dev) as s) :
    (∀ (m n : Nat) e f, s.1.sent[m]? = some e → s.1.sent[n]? = some f → m ≠ n →
      Outstanding s.1 m → Outstanding s.1 n → e.desc ≠ f.desc) ∧
    s.1.area.info.head = slot s.1.published ∧
    s.1.sent.length ≤ s.1.published ∧ s.1.published ≤ s.1.sent.length + 1 ∧
    ((∀ i, (s.1.sender i).fetching = false) → s.1.published = s.1.sent.length) := by
  have h := Ctl.run hinit run
  have hroom := h.room
  have hlag := h.lag
  refine ⟨?_, h.head, hlag, ?_, h.quiet⟩
  · intro m n e f he hf hne hm hn heq
    rw [(h.entry m e he).1, (h.entry n f hf).1, slot_eq_iff] at heq
    obtain ⟨hm, hm'⟩ := hm
    obtain ⟨hn, hn'⟩ := hn
    omega
  · rcases h.published_cases with hall | ⟨hone, -⟩
    · omega
    · omega

def bothHosts (i : Fin 2) : CInt := BitVec.ofNat 32 i.val

def sampleRing : PacketRing (Fin 2) × Memory :=
  (PacketRing.fresh (zeroArea.storeAll (adapterInfoInit 0)), fun _ => 0)

def sendSteps (i : Fin 2) (n : Nat) : List (Act (Fin 2)) :=
  List.replicate n (.send i ⟨0, true, Dma.full 14⟩)

def oneAtATime (s : PacketRing (Fin 2) × Memory) : Act (Fin 2) → Bool
  | .xmit _ _ _ => (List.finRange 2).all fun i => !(s.1.sender i).fetching
  | _ => true

theorem slots_distinct_two_hosts :
    ∃ as s, Runs (PacketRing.step bothHosts 0) Serialised sampleRing as s ∧
      s.1.sent.map Returned.desc = [0, 1] ∧ s.1.area.info.head = slot s.1.published ∧
      s.1.published ≤ s.1.sent.length + 1 := by
  have hexec : (exec (guarded (PacketRing.step bothHosts 0) oneAtATime) sampleRing
      (.xmit 0 false sampleSkb :: sendSteps 0 10 ++ .xmit 1 false sampleSkb :: sendSteps 1 10)).map
        (fun s => s.1.sent.map Returned.desc) = some [0, 1] := by
    decide +kernel
  obtain ⟨s, hs, hsent⟩ := Option.map_eq_some_iff.mp hexec
  have hserial : ∀ t a, oneAtATime t a = true → Serialised t a := by
    intro t a hok
    cases a with
    | send | poll | recv => trivial
    | xmit i hold skb =>
        intro j
        have hj := List.all_eq_true.mp hok j (List.mem_finRange j)
        simpa using hj
  have hrun := (runs_of_guarded hs).mono hserial
  obtain ⟨-, hhead, -, hone, -⟩ :=
    slots_distinct_of_serialised (d := 0) (adapterInfoInit_initialised _ _) hrun
  exact ⟨_, s, hrun, hsent, hhead, hone⟩

/-- Two calls whose head loads come before either head store return the same descriptor. -/
theorem overlapping_calls_share_slot :
    ∃ as s, Runs (PacketRing.step bothHosts 0) Any sampleRing as s ∧ s.1.taken = 0 ∧
      s.1.sent.map Returned.desc = [0, 0] ∧ s.1.area.info.head = 1 := by
  have hexec : (exec (PacketRing.step bothHosts 0) sampleRing
      (.xmit 0 false sampleSkb :: .xmit 1 false sampleSkb :: sendSteps 0 1 ++ sendSteps 1 1 ++
        sendSteps 0 9 ++ sendSteps 1 9)).map
        (fun s => (s.1.taken, s.1.sent.map Returned.desc, s.1.area.info.head)) =
      some (0, [0, 0], 1) := by
    decide +kernel
  obtain ⟨s, hs, hobs⟩ := Option.map_eq_some_iff.mp hexec
  simp only [Prod.mk.injEq] at hobs
  exact ⟨_, s, runs_of_exec hs, hobs⟩

end NupaNet.Ring
