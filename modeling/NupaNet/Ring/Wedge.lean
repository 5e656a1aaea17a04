import NupaNet.Ring.Restart

/-!
# A wedged ring

Once the tail points at a descriptor that is neither being filled nor settled,
`nupa_data_available` returns no descriptor any more: no thread writes that
descriptor or the tail, and every send uses up one of the slots in front of the
tail until the full test holds for good.
-/

namespace NupaNet.Ring

open NupaNet.Foundation

/-! ## Indices stay in range in every run -/

def Sender.HeadSlot : Sender → Prop
  | .loadTail _ head | .loadReady _ head _ | .loadTotalLen _ head | .storeTotalLen _ head _
  | .storeFreezing _ head | .storeLength _ head | .storeHead _ head => ∃ n, head = slot n
  | _ => True

def PollPc.TailSlot : PollPc → Prop
  | .spin tail | .testSettled tail | .storeTail tail => ∃ n, tail = slot n
  | _ => True

structure HeadTailSlots (area : InfoArea) : Prop where
  head : ∃ n, area.info.head = slot n
  tail : ∃ n, area.info.tail = slot n

def Store.IndexSlot : Store → Prop
  | .head value | .tail value => ∃ n, value = slot n
  | _ => True

theorem HeadTailSlots.store {area : InfoArea} {st : Store} (h : HeadTailSlots area)
    (hst : st.IndexSlot) : HeadTailSlots (area.store st) := by
  cases st with
  | head value => exact ⟨hst, h.tail⟩
  | tail value => exact ⟨h.head, hst⟩
  | _ => exact ⟨h.head, h.tail⟩

private theorem headTailSlots_of_initialised {area : InfoArea} (h : Initialised area) :
    HeadTailSlots area :=
  ⟨⟨0, h.head⟩, ⟨0, h.tail⟩⟩

private theorem HeadTailSlots.storeShm {m : Shm} {st : Store} (h : HeadTailSlots m.area)
    (hst : st.IndexSlot) : HeadTailSlots (m.store st).area :=
  h.store hst

private theorem adapterInfoInit_indexSlot {hostId : CInt} {st : Store}
    (h : st ∈ Ring.adapterInfoInit hostId) : st.IndexSlot := by
  rcases adapterInfoInit_cases h with ⟨k, hk⟩ | rfl | rfl | rfl | ⟨v, rfl⟩ | ⟨v, rfl⟩
  · cases st with
    | hostId | head | tail | totalLen | ready => cases hk
    | pos | offset | length | status => trivial
  · exact ⟨0, rfl⟩
  · exact ⟨0, rfl⟩
  · trivial
  · trivial
  · trivial

theorem Sender.HeadSlot.step {m m' : Shm} {env : SendEnv} {t t' : Sender} (h : t.HeadSlot)
    (harea : HeadTailSlots m.area) (hs : t.step m env = some (m', t')) :
    HeadTailSlots m'.area ∧ t'.HeadSlot := by
  cases t with
  | idle | bug | oops => cases hs
  | loadHead c =>
      cases hs
      exact ⟨harea, harea.head⟩
  | loadTail c head | loadTotalLen c head =>
      cases hs
      exact ⟨harea, h⟩
  | loadReady c head tail =>
      obtain ⟨rfl, rfl | ⟨-, -, -, rfl⟩⟩ := Sender.step_loadReady hs
      · exact ⟨harea, trivial⟩
      · exact ⟨harea, h⟩
  | storeTotalLen c head totalLen | storeFreezing c head | storeLength c head =>
      cases hs
      refine ⟨harea.storeShm ?_, h⟩
      trivial
  | storeHead c head =>
      cases hs
      obtain ⟨n, rfl⟩ := h
      refine ⟨harea.storeShm ?_, trivial⟩
      exact ⟨n + 1, slot_succ_srem n⟩
  | storeOffset c head pos | storeSettled c head =>
      cases hs
      refine ⟨harea.storeShm ?_, trivial⟩
      trivial
  | transfer c head offset length =>
      obtain ⟨rfl, rfl⟩ | ⟨rfl, rfl⟩ := Sender.step_transfer hs <;> exact ⟨harea, trivial⟩
  | _ =>
      cases hs
      exact ⟨harea, trivial⟩

theorem PollPc.TailSlot.step {m m' : Shm} {env : RecvEnv} {rc rc' : Receiver}
    (h : rc.pc.TailSlot) (harea : HeadTailSlots m.area)
    (hs : Receiver.step m env rc = some (m', rc')) : HeadTailSlots m'.area ∧ rc'.pc.TailSlot := by
  cases Receiver.step_moves hs with
  | loadTail => exact ⟨harea, harea.tail⟩
  | spin => exact ⟨harea, h⟩
  | unfrozen hpc | settled hpc =>
      rw [hpc] at h
      exact ⟨harea, h⟩
  | storeTail hpc =>
      rw [hpc] at h
      obtain ⟨n, rfl⟩ := h
      refine ⟨harea.storeShm ?_, trivial⟩
      exact ⟨n + 1, slot_succ_srem n⟩
  | storeTotalLen | storeReleased =>
      refine ⟨harea.storeShm ?_, trivial⟩
      trivial
  | _ => exact ⟨harea, trivial⟩

def Owner.pending : Owner → List Store
  | .clearing pending | .starting pending => pending
  | _ => []

namespace RestartRing

variable {d : Fin 2} {s s' : RestartRing}

structure InRange (d : Fin 2) (s : RestartRing) : Prop where
  area : HeadTailSlots s.ring.area
  sender : (s.ring.sender ()).HeadSlot
  receiver : s.ring.receiver.pc.TailSlot
  pending : ∀ st ∈ s.owner.pending, st ∈ Ring.adapterInfoInit (BitVec.ofNat 32 d.val)

private theorem inRange_start (area : InfoArea) (dev : Memory) :
    (RestartRing.start d area dev).InRange d := by
  have hslots := headTailSlots_of_initialised
    (adapterInfoInit_initialised area (BitVec.ofNat 32 d.val))
  refine ⟨?_, trivial, trivial, by simp [Owner.pending, start]⟩
  simp only [start, PacketRing.fresh]
  exact hslots

theorem InRange.clear {pending : List Store} (h : s.InRange d)
    (hmem : ∀ st ∈ pending, st ∈ Ring.adapterInfoInit (BitVec.ofNat 32 d.val))
    (hs : s.clear pending = some s') : s'.InRange d := by
  cases pending with
  | nil => cases hs
  | cons st rest =>
      cases hs
      have hst := adapterInfoInit_indexSlot (hmem st (List.mem_cons_self))
      refine ⟨h.area.store hst, h.sender, h.receiver, fun x hx => hmem x ?_⟩
      by_cases hrest : rest = []
      · simp [hrest, Owner.pending] at hx
      · simp only [hrest, if_false, Owner.pending] at hx
        exact List.mem_cons_of_mem st hx

theorem InRange.initialise {pending : List Store} (h : s.InRange d)
    (hmem : ∀ st ∈ pending, st ∈ Ring.adapterInfoInit (BitVec.ofNat 32 d.val))
    (hs : s.initialise pending = some s') : s'.InRange d := by
  cases pending with
  | nil => cases hs
  | cons st rest =>
      cases hs
      have hst := adapterInfoInit_indexSlot (hmem st (List.mem_cons_self))
      by_cases hrest : rest = []
      · simp only [hrest, if_true]
        exact ⟨h.area.store hst, h.sender, trivial, by simp [Owner.pending]⟩
      · simp only [hrest, if_false]
        exact ⟨h.area.store hst, h.sender, h.receiver,
          fun x hx => hmem x (List.mem_cons_of_mem st hx)⟩

theorem InRange.step {a : RestartAct} (h : s.InRange d) (hs : s.step d a = some s') :
    s'.InRange d := by
  cases a with
  | ring a =>
      simp only [RestartRing.step] at hs
      split at hs
      · simp only [ringStep, Option.map_eq_some_iff] at hs
        obtain ⟨⟨r', dev'⟩, hring, rfl⟩ := hs
        cases PacketRing.step_moves hring with
        | drop => exact ⟨h.area, h.sender, h.receiver, h.pending⟩
        | xmit hidle htarget =>
            refine ⟨h.area, ?_, h.receiver, h.pending⟩
            rw [xmitFrame_of_target d.isLt htarget]
            rw [PacketRing.setSender_self]
            trivial
        | send hstep =>
            obtain ⟨harea, hsender⟩ := h.sender.step h.area hstep
            exact ⟨harea, by rw [PacketRing.afterSend_self]; exact hsender, h.receiver, h.pending⟩
        | @poll hold budget hidle =>
            change s.ring.receiver.pc = .idle at hidle
            refine ⟨h.area, h.sender, ?_, h.pending⟩
            cases hold with
            | false => trivial
            | true =>
                simp only [Receiver.poll, if_true, hidle]
                trivial
        | recv hstep =>
            obtain ⟨harea, hreceiver⟩ := h.receiver.step h.area hstep
            exact ⟨harea, h.sender, hreceiver, h.pending⟩
      · cases hs
  | adapterFree =>
      simp only [RestartRing.step] at hs
      split at hs
      · exact h.clear (fun _ => mem_adapterInfoInit_of_mem_memsetArea) hs
      · cases hs
  | adapterInfoInit =>
      simp only [RestartRing.step] at hs
      split at hs
      · exact h.initialise (fun _ hx => hx) hs
      · cases hs
  | store =>
      have hpending := h.pending
      simp only [RestartRing.step] at hs
      split at hs
      · next pending ho =>
          rw [ho] at hpending
          exact h.clear hpending hs
      · next pending ho =>
          rw [ho] at hpending
          exact h.initialise hpending hs
      · cases hs

end RestartRing

/-! ## A wedged ring stays wedged -/

/-- Free slots as the full test of `fetch_packet_desc` counts them. -/
def InfoArea.gap (area : InfoArea) : Nat := (area.info.tail.toNat + 63 - area.info.head.toNat) % 64

def Sender.Blocked (area : InfoArea) : Sender → Prop
  | .idle | .bug | .loadHead _ => True
  | .loadTail _ head => head = area.info.head
  | .loadReady _ head tail => head = area.info.head ∧ tail = area.info.tail
  | .loadTotalLen _ head | .storeTotalLen _ head _ | .storeFreezing _ head
  | .storeLength _ head | .storeHead _ head =>
      head = area.info.head ∧ Sender.full head area.info.tail = false
  | .loadPos _ head | .storeOffset _ head _ | .loadOffset _ head | .sendLoadOffset _ head
  | .sendLoadLength _ head _ | .transfer _ head _ _ | .storeSettled _ head | .oops _ head =>
      head ≠ area.info.tail

def PollPc.Blocked (area : InfoArea) : PollPc → Prop
  | .idle | .loadHead | .loadTail _ => True
  | .spin tail | .testSettled tail | .testInit tail => tail = area.info.tail
  | .testReleased tail => tail = area.info.tail ∧
      (area.desc area.info.tail).status = .packetReleased
  | _ => False

structure Blocked (r : PacketRing Unit) : Prop where
  stuck : RestartRing.Stuck r.area
  slots : HeadTailSlots r.area
  sender : (r.sender ()).Blocked r.area
  receiver : r.receiver.pc.Blocked r.area

structure SameBacklog (r r' : PacketRing Unit) : Prop where
  tail : r'.area.info.tail = r.area.info.tail
  status : (r'.area.desc r'.area.info.tail).status = (r.area.desc r.area.info.tail).status
  taken : r'.taken = r.taken
  delivered : r'.delivered = r.delivered
  count : r'.published + r'.area.gap = r.published + r.area.gap

theorem SameBacklog.refl (r : PacketRing Unit) : SameBacklog r r := ⟨rfl, rfl, rfl, rfl, rfl⟩

theorem SameBacklog.trans {r r' r'' : PacketRing Unit} (h : SameBacklog r r')
    (h' : SameBacklog r' r'') : SameBacklog r r'' :=
  ⟨h'.tail.trans h.tail, h'.status.trans h.status, h'.taken.trans h.taken,
    h'.delivered.trans h.delivered, h'.count.trans h.count⟩

private theorem full_iff_gap {area : InfoArea} (h : HeadTailSlots area) :
    Sender.full area.info.head area.info.tail = true ↔ area.gap = 0 := by
  obtain ⟨n, hn⟩ := h.head
  obtain ⟨m, hm⟩ := h.tail
  rw [Sender.full, InfoArea.gap, hn, hm, slot_succ_and, decide_eq_true_eq, slot_eq_iff, slot_toNat,
    slot_toNat]
  omega

private theorem gap_after_head {area : InfoArea} (h : HeadTailSlots area)
    (hfull : Sender.full area.info.head area.info.tail = false) :
    (area.store (.head ((area.info.head + 1).srem 64))).info.head ≠ area.info.tail ∧
      (area.store (.head ((area.info.head + 1).srem 64))).gap + 1 = area.gap := by
  have hgap : area.gap ≠ 0 := fun h0 => by
    rw [(full_iff_gap h).mpr h0] at hfull
    cases hfull
  obtain ⟨n, hn⟩ := h.head
  obtain ⟨m, hm⟩ := h.tail
  simp only [InfoArea.gap, InfoArea.store, hn, hm, slot_succ_srem, slot_toNat, ne_eq,
    slot_eq_iff] at hgap ⊢
  omega

structure SendKeeps (publishes : Bool) (area area' : InfoArea) : Prop where
  tail : area'.info.tail = area.info.tail
  desc : area'.desc area.info.tail = area.desc area.info.tail
  head : area'.info.head ≠ area.info.tail
  gap : (if publishes then 1 else 0) + area'.gap = area.gap
  slots : HeadTailSlots area'

theorem Sender.Blocked.step {m m' : Shm} {env : SendEnv} {t t' : Sender} (h : t.Blocked m.area)
    (hslots : HeadTailSlots m.area) (hne : m.area.info.head ≠ m.area.info.tail)
    (hs : t.step m env = some (m', t')) :
    SendKeeps t.publishes m.area m'.area ∧ t'.Blocked m'.area := by
  have hsame : SendKeeps false m.area m.area := ⟨rfl, rfl, hne, by simp, hslots⟩
  cases t with
  | idle | bug | oops => cases hs
  | loadHead c =>
      cases hs
      exact ⟨hsame, rfl⟩
  | loadTail c head =>
      cases hs
      exact ⟨hsame, h, rfl⟩
  | loadReady c head tail =>
      obtain ⟨rfl, rfl⟩ := h
      obtain ⟨rfl, rfl | ⟨-, -, hfull, rfl⟩⟩ := Sender.step_loadReady hs
      · exact ⟨hsame, trivial⟩
      · exact ⟨hsame, rfl, hfull⟩
  | loadTotalLen c head =>
      cases hs
      exact ⟨hsame, h⟩
  | storeTotalLen c head totalLen =>
      cases hs
      refine ⟨⟨rfl, rfl, hne, ?_, hslots.storeShm ?_⟩, h⟩
      · simp [Sender.publishes, InfoArea.gap, InfoArea.store]
      · trivial
  | storeFreezing c head | storeLength c head =>
      cases hs
      obtain ⟨rfl, hfull⟩ := h
      refine ⟨⟨rfl, ?_, hne, ?_, hslots.storeShm ?_⟩, rfl, hfull⟩
      · rw [Shm.store_area, InfoArea.store_desc]
        exact fun heq => hne (Option.some.inj heq)
      · simp [Sender.publishes, InfoArea.gap, InfoArea.store]
      · trivial
  | storeHead c head =>
      cases hs
      obtain ⟨rfl, hfull⟩ := h
      obtain ⟨hhead, hgap⟩ := gap_after_head hslots hfull
      refine ⟨⟨rfl, rfl, hhead, ?_, hslots.storeShm ?_⟩, hne⟩
      · simp only [Sender.publishes, if_true, Shm.store_area]
        omega
      · obtain ⟨n, hn⟩ := hslots.head
        rw [hn]
        exact ⟨n + 1, slot_succ_srem n⟩
  | loadPos c head | loadOffset c head | sendLoadOffset c head | sendLoadLength c head offset =>
      cases hs
      exact ⟨hsame, h⟩
  | storeOffset c head pos =>
      cases hs
      refine ⟨⟨rfl, ?_, hne, ?_, hslots.storeShm ?_⟩, h⟩
      · rw [Shm.store_area, InfoArea.store_desc]
        exact fun heq => h (Option.some.inj heq)
      · simp [Sender.publishes, InfoArea.gap, InfoArea.store]
      · trivial
  | transfer c head offset length =>
      obtain ⟨rfl, rfl⟩ | ⟨rfl, rfl⟩ := Sender.step_transfer hs <;> exact ⟨hsame, h⟩
  | storeSettled c head =>
      cases hs
      refine ⟨⟨rfl, ?_, hne, ?_, hslots.storeShm ?_⟩, trivial⟩
      · rw [Shm.store_area, InfoArea.store_desc]
        exact fun heq => h (Option.some.inj heq)
      · simp [Sender.publishes, InfoArea.gap, InfoArea.store]
      · trivial

theorem PollPc.Blocked.mono {area area' : InfoArea} {pc : PollPc} (h : pc.Blocked area)
    (htail : area'.info.tail = area.info.tail)
    (hdesc : area'.desc area.info.tail = area.desc area.info.tail) : pc.Blocked area' := by
  cases pc with
  | spin tail | testSettled tail | testInit tail =>
      change tail = area'.info.tail
      rw [htail]
      exact h
  | testReleased tail =>
      change tail = area'.info.tail ∧ (area'.desc area'.info.tail).status = .packetReleased
      rw [htail, hdesc]
      exact h
  | _ => exact h

theorem PollPc.Blocked.step {m m' : Shm} {env : RecvEnv} {rc rc' : Receiver}
    (h : rc.pc.Blocked m.area) (hstuck : RestartRing.Stuck m.area)
    (hs : Receiver.step m env rc = some (m', rc')) :
    m'.area = m.area ∧ rc'.pc.Blocked m.area ∧ rc.takes = false ∧ rc.delivers = none := by
  obtain ⟨-, hstatus⟩ := hstuck
  cases Receiver.step_moves hs with
  | loadHead hpc | empty hpc =>
      exact ⟨rfl, trivial, by simp [Receiver.takes, hpc], by simp [Receiver.delivers, hpc]⟩
  | loadTail hpc =>
      exact ⟨rfl, rfl, by simp [Receiver.takes, hpc], by simp [Receiver.delivers, hpc]⟩
  | spin hpc =>
      exact ⟨rfl, h, by simp [Receiver.takes, hpc], by simp [Receiver.delivers, hpc]⟩
  | unfrozen hpc | unsettled hpc =>
      rw [hpc] at h
      exact ⟨rfl, h, by simp [Receiver.takes, hpc], by simp [Receiver.delivers, hpc]⟩
  | settled hpc hsettled =>
      rw [hpc] at h
      rw [show _ = m.area.info.tail from h] at hsettled
      rcases hstatus with hinit | hreleased
      · rw [hinit] at hsettled
        cases hsettled
      · rw [hreleased] at hsettled
        cases hsettled
  | init hpc | released hpc =>
      exact ⟨rfl, trivial, by simp [Receiver.takes, hpc], by simp [Receiver.delivers, hpc]⟩
  | notInit hpc hnot =>
      rw [hpc] at h
      cases h
      refine ⟨rfl, ⟨rfl, ?_⟩, by simp [Receiver.takes, hpc], by simp [Receiver.delivers, hpc]⟩
      exact hstatus.resolve_left hnot
  | changed hpc hnot =>
      rw [hpc] at h
      obtain ⟨rfl, hreleased⟩ := h
      exact absurd hreleased hnot
  | _ hpc =>
      rw [hpc] at h
      exact h.elim

theorem Blocked.step {d : Fin 2} {hostOf : Unit → CInt} {r r' : PacketRing Unit}
    {dev dev' : Memory} {a : Act Unit} (h : Blocked r)
    (hs : PacketRing.step hostOf (BitVec.ofNat 32 d.val) (r, dev) a = some (r', dev')) :
    Blocked r' ∧ SameBacklog r r' := by
  cases PacketRing.step_moves hs with
  | drop => exact ⟨h, .refl r⟩
  | xmit hidle htarget =>
      rw [xmitFrame_of_target d.isLt htarget]
      refine ⟨⟨h.stuck, h.slots, ?_, h.receiver⟩, ⟨rfl, rfl, rfl, rfl, rfl⟩⟩
      rw [PacketRing.setSender_self]
      trivial
  | @send i env m t hstep =>
      obtain ⟨hkeeps, hsender⟩ := h.sender.step h.slots h.stuck.1 hstep
      have hstatus : (m.area.desc m.area.info.tail).status =
          (r.area.desc r.area.info.tail).status := by
        rw [hkeeps.tail, hkeeps.desc]
      refine ⟨⟨⟨?_, ?_⟩, ?_, ?_, ?_⟩, ⟨hkeeps.tail, hstatus, rfl, rfl, ?_⟩⟩
      · change m.area.info.head ≠ m.area.info.tail
        rw [hkeeps.tail]
        exact hkeeps.head
      · change (m.area.desc m.area.info.tail).status = _ ∨ (m.area.desc m.area.info.tail).status = _
        rw [hstatus]
        exact h.stuck.2
      · exact hkeeps.slots
      · rw [PacketRing.afterSend_self]
        exact hsender
      · exact h.receiver.mono hkeeps.tail hkeeps.desc
      · have hgap : (if (r.sender ()).publishes = true then 1 else 0) + m.area.gap = r.area.gap :=
          hkeeps.gap
        change r.published + (if (r.sender i).publishes = true then 1 else 0) + m.area.gap =
          r.published + r.area.gap
        rw [show i = () from rfl]
        omega
  | @poll hold budget hidle =>
      change r.receiver.pc = .idle at hidle
      refine ⟨⟨h.stuck, h.slots, h.sender, ?_⟩, ⟨rfl, rfl, rfl, rfl, rfl⟩⟩
      cases hold with
      | false => trivial
      | true =>
          simp only [Receiver.poll, if_true, hidle]
          trivial
  | @recv env m rc hstep =>
      obtain ⟨harea, hpc, htakes, hdelivers⟩ := h.receiver.step h.stuck hstep
      have hring : r.afterRecv m.area rc = { r with receiver := rc } := by
        have harea' : m.area = r.area := harea
        simp [PacketRing.afterRecv, htakes, hdelivers, harea']
      rw [hring]
      exact ⟨⟨h.stuck, h.slots, h.sender, hpc⟩, ⟨rfl, rfl, rfl, rfl, rfl⟩⟩

/-! ## Main results -/

def RestartAct.onRing : RestartAct → Bool
  | .ring _ => true
  | _ => false

private theorem RestartRing.blocked_run {d : Fin 2} {s t : RestartRing} {as : List RestartAct}
    (h : Blocked s.ring)
    (hup : s.owner = .up)
    (run : Runs (RestartRing.step d) (fun _ a => a.onRing = true) s as t) :
    Blocked t.ring ∧ SameBacklog s.ring t.ring := by
  have hinv : t.owner = .up ∧ Blocked t.ring ∧ SameBacklog s.ring t.ring := by
    refine run.invariant
      (P := fun t => t.owner = .up ∧ Blocked t.ring ∧ SameBacklog s.ring t.ring) ?_
      ⟨hup, h, .refl _⟩
    rintro u a v ⟨hu, hb, hsame⟩ hok hs
    cases a with
    | adapterFree | adapterInfoInit | store => cases hok
    | ring a =>
        simp only [RestartRing.step, RestartRing.ringStep] at hs
        split at hs
        · simp only [Option.map_eq_some_iff] at hs
          obtain ⟨⟨r', dev'⟩, hring, rfl⟩ := hs
          obtain ⟨hb', hsame'⟩ := hb.step hring
          exact ⟨hu, hb', hsame.trans hsame'⟩
        · cases hs
  exact hinv.2

/-- A run whose restarts meet no send under way never wedges the ring; in a wedged ring the tail
stays where it is, nothing is delivered, and sends fill what is left in front of the tail until
the full test holds. -/
theorem restart_never_wedges (d : Fin 2) (area : InfoArea) (dev : Memory) :
    (∀ as s, Runs (RestartRing.step d) (fun s a => s.restartOk a = true)
      (RestartRing.start d area dev) as s → ¬ s.Wedged) ∧
    ∀ as s, Runs (RestartRing.step d) Any (RestartRing.start d area dev) as s → s.Wedged →
      s.owner = .up → s.ring.receiver.pc = .idle →
      ∀ bs t, Runs (RestartRing.step d) (fun _ a => a.onRing = true) s bs t →
        RestartRing.Stuck t.ring.area ∧ SameBacklog s.ring t.ring ∧
        t.ring.receiver.holding = none ∧ s.ring.area.gap < maxDescNum - 1 ∧
        (Sender.full t.ring.area.info.head t.ring.area.info.tail = true ↔ t.ring.area.gap = 0) := by
  constructor
  · intro as s run
    have hinv : s.Inv d := by
      refine run.invariant (P := fun s => s.Inv d) ?_ (RestartRing.inv_start area dev)
      intro u a v hu hok hs
      exact hu.step hok hs
    exact hinv.not_wedged
  · intro as s run hwedged hup hidle bs t run'
    have hrange : s.InRange d := by
      refine run.invariant (P := fun s => s.InRange d) ?_ (RestartRing.inRange_start area dev)
      intro u a v hu _ hs
      exact hu.step hs
    obtain ⟨-, hstuck, hsend⟩ := hwedged
    have hblocked : Blocked s.ring := by
      refine ⟨hstuck, hrange.area, ?_, ?_⟩
      · rw [hsend]
        trivial
      · rw [hidle]
        trivial
    obtain ⟨hb, hsame⟩ := RestartRing.blocked_run hblocked hup run'
    refine ⟨hb.stuck, hsame, ?_, ?_, full_iff_gap hb.slots⟩
    · have hpc := hb.receiver
      cases hpc' : t.ring.receiver.pc with
      | idle | loadHead | loadTail | spin | testSettled | testInit | testReleased =>
          simp [Receiver.holding, hpc']
      | _ =>
          rw [hpc'] at hpc
          exact hpc.elim
    · obtain ⟨n, hn⟩ := hrange.area.head
      obtain ⟨m, hm⟩ := hrange.area.tail
      have hne := hstuck.1
      rw [hn, hm, ne_eq, slot_eq_iff] at hne
      rw [InfoArea.gap, hn, hm, slot_toNat, slot_toNat, maxDescNum_eq]
      omega

def Sender.isIdle : Sender → Bool
  | .idle => true
  | _ => false

theorem Sender.eq_idle {t : Sender} (h : t.isIdle = true) : t = .idle := by
  cases t with
  | idle => rfl
  | _ => cases h

def restart : List RestartAct :=
  .adapterFree :: (List.replicate 260 .store ++ .adapterInfoInit :: List.replicate 584 .store)

def sends (n : Nat) : List RestartAct :=
  List.replicate n (.ring (.send () ⟨0, true, Dma.full 14⟩))

def frameDelivered : List RestartAct :=
  .ring (.xmit () false sampleSkb) :: (sends 15 ++ .ring (.poll false 64) ::
    List.replicate 14 (.ring (.recv ⟨true, true, fun _ => 0, Dma.full 14⟩)))

theorem restart_between_frames :
    ∃ as s, Runs (RestartRing.step 0) (fun s a => s.restartOk a = true)
        (RestartRing.start 0 zeroArea fun _ => 0) as s ∧
      s.ring.area.info.head ≠ s.ring.area.info.tail ∧ ¬ s.Wedged := by
  have hexec : (exec (guarded (RestartRing.step 0) RestartRing.restartOk)
      (RestartRing.start 0 zeroArea fun _ => 0)
      (frameDelivered ++ restart ++ .ring (.xmit () false sampleSkb) :: sends 15)).map
        (fun s => (s.ring.area.info.head, s.ring.area.info.tail)) = some (1, 0) := by
    decide +kernel
  obtain ⟨s, hs, hobs⟩ := Option.map_eq_some_iff.mp hexec
  simp only [Prod.mk.injEq] at hobs
  have hrun := runs_of_guarded hs
  refine ⟨_, s, hrun, ?_, (restart_never_wedges 0 zeroArea fun _ => 0).1 _ s hrun⟩
  rw [hobs.1, hobs.2]
  decide

/-- The second frame is past the test of `info->ready` when the owner restarts. -/
theorem restart_during_send_wedges :
    ∃ as s, Runs (RestartRing.step 0) Any (RestartRing.start 0 zeroArea fun _ => 0) as s ∧
      s.Wedged := by
  have hexec : (exec (RestartRing.step 0) (RestartRing.start 0 zeroArea fun _ => 0)
      (frameDelivered ++ .ring (.xmit () false sampleSkb) :: (sends 5 ++ restart ++ sends 10))).map
        (fun s => (decide (s.owner = .up), (s.ring.sender ()).isIdle, s.ring.area.info.head,
          s.ring.area.info.tail, (s.ring.area.desc s.ring.area.info.tail).status)) =
      some (true, true, 2, 0, .packetInit) := by
    decide +kernel
  obtain ⟨s, hs, hobs⟩ := Option.map_eq_some_iff.mp hexec
  simp only [Prod.mk.injEq, decide_eq_true_eq] at hobs
  obtain ⟨hup, hidle, hhead, htail, hstatus⟩ := hobs
  refine ⟨_, s, runs_of_exec hs, .inl hup, ⟨?_, .inl hstatus⟩, Sender.eq_idle hidle⟩
  rw [hhead, htail]
  decide

end NupaNet.Ring
