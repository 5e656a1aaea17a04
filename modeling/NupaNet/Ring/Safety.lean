import NupaNet.Ring.Restart

/-!
# Frames that are handled safely

A ring with any number of senders whose owner comes and goes: its driver is
loaded (`adapter_info_init`) and unloaded (`adapter_free`) store by store, any
number of times, and before the first time the area holds anything.

The addresses a sender uses stay inside as long as it passes the test of
`info->ready` only while the owner is up, on a head that it has not loaded
before the area was first set up, and no store of a set-up or a clearing falls
between that test and the end of the send.
-/

namespace NupaNet.Ring

open NupaNet.Foundation

/-! ## A ring with its owner -/

def Owner.next : Owner → Option (Store × Owner)
  | .clearing (st :: rest) => some (st, if rest = [] then .down else .clearing rest)
  | .starting (st :: rest) => some (st, if rest = [] then .up else .starting rest)
  | .clearing [] | .starting [] | .up | .down => none

/-- `known` says that the area has been set up once, `early` that the sender has loaded
`info->head` before that. -/
structure OwnedRing (ι : Type) where
  ring : PacketRing ι
  dev : Memory
  owner : Owner
  known : Bool
  early : ι → Bool

inductive OwnedAct (ι : Type) where
  | ring (a : Act ι)
  | adapterFree
  | adapterInfoInit
  | store

namespace OwnedRing

variable {ι : Type}

def ownerStep (s : OwnedRing ι) (owner : Owner) : Option (OwnedRing ι) :=
  owner.next.map fun p =>
    let stored : PacketRing ι := { s.ring with area := s.ring.area.store p.1 }
    { s with
      ring :=
        if p.2 = .up then { (PacketRing.fresh stored.area : PacketRing ι) with
          sender := stored.sender }
        else stored
      owner := p.2
      known := s.known || p.2 = .up }

variable [DecidableEq ι]

def earlyAfter (s : OwnedRing ι) : Act ι → ι → Bool
  | .send i _ =>
      match s.ring.sender i with
      | .loadHead _ => Function.update s.early i !s.known
      | _ => s.early
  | _ => s.early

def step (hostOf : ι → CInt) (dst : CInt) (s : OwnedRing ι) : OwnedAct ι → Option (OwnedRing ι)
  | .ring a =>
      if a.bySender || s.owner = .up then
        (PacketRing.step hostOf dst (s.ring, s.dev) a).map fun p =>
          { s with ring := p.1, dev := p.2, early := s.earlyAfter a }
      else none
  | .adapterFree =>
      if s.owner = .up ∧ s.ring.receiver.pc = .idle then s.ownerStep (.clearing memsetArea)
      else none
  | .adapterInfoInit =>
      if s.owner = .down then s.ownerStep (.starting (Ring.adapterInfoInit dst)) else none
  | .store => s.ownerStep s.owner

omit [DecidableEq ι]

/-- The driver of the owner is not loaded. -/
def start (area : InfoArea) (dev : Memory) : OwnedRing ι where
  ring := PacketRing.fresh area
  dev := dev
  owner := .down
  known := false
  early := fun _ => false

/-- A sender passes the test of `info->ready` while the owner is up and on a head of the ring, and
no store of the owner comes while a sender is past it. -/
def OwnerOk (s : OwnedRing ι) : OwnedAct ι → Prop
  | .ring (.send i _) =>
      match s.ring.sender i with
      | .loadReady _ _ _ => s.ring.area.info.ready = true → s.owner = .up ∧ s.early i = false
      | _ => True
  | .ring _ => True
  | .adapterFree | .adapterInfoInit | .store => ∀ i, (s.ring.sender i).committed = false

end OwnedRing

/-! ## Senders before the test -/

structure Sender.Waiting (d : Nat) (s : Sender) : Prop where
  uncommitted : s.committed = false
  fits : ∀ c, s.call = some c → Fits d c

section Waiting

variable {d : Nat} {m m' : Shm} {env : SendEnv} {s s' : Sender}

theorem Sender.Bounded.waiting {area : InfoArea} (h : s.Bounded d area)
    (uncommitted : s.committed = false) : s.Waiting d := by
  refine ⟨uncommitted, fun c hc => ?_⟩
  cases s with
  | idle | bug => cases hc
  | loadHead c' =>
      cases hc
      exact h
  | loadTail | loadReady =>
      cases hc
      exact h.1
  | _ => cases uncommitted

private theorem Sender.Bounded.of_uncommitted {area : InfoArea} (h : s.Bounded d area)
    (uncommitted : s.committed = false) (area' : InfoArea) : s.Bounded d area' := by
  cases s with
  | idle | bug | loadHead | loadTail | loadReady => exact h
  | _ => cases uncommitted

theorem Sender.Waiting.step (h : s.Waiting d)
    (hready : ∀ c head tail, s = .loadReady c head tail → m.area.info.ready = false)
    (hs : s.step m env = some (m', s')) : m' = m ∧ s'.Waiting d := by
  obtain ⟨hm, huncommitted, -⟩ := Sender.step_uncommitted h.uncommitted hready hs
  exact ⟨hm, huncommitted, fun c hc => h.fits c (Sender.step_call hs hc)⟩

theorem Sender.Bounded.step_uncommitted (h : s.Bounded d m.area)
    (uncommitted : s.committed = false) (loaded : ∀ c, s ≠ .loadHead c)
    (hready : ∀ c head tail, s = .loadReady c head tail → m.area.info.ready = false)
    (hs : s.step m env = some (m', s')) : s'.Bounded d m'.area := by
  cases s with
  | idle | bug => cases hs
  | loadHead c => exact absurd rfl (loaded c)
  | loadTail c head =>
      cases hs
      exact h
  | loadReady c head tail =>
      simp only [Sender.step, hready c head tail rfl] at hs
      cases hs
      trivial
  | _ => cases uncommitted

theorem Sender.Waiting.inside (h : s.Waiting d) (hd : d < maxAgentNum) :
    s.Inside (BitVec.ofNat 32 d) := by
  have hint : (BitVec.ofNat 32 d : CInt).toInt = d := by
    simp only [maxAgentNum_eq] at hd
    exact toInt_ofNat_small (by omega)
  have huncommitted := h.uncommitted
  rw [Sender.Inside, hint]
  constructor
  · intro w hw
    cases s with
    | idle | bug => cases hw
    | loadHead | loadTail | loadReady =>
        cases hw
        exact Word.inside_of_slot hd 0 (by simp)
    | _ => cases huncommitted
  · rintro c head offset length rfl
    cases huncommitted

end Waiting

/-! ## The invariant -/

private theorem head_of_adapterInfoInit {hostId : CInt} {st : Store}
    (h : st ∈ adapterInfoInit hostId)
    {area : InfoArea} (hhead : ∃ n, area.info.head = slot n) :
    ∃ n, (area.store st).info.head = slot n := by
  rcases adapterInfoInit_cases h with ⟨k, hk⟩ | rfl | rfl | rfl | ⟨v, rfl⟩ | ⟨v, rfl⟩
  · rw [area.store_info hk]
    exact hhead
  · exact ⟨0, rfl⟩
  · exact hhead
  · exact hhead
  · exact hhead
  · exact hhead

namespace OwnedRing

variable {ι : Type} {d : Nat} {s s' : OwnedRing ι}

structure Inv (d : Nat) (s : OwnedRing ι) : Prop where
  calm : s.owner ≠ .up → ∀ i, (s.ring.sender i).committed = false
  head : s.known = true → ∃ n, s.ring.area.info.head = slot n
  up : s.owner = .up → s.known = true ∧ AreaBounds s.ring.area
  clearing : ∀ pending, s.owner = .clearing pending → ∀ st ∈ pending, st ∈ memsetArea
  starting : ∀ pending, s.owner = .starting pending →
    ∃ (area : InfoArea) (stores : List Store),
      stores ++ pending = Ring.adapterInfoInit (BitVec.ofNat 32 d) ∧
        s.ring.area = area.storeAll stores
  sender : ∀ i, (s.ring.sender i).Bounded d s.ring.area ∨
    s.early i = true ∧ (s.ring.sender i).Waiting d

theorem inv_start (area : InfoArea) (dev : Memory) : (start (ι := ι) area dev).Inv d where
  calm := fun _ _ => rfl
  head := nofun
  up := nofun
  clearing := nofun
  starting := nofun
  sender := fun _ => .inl trivial

theorem Inv.inside (h : s.Inv d) (hd : d < maxAgentNum) (i : ι) :
    (s.ring.sender i).Inside (BitVec.ofNat 32 d) := by
  rcases h.sender i with hbounded | ⟨-, hwaiting⟩
  · exact hbounded.inside hd
  · exact hwaiting.inside hd

private theorem Inv.sender_of_calm (h : s.Inv d) (calm : ∀ i, (s.ring.sender i).committed = false)
    (area : InfoArea) (i : ι) :
    (s.ring.sender i).Bounded d area ∨ s.early i = true ∧ (s.ring.sender i).Waiting d :=
  (h.sender i).imp_left fun hbounded => hbounded.of_uncommitted (calm i) area

/-! ### The owner -/

theorem Inv.clear {st : Store} {rest : List Store} (h : s.Inv d)
    (calm : ∀ i, (s.ring.sender i).committed = false)
    (pending : ∀ st' ∈ st :: rest, st' ∈ memsetArea)
    (hs : s.ownerStep (.clearing (st :: rest)) = some s') : s'.Inv d := by
  have hmem := List.forall_mem_cons.mp pending
  have hinit : st ∈ Ring.adapterInfoInit 0 := mem_adapterInfoInit_of_mem_memsetArea hmem.1
  have hhead : s.known = true → ∃ n, (s.ring.area.store st).info.head = slot n := fun hknown =>
    head_of_adapterInfoInit hinit (h.head hknown)
  have hsender := h.sender_of_calm calm (s.ring.area.store st)
  cases hs
  by_cases hrest : rest = []
  · simp only [hrest, if_true]
    exact ⟨fun _ => calm, by simpa using hhead, nofun, nofun, nofun, hsender⟩
  · simp only [hrest, if_false]
    refine ⟨fun _ => calm, by simpa using hhead, nofun, fun p hp => ?_, nofun, hsender⟩
    cases hp
    exact hmem.2

theorem Inv.initialise {st : Store} {rest : List Store} {area : InfoArea} {stores : List Store}
    (h : s.Inv d) (calm : ∀ i, (s.ring.sender i).committed = false)
    (happ : stores ++ st :: rest = Ring.adapterInfoInit (BitVec.ofNat 32 d))
    (harea : s.ring.area = area.storeAll stores)
    (hs : s.ownerStep (.starting (st :: rest)) = some s') : s'.Inv d := by
  have hmem : st ∈ Ring.adapterInfoInit (BitVec.ofNat 32 d) := by
    rw [← happ]
    simp
  have happ' : stores ++ [st] ++ rest = Ring.adapterInfoInit (BitVec.ofNat 32 d) := by
    rw [← happ]
    simp
  have harea' : s.ring.area.store st = area.storeAll (stores ++ [st]) := by
    rw [harea]
    simp
  have hsender := h.sender_of_calm calm (s.ring.area.store st)
  cases hs
  by_cases hrest : rest = []
  · rw [hrest, List.append_nil] at happ'
    have hinit : Initialised (s.ring.area.store st) := by
      rw [harea', happ']
      exact adapterInfoInit_initialised area _
    simp only [hrest, if_true]
    exact ⟨fun _ => calm, fun _ => ⟨0, hinit.head⟩,
      fun _ => ⟨by simp, areaBounds_of_initialised hinit⟩, nofun, nofun, hsender⟩
  · simp only [hrest, if_false]
    refine ⟨fun _ => calm, fun hknown => ?_, nofun, nofun, fun p hp => ?_, hsender⟩
    · exact head_of_adapterInfoInit hmem (h.head (by simpa using hknown))
    · cases hp
      exact ⟨area, stores ++ [st], happ', harea'⟩

/-! ### The threads -/

theorem Inv.stored {area : InfoArea} (h : s.Inv d)
    (hstore : area = s.ring.area ∨
      s.owner = .up ∧ ∃ st : Store, st.Bounded d ∧ area = s.ring.area.store st) :
    (s.known = true → ∃ n, area.info.head = slot n) ∧ (s.owner = .up → AreaBounds area) ∧
      (∀ pending, s.owner = .starting pending → area = s.ring.area) ∧
      ∀ i, (s.ring.sender i).Bounded d area ∨ s.early i = true ∧ (s.ring.sender i).Waiting d := by
  rcases hstore with rfl | ⟨hup, st, hst, rfl⟩
  · exact ⟨h.head, fun hup => (h.up hup).2, fun _ _ => rfl, h.sender⟩
  · have hbounds := (h.up hup).2.store hst
    refine ⟨fun _ => hbounds.head, fun _ => hbounds, fun p hp => ?_, fun i => ?_⟩
    · cases hup.symm.trans hp
    · exact (h.sender i).imp_left fun hb => hb.mono fun n hn => hst.offset_kept hn

variable [DecidableEq ι]

private theorem earlyAfter_of_ne {i j : ι} {env : SendEnv} (hj : j ≠ i) :
    s.earlyAfter (.send i env) j = s.early j := by
  cases hpc : s.ring.sender i with
  | loadHead c =>
      simp only [earlyAfter, hpc]
      exact Function.update_of_ne hj _ _
  | _ => simp only [earlyAfter, hpc]

theorem Inv.sent {i : ι} {env : SendEnv} {m : Shm} {t : Sender} (h : s.Inv d)
    (hok : s.OwnerOk (.ring (.send i env)))
    (hs : Sender.step ⟨s.ring.area, s.dev⟩ env (s.ring.sender i) = some (m, t)) :
    (m.area = s.ring.area ∨
        s.owner = .up ∧ ∃ st : Store, st.Bounded d ∧ m.area = s.ring.area.store st) ∧
      (t.Bounded d m.area ∨ s.earlyAfter (.send i env) i = true ∧ t.Waiting d) ∧
      (s.owner ≠ .up → t.committed = false) := by
  by_cases hhead : ∃ c, s.ring.sender i = .loadHead c
  · obtain ⟨c, hpc⟩ := hhead
    have hfits : Sender.Fits d c := by
      have hsender := h.sender i
      rw [hpc] at hsender
      exact hsender.elim id fun hearly => hearly.2.fits c rfl
    rw [hpc] at hs
    cases hs
    refine ⟨.inl rfl, ?_, fun _ => rfl⟩
    cases hknown : s.known with
    | true => exact .inl ⟨hfits, h.head hknown⟩
    | false =>
        refine .inr ⟨by simp [earlyAfter, hpc, hknown], rfl, fun c' hc => ?_⟩
        cases hc
        exact hfits
  · have hloaded : ∀ c, s.ring.sender i ≠ .loadHead c := fun c hc => hhead ⟨c, hc⟩
    have hearly : s.earlyAfter (.send i env) i = s.early i := by
      cases hpc : s.ring.sender i with
      | loadHead c => exact absurd hpc (hloaded c)
      | _ => simp only [earlyAfter, hpc]
    have hready (hlate : s.owner = .up → s.early i = true) : ∀ c head tail,
        s.ring.sender i = .loadReady c head tail → s.ring.area.info.ready = false := by
      intro c head tail hpc
      by_contra hset
      simp only [OwnerOk, hpc] at hok
      obtain ⟨hup, hknown⟩ := hok (by simpa using hset)
      cases hknown.symm.trans (hlate hup)
    rw [hearly]
    rcases h.sender i with hbounded | ⟨hlate, hwaiting⟩
    · by_cases hup : s.owner = .up
      · obtain ⟨hstore, hnext⟩ := hbounded.step (h.up hup).2 hs
        exact ⟨hstore.imp_right fun hst => ⟨hup, hst⟩, .inl hnext, fun hne => absurd hup hne⟩
      · have hcalm := h.calm hup i
        have hnot := hready fun h => absurd h hup
        obtain ⟨hm, hnext⟩ := (hbounded.waiting hcalm).step hnot hs
        exact ⟨.inl (congrArg Shm.area hm),
          .inl (hbounded.step_uncommitted hcalm hloaded hnot hs), fun _ => hnext.uncommitted⟩
    · obtain ⟨hm, hnext⟩ := hwaiting.step (hready fun _ => hlate) hs
      exact ⟨.inl (congrArg Shm.area hm), .inr ⟨hlate, hnext⟩, fun _ => hnext.uncommitted⟩

theorem Inv.send {i : ι} {env : SendEnv} {m : Shm} {t : Sender} (h : s.Inv d)
    (hok : s.OwnerOk (.ring (.send i env)))
    (hs : Sender.step ⟨s.ring.area, s.dev⟩ env (s.ring.sender i) = some (m, t)) :
    Inv d { s with
      ring := s.ring.afterSend i m.area t
      dev := m.dev
      early := s.earlyAfter (.send i env) } := by
  obtain ⟨hstore, hself, hcalm⟩ := h.sent hok hs
  obtain ⟨hhead, hup, hstarting, hothers⟩ := h.stored hstore
  refine ⟨fun hne j => ?_, hhead, fun ho => ⟨(h.up ho).1, hup ho⟩, h.clearing, fun p hp => ?_,
    fun j => ?_⟩
  · by_cases hj : j = i
    · subst hj
      rw [PacketRing.afterSend_self]
      exact hcalm hne
    · rw [PacketRing.afterSend_of_ne hj]
      exact h.calm hne j
  · obtain ⟨area, stores, happ, harea⟩ := h.starting p hp
    exact ⟨area, stores, happ, (hstarting p hp).trans harea⟩
  · by_cases hj : j = i
    · subst hj
      rw [PacketRing.afterSend_self]
      exact hself
    · rw [PacketRing.afterSend_of_ne hj]
      have hsame : s.earlyAfter (.send i env) j = s.early j := earlyAfter_of_ne hj
      exact (hothers j).imp_right (And.imp_left hsame.trans)

theorem Inv.xmit {i : ι} {hostId : CInt} {hold : Bool} {skb : Skb} (hd : d < maxAgentNum)
    (h : s.Inv d) (htarget : xmitTarget hostId hold skb = some (BitVec.ofNat 32 d)) :
    Inv d { s with ring := s.ring.setSender i (Sender.xmitFrame hostId hold skb) } := by
  rw [xmitFrame_of_target hd htarget]
  refine ⟨fun hne j => ?_, h.head, h.up, h.clearing, h.starting, fun j => ?_⟩
  · by_cases hj : j = i
    · subst hj
      rw [PacketRing.setSender_self]
      rfl
    · rw [PacketRing.setSender_of_ne hj]
      exact h.calm hne j
  · by_cases hj : j = i
    · subst hj
      rw [PacketRing.setSender_self]
      exact .inl ⟨rfl, xmitTarget_fits htarget⟩
    · rw [PacketRing.setSender_of_ne hj]
      exact h.sender j

theorem Inv.step {hostOf : ι → CInt} {a : OwnedAct ι} (hd : d < maxAgentNum) (h : s.Inv d)
    (hok : s.OwnerOk a) (hs : s.step hostOf (BitVec.ofNat 32 d) a = some s') : s'.Inv d := by
  cases a with
  | ring a =>
      obtain ⟨hwho, hmap⟩ := Option.ite_none_right_eq_some.mp hs
      obtain ⟨⟨ring, dev⟩, hring, rfl⟩ := Option.map_eq_some_iff.mp hmap
      cases PacketRing.step_moves hring with
      | drop => exact h
      | xmit hidle htarget => exact h.xmit hd htarget
      | send hstep => exact h.send hok hstep
      | poll hidle => exact ⟨h.calm, h.head, h.up, h.clearing, h.starting, h.sender⟩
      | recv hstep =>
          have hup : s.owner = .up := by simpa [Act.bySender] using hwho
          obtain ⟨hhead, hbounds, -, hsender⟩ :=
            h.stored ((Receiver.step_store hstep).imp_right fun hst => ⟨hup, hst⟩)
          refine ⟨h.calm, hhead, fun ho => ⟨(h.up ho).1, hbounds ho⟩, h.clearing, fun p hp => ?_,
            hsender⟩
          cases hup.symm.trans hp
  | adapterFree =>
      obtain ⟨-, hstore⟩ := Option.ite_none_right_eq_some.mp hs
      exact h.clear hok (fun _ hmem => hmem) hstore
  | adapterInfoInit =>
      obtain ⟨-, hstore⟩ := Option.ite_none_right_eq_some.mp hs
      exact h.initialise hok (List.nil_append _) rfl hstore
  | store =>
      cases howner : s.owner with
      | up | down =>
          simp only [OwnedRing.step, howner] at hs
          cases hs
      | clearing pending =>
          simp only [OwnedRing.step, howner] at hs
          cases pending with
          | nil => cases hs
          | cons st rest => exact h.clear hok (h.clearing _ howner) hs
      | starting pending =>
          simp only [OwnedRing.step, howner] at hs
          cases pending with
          | nil => cases hs
          | cons st rest =>
              obtain ⟨area, stores, happ, harea⟩ := h.starting _ howner
              exact h.initialise hok happ harea hs

end OwnedRing

/-! ## Which frames are handled safely -/

/-- The frame is dropped, or its `dst_id` is an agent and every address used for it, in every
interleaving of any senders with the receiver and the restarts of that agent, belongs to it. -/
def Safe (hostId : CInt) (hold : Bool) (skb : Skb) : Prop :=
  Sender.xmitFrame hostId hold skb ≠ .bug ∧
    ∀ dst, xmitTarget hostId hold skb = some dst →
      (0 ≤ dst.toInt ∧ dst.toInt < maxAgentNum) ∧
      ∀ (ι : Type) [DecidableEq ι] (hostOf : ι → CInt) (area : InfoArea) (dev : Memory)
        (as : List (OwnedAct ι)) (s : OwnedRing ι) (i : ι),
        Runs (OwnedRing.step hostOf dst) OwnedRing.OwnerOk (OwnedRing.start area dev) as s →
        (s.ring.sender i).call = some ⟨dst, skb⟩ → (s.ring.sender i).Inside dst

private theorem safe_of_agent {hostId : CInt} {hold : Bool} {skb : Skb}
    (h : ∀ dst, xmitTarget hostId hold skb = some dst → ∃ d : Fin 2, dst = BitVec.ofNat 32 d.val) :
    Safe hostId hold skb := by
  constructor
  · intro hbug
    cases htarget : xmitTarget hostId hold skb with
    | none =>
        rw [Sender.xmitFrame, htarget] at hbug
        cases hbug
    | some dst =>
        obtain ⟨d, rfl⟩ := h dst htarget
        rw [xmitFrame_of_target d.isLt htarget] at hbug
        cases hbug
  · intro dst htarget
    obtain ⟨d, rfl⟩ := h dst htarget
    have hint : (BitVec.ofNat 32 d.val : CInt).toInt = d.val := toInt_ofNat_small (by omega)
    refine ⟨?_, ?_⟩
    · rw [hint, maxAgentNum_eq]
      omega
    · intro ι _ hostOf area dev as s i run _
      have hinv : s.Inv d.val := run.invariant (P := fun s => s.Inv d.val)
        (fun h hok hs => h.step d.isLt hok hs) (OwnedRing.inv_start area dev)
      exact hinv.inside d.isLt i

/-- A frame is handled safely exactly when it is dropped before the lookup, is sent to the other
host as multicast, or the last byte of its destination MAC is 0 or 1. -/
theorem safe_iff (hostId : Fin 2) (hold : Bool) (skb : Skb) :
    Safe (BitVec.ofNat 32 hostId.val) hold skb ↔
      hold = true ∨ descMaxDmaSize < skb.headlen ∨ isMulticastEtherAddr skb.destMac = true ∨
        skb.destMac 5 = 0 ∨ skb.destMac 5 = 1 := by
  constructor
  · intro hsafe
    by_contra hnot
    simp only [not_or] at hnot
    obtain ⟨hhold, hlen, hmulti, hzero, hone⟩ := hnot
    have htarget : xmitTarget (BitVec.ofNat 32 hostId.val) hold skb =
        some (macAddrToHostId skb.destMac) := by
      rw [xmitTarget_eq, if_neg (not_or.mpr ⟨hhold, hlen⟩), if_neg hmulti]
    have hagent := macAddrToHostId_agent.mp (hsafe.2 _ htarget).1
    rcases hagent with h | h
    · exact hzero h
    · exact hone h
  · intro hcond
    refine safe_of_agent fun dst htarget => ?_
    rw [xmitTarget_eq] at htarget
    split at htarget
    · cases htarget
    · next hpass =>
        split at htarget
        · cases htarget
          exact firstOtherAgent_agent hostId
        · next hmulti =>
            cases htarget
            simp only [not_or] at hpass
            refine macAddrToHostId_of_agent ?_
            rcases hcond with hhold | hlen | hm | hagent
            · exact absurd hhold hpass.1
            · exact absurd hlen hpass.2
            · exact absurd hm hmulti
            · exact hagent

/-- A frame for `fc:af:ac:00:00:02`, the MAC address of a third host. -/
def thirdHostSkb : Skb where
  data := fun k => [0xfc, 0xaf, 0xac, 0, 0, 2, 0xfc, 0xaf, 0xac, 0, 0, 0, 8, 0].getD k 0
  headlen := 14

theorem third_host_not_safe :
    Sender.xmitFrame 0 false thirdHostSkb = .bug ∧ ¬ Safe 0 false thirdHostSkb := by
  have hbug : Sender.xmitFrame 0 false thirdHostSkb = .bug := rfl
  exact ⟨hbug, fun hsafe => hsafe.1 hbug⟩

def secondHostSkb : Skb where
  data := fun k => [0xfc, 0xaf, 0xac, 0, 0, 1, 0xfc, 0xaf, 0xac, 0, 0, 0, 8, 0].getD k 0
  headlen := 14

def Sender.dmaRange : Sender → Option (CInt × CInt)
  | .transfer _ _ offset length => some (offset, length)
  | _ => none

/-- The condition on the owner is needed: a sender that passes the test between the store of
`info->ready` and the second `memset` has its DMA go to the region of host 0. -/
theorem memset_under_sender_outside :
    ∃ as s, Runs (OwnedRing.step (fun _ : Unit => 0) 1) Any
        (OwnedRing.start zeroArea fun _ => 0) as s ∧
      xmitTarget 0 false secondHostSkb = some 1 ∧ ¬ (s.ring.sender ()).Inside 1 := by
  have hexec : (exec (OwnedRing.step (fun _ : Unit => 0) 1) (OwnedRing.start zeroArea fun _ => 0)
      (.adapterInfoInit :: List.replicate 263 .store ++
        .ring (.xmit () false secondHostSkb) ::
          List.replicate 10 (.ring (.send () ⟨0, true, Dma.full 14⟩)) ++
        List.replicate 3 .store ++
        List.replicate 3 (.ring (.send () ⟨0, true, Dma.full 14⟩)))).map
        (fun s => (s.ring.sender ()).dmaRange) = some (some (0, 14)) := by
    decide +kernel
  obtain ⟨s, hs, hrange⟩ := Option.map_eq_some_iff.mp hexec
  refine ⟨_, s, runs_of_exec hs, rfl, fun hinside => ?_⟩
  cases hpc : s.ring.sender () with
  | transfer c head offset length =>
      rw [hpc] at hrange
      cases hrange
      have hlow := (hinside.2 c head 0 14 hpc).1
      revert hlow
      decide
  | _ =>
      rw [hpc] at hrange
      cases hrange

end NupaNet.Ring
