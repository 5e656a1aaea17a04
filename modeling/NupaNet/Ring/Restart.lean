import NupaNet.Ring.Publication

/-!
# Restarting a receiver

The owner of a ring is unloaded (`adapter_free` zeroes its INFO area) and later
loaded again (`adapter_info_init`) while the other host may be in the middle of
a send.  A sender that has read `info->head` before the restart and finds
`info->ready` set after it, or that has passed that test before it, writes the
head of the old ring into the new one: the tail then points at a descriptor
that nobody will ever settle.

`stale` says that a store of a restart came after the sender's last load of
`info->head`.  The counters and logs of the ring count from the last restart.
-/

namespace NupaNet.Ring

open NupaNet.Foundation

inductive Owner where
  | up
  | clearing (pending : List Store)
  | down
  | starting (pending : List Store)
  deriving DecidableEq

structure RestartRing where
  ring : PacketRing Unit
  dev : Memory
  owner : Owner
  stale : Bool

inductive RestartAct where
  | ring (a : Act Unit)
  | adapterFree
  | adapterInfoInit
  | store

/-- Past the test of `info->ready`, up to the `PACKET_SETTLED` store. -/
def Sender.committed : Sender → Bool
  | .idle | .bug | .loadHead _ | .loadTail _ _ | .loadReady _ _ _ => false
  | _ => true

theorem Sender.step_call {m m' : Shm} {env : SendEnv} {t t' : Sender} {c : Call}
    (hs : t.step m env = some (m', t')) (hc : t'.call = some c) : t.call = some c := by
  cases t with
  | idle | bug | oops => cases hs
  | loadReady c head tail =>
      obtain ⟨-, rfl | ⟨-, -, -, rfl⟩⟩ := Sender.step_loadReady hs
      · cases hc
      · exact hc
  | transfer c head offset length =>
      obtain ⟨-, rfl⟩ | ⟨-, rfl⟩ := Sender.step_transfer hs <;> exact hc
  | storeSettled c head =>
      cases hs
      cases hc
  | _ =>
      cases hs
      exact hc

theorem Sender.step_uncommitted {m m' : Shm} {env : SendEnv} {t t' : Sender}
    (h : t.committed = false)
    (hready : ∀ c head tail, t = .loadReady c head tail → m.area.info.ready = false)
    (hs : t.step m env = some (m', t')) :
    m' = m ∧ t'.committed = false ∧ t.returns = none ∧ t.publishes = false := by
  cases t with
  | idle | bug => cases hs
  | loadHead c | loadTail c head =>
      cases hs
      exact ⟨rfl, rfl, rfl, rfl⟩
  | loadReady c head tail =>
      simp only [Sender.step, hready c head tail rfl] at hs
      cases hs
      exact ⟨rfl, rfl, rfl, rfl⟩
  | _ => cases h

namespace RestartRing

def clear (s : RestartRing) : List Store → Option RestartRing
  | [] => none
  | st :: rest => some { s with
      ring := { s.ring with area := s.ring.area.store st }
      owner := if rest = [] then .down else .clearing rest
      stale := true }

/-- Performs the first of the remaining stores of `adapter_info_init`; the last one brings up a
new receiver. -/
def initialise (s : RestartRing) : List Store → Option RestartRing
  | [] => none
  | st :: rest => some (if rest = [] then { s with
        ring := { (PacketRing.fresh (s.ring.area.store st) : PacketRing Unit) with
          sender := s.ring.sender }
        owner := .up
        stale := true }
      else { s with
        ring := { s.ring with area := s.ring.area.store st }
        owner := .starting rest
        stale := true })

def staleAfter (s : RestartRing) : Act Unit → Bool
  | .send _ _ =>
      match s.ring.sender () with
      | .loadHead _ => false
      | _ => s.stale
  | _ => s.stale

def ringStep (d : Fin 2) (s : RestartRing) (a : Act Unit) : Option RestartRing :=
  (PacketRing.step (fun _ => BitVec.ofNat 32 (1 - d.val)) (BitVec.ofNat 32 d.val)
    (s.ring, s.dev) a).map fun p => { s with
      ring := p.1
      dev := p.2
      stale := s.staleAfter a }

def step (d : Fin 2) (s : RestartRing) : RestartAct → Option RestartRing
  | .ring a => if a.bySender || s.owner = .up then s.ringStep d a else none
  | .adapterFree =>
      if s.owner = .up ∧ s.ring.receiver.pc = .idle then s.clear memsetArea else none
  | .adapterInfoInit =>
      if s.owner = .down then s.initialise (Ring.adapterInfoInit (BitVec.ofNat 32 d.val)) else none
  | .store =>
      match s.owner with
      | .clearing pending => s.clear pending
      | .starting pending => s.initialise pending
      | _ => none

def start (d : Fin 2) (area : InfoArea) (dev : Memory) : RestartRing where
  ring := PacketRing.fresh (area.storeAll (Ring.adapterInfoInit (BitVec.ofNat 32 d.val)))
  dev := dev
  owner := .up
  stale := false

def Stuck (area : InfoArea) : Prop :=
  area.info.head ≠ area.info.tail ∧
    ((area.desc area.info.tail).status = .packetInit ∨
      (area.desc area.info.tail).status = .packetReleased)

/-- The owner is not in the middle of a restart, the ring is stuck and no send is under way. -/
def Wedged (s : RestartRing) : Prop :=
  (s.owner = .up ∨ s.owner = .down) ∧ Stuck s.ring.area ∧ s.ring.sender () = .idle

/-- No store of a restart while the sender is past the test of `info->ready`, and the sender
passes that test only on a ring that was not restarted since it loaded `info->head`. -/
def restartOk (s : RestartRing) : RestartAct → Bool
  | .ring (.send _ _) =>
      match s.ring.sender () with
      | .loadReady _ _ _ => !s.ring.area.info.ready || (!s.stale && s.owner = .up)
      | _ => true
  | .ring _ => true
  | .adapterFree | .adapterInfoInit | .store => !(s.ring.sender ()).committed

/-! ## Without a stale write -/

/-- The ring as its owner sees it: a stale sender has done nothing to it. -/
def view (s : RestartRing) : PacketRing Unit :=
  { s.ring with sender := if s.stale then fun _ => .idle else s.ring.sender }

private theorem view_of_fresh {s : RestartRing} (h : s.stale = false) : s.view = s.ring := by
  simp [view, h]

structure Inv (d : Fin 2) (s : RestartRing) : Prop where
  calm : s.owner ≠ .up ∨ s.stale = true → (s.ring.sender ()).committed = false
  fits : ∀ c, (s.ring.sender ()).call = some c → Sender.Fits d.val c
  up : s.owner = .up → Ctl d.val s.view
  clearing : ∀ pending, s.owner = .clearing pending →
    ∃ (area : InfoArea) (stores : List Store), stores ++ pending = memsetArea ∧
      s.ring.area = area.storeAll stores
  down : s.owner = .down → s.ring.area.info.head = 0 ∧ s.ring.area.info.tail = 0 ∧
    s.ring.area.info.ready = false
  starting : ∀ pending, s.owner = .starting pending →
    ∃ (area : InfoArea) (stores : List Store),
      stores ++ pending = Ring.adapterInfoInit (BitVec.ofNat 32 d.val) ∧
        s.ring.area = area.storeAll stores

variable {d : Fin 2} {s s' : RestartRing}

private theorem inv_of_up (hup : s.owner = .up)
    (hcalm : s.stale = true → (s.ring.sender ()).committed = false)
    (hfits : ∀ c, (s.ring.sender ()).call = some c → Sender.Fits d.val c)
    (hctl : Ctl d.val s.view) : s.Inv d := by
  refine ⟨fun h => ?_, hfits, fun _ => hctl, fun pending ho => ?_, fun ho => ?_, fun pending ho => ?_⟩
  · rcases h with hne | hstale
    · exact absurd hup hne
    · exact hcalm hstale
  all_goals
    rw [hup] at ho
    cases ho

theorem inv_start (area : InfoArea) (dev : Memory) : (RestartRing.start d area dev).Inv d where
  calm := fun _ => rfl
  fits := nofun
  up := by
    intro _
    have hinit := adapterInfoInit_initialised area (BitVec.ofNat 32 d.val)
    rw [view_of_fresh rfl]
    exact ctl_fresh hinit
  clearing := nofun
  down := nofun
  starting := nofun

private theorem memsetArea_info (area : InfoArea) :
    (area.storeAll memsetArea).info = ⟨0, 0, 0, 0, false⟩ := by
  rw [memsetArea, InfoArea.storeAll_append, memsetDescs_info]
  rfl

theorem Inv.clear {pending : List Store} {area : InfoArea} {stores : List Store} (h : s.Inv d)
    (hcommitted : (s.ring.sender ()).committed = false)
    (happ : stores ++ pending = memsetArea) (harea : s.ring.area = area.storeAll stores)
    (hs : s.clear pending = some s') : s'.Inv d := by
  cases pending with
  | nil => cases hs
  | cons st rest =>
      cases hs
      have happ' : stores ++ [st] ++ rest = memsetArea := by
        rw [← happ]
        simp
      have harea' : s.ring.area.store st = area.storeAll (stores ++ [st]) := by
        rw [harea]
        simp
      by_cases hrest : rest = []
      · rw [hrest, List.append_nil] at happ'
        rw [happ'] at harea'
        simp only [hrest, if_true]
        refine ⟨fun _ => hcommitted, h.fits, nofun, nofun, fun _ => ?_, nofun⟩
        have hinfo := memsetArea_info area
        rw [← harea'] at hinfo
        simp only [hinfo]
        exact ⟨trivial, trivial, trivial⟩
      · simp only [hrest, if_false]
        refine ⟨fun _ => hcommitted, h.fits, nofun, fun p hp => ?_, nofun, nofun⟩
        cases hp
        exact ⟨area, stores ++ [st], happ', harea'⟩

theorem Inv.initialise {pending : List Store} {area : InfoArea} {stores : List Store}
    (h : s.Inv d) (hcommitted : (s.ring.sender ()).committed = false)
    (happ : stores ++ pending = Ring.adapterInfoInit (BitVec.ofNat 32 d.val))
    (harea : s.ring.area = area.storeAll stores) (hs : s.initialise pending = some s') :
    s'.Inv d := by
  cases pending with
  | nil => cases hs
  | cons st rest =>
      cases hs
      have happ' : stores ++ [st] ++ rest = Ring.adapterInfoInit (BitVec.ofNat 32 d.val) := by
        rw [← happ]
        simp
      have harea' : s.ring.area.store st = area.storeAll (stores ++ [st]) := by
        rw [harea]
        simp
      by_cases hrest : rest = []
      · rw [hrest, List.append_nil] at happ'
        have hinit : Initialised (s.ring.area.store st) := by
          rw [harea', happ']
          exact adapterInfoInit_initialised area (BitVec.ofNat 32 d.val)
        simp only [hrest, if_true]
        exact ⟨fun _ => hcommitted, h.fits, fun _ => ctl_fresh hinit, nofun, nofun, nofun⟩
      · simp only [hrest, if_false]
        refine ⟨fun _ => hcommitted, h.fits, nofun, nofun, nofun, fun p hp => ?_⟩
        cases hp
        exact ⟨area, stores ++ [st], happ', harea'⟩

private theorem Inv.sendUncommitted {env : SendEnv} {m : Shm} {t : Sender} (h : s.Inv d)
    (hcommitted : (s.ring.sender ()).committed = false)
    (hready : ∀ c head tail, s.ring.sender () = .loadReady c head tail →
      s.ring.area.info.ready = false)
    (hs : Sender.step ⟨s.ring.area, s.dev⟩ env (s.ring.sender ()) = some (m, t)) (stale : Bool)
    (hup : s.owner = .up → s.stale = true ∧ stale = true) :
    Inv d { s with ring := s.ring.afterSend () m.area t, dev := m.dev, stale := stale } := by
  obtain ⟨rfl, hcommitted', hreturns, hpublishes⟩ := Sender.step_uncommitted hcommitted hready hs
  have hring : s.ring.afterSend () s.ring.area t = { s.ring with sender := fun _ => t } := by
    have hsender : Function.update s.ring.sender () t = fun _ => t := by
      funext i
      simp
    simp [PacketRing.afterSend, hreturns, hpublishes, hsender]
  rw [hring]
  refine ⟨fun _ => hcommitted', fun c hc => h.fits c (Sender.step_call hs hc), fun ho => ?_,
    h.clearing, h.down, h.starting⟩
  obtain ⟨hstale, rfl⟩ := hup ho
  have hview := h.up ho
  simp only [view, hstale, if_true] at hview ⊢
  exact hview

private theorem Inv.reload {c : Call} (h : s.Inv d) (hup : s.owner = .up)
    (hpc : s.ring.sender () = .loadHead c) : Ctl d.val s.ring := by
  have hview := h.up hup
  cases hstale : s.stale with
  | false =>
      simp only [view, hstale] at hview
      exact hview
  | true =>
      simp only [view, hstale, if_true] at hview
      have hfits : Sender.Fits d.val c := h.fits c (by rw [hpc]; rfl)
      have hstart := hview.start (i := ()) hfits rfl (fun _ => rfl)
      have hring : PacketRing.setSender { s.ring with sender := fun _ => .idle } ()
          (.loadHead c) = s.ring := by
        have hsender : Function.update (fun _ : Unit => Sender.idle) () (.loadHead c) =
            s.ring.sender := by
          funext i
          rw [show i = () from rfl, Function.update_self, hpc]
        rw [PacketRing.setSender, hsender]
      rw [hring] at hstart
      exact hstart

theorem Inv.send {env : SendEnv} {m : Shm} {t : Sender} (h : s.Inv d)
    (hok : s.restartOk (.ring (.send () env)) = true)
    (hs : Sender.step ⟨s.ring.area, s.dev⟩ env (s.ring.sender ()) = some (m, t)) :
    Inv d { s with
      ring := s.ring.afterSend () m.area t
      dev := m.dev
      stale := s.staleAfter (.send () env) } := by
  have hfits : ∀ c, ((s.ring.afterSend () m.area t).sender ()).call = some c →
      Sender.Fits d.val c := by
    rw [PacketRing.afterSend_self]
    exact fun c hc => h.fits c (Sender.step_call hs hc)
  by_cases hhead : ∃ c, s.ring.sender () = .loadHead c
  · obtain ⟨c, hpc⟩ := hhead
    simp only [staleAfter, hpc]
    by_cases hup : s.owner = .up
    · refine inv_of_up hup (fun hstale => ?_) hfits ((h.reload hup hpc).send hs)
      exact absurd hstale Bool.false_ne_true
    · refine h.sendUncommitted (by rw [hpc]; rfl) ?_ hs false fun ho => absurd ho hup
      intro c' head tail hpc'
      rw [hpc] at hpc'
      cases hpc'
  · have hstale : s.staleAfter (.send () env) = s.stale := by
      unfold staleAfter
      cases hpc : s.ring.sender () with
      | loadHead c => exact absurd ⟨c, hpc⟩ hhead
      | _ => rfl
    rw [hstale]
    by_cases hfresh : s.owner = .up ∧ s.stale = false
    · obtain ⟨hup, hs0⟩ := hfresh
      have hctl := h.up hup
      simp only [view, hs0] at hctl
      refine inv_of_up hup (fun ht => ?_) hfits ?_
      · simp only [hs0] at ht
        cases ht
      · simp only [view, hs0]
        exact Ctl.send hctl hs
    · have hcalm : s.owner ≠ .up ∨ s.stale = true := by
        by_cases hup : s.owner = .up
        · right
          cases hs0 : s.stale with
          | false => exact absurd ⟨hup, hs0⟩ hfresh
          | true => rfl
        · exact .inl hup
      refine h.sendUncommitted (h.calm hcalm) ?_ hs s.stale fun hup => ?_
      · intro c head tail hpc
        simp only [restartOk, hpc, Bool.or_eq_true, Bool.not_eq_true', Bool.and_eq_true,
          decide_eq_true_eq] at hok
        rcases hok with hready | ⟨hs0, hup⟩
        · exact hready
        · exact absurd ⟨hup, hs0⟩ hfresh
      · rcases hcalm with hne | hs0
        · exact absurd hup hne
        · exact ⟨hs0, hs0⟩

theorem Inv.xmit {hostId : CInt} {hold : Bool} {skb : Skb} (h : s.Inv d)
    (hidle : s.ring.sender () = .idle)
    (htarget : xmitTarget hostId hold skb = some (BitVec.ofNat 32 d.val)) :
    Inv d { s with ring := s.ring.setSender () (Sender.xmitFrame hostId hold skb) } := by
  have hfits : Sender.Fits d.val ⟨BitVec.ofNat 32 d.val, skb⟩ := ⟨rfl, xmitTarget_fits htarget⟩
  rw [xmitFrame_of_target d.isLt htarget]
  refine ⟨fun _ => by rw [PacketRing.setSender_self]; rfl, fun c hc => ?_, fun hup => ?_,
    h.clearing, h.down, h.starting⟩
  · rw [PacketRing.setSender_self, Sender.call, Option.some.injEq] at hc
    rw [← hc]
    exact hfits
  · have hctl := h.up hup
    cases hs0 : s.stale with
    | false =>
        simp only [view, hs0, Bool.false_eq_true, if_false] at hctl ⊢
        refine hctl.start hfits hidle fun j => ?_
        rw [show j = () from rfl, hidle]
        rfl
    | true =>
        simp only [view, hs0, if_true] at hctl ⊢
        exact hctl

theorem Inv.step {a : RestartAct} (h : s.Inv d) (hok : s.restartOk a = true)
    (hs : s.step d a = some s') : s'.Inv d := by
  cases a with
  | ring a =>
      simp only [RestartRing.step] at hs
      split at hs
      · next hwho =>
          simp only [ringStep, Option.map_eq_some_iff] at hs
          obtain ⟨⟨r', dev'⟩, hring, rfl⟩ := hs
          cases PacketRing.step_moves hring with
          | drop => exact h
          | xmit hidle htarget => exact h.xmit hidle htarget
          | send hstep => exact h.send hok hstep
          | poll hidle =>
              have hup : s.owner = .up := by simpa [Act.bySender] using hwho
              exact inv_of_up hup (fun ht => h.calm (.inr ht)) h.fits
                ((h.up hup).poll _ _ hidle)
          | recv hstep =>
              have hup : s.owner = .up := by simpa [Act.bySender] using hwho
              exact inv_of_up hup (fun ht => h.calm (.inr ht)) h.fits ((h.up hup).recv hstep)
      · cases hs
  | adapterFree =>
      simp only [RestartRing.step] at hs
      split at hs
      · exact h.clear (by simpa [restartOk] using hok) (List.nil_append _) rfl hs
      · cases hs
  | adapterInfoInit =>
      simp only [RestartRing.step] at hs
      split at hs
      · exact h.initialise (by simpa [restartOk] using hok) (List.nil_append _) rfl hs
      · cases hs
  | store =>
      have hcommitted : (s.ring.sender ()).committed = false := by simpa [restartOk] using hok
      simp only [RestartRing.step] at hs
      split at hs
      · next pending ho =>
          obtain ⟨area, stores, happ, harea⟩ := h.clearing pending ho
          exact h.clear hcommitted happ harea hs
      · next pending ho =>
          obtain ⟨area, stores, happ, harea⟩ := h.starting pending ho
          exact h.initialise hcommitted happ harea hs
      · cases hs

theorem Inv.not_wedged (h : s.Inv d) : ¬ s.Wedged := by
  rintro ⟨ho, ⟨hne, hst⟩, -⟩
  rcases ho with hup | hdown
  · have hctl := h.up hup
    have hhead : s.ring.area.info.head = slot s.ring.published := hctl.head
    have htail : s.ring.area.info.tail = slot s.ring.taken := hctl.tail
    have hlt : s.ring.taken < s.ring.published := by
      have horder : s.ring.taken ≤ s.ring.sent.length := hctl.order
      have hlag : s.ring.sent.length ≤ s.ring.published := hctl.lag
      rcases Nat.lt_or_eq_of_le (Nat.le_trans horder hlag) with hlt | heq
      · exact hlt
      · rw [hhead, htail, heq] at hne
        exact absurd rfl hne
    have hwait : statusAt s.ring.area s.ring.taken = .packetSettled ∨
        statusAt s.ring.area s.ring.taken = .packetFreezing := by
      rcases hctl.waiting (Nat.le_refl _) hlt with ⟨-, hsettled⟩ | ⟨hfreezing, -⟩
      · exact .inl hsettled
      · exact .inr hfreezing
    rw [htail, ← statusAt] at hst
    rcases hwait with hw | hw <;> rcases hst with hst | hst <;>
      · rw [hw] at hst
        cases hst
  · obtain ⟨hhead, htail, -⟩ := h.down hdown
    rw [hhead, htail] at hne
    exact hne rfl

end RestartRing

end NupaNet.Ring
