import NupaNet.Foundation.Reservation
import NupaNet.Xdma.Nowait
import NupaNet.Xdma.Slots
import NupaNet.Xdma.Verdict

/-!
# The slots of queued requests

Transfers that are queued without waiting reserve their slots one behind another
and leave the queue in the order they came, so the queue is a queue of
reservations in the ring.  `desc_used` is what is reserved, less what
`xdma_xfer_completion` gives back, and more where a request was freed with its
transfers built.  The invariant ties the accounts of the requests to it.
-/

namespace NupaNet.Xdma.Nowait

open NupaNet.Foundation

/-! ## What takes transfers off the queue -/

/-- `taken` has left the head of the queue and is no longer submitted; the state of every other
transfer is as it was. -/
structure Served (engine engine' : XdmaEngine) (taken : List Nat) : Prop where
  list : engine.transferList = taken ++ engine'.transferList
  decided : ∀ r ∈ taken, (engine'.tfer r).state ≠ .submitted
  others : ∀ r, r ∉ taken → (engine'.tfer r).state = (engine.tfer r).state

namespace Served

variable {engine engine' engine'' : XdmaEngine} {taken taken' : List Nat}

theorem of_same (list : engine'.transferList = engine.transferList)
    (tfer : engine'.tfer = engine.tfer) : Served engine engine' [] where
  list := list.symm
  decided r h := by cases h
  others r _ := by rw [tfer]

theorem trans (first : Served engine engine' taken) (second : Served engine' engine'' taken') :
    Served engine engine'' (taken ++ taken') where
  list := by rw [first.list, second.list, List.append_assoc]
  decided r h := by
    by_cases hsecond : r ∈ taken'
    · exact second.decided r hsecond
    · rw [second.others r hsecond]
      exact first.decided r ((List.mem_append.mp h).resolve_right hsecond)
  others r h := by
    rw [List.mem_append, not_or] at h
    rw [second.others r h.2, first.others r h.1]

theorem of_head {head : Nat} {transfer : XdmaTransfer}
    (list : engine.transferList = head :: engine'.transferList)
    (tfer : engine'.tfer = Function.update engine.tfer head transfer)
    (decided : transfer.state ≠ .submitted) : Served engine engine' [head] where
  list := list
  decided r h := by
    obtain rfl := List.mem_singleton.mp h
    rw [tfer, Function.update_self]
    exact decided
  others r h := by
    rw [tfer, Function.update_of_ne (fun heq => h (List.mem_singleton.mpr heq))]

theorem transferList (queue : List Nat) (engine : XdmaEngine) (descCompleted : U32) :
    ∃ taken, Served { engine with transferList := queue }
      (engineServiceTransferList queue engine descCompleted).1 taken := by
  induction queue generalizing engine descCompleted with
  | nil => exact ⟨[], of_same rfl rfl⟩
  | cons head rest ih =>
      unfold engineServiceTransferList
      simp only
      split
      · generalize hnext :
          { setTransfer engine head { engine.tfer head with state := .completed } with
            descDequeued := engine.descDequeued + (engine.tfer head).descNum32 } = next
        have htfer : next.tfer = Function.update engine.tfer head
            { engine.tfer head with state := .completed } := by
          rw [← hnext]
          rfl
        have hhead : Served { engine with transferList := head :: rest }
            { next with transferList := rest } [head] := of_head rfl htfer (by simp)
        obtain ⟨taken, hrest⟩ := ih next (descCompleted - (engine.tfer head).descNum32)
        exact ⟨[head] ++ taken, hhead.trans hrest⟩
      · exact ⟨[], of_same rfl rfl⟩

theorem finalTransfer (pollMode : Bool) (engine : XdmaEngine) (descCompleted : U32)
    (eopSeen : Bool) :
    ∃ taken, Served engine (engineServiceFinalTransfer pollMode engine descCompleted eopSeen)
      taken := by
  unfold engineServiceFinalTransfer
  split
  · exact ⟨[], of_same rfl rfl⟩
  next head rest hlist =>
    simp only
    split
    · exact ⟨[head], of_head hlist rfl (by simp)⟩
    · split
      · split
        · split
          · refine ⟨[], rfl, by simp, fun r _ => ?_⟩
            by_cases hr : r = head
            · subst hr
              simp [setTransfer]
            · simp [setTransfer, Function.update_of_ne hr]
          · exact ⟨[head], of_head hlist rfl (by simp)⟩
        · exact ⟨[head], of_head hlist rfl (by simp)⟩
      · exact ⟨[head], of_head hlist rfl (by simp)⟩

theorem engineService (pollMode : Bool) (engine : XdmaEngine) (descWriteback : U32)
    (reads : Reads) :
    ∃ taken, Served engine (Xdma.engineService pollMode engine descWriteback reads) taken := by
  unfold Xdma.engineService
  split
  · exact ⟨[], of_same rfl rfl⟩
  · have hstatus := engineServiceStatus_undisturbed pollMode engine descWriteback reads
    simp only
    generalize engineServiceStatus pollMode engine descWriteback reads = read at hstatus ⊢
    have hread : Served engine read [] := of_same hstatus.list hstatus.tfer
    split
    · exact ⟨[], hread⟩
    · obtain ⟨passed, hpassed⟩ := transferList read.transferList read
        (serviceCount descWriteback reads - read.descDequeued)
      generalize engineServiceTransferList read.transferList read
        (serviceCount descWriteback reads - read.descDequeued) = listed at hpassed ⊢
      obtain ⟨judged, hjudged⟩ := finalTransfer pollMode listed.1 listed.2 reads.eopSeen
      have hall := (hread.trans hpassed).trans hjudged
      split
      · exact ⟨_, hall⟩
      · obtain ⟨hlist, htfer⟩ := engineServiceResume_queue pollMode
          (engineServiceFinalTransfer pollMode listed.1 listed.2 reads.eopSeen) reads.status
        exact ⟨_, hall.trans (of_same hlist htfer)⟩

end Served

/-! ## The invariant -/

def place (engine : XdmaEngine) (r : Nat) : Place :=
  ⟨(engine.tfer r).descVirt, (engine.tfer r).descNum⟩

def numOf (engine : XdmaEngine) (b i : Nat) : Nat := (engine.tfer (record b i)).descNum

theorem numOf_kept {engine engine' : XdmaEngine} (kept : RingKept engine engine') (b i : Nat) :
    numOf engine' b i = numOf engine b i :=
  (kept.slots (record b i)).2

theorem place_kept {engine engine' : XdmaEngine} (kept : RingKept engine engine') :
    place engine' = place engine := by
  funext r
  rw [place, (kept.slots r).1, (kept.slots r).2]
  rfl

def Async.building (s : Async) : List Nat :=
  match s.call with
  | some call => if call.stage = .top then [] else [call.xfer]
  | none => []

def Request.collected (request : Request) : Nat :=
  match request.completion with
  | none => 0
  | some completion => completion.tferIdx

def Async.Holds (s : Async) (b i : Nat) : Prop :=
  (∃ call, s.call = some call ∧ call.request = b ∧ i < call.tferIdx) ∨
    ∃ request, s.requests b = some request ∧ request.collected ≤ i

def Unqueued (queue : List Nat) (b : Nat) : Prop := ∀ r ∈ queue, r / 2 ≠ b

instance (queue : List Nat) (b : Nat) : Decidable (Unqueued queue b) :=
  inferInstanceAs (Decidable (∀ r ∈ queue, r / 2 ≠ b))

/-- A second transfer is needed only when the first has come to the end of the ring. -/
structure CallInv (s : Async) (call : Call) : Prop where
  number : call.request < s.allocated
  alone : s.requests call.request = none
  sum : call.req.swDescIdx = numOf s.engine call.request 0 + numOf s.engine call.request 1
  le : call.req.swDescIdx ≤ call.req.swDescCnt
  rest : call.nents = (call.req.swDescCnt : Int) - call.req.swDescIdx
  more : call.stage = .top → call.nents ≠ 0
  first : call.tferIdx = 0 → numOf s.engine call.request 1 = 0 ∧
    (call.stage = .top → numOf s.engine call.request 0 = 0) ∧
    (call.stage ≠ .top → call.nents ≠ 0 → s.engine.descIdx = 0)
  second : call.tferIdx ≠ 0 → call.tferIdx = 1 ∧ numOf s.engine call.request 0 ≠ 0 ∧
    (call.stage = .top → numOf s.engine call.request 1 = 0 ∧ s.engine.descIdx = 0) ∧
    (call.stage ≠ .top → call.nents = 0)

theorem CallInv.congr {s t : Async} {call : Call} (inv : CallInv s call)
    (same : ∀ i < 2, numOf t.engine call.request i = numOf s.engine call.request i)
    (idx : t.engine.descIdx = s.engine.descIdx) (allocated : s.allocated ≤ t.allocated)
    (alone : t.requests call.request = none) : CallInv t call := by
  have hzero := same 0 (by omega)
  have hone := same 1 (by omega)
  refine ⟨inv.number.trans_le allocated, alone, ?_, inv.le, inv.rest, inv.more, ?_, ?_⟩
  · rw [hzero, hone]
    exact inv.sum
  · rw [hzero, hone, idx]
    exact inv.first
  · rw [hzero, hone, idx]
    exact inv.second

structure RequestInv (engine : XdmaEngine) (b : Nat) (request : Request) : Prop where
  sum : request.completion = none → request.swDescCnt = numOf engine b 0 + numOf engine b 1
  left : ∀ completion, request.completion = some completion → completion.nents ≠ 0 ∧
    (completion.tferIdx = 0 ∧ completion.nents = (numOf engine b 0 : Int) + numOf engine b 1 ∨
      completion.tferIdx = 1 ∧ completion.nents = numOf engine b 1)

theorem RequestInv.congr {engine engine' : XdmaEngine} {b : Nat} {request : Request}
    (inv : RequestInv engine b request)
    (same : ∀ i < 2, numOf engine' b i = numOf engine b i) : RequestInv engine' b request := by
  have hzero := same 0 (by omega)
  have hone := same 1 (by omega)
  constructor
  · rw [hzero, hone]
    exact inv.sum
  · rw [hzero, hone]
    exact inv.left

/-- The ring, with `gone` the transfers that were served and not released. -/
structure Accounts (s : Async) (gone : List Nat) : Prop where
  reserved : Reserved s.engine.descMax s.engine.descIdx s.engine.descUsed (place s.engine)
    (s.engine.transferList ++ s.building) gone
  filled : ∀ r ∈ gone ++ (s.engine.transferList ++ s.building), (s.engine.tfer r).descNum ≠ 0
  held : ∀ b i, i < 2 → s.Holds b i → numOf s.engine b i ≠ 0 →
    record b i ∈ gone ∨ record b i ∈ s.engine.transferList

structure Inv (s : Async) : Prop where
  inside : s.overrun = false
  used : s.engine.descUsed ≤ s.engine.descMax
  listed : ∀ r, (s.engine.tfer r).state = .submitted ↔ r ∈ s.engine.transferList
  fresh : ∀ b, s.allocated ≤ b → s.requests b = none ∧ ∀ i < 2, numOf s.engine b i = 0
  call : ∀ call, s.call = some call → CallInv s call
  requests : ∀ b request, s.requests b = some request → RequestInv s.engine b request
  queued : ∀ r ∈ s.engine.transferList, s.Holds (r / 2) (r % 2)
  accounts : ∃ gone, Accounts s gone

theorem record_inj {b b' i i' : Nat} (hi : i < 2) (hi' : i' < 2)
    (h : record b i = record b' i') : b = b' ∧ i = i' := by
  unfold record at h
  omega

theorem record_div {b i : Nat} (hi : i < 2) : record b i / 2 = b ∧ record b i % 2 = i := by
  unfold record
  omega

theorem record_of (r : Nat) : record (r / 2) (r % 2) = r := by
  unfold record
  omega

namespace Inv

variable {pollMode : Bool} {s : Async}

theorem ne_called (inv : Inv s) {call : Call} (called : s.call = some call) {b : Nat}
    {request : Request} (submitted : s.requests b = some request) : b ≠ call.request := by
  rintro rfl
  simp [(inv.call call called).alone] at submitted

theorem list_nodup (inv : Inv s) : (s.engine.transferList ++ s.building).Nodup := by
  obtain ⟨gone, accounts⟩ := inv.accounts
  exact (List.nodup_append.mp accounts.reserved.distinct).2.1

theorem start {engine : XdmaEngine} (list : engine.transferList = []) (used : engine.descUsed = 0)
    (idx : engine.descIdx < engine.descMax) : Inv (Async.start engine) where
  inside := rfl
  used := by
    change engine.descUsed ≤ engine.descMax
    omega
  listed r := by
    simp [Async.start, Async.unused, list]
  fresh b _ := ⟨rfl, fun i _ => rfl⟩
  call call h := by cases h
  requests b request h := by cases h
  queued r h := by
    simp [Async.start, list] at h
  accounts := by
    refine ⟨[], ?_, ?_, ?_⟩
    · simp only [Async.start, Async.building, list, used, List.append_nil]
      exact Reserved.none _ idx
    · simp [Async.start, Async.building, list]
    · rintro b i - (⟨call, h, -⟩ | ⟨request, h, -⟩) -
      · cases h
      · cases h

theorem beside (inv : Inv s) {engine : XdmaEngine} {taken : List Nat}
    (kept : RingKept s.engine engine) (served : Served s.engine engine taken) (offline : Bool)
    (returned : List Int) : Inv { s with engine, offline, returned } := by
  have hnum := numOf_kept kept
  obtain ⟨gone, accounts⟩ := inv.accounts
  have hreserved := accounts.reserved
  rw [served.list, List.append_assoc] at hreserved
  have hnodup := (List.nodup_append.mp hreserved.distinct).2.1
  refine ⟨inv.inside, ?_, ?_, ?_, ?_, ?_, ?_, gone ++ taken, ?_, ?_, ?_⟩
  · rw [kept.used, kept.max]
    exact inv.used
  · intro r
    by_cases htaken : r ∈ taken
    · refine ⟨fun h => absurd h (served.decided r htaken), fun h => ?_⟩
      exact absurd rfl ((List.nodup_append.mp hnodup).2.2 r htaken r (List.mem_append_left _ h))
    · rw [served.others r htaken, inv.listed, served.list, List.mem_append]
      exact ⟨fun h => h.resolve_left htaken, .inr⟩
  · intro b hb
    refine ⟨(inv.fresh b hb).1, fun i hi => ?_⟩
    rw [hnum]
    exact (inv.fresh b hb).2 i hi
  · intro call called
    have hcall := inv.call call called
    exact hcall.congr (fun i _ => hnum call.request i) kept.idx (le_refl _) hcall.alone
  · intro b request hrequest
    exact (inv.requests b request hrequest).congr fun i _ => hnum b i
  · intro r hr
    refine inv.queued r ?_
    rw [served.list]
    exact List.mem_append_right _ hr
  · rw [kept.max, kept.idx, kept.used, place_kept kept]
    exact hreserved.retire
  · intro r hr
    rw [(kept.slots r).2]
    refine accounts.filled r ?_
    rwa [served.list, List.append_assoc, ← List.append_assoc]
  · intro b i hi hholds hfilled
    rw [hnum] at hfilled
    rcases accounts.held b i hi hholds hfilled with hgone | hlist
    · exact .inl (List.mem_append_left _ hgone)
    · rw [served.list] at hlist
      rcases List.mem_append.mp hlist with htaken | hleft
      · exact .inl (List.mem_append_right _ htaken)
      · exact .inr hleft

private theorem building_cases (s : Async) : s.building = [] ∨ ∃ r, s.building = [r] := by
  unfold Async.building
  split
  · split
    · exact .inl rfl
    · exact .inr ⟨_, rfl⟩
  · exact .inl rfl

theorem same_engine (inv : Inv s) {t : Async} (engine : t.engine = s.engine)
    (inside : t.overrun = s.overrun)
    (building : t.building = s.building ∨ t.building = [])
    (allocated : s.allocated ≤ t.allocated)
    (fresh : ∀ b, t.allocated ≤ b → t.requests b = none)
    (call : ∀ call, t.call = some call → CallInv t call)
    (requests : ∀ b request, t.requests b = some request → RequestInv s.engine b request)
    (queued : ∀ r ∈ s.engine.transferList, s.Holds (r / 2) (r % 2) → t.Holds (r / 2) (r % 2))
    (held : ∀ b i, i < 2 → t.Holds b i → numOf s.engine b i ≠ 0 → s.Holds b i) : Inv t := by
  obtain ⟨gone, accounts⟩ := inv.accounts
  have hreserved : Reserved s.engine.descMax s.engine.descIdx s.engine.descUsed (place s.engine)
      (s.engine.transferList ++ t.building) gone := by
    rcases building with hsame | hnone
    · rw [hsame]
      exact accounts.reserved
    · rw [hnone, List.append_nil]
      have hbefore := accounts.reserved
      rcases building_cases s with hidle | ⟨r, hbuilding⟩
      · rwa [hidle, List.append_nil] at hbefore
      · rw [hbuilding] at hbefore
        exact hbefore.disown
  have hbuilding : ∀ r ∈ t.building, r ∈ s.building := by
    rcases building with hsame | hnone
    · rw [hsame]
      exact fun _ h => h
    · rw [hnone]
      intro r hr
      cases hr
  refine ⟨inside.trans inv.inside, ?_, ?_, fun b hb => ⟨fresh b hb, ?_⟩, call, ?_, ?_, gone, ?_,
    ?_, ?_⟩
  · rw [engine]
    exact inv.used
  · rw [engine]
    exact inv.listed
  · rw [engine]
    exact (inv.fresh b (allocated.trans hb)).2
  · rw [engine]
    exact requests
  · rw [engine]
    exact fun r hr => queued r hr (inv.queued r hr)
  · rw [engine]
    exact hreserved
  · rw [engine]
    intro r hr
    refine accounts.filled r ?_
    simp only [List.mem_append] at hr ⊢
    exact hr.imp_right (Or.imp_right (hbuilding r))
  · rw [engine]
    exact fun b i hi hholds hnum => accounts.held b i hi (held b i hi hholds hnum) hnum

end Inv

end NupaNet.Xdma.Nowait
