import NupaNet.Xdma.Reservations

/-!
# The steps of a submission

Each step of `xdma_xfer_submit_nowait` keeps the invariant, as long as a transfer
is built only where the ring has room for it.  Then a request never needs a third
transfer: the first ends at the end of the ring, and the second starts in slot 0
with the first still on the account.
-/

namespace NupaNet.Xdma.Nowait

open NupaNet.Foundation

namespace Inv

variable {pollMode : Bool} {s : Async}

theorem enter (inv : Inv s) (called : s.call = none) {req : XdmaRequestCb}
    (unread : req.swDescIdx = 0) : Inv (s.afterEnter req) := by
  obtain ⟨hnew, hunused⟩ := inv.fresh s.allocated (le_refl _)
  have hzero := hunused 0 (by omega)
  have hone := hunused 1 (by omega)
  have hidle : s.building = [] := by simp [Async.building, called]
  have hother : ∀ {b request}, s.requests b = some request → b ≠ s.allocated := by
    rintro b request hrequest rfl
    simp [hnew] at hrequest
  unfold Async.afterEnter
  simp only
  split
  · refine inv.same_engine rfl rfl (.inr rfl) (Nat.le_succ _) ?_ (fun call h => by cases h) ?_ ?_ ?_
    · intro b hb
      have hb' : s.allocated + 1 ≤ b := hb
      rw [Async.submitted_ne _ _ (by omega)]
      exact (inv.fresh b (by omega)).1
    · intro b request hrequest
      by_cases hb : b = s.allocated
      · subst hb
        rw [Async.submitted_self, Option.some.injEq] at hrequest
        subst hrequest
        refine ⟨fun _ => ?_, fun completion h => by cases h⟩
        change 0 = numOf s.engine s.allocated 0 + numOf s.engine s.allocated 1
        omega
      · rw [Async.submitted_ne _ _ hb] at hrequest
        exact inv.requests b request hrequest
    · rintro r hr (⟨call, hcall, -⟩ | ⟨request, hrequest, hcollected⟩)
      · simp [called] at hcall
      · refine .inr ⟨request, ?_, hcollected⟩
        rw [Async.submitted_ne _ _ (hother hrequest)]
        exact hrequest
    · rintro b i hi (⟨call, hcall, -⟩ | ⟨request, hrequest, hcollected⟩) hnum
      · cases hcall
      · have hb : b ≠ s.allocated := by
          rintro rfl
          exact hnum (hunused i hi)
        rw [Async.submitted_ne _ _ hb] at hrequest
        exact .inr ⟨request, hrequest, hcollected⟩
  · next hsome =>
      refine inv.same_engine rfl rfl (.inl hidle.symm) (Nat.le_succ _) ?_ ?_ inv.requests ?_ ?_
      · intro b hb
        have hb' : s.allocated + 1 ≤ b := hb
        exact (inv.fresh b (by omega)).1
      · intro call hcall
        obtain rfl := Option.some.inj hcall
        refine ⟨Nat.lt_succ_self _, hnew, ?_, ?_, ?_, ?_, ?_, ?_⟩
        · change req.swDescIdx = numOf s.engine s.allocated 0 + numOf s.engine s.allocated 1
          omega
        · change req.swDescIdx ≤ req.swDescCnt
          omega
        · change (req.swDescCnt : Int) = (req.swDescCnt : Int) - (req.swDescIdx : Int)
          omega
        · intro _
          change ((req.swDescCnt : Nat) : Int) ≠ 0
          omega
        · exact fun _ => ⟨hone, fun _ => hzero, fun h => absurd rfl h⟩
        · exact fun h => absurd rfl h
      · rintro r hr (⟨call, hcall, -⟩ | hrequest)
        · simp [called] at hcall
        · exact .inr hrequest
      · rintro b i hi (⟨call, hcall, -, hlt⟩ | hrequest) hnum
        · obtain rfl := Option.some.inj hcall
          cases hlt
        · exact .inr hrequest

/-- The request of a refused transfer is freed; none of its transfers may be queued. -/
theorem refuse (inv : Inv s) {call : Call} (called : s.call = some call)
    (unqueued : Unqueued s.engine.transferList call.request) (rv : Int) :
    Inv (s.refuse rv) := by
  refine inv.same_engine rfl rfl (.inr rfl) (le_refl _) (fun b hb => (inv.fresh b hb).1)
    (fun call h => by cases h) inv.requests ?_ ?_
  · rintro r hr (⟨other, hother, hrequest, -⟩ | hrequest)
    · obtain rfl := Option.some.inj (called.symm.trans hother)
      exact absurd hrequest.symm (unqueued r hr)
    · exact .inr hrequest
  · rintro b i hi (⟨other, hother, -⟩ | hrequest) hnum
    · cases hother
    · exact .inr hrequest

theorem check (inv : Inv s) {call : Call} (called : s.call = some call)
    (built : call.stage = .built) :
    Inv { s with call := some { call with stage := .admitted } } := by
  have hcall := inv.call call called
  have hstage : call.stage ≠ .top := by simp [built]
  refine inv.same_engine rfl rfl (.inl ?_) (le_refl _) (fun b hb => (inv.fresh b hb).1) ?_
    inv.requests ?_ ?_
  · simp [Async.building, called, built, Call.xfer]
  · intro other hother
    obtain rfl := Option.some.inj hother
    refine ⟨hcall.number, hcall.alone, hcall.sum, hcall.le, hcall.rest, (fun h => by cases h), ?_,
      ?_⟩
    · intro hidx
      obtain ⟨hone, -, hend⟩ := hcall.first hidx
      exact ⟨hone, (fun h => by cases h), fun _ => hend hstage⟩
    · intro hidx
      obtain ⟨hidx, hzero, -, hlast⟩ := hcall.second hidx
      exact ⟨hidx, hzero, (fun h => by cases h), fun _ => hlast hstage⟩
  · rintro r hr (⟨other, hother, hrequest, hlt⟩ | hrequest)
    · obtain rfl := Option.some.inj (called.symm.trans hother)
      exact .inl ⟨_, rfl, hrequest, hlt⟩
    · exact .inr hrequest
  · rintro b i hi (⟨other, hother, hrequest, hlt⟩ | hrequest) hnum
    · obtain rfl := Option.some.inj hother
      exact .inl ⟨call, called, hrequest, hlt⟩
    · exact .inr hrequest

theorem unused_at_top (inv : Inv s) {call : Call} (called : s.call = some call)
    (top : call.stage = .top) :
    call.tferIdx < 2 ∧ numOf s.engine call.request call.tferIdx = 0 := by
  have hcall := inv.call call called
  by_cases hidx : call.tferIdx = 0
  · rw [hidx]
    exact ⟨by omega, (hcall.first hidx).2.1 top⟩
  · obtain ⟨hone, -, htop, -⟩ := hcall.second hidx
    rw [hone]
    exact ⟨by omega, (htop top).1⟩

private theorem tfer_afterBuild (s : Async) (call : Call) :
    (s.afterBuild call).engine.tfer = Function.update s.engine.tfer call.xfer
      { (transferInit s.engine call.req).2.2 with
        lastInRequest := decide (call.nents - (transferInit s.engine call.req).2.2.descNum = 0) } :=
  rfl

private theorem numOf_afterBuild (s : Async) (call : Call) (b i : Nat) :
    numOf (s.afterBuild call).engine b i =
      if record b i = call.xfer then transferCount s.engine call.req else numOf s.engine b i := by
  unfold numOf Async.afterBuild
  simp only [setTransfer, Function.update_apply]
  split <;> rfl

private theorem numOf_afterBuild_ne (s : Async) {call : Call} {b i : Nat} (hi : i < 2)
    (hidx : call.tferIdx < 2) (ne : ¬ (b = call.request ∧ i = call.tferIdx)) :
    numOf (s.afterBuild call).engine b i = numOf s.engine b i := by
  have hrecord : record b i ≠ call.xfer := fun h => ne (record_inj hi hidx h)
  rw [numOf_afterBuild, if_neg hrecord]

private theorem holds_afterBuild {call : Call} (called : s.call = some call) (b i : Nat) :
    (s.afterBuild call).Holds b i ↔ s.Holds b i := by
  refine or_congr ⟨?_, ?_⟩ Iff.rfl
  · rintro ⟨built, hbuilt, hrequest, hlt⟩
    obtain rfl := Option.some.inj hbuilt
    exact ⟨call, called, hrequest, hlt⟩
  · rintro ⟨other, hcalled, hrequest, hlt⟩
    obtain rfl := Option.some.inj (called.symm.trans hcalled)
    exact ⟨_, rfl, hrequest, hlt⟩

private theorem place_afterBuild (s : Async) (call : Call) :
    place (s.afterBuild call).engine = Function.update (place s.engine) call.xfer
      ⟨s.engine.descIdx, transferCount s.engine call.req⟩ := by
  funext r
  unfold place Async.afterBuild
  simp only [setTransfer, Function.update_apply]
  split <;> rfl

private theorem transferCount_end {engine : XdmaEngine} (req : XdmaRequestCb)
    (left : req.swDescIdx + transferCount engine req < req.swDescCnt)
    (slot : engine.descIdx < engine.descMax) :
    engine.descIdx + transferCount engine req = engine.descMax := by
  unfold transferCount at *
  simp only at *
  split at left <;> split <;> omega

private theorem more_at_top (inv : Inv s) {call : Call} (called : s.call = some call)
    (top : call.stage = .top) : call.req.swDescIdx < call.req.swDescCnt := by
  have hcall := inv.call call called
  have hmore := hcall.more top
  have hrest := hcall.rest
  have hle := hcall.le
  omega

/-- A request that is at its second transfer has the first on its account, so that the ring
has no room for as many descriptors as it has slots. -/
private theorem second_ends (inv : Inv s) {call : Call} (called : s.call = some call)
    (top : call.stage = .top) (second : call.tferIdx = 1)
    (room : s.engine.descUsed + transferCount s.engine call.req ≤ s.engine.descMax) :
    call.req.swDescIdx + transferCount s.engine call.req = call.req.swDescCnt := by
  obtain ⟨gone, reserved, -, held⟩ := inv.accounts
  have hcall := inv.call call called
  obtain ⟨-, hzero, htop, -⟩ := hcall.second (by omega)
  obtain ⟨-, hstart⟩ := htop top
  have hle := transferCount_le call.req reserved.cursor_lt
  have hmore := inv.more_at_top called top
  by_contra hleft
  -- the cursor is at 0, so a transfer that leaves something takes the whole ring
  have hend := transferCount_end call.req (by omega) reserved.cursor_lt
  have hfirst := held call.request 0 (by omega) (.inl ⟨call, called, rfl, by omega⟩) hzero
  have hcharged := reserved.size_le_used (hfirst.imp_right (List.mem_append_left _))
  have hsize : (place s.engine (record call.request 0)).size = numOf s.engine call.request 0 := rfl
  omega

private theorem build_nums (inv : Inv s) {call : Call} (called : s.call = some call)
    (top : call.stage = .top) :
    call.tferIdx = 0 ∧ numOf s.engine call.request 0 = 0 ∧ numOf s.engine call.request 1 = 0 ∧
        numOf (s.afterBuild call).engine call.request 0 = transferCount s.engine call.req ∧
        numOf (s.afterBuild call).engine call.request 1 = 0 ∨
      call.tferIdx = 1 ∧ numOf s.engine call.request 0 ≠ 0 ∧ numOf s.engine call.request 1 = 0 ∧
        numOf (s.afterBuild call).engine call.request 0 = numOf s.engine call.request 0 ∧
        numOf (s.afterBuild call).engine call.request 1 = transferCount s.engine call.req := by
  have hcall := inv.call call called
  have hzero := numOf_afterBuild s call call.request 0
  have hone := numOf_afterBuild s call call.request 1
  by_cases hidx : call.tferIdx = 0
  · obtain ⟨hnone, hfirst, -⟩ := hcall.first hidx
    rw [Call.xfer, hidx, if_pos rfl] at hzero
    rw [Call.xfer, hidx, if_neg (by unfold record; omega)] at hone
    exact .inl ⟨hidx, hfirst top, hnone, hzero, hone.trans hnone⟩
  · obtain ⟨hsecond, hfirst, hnone, -⟩ := hcall.second hidx
    rw [Call.xfer, hsecond, if_neg (by unfold record; omega)] at hzero
    rw [Call.xfer, hsecond, if_pos rfl] at hone
    exact .inr ⟨hsecond, hfirst, (hnone top).1, hzero, hone⟩

private theorem build_call (inv : Inv s) {call : Call} (called : s.call = some call)
    (top : call.stage = .top)
    (room : s.engine.descUsed + transferCount s.engine call.req ≤ s.engine.descMax) :
    ∀ built, (s.afterBuild call).call = some built → CallInv (s.afterBuild call) built := by
  intro built hbuilt
  obtain rfl := Option.some.inj hbuilt
  obtain ⟨gone, reserved, -, -⟩ := inv.accounts
  have hcall := inv.call call called
  have hmore := inv.more_at_top called top
  have hcount := transferCount_le call.req reserved.cursor_lt
  have hsum := hcall.sum
  have hrest := hcall.rest
  have hnext : (s.afterBuild call).engine.descIdx =
      (s.engine.descIdx + transferCount s.engine call.req) % s.engine.descMax := rfl
  have hleft : call.req.swDescIdx + transferCount s.engine call.req < call.req.swDescCnt →
      (s.afterBuild call).engine.descIdx = 0 := by
    intro h
    rw [hnext, transferCount_end call.req h reserved.cursor_lt, Nat.mod_self]
  have hidx' : (transferInit s.engine call.req).2.1.swDescIdx =
      call.req.swDescIdx + transferCount s.engine call.req := rfl
  have hcnt' : (transferInit s.engine call.req).2.1.swDescCnt = call.req.swDescCnt := rfl
  have hnum' : (transferInit s.engine call.req).2.2.descNum = transferCount s.engine call.req := rfl
  have hcases := inv.build_nums called top
  refine ⟨hcall.number, hcall.alone, ?_, ?_, ?_, (fun h => by cases h), ?_, ?_⟩
  · change (transferInit s.engine call.req).2.1.swDescIdx =
      numOf (s.afterBuild call).engine call.request 0 +
        numOf (s.afterBuild call).engine call.request 1
    omega
  · change (transferInit s.engine call.req).2.1.swDescIdx ≤
      (transferInit s.engine call.req).2.1.swDescCnt
    omega
  · change call.nents - ((transferInit s.engine call.req).2.2.descNum : Int) =
      ((transferInit s.engine call.req).2.1.swDescCnt : Int) -
        (transferInit s.engine call.req).2.1.swDescIdx
    omega
  · intro hidx
    have hidx : call.tferIdx = 0 := hidx
    refine ⟨by change numOf (s.afterBuild call).engine call.request 1 = 0; omega,
      (fun h => by cases h), fun _ hsome => hleft ?_⟩
    have hsome : call.nents - ((transferInit s.engine call.req).2.2.descNum : Int) ≠ 0 := hsome
    omega
  · intro hidx
    have hidx : call.tferIdx ≠ 0 := hidx
    have hsecond : call.tferIdx = 1 := by omega
    have hends := inv.second_ends called top hsecond room
    refine ⟨hsecond, ?_, (fun h => by cases h), fun _ => ?_⟩
    · change numOf (s.afterBuild call).engine call.request 0 ≠ 0
      omega
    · change call.nents - ((transferInit s.engine call.req).2.2.descNum : Int) = 0
      omega

theorem build (inv : Inv s) {call : Call} (called : s.call = some call) (top : call.stage = .top)
    (room : s.engine.descUsed + transferCount s.engine call.req ≤ s.engine.descMax) :
    Inv (s.afterBuild call) := by
  obtain ⟨hidx, hunused⟩ := inv.unused_at_top called top
  obtain ⟨gone, reserved, filled, held⟩ := inv.accounts
  have hcall := inv.call call called
  have hidle : s.building = [] := by simp [Async.building, called, top]
  have hbuilding : (s.afterBuild call).building = [call.xfer] := rfl
  have hlist : (s.afterBuild call).engine.transferList = s.engine.transferList := rfl
  rw [hidle, List.append_nil] at reserved filled
  have hnew : call.xfer ∉ gone ++ s.engine.transferList := fun h => filled _ h hunused
  have hkept : ∀ b i, i < 2 → ¬ (b = call.request ∧ i = call.tferIdx) →
      numOf (s.afterBuild call).engine b i = numOf s.engine b i :=
    fun b i hi hne => numOf_afterBuild_ne s hi hidx hne
  have hother : ∀ r, r ≠ call.xfer → (s.afterBuild call).engine.tfer r = s.engine.tfer r :=
    fun r hr => Function.update_of_ne hr _ _
  refine ⟨inv.inside, room, ?_, ?_, inv.build_call called top room, ?_, ?_, gone, ?_, ?_, ?_⟩
  · intro r
    by_cases hr : r = call.xfer
    · have hstate : ((s.afterBuild call).engine.tfer r).state = .new := by
        rw [hr, tfer_afterBuild, Function.update_self]
        rfl
      rw [hstate, hlist, hr]
      exact ⟨(fun h => by cases h), fun h => absurd (List.mem_append_right _ h) hnew⟩
    · rw [hother r hr]
      exact inv.listed r
  · intro b hb
    have hnumber := hcall.number
    refine ⟨(inv.fresh b hb).1, fun i hi => ?_⟩
    rw [hkept b i hi fun h => absurd hb (by rw [h.1]; exact Nat.not_le.mpr hnumber)]
    exact (inv.fresh b hb).2 i hi
  · intro b request hrequest
    have hb := inv.ne_called called hrequest
    exact (inv.requests b request hrequest).congr fun i hi => hkept b i hi fun h => hb h.1
  · intro r hr
    exact (holds_afterBuild called _ _).mpr (inv.queued r hr)
  · rw [place_afterBuild, hbuilding, hlist]
    exact reserved.reserve hnew (transferCount_room call.req reserved.cursor_lt)
  · intro r hr
    rw [hbuilding, hlist, ← List.append_assoc] at hr
    rcases List.mem_append.mp hr with hin | hin
    · rw [hother r fun heq => hnew (heq ▸ hin)]
      exact filled r hin
    · have hcount : ((s.afterBuild call).engine.tfer r).descNum =
          transferCount s.engine call.req := by
        rw [List.mem_singleton.mp hin, tfer_afterBuild, Function.update_self]
        rfl
      have hpos := transferCount_pos reserved.cursor_lt (inv.more_at_top called top)
      omega
  · intro b i hi hheld hnum
    rw [holds_afterBuild called] at hheld
    have hne : ¬ (b = call.request ∧ i = call.tferIdx) := by
      rintro ⟨rfl, rfl⟩
      rcases hheld with ⟨other, hcalled, -, hlt⟩ | ⟨request, hrequest, -⟩
      · obtain rfl := Option.some.inj (called.symm.trans hcalled)
        exact absurd hlt (Nat.lt_irrefl _)
      · simp [hcall.alone] at hrequest
    rw [hkept b i hi hne] at hnum
    exact held b i hi hheld hnum

private theorem transferQueue_accepts (pollMode : Bool) (engine : XdmaEngine) (r : Nat)
    (accepts : engine.shutdown.request = false) (status : U32) :
    (transferQueue pollMode engine r status).1.transferList = engine.transferList ++ [r] ∧
      (transferQueue pollMode engine r status).1.tfer =
        Function.update engine.tfer r { engine.tfer r with state := .submitted } ∧
      (transferQueue pollMode engine r status).2 = 0 := by
  rw [transferQueue, if_neg (by simp [accepts])]
  simp only
  split
  · exact ⟨rfl, rfl, rfl⟩
  · obtain ⟨hlist, htfer⟩ := engineStart_queue pollMode
      { setTransfer engine r { engine.tfer r with state := .submitted } with
        transferList := engine.transferList ++ [r] } status
    exact ⟨hlist, htfer, rfl⟩

private theorem queue_engine (inv : Inv s) {t : Async} {call : Call} (called : s.call = some call)
    (built : call.stage ≠ .top) (kept : RingKept s.engine t.engine)
    (list : t.engine.transferList = s.engine.transferList ++ [call.xfer])
    (tfer : t.engine.tfer = Function.update s.engine.tfer call.xfer
      { s.engine.tfer call.xfer with state := .submitted })
    (inside : t.overrun = s.overrun) (building : t.building = [])
    (allocated : t.allocated = s.allocated)
    (fresh : ∀ b, s.allocated ≤ b → t.requests b = none)
    (calling : ∀ call, t.call = some call → CallInv t call)
    (requests : ∀ b request, t.requests b = some request → RequestInv t.engine b request)
    (queued : ∀ r ∈ t.engine.transferList, t.Holds (r / 2) (r % 2))
    (held : ∀ b i, i < 2 → t.Holds b i → numOf s.engine b i ≠ 0 →
      s.Holds b i ∨ record b i = call.xfer) : Inv t := by
  obtain ⟨gone, accounts⟩ := inv.accounts
  have hbuilding : s.building = [call.xfer] := by simp [Async.building, called, built]
  have hqueue : t.engine.transferList ++ t.building =
      s.engine.transferList ++ s.building := by
    rw [list, building, hbuilding, List.append_nil]
  have hnum := numOf_kept kept
  refine ⟨inside.trans inv.inside, ?_, ?_, ?_, calling, requests, queued, gone, ?_, ?_, ?_⟩
  · rw [kept.used, kept.max]
    exact inv.used
  · intro r
    rw [list, List.mem_append, List.mem_singleton, ← inv.listed, tfer]
    by_cases hr : r = call.xfer
    · subst hr
      simp
    · simp [hr]
  · intro b hb
    rw [allocated] at hb
    refine ⟨fresh b hb, fun i hi => ?_⟩
    rw [hnum]
    exact (inv.fresh b hb).2 i hi
  · rw [hqueue, place_kept kept, kept.max, kept.idx, kept.used]
    exact accounts.reserved
  · intro r hr
    rw [hqueue] at hr
    rw [(kept.slots r).2]
    exact accounts.filled r hr
  · intro b i hi hholds hfilled
    rw [hnum] at hfilled
    rw [list, List.mem_append, List.mem_singleton]
    rcases held b i hi hholds hfilled with hbefore | hrecord
    · exact (accounts.held b i hi hbefore hfilled).imp_right .inl
    · exact .inr (.inr hrecord)

section Queue

variable {call : Call} {engine : XdmaEngine}

private theorem built_facts (inv : Inv s) (called : s.call = some call)
    (built : call.stage ≠ .top) :
    call.tferIdx < 2 ∧ numOf s.engine call.request call.tferIdx ≠ 0 := by
  have hcall := inv.call call called
  obtain ⟨gone, accounts⟩ := inv.accounts
  refine ⟨?_, accounts.filled call.xfer ?_⟩
  · by_cases hzero : call.tferIdx = 0
    · omega
    · have hone := (hcall.second hzero).1
      omega
  · simp [Async.building, called, built]

private theorem queue_last (inv : Inv s) (called : s.call = some call) (built : call.stage ≠ .top)
    (done : call.nents = 0) (kept : RingKept s.engine engine)
    (list : engine.transferList = s.engine.transferList ++ [call.xfer])
    (tfer : engine.tfer = Function.update s.engine.tfer call.xfer
      { s.engine.tfer call.xfer with state := .submitted }) :
    Inv ({ s with engine }.submitted call.request call.req.swDescCnt) := by
  have hcall := inv.call call called
  have hnum := numOf_kept kept
  obtain ⟨hidx, -⟩ := inv.built_facts called built
  have hholds : ∀ {b i}, s.Holds b i →
      ({ s with engine }.submitted call.request call.req.swDescCnt).Holds b i := by
    rintro b i (⟨other, hother, rfl, -⟩ | ⟨request, hrequest, hcollected⟩)
    · obtain rfl := Option.some.inj (called.symm.trans hother)
      exact .inr ⟨_, Async.submitted_self .., Nat.zero_le _⟩
    · have hb := inv.ne_called called hrequest
      exact .inr ⟨request, (Async.submitted_ne _ _ hb).trans hrequest, hcollected⟩
  refine inv.queue_engine called built kept list tfer rfl rfl rfl ?_ (fun call h => by cases h) ?_
    ?_ ?_
  · intro b hb
    have hnumber := hcall.number
    exact (Async.submitted_ne _ _ (by omega)).trans (inv.fresh b hb).1
  · intro b request hrequest
    by_cases hb : b = call.request
    · subst hb
      rw [Async.submitted_self, Option.some.injEq] at hrequest
      subst hrequest
      refine ⟨fun _ => ?_, fun completion h => by cases h⟩
      have hsum := hcall.sum
      have hrest := hcall.rest
      have hzero := hnum call.request 0
      have hone := hnum call.request 1
      change call.req.swDescCnt = numOf engine call.request 0 + numOf engine call.request 1
      omega
    · rw [Async.submitted_ne _ _ hb] at hrequest
      exact (inv.requests b request hrequest).congr fun i _ => hnum b i
  · intro r hr
    have hr : r ∈ s.engine.transferList ++ [call.xfer] := list ▸ hr
    rcases List.mem_append.mp hr with hin | hin
    · exact hholds (inv.queued r hin)
    · rw [List.mem_singleton.mp hin, Call.xfer, (record_div hidx).1, (record_div hidx).2]
      exact .inr ⟨_, Async.submitted_self .., Nat.zero_le _⟩
  · rintro b i hi (⟨other, hother, -⟩ | ⟨request, hrequest, hcollected⟩) hfilled
    · cases hother
    · by_cases hb : b = call.request
      · subst hb
        rcases Nat.lt_trichotomy i call.tferIdx with hlt | rfl | hlt
        · exact .inl (.inl ⟨call, called, rfl, hlt⟩)
        · exact .inr rfl
        · -- the request was done with its first transfer
          obtain rfl : i = 1 := by omega
          exact absurd (hcall.first (by omega)).1 hfilled
      · rw [Async.submitted_ne _ _ hb] at hrequest
        exact .inl (.inr ⟨request, hrequest, hcollected⟩)

private theorem queue_more (inv : Inv s) (called : s.call = some call) (built : call.stage ≠ .top)
    (left : call.nents ≠ 0) (kept : RingKept s.engine engine)
    (list : engine.transferList = s.engine.transferList ++ [call.xfer])
    (tfer : engine.tfer = Function.update s.engine.tfer call.xfer
      { s.engine.tfer call.xfer with state := .submitted }) :
    Inv { s with engine, call := some { call with tferIdx := call.tferIdx + 1, stage := .top } } := by
  have hcall := inv.call call called
  have hnum := numOf_kept kept
  obtain ⟨hidx, hfilled⟩ := inv.built_facts called built
  have hzero : call.tferIdx = 0 := by
    by_contra hne
    exact left ((hcall.second hne).2.2.2 built)
  rw [hzero] at hfilled
  obtain ⟨hnone, -, hend⟩ := hcall.first hzero
  refine inv.queue_engine called built kept list tfer rfl rfl rfl
    (fun b hb => (inv.fresh b hb).1) ?_ ?_ ?_ ?_
  · intro other hother
    obtain rfl := Option.some.inj hother
    refine ⟨hcall.number, hcall.alone, ?_, hcall.le, hcall.rest, fun _ => left, ?_, ?_⟩
    · change call.req.swDescIdx = numOf engine call.request 0 + numOf engine call.request 1
      rw [hnum, hnum]
      exact hcall.sum
    · exact fun h => absurd h (Nat.succ_ne_zero _)
    · refine fun _ => ⟨congrArg Nat.succ hzero, ?_, fun _ => ⟨?_, ?_⟩, fun h => absurd rfl h⟩
      · exact (hnum call.request 0).trans_ne hfilled
      · exact (hnum call.request 1).trans hnone
      · exact kept.idx.trans (hend built left)
  · intro b request hrequest
    exact (inv.requests b request hrequest).congr fun i _ => hnum b i
  · intro r hr
    have hr : r ∈ s.engine.transferList ++ [call.xfer] := list ▸ hr
    rcases List.mem_append.mp hr with hin | hin
    · rcases inv.queued r hin with ⟨other, hother, hrequest, hlt⟩ | hrequest
      · obtain rfl := Option.some.inj (called.symm.trans hother)
        exact .inl ⟨_, rfl, hrequest, Nat.lt_succ_of_lt hlt⟩
      · exact .inr hrequest
    · rw [List.mem_singleton.mp hin, Call.xfer, (record_div hidx).1, (record_div hidx).2]
      exact .inl ⟨_, rfl, rfl, Nat.lt_succ_self _⟩
  · rintro b i hi (⟨other, hother, rfl, hlt⟩ | hrequest) -
    · obtain rfl := Option.some.inj hother
      rcases Nat.lt_succ_iff_lt_or_eq.mp hlt with hbefore | rfl
      · exact .inl (.inl ⟨call, called, rfl, hbefore⟩)
      · exact .inr rfl
    · exact .inl (.inr hrequest)

theorem queue (inv : Inv s) (called : s.call = some call) (built : call.stage ≠ .top)
    (accepts : s.engine.shutdown.request = false) (status : U32) :
    Inv (s.afterQueue pollMode call status) := by
  have hkept := RingKept.transferQueue pollMode s.engine call.xfer status
  obtain ⟨hlist, htfer, hrv⟩ := transferQueue_accepts pollMode s.engine call.xfer accepts status
  unfold Async.afterQueue
  simp only
  rw [if_neg (by rw [hrv]; decide)]
  split
  · next hdone => exact inv.queue_last called built hdone hkept hlist htfer
  · next hleft => exact inv.queue_more called built hleft hkept hlist htfer

end Queue

end Inv

end NupaNet.Xdma.Nowait
