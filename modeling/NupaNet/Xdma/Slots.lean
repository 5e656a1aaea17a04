import NupaNet.Xdma.Channel
import NupaNet.Xdma.Rounds

/-!
# The descriptor slots of an engine

`transfer_init` reserves the slots of a transfer: it writes them, advances
`desc_idx` and charges `desc_used`.  The end of a round releases them, refunds
`desc_used` and zeroes the slots.  Nothing between the two touches the ring.  A
transfer that `transfer_queue` refuses goes to the exit without being released.
-/

namespace NupaNet.Xdma

open NupaNet.Foundation

/-! ## What leaves the ring alone -/

structure RingKept (engine engine' : XdmaEngine) : Prop where
  desc : engine'.desc = engine.desc
  idx : engine'.descIdx = engine.descIdx
  max : engine'.descMax = engine.descMax
  used : engine'.descUsed = engine.descUsed
  slots : ∀ r, (engine'.tfer r).descVirt = (engine.tfer r).descVirt ∧
    (engine'.tfer r).descNum = (engine.tfer r).descNum

namespace RingKept

variable {engine engine' engine'' : XdmaEngine}

theorem refl (engine : XdmaEngine) : RingKept engine engine :=
  ⟨rfl, rfl, rfl, rfl, fun _ => ⟨rfl, rfl⟩⟩

theorem trans (first : RingKept engine engine') (second : RingKept engine' engine'') :
    RingKept engine engine'' where
  desc := second.desc.trans first.desc
  idx := second.idx.trans first.idx
  max := second.max.trans first.max
  used := second.used.trans first.used
  slots r := ⟨(second.slots r).1.trans (first.slots r).1, (second.slots r).2.trans (first.slots r).2⟩

theorem of_update {r : Nat} {transfer : XdmaTransfer} (desc : engine'.desc = engine.desc)
    (idx : engine'.descIdx = engine.descIdx) (max : engine'.descMax = engine.descMax)
    (used : engine'.descUsed = engine.descUsed)
    (tfer : engine'.tfer = Function.update engine.tfer r transfer)
    (descVirt : transfer.descVirt = (engine.tfer r).descVirt)
    (descNum : transfer.descNum = (engine.tfer r).descNum) : RingKept engine engine' where
  desc := desc
  idx := idx
  max := max
  used := used
  slots k := by
    rw [tfer]
    by_cases hk : k = r
    · subst hk
      rw [Function.update_self]
      exact ⟨descVirt, descNum⟩
    · rw [Function.update_of_ne hk]
      exact ⟨rfl, rfl⟩

theorem engineStart (pollMode : Bool) (engine : XdmaEngine) (status : U32) :
    RingKept engine ((Xdma.engineStart pollMode engine status).getD engine) := by
  unfold Xdma.engineStart
  split
  · exact refl engine
  · split
    · exact refl engine
    · exact ⟨rfl, rfl, rfl, rfl, fun _ => ⟨rfl, rfl⟩⟩

theorem transferList (queue : List Nat) (engine : XdmaEngine) (descCompleted : U32) :
    RingKept engine (engineServiceTransferList queue engine descCompleted).1 := by
  induction queue generalizing engine descCompleted with
  | nil => exact ⟨rfl, rfl, rfl, rfl, fun _ => ⟨rfl, rfl⟩⟩
  | cons head rest ih =>
      unfold engineServiceTransferList
      simp only
      split
      · refine trans ?_ (ih _ _)
        exact of_update rfl rfl rfl rfl rfl rfl rfl
      · exact ⟨rfl, rfl, rfl, rfl, fun _ => ⟨rfl, rfl⟩⟩

theorem finalTransfer (pollMode : Bool) (engine : XdmaEngine) (descCompleted : U32)
    (eopSeen : Bool) :
    RingKept engine (engineServiceFinalTransfer pollMode engine descCompleted eopSeen) := by
  unfold engineServiceFinalTransfer
  split
  · exact refl engine
  · simp only
    split
    · exact of_update rfl rfl rfl rfl rfl rfl rfl
    · split
      · split
        · split <;> exact of_update rfl rfl rfl rfl rfl rfl rfl
        · exact of_update rfl rfl rfl rfl rfl rfl rfl
      · exact of_update rfl rfl rfl rfl rfl rfl rfl

theorem resume (pollMode : Bool) (engine : XdmaEngine) (status : U32) :
    RingKept engine (engineServiceResume pollMode engine status) := by
  unfold engineServiceResume
  split
  · split
    · exact engineStart pollMode engine status
    · split <;> exact ⟨rfl, rfl, rfl, rfl, fun _ => ⟨rfl, rfl⟩⟩
  · split <;> exact ⟨rfl, rfl, rfl, rfl, fun _ => ⟨rfl, rfl⟩⟩

theorem status (pollMode : Bool) (engine : XdmaEngine) (descWriteback : U32) (reads : Reads) :
    RingKept engine (engineServiceStatus pollMode engine descWriteback reads) := by
  unfold engineServiceStatus
  simp only
  split <;> split <;> exact ⟨rfl, rfl, rfl, rfl, fun _ => ⟨rfl, rfl⟩⟩

theorem engineService (pollMode : Bool) (engine : XdmaEngine) (descWriteback : U32)
    (reads : Reads) : RingKept engine (Xdma.engineService pollMode engine descWriteback reads) := by
  unfold Xdma.engineService
  split
  · exact ⟨rfl, rfl, rfl, rfl, fun _ => ⟨rfl, rfl⟩⟩
  · have hstatus := status pollMode engine descWriteback reads
    simp only
    split
    · exact hstatus
    · split
      · exact (hstatus.trans (transferList ..)).trans (finalTransfer ..)
      · exact ((hstatus.trans (transferList ..)).trans (finalTransfer ..)).trans (resume ..)

theorem transferQueue (pollMode : Bool) (engine : XdmaEngine) (r : Nat) (status : U32) :
    RingKept engine (Xdma.transferQueue pollMode engine r status).1 := by
  unfold Xdma.transferQueue
  split
  · exact refl engine
  · have hqueued : RingKept engine
        { setTransfer engine r { engine.tfer r with state := .submitted } with
          transferList := engine.transferList ++ [r] } :=
      of_update rfl rfl rfl rfl rfl rfl rfl
    simp only
    split
    · exact hqueued
    · exact hqueued.trans (engineStart pollMode _ status)

theorem transferAbort (engine : XdmaEngine) (r : Nat) :
    RingKept engine (Xdma.transferAbort engine r).1 := by
  unfold Xdma.transferAbort
  simp only
  split
  · exact refl engine
  · split
    · split <;> exact of_update rfl rfl rfl rfl rfl rfl rfl
    · split <;> exact ⟨rfl, rfl, rfl, rfl, fun _ => ⟨rfl, rfl⟩⟩

theorem inspectTransfer (pollMode : Bool) (engine : XdmaEngine) (r : Nat) (reads : Reads) :
    RingKept engine (Xdma.inspectTransfer pollMode engine r reads).1 := by
  unfold Xdma.inspectTransfer
  split
  · exact refl engine
  · exact refl engine
  · have haborted := transferAbort { engine with status := reads.status } r
    split
    · simp only
      split
      · exact ⟨haborted.desc, haborted.idx, haborted.max, haborted.used, haborted.slots⟩
      · exact ⟨haborted.desc, haborted.idx, haborted.max, haborted.used, haborted.slots⟩
    · exact refl engine

theorem engineOffline (pollMode : Bool) (engine : XdmaEngine) :
    RingKept engine (Xdma.engineOffline pollMode engine) :=
  ⟨rfl, rfl, rfl, rfl, fun _ => ⟨rfl, rfl⟩⟩

theorem engineOnline (engine : XdmaEngine) : RingKept engine (Xdma.engineOnline engine) :=
  ⟨rfl, rfl, rfl, rfl, fun _ => ⟨rfl, rfl⟩⟩

end RingKept

/-! ## The slots of a transfer -/

private theorem buildStep_ne {engine : XdmaEngine} {descVirt j k : Nat} (build : Build)
    (sdesc : Extent)
    (h : k ≠ descVirt + j) : (buildStep engine descVirt j build sdesc).desc k = build.desc k := by
  unfold buildStep
  simp only
  split <;> simp only [modifyAt_ne h]

private theorem transferBuild_apart {engine : XdmaEngine} {descVirt j k : Nat} (build : Build)
    (sdescs : List Extent) (h : k < descVirt + j ∨ descVirt + j + sdescs.length ≤ k) :
    (transferBuild engine descVirt j build sdescs).desc k = build.desc k := by
  induction sdescs generalizing j build with
  | nil => rfl
  | cons sdesc rest ih =>
      rw [List.length_cons] at h
      unfold transferBuild
      rw [ih _ (by omega), buildStep_ne _ _ (by omega)]

private theorem transferDescInit_apart {desc : Nat → XdmaDesc} {descVirt count k : Nat}
    (descBus : U64)
    (some : 0 < count) (h : k < descVirt ∨ descVirt + count ≤ k) :
    transferDescInit desc descVirt descBus count k = desc k := by
  rw [transferDescInit, modifyAt_ne (by omega), modifyRange_outside (by omega)]

private theorem transferInit_apart {engine : XdmaEngine} {req : XdmaRequestCb} {k : Nat}
    (some : 0 < transferCount engine req)
    (h : k < engine.descIdx ∨ engine.descIdx + transferCount engine req ≤ k) :
    (transferInit engine req).1.desc k = engine.desc k := by
  have hlength := List.length_take_le (transferCount engine req) (req.sdesc.drop req.swDescIdx)
  have hlast : k ≠ engine.descIdx + (transferCount engine req - 1) := by omega
  simp only [transferInit]
  rw [modifyRange_outside (by omega)]
  split
  · rw [modifyRange_outside (by omega), modifyAt_ne hlast, transferBuild_apart _ _ (by omega)]
    exact transferDescInit_apart _ some h
  · rw [modifyAt_ne hlast, transferBuild_apart _ _ (by omega)]
    exact transferDescInit_apart _ some h

private theorem xdmaDescDone_eq (desc : Nat → XdmaDesc) (descVirt count k : Nat) :
    xdmaDescDone desc descVirt count k =
      if descVirt ≤ k ∧ k < descVirt + count then .zero else desc k := by
  unfold xdmaDescDone
  split
  · next hinside =>
      obtain ⟨i, rfl⟩ := Nat.exists_eq_add_of_le hinside.1
      rw [modifyRange_inside (by omega)]
  · next houtside => rw [modifyRange_outside (by omega)]

/-! ## The accounts of a channel -/

namespace Channel

/-- The transfer that is being processed; between two transfers and while `desc_lock` is free there
is none. -/
def current (s : Channel) : Option XdmaTransfer :=
  match s.phase with
  | .free | .top => none
  | .built | .admitted | .queued | .settled _ => some s.xfer

def currentNum (s : Channel) : Nat := (s.current.map XdmaTransfer.descNum).getD 0

def Owned (s : Channel) (k : Nat) : Prop :=
  ∃ xfer, s.current = some xfer ∧ xfer.descVirt ≤ k ∧ k < xfer.descVirt + xfer.descNum

private theorem current_cases (s : Channel) : s.current = none ∨ s.current = some s.xfer := by
  unfold current
  split
  · exact .inl rfl
  · exact .inl rfl
  · exact .inr rfl
  · exact .inr rfl
  · exact .inr rfl
  · exact .inr rfl

/-- `transfer_queue` is not asked by an offline device or an engine that is shutting down. -/
def Accepts (s : Channel) : Act → Prop
  | .check => s.offline = false
  | .queue _ => s.engine.shutdown.request = false
  | _ => True

instance (s : Channel) (a : Act) : Decidable (s.Accepts a) := by
  cases a <;> unfold Accepts <;> infer_instance

end Channel

structure RingAccounted (s : Channel) : Prop where
  idx : s.engine.descIdx < s.engine.descMax
  used : s.engine.descUsed = s.currentNum
  zeroed : ∀ k < s.engine.descMax, ¬ s.Owned k → s.engine.desc k = .zero

structure SlotInv (s : Channel) : Prop extends RingAccounted s where
  loop : s.phase ≠ .free → LoopVars s.submit
  filled : ∀ xfer, s.current = some xfer → xfer.descNum ≠ 0
  judged : ∀ outcome, s.phase = .settled outcome → outcome ≠ .refused

private theorem settle_released (s : SubmitState) (xfer : XdmaTransfer) {outcome : Outcome}
    (queued : outcome ≠ .refused) :
    (s.settle xfer outcome).engine =
      transferDestroy { s.engine with descUsed := s.engine.descUsed - xfer.descNum } xfer := by
  cases outcome with
  | completed written =>
      simp only [SubmitState.settle]
      split <;> rfl
  | failed => rfl
  | timedOut => rfl
  | refused => exact absurd rfl queued

/-- The ring as `engine_alloc_resource` leaves it. -/
structure FreshRing (engine : XdmaEngine) : Prop where
  idx : engine.descIdx < engine.descMax
  used : engine.descUsed = 0
  zeroed : ∀ k < engine.descMax, engine.desc k = .zero

namespace SlotInv

variable {pollMode : Bool} {s t : Channel}

theorem start {engine : XdmaEngine} (fresh : FreshRing engine) :
    SlotInv (Channel.start engine) where
  idx := fresh.idx
  used := fresh.used
  zeroed k hk _ := fresh.zeroed k hk
  loop h := absurd rfl h
  filled xfer h := by cases h
  judged outcome h := by cases h

private theorem of_kept (inv : SlotInv s) (kept : RingKept s.engine t.engine)
    (request : t.request = s.request) (req : t.submit.req = s.submit.req)
    (nents : t.submit.nents = s.submit.nents)
    (free : t.phase ≠ .free → s.phase ≠ .free)
    (busy : t.current.isSome = s.current.isSome)
    (judged : ∀ outcome, t.phase = .settled outcome → outcome ≠ .refused) : SlotInv t := by
  have hvirt : t.xfer.descVirt = s.xfer.descVirt := by
    rw [Channel.xfer, request]
    exact (kept.slots s.request).1
  have hnum : t.xfer.descNum = s.xfer.descNum := by
    rw [Channel.xfer, request]
    exact (kept.slots s.request).2
  have hloop : t.phase ≠ .free → LoopVars t.submit := by
    intro h
    obtain ⟨hcursor, hrest⟩ := inv.loop (free h)
    constructor
    · rw [req]
      exact hcursor
    · rw [req, nents]
      exact hrest
  have hcurrent : s.current = none ∧ t.current = none ∨
      s.current = some s.xfer ∧ t.current = some t.xfer := by
    rcases s.current_cases with hs | hs <;> rcases t.current_cases with ht | ht
    · exact .inl ⟨hs, ht⟩
    · simp [hs, ht] at busy
    · simp [hs, ht] at busy
    · exact .inr ⟨hs, ht⟩
  have hcount : t.currentNum = s.currentNum := by
    rw [Channel.currentNum, Channel.currentNum]
    rcases hcurrent with ⟨hs, ht⟩ | ⟨hs, ht⟩
    · rw [hs, ht]
    · simp [hs, ht, hnum]
  have howned : ∀ k, s.Owned k → t.Owned k := by
    rintro k ⟨xfer, hxfer, hrange⟩
    rcases hcurrent with ⟨hs, -⟩ | ⟨hs, ht⟩
    · simp [hs] at hxfer
    · rw [hs, Option.some.injEq] at hxfer
      subst hxfer
      exact ⟨t.xfer, ht, by rwa [hvirt, hnum]⟩
  refine ⟨⟨?_, ?_, fun k hk hown => ?_⟩, hloop, fun xfer h => ?_, judged⟩
  · rw [kept.idx, kept.max]
    exact inv.idx
  · rw [kept.used, inv.used, hcount]
  · rw [kept.max] at hk
    rw [kept.desc]
    exact inv.zeroed k hk fun hs => hown (howned k hs)
  · rcases hcurrent with ⟨-, ht⟩ | ⟨hs, ht⟩
    · simp [ht] at h
    · rw [ht, Option.some.injEq] at h
      rw [← h, hnum]
      exact inv.filled s.xfer hs

theorem of_idle (inv : SlotInv s) (engine : t.engine = s.engine) (before : s.current = none)
    (after : t.current = none) (loop : t.phase ≠ .free → LoopVars t.submit) : SlotInv t := by
  refine ⟨⟨?_, ?_, fun k hk _ => ?_⟩, loop, fun xfer h => ?_, fun outcome h => ?_⟩
  · rw [engine]
    exact inv.idx
  · rw [engine, inv.used, Channel.currentNum, Channel.currentNum, before, after]
  · rw [engine] at hk ⊢
    exact inv.zeroed k hk fun ⟨xfer, hxfer, _⟩ => by simp [before] at hxfer
  · simp [after] at h
  · simp [Channel.current, h] at after

theorem afterBuild (inv : SlotInv s) (top : s.phase = .top) (left : s.submit.nents ≠ 0) :
    SlotInv s.afterBuild := by
  have hloop := inv.loop (by simp [top])
  have hpos := transferCount_pos inv.idx (hloop.more left)
  have hroom := transferCount_room s.submit.req inv.idx
  have hfree : s.current = none := by simp [Channel.current, top]
  have hxfer : s.afterBuild.xfer = { s.submit.build.2 with serial := s.serials } :=
    Function.update_self ..
  have hcurrent : s.afterBuild.current = some s.afterBuild.xfer := rfl
  have hnum : s.afterBuild.xfer.descNum = transferCount s.engine s.submit.req := by
    rw [hxfer]
    rfl
  have hvirt : s.afterBuild.xfer.descVirt = s.engine.descIdx := by
    rw [hxfer]
    rfl
  refine ⟨⟨?_, ?_, fun k hk hown => ?_⟩, fun _ => ?_, fun xfer h => ?_,
    fun outcome h => by cases h⟩
  · exact Nat.mod_lt _ (Nat.zero_lt_of_lt inv.idx)
  · have hused : s.engine.descUsed = 0 := by simpa [Channel.currentNum, hfree] using inv.used
    have hcharged : s.afterBuild.engine.descUsed =
        s.engine.descUsed + (transferCount s.engine s.submit.req : Int) := rfl
    rw [hcharged, hused, Channel.currentNum, hcurrent, Option.map_some, Option.getD_some, hnum,
      Int.zero_add]
  · have houtside : k < s.engine.descIdx ∨
        s.engine.descIdx + transferCount s.engine s.submit.req ≤ k := by
      by_contra hinside
      refine hown ⟨_, hcurrent, ?_⟩
      rw [hvirt, hnum]
      omega
    exact (transferInit_apart hpos houtside).trans
      (inv.zeroed k hk fun ⟨xfer, hxfer, _⟩ => by simp [hfree] at hxfer)
  · have hbuilt := hloop.build inv.idx left
    exact ⟨hbuilt.cursor, hbuilt.rest⟩
  · rw [hcurrent, Option.some.injEq] at h
    rw [← h, hnum]
    omega

theorem afterRelease (inv : SlotInv s) {outcome : Outcome} (settled : s.phase = .settled outcome) :
    SlotInv (s.afterRelease outcome) := by
  have hcurrent : s.current = some s.xfer := by simp [Channel.current, settled]
  have hloop := (inv.loop (by simp [settled])).settle s.xfer outcome
  have hsubmit : (s.afterRelease outcome).submit = s.submit.settle s.xfer outcome := by
    unfold Channel.afterRelease
    simp only
    split <;> rfl
  have hengine : (s.afterRelease outcome).engine =
      transferDestroy { s.engine with descUsed := s.engine.descUsed - s.xfer.descNum } s.xfer := by
    rw [Channel.engine, hsubmit]
    exact settle_released s.submit s.xfer (inv.judged outcome settled)
  have hidle : (s.afterRelease outcome).current = none := by
    rcases s.afterRelease_phase outcome with h | h <;> simp [Channel.current, h]
  refine ⟨⟨?_, ?_, fun k hk _ => ?_⟩, fun _ => hsubmit ▸ hloop, fun xfer h => ?_, fun other h => ?_⟩
  · rw [hengine]
    exact inv.idx
  · have hused : s.engine.descUsed = s.xfer.descNum := by
      simpa [Channel.currentNum, hcurrent] using inv.used
    rw [hengine, Channel.currentNum, hidle]
    change s.engine.descUsed - (s.xfer.descNum : Int) = 0
    omega
  · rw [hengine] at hk ⊢
    change xdmaDescDone s.engine.desc s.xfer.descVirt s.xfer.descNum k = .zero
    rw [xdmaDescDone_eq]
    split
    · rfl
    · next houtside =>
        refine inv.zeroed k hk fun ⟨xfer, hxfer, hrange⟩ => houtside ?_
        rw [hcurrent, Option.some.injEq] at hxfer
        rw [hxfer]
        exact hrange
  · simp [hidle] at h
  · simp [Channel.current, h] at hidle

theorem afterQueue (inv : SlotInv s) (admitted : s.phase = .admitted)
    (accepts : s.engine.shutdown.request = false) (status : U32) :
    SlotInv (s.afterQueue pollMode status) := by
  have hrv : (transferQueue pollMode s.engine s.request status).2 = 0 := by
    simp only [transferQueue, accepts, Bool.false_eq_true, if_false]
    split <;> rfl
  unfold Channel.afterQueue
  simp only
  rw [if_neg (by rw [hrv]; decide)]
  refine inv.of_kept (.transferQueue pollMode s.engine s.request status) rfl rfl rfl ?_ ?_ ?_
  · intro _
    simp [admitted]
  · simp [Channel.current, admitted]
  · intro outcome h
    cases h

theorem afterInspect (inv : SlotInv s) (queued : s.phase = .queued) (reads : Reads) :
    SlotInv (s.afterInspect pollMode reads) := by
  refine inv.of_kept (.inspectTransfer pollMode s.engine s.request reads) rfl rfl rfl ?_ ?_ ?_
  · intro _
    simp [queued]
  · simp [Channel.current, Channel.afterInspect, queued]
  · intro outcome h
    obtain rfl : Channel.outcomeOf reads _ = outcome := Phase.settled.inj h
    unfold Channel.outcomeOf
    split <;> simp

private theorem of_same_phase (inv : SlotInv s) (kept : RingKept s.engine t.engine)
    (request : t.request = s.request) (req : t.submit.req = s.submit.req)
    (nents : t.submit.nents = s.submit.nents) (phase : t.phase = s.phase) : SlotInv t := by
  refine inv.of_kept kept request req nents (phase ▸ id) ?_ (phase ▸ inv.judged)
  unfold Channel.current
  rw [phase]
  cases s.phase <;> rfl

theorem step (inv : SlotInv s) {a : Act} (accepts : s.Accepts a)
    (h : s.step pollMode a = some t) : SlotInv t := by
  cases a with
  | enter descBlenMax epAddr sgl =>
      simp only [Channel.step] at h
      split at h
      · next req hfree hready =>
          obtain rfl := Option.some.inj h
          obtain ⟨hcursor, -⟩ := swDescCnt_of_ready hready
          refine inv.of_idle rfl (by simp [Channel.current, hfree]) rfl fun _ => ⟨?_, .inr ?_⟩
          · change req.swDescIdx ≤ req.swDescCnt
            omega
          · change (req.swDescCnt : Int) = ((req.swDescCnt - req.swDescIdx : Nat) : Int)
            rw [hcursor, Nat.sub_zero]
      · cases h
  | build =>
      obtain ⟨⟨htop, hleft⟩, heq⟩ := Option.ite_none_right_eq_some.mp h
      exact Option.some.inj heq ▸ inv.afterBuild htop hleft
  | finish =>
      obtain ⟨⟨htop, -⟩, heq⟩ := Option.ite_none_right_eq_some.mp h
      obtain rfl := Option.some.inj heq
      exact inv.of_idle rfl (by simp [Channel.current, htop]) rfl fun hphase => absurd rfl hphase
  | check =>
      obtain ⟨hbuilt, hchecked⟩ := Option.ite_none_right_eq_some.mp h
      have hfilled := inv.filled s.xfer (by simp [Channel.current, hbuilt])
      have hpassed : ¬ transferQueueCheck s.offline s.xfer < 0 := by
        have honline : s.offline = false := accepts
        simp [transferQueueCheck, hfilled, honline]
      rw [if_neg hpassed] at hchecked
      obtain rfl := Option.some.inj hchecked
      refine inv.of_kept (.refl s.engine) rfl rfl rfl ?_ ?_ ?_
      · intro _
        simp [hbuilt]
      · simp [Channel.current, hbuilt]
      · intro outcome houtcome
        cases houtcome
  | queue status =>
      obtain ⟨hadmitted, heq⟩ := Option.ite_none_right_eq_some.mp h
      exact Option.some.inj heq ▸ inv.afterQueue hadmitted accepts status
  | inspect reads =>
      obtain ⟨⟨hqueued, -⟩, heq⟩ := Option.ite_none_right_eq_some.mp h
      exact Option.some.inj heq ▸ inv.afterInspect hqueued reads
  | release =>
      simp only [Channel.step] at h
      split at h
      · next hphase => exact Option.some.inj h ▸ inv.afterRelease hphase
      · cases h
  | service descWriteback reads =>
      obtain rfl := Option.some.inj h
      exact inv.of_same_phase (.engineService pollMode s.engine descWriteback reads) rfl rfl rfl rfl
  | offlineFlag =>
      obtain rfl := Option.some.inj h
      exact inv.of_same_phase (.refl s.engine) rfl rfl rfl rfl
  | offlineEngine =>
      obtain rfl := Option.some.inj h
      exact inv.of_same_phase (.engineOffline pollMode s.engine) rfl rfl rfl rfl
  | onlineEngine =>
      obtain rfl := Option.some.inj h
      exact inv.of_same_phase (.engineOnline s.engine) rfl rfl rfl rfl
  | onlineFlag =>
      obtain rfl := Option.some.inj h
      exact inv.of_same_phase (.refl s.engine) rfl rfl rfl rfl

end SlotInv

theorem SlotInv.leaks {pollMode : Bool} {s t : Channel} {a : Act} (inv : SlotInv s)
    (refused : ¬ s.Accepts a) (h : s.step pollMode a = some t) : ¬ RingAccounted t := by
  have hleak : ∀ {u : Channel}, s.current = some s.xfer → u = s.refuse → ¬ RingAccounted u := by
    rintro u hcurrent rfl accounted
    have hfilled := inv.filled s.xfer hcurrent
    have hbefore : s.engine.descUsed = s.xfer.descNum := by
      simpa [Channel.currentNum, hcurrent] using inv.used
    have hafter : s.engine.descUsed = 0 := accounted.used
    omega
  cases a with
  | check =>
      obtain ⟨hbuilt, hchecked⟩ := Option.ite_none_right_eq_some.mp h
      have hfilled := inv.filled s.xfer (by simp [Channel.current, hbuilt])
      have hoffline : s.offline = true := by
        simpa [Channel.Accepts] using refused
      rw [if_pos (by simp [transferQueueCheck, hfilled, hoffline])] at hchecked
      exact hleak (by simp [Channel.current, hbuilt]) (Option.some.inj hchecked).symm
  | queue status =>
      obtain ⟨hadmitted, heq⟩ := Option.ite_none_right_eq_some.mp h
      have hshut : s.engine.shutdown.request = true := by
        simpa [Channel.Accepts] using refused
      refine hleak (by simp [Channel.current, hadmitted]) ((Option.some.inj heq).symm.trans ?_)
      rw [Channel.afterQueue, transferQueue_refuses pollMode s.request hshut]
      rfl
  | _ => exact absurd trivial refused

/-- The ring is accounted for in every state of a run exactly when no transfer of it is refused. -/
theorem ring_accounted_iff (pollMode : Bool) {engine : XdmaEngine} (fresh : FreshRing engine)
    {acts : List Act} {s : Channel}
    (run : Runs (Channel.step pollMode) Any (Channel.start engine) acts s) :
    Throughout (Channel.step pollMode) RingAccounted (Channel.start engine) acts ↔
      Runs (Channel.step pollMode) Channel.Accepts (Channel.start engine) acts s :=
  run.throughout_iff_good SlotInv.toRingAccounted (fun inv _ good hs => inv.step good hs)
    (fun inv _ bad hs => inv.leaks bad hs) (SlotInv.start fresh)

private theorem idleEngine_freshRing (dir : Direction) {descIdx : Nat} (h : descIdx < 0x800) :
    FreshRing (idleEngine dir descIdx) :=
  ⟨h, rfl, fun _ _ => rfl⟩

def smallSegment : List Extent := [⟨0x7000, 0x40⟩]

def completedCall : List Act :=
  [.enter 0xfffffff 0x2000 smallSegment, .build, .check, .queue 1,
    .service 0 ⟨0x1fc00000, 0, 6, 1, false, 0⟩, .inspect ⟨0x1fc00000, 0, 6, 1, false, 0⟩,
    .release, .finish]

theorem ring_accounted_completed :
    ∃ s, Runs (Channel.step false) Channel.Accepts (Channel.start (idleEngine .toDevice 0x7ff))
        completedCall s ∧
      Throughout (Channel.step false) RingAccounted (Channel.start (idleEngine .toDevice 0x7ff))
        completedCall := by
  have hexec : (exec (guarded (Channel.step false) fun s a => decide (s.Accepts a))
      (Channel.start (idleEngine .toDevice 0x7ff)) completedCall).isSome = true := by
    decide +kernel
  obtain ⟨s, hs⟩ := Option.isSome_iff_exists.mp hexec
  have hrun : Runs (Channel.step false) Channel.Accepts
      (Channel.start (idleEngine .toDevice 0x7ff)) completedCall s :=
    (runs_of_guarded hs).mono fun _ _ h => of_decide_eq_true h
  exact ⟨s, hrun, (ring_accounted_iff false (idleEngine_freshRing .toDevice (by decide))
    (hrun.mono fun _ _ _ => trivial)).mpr hrun⟩

/-- The device goes offline behind the entry check of a call: `desc_lock` is free again, one
descriptor is still charged, and its slot is not zeroed. -/
theorem refused_transfer_leaks :
    ∃ s, Runs (Channel.step false) Any (Channel.start (idleEngine .toDevice 0))
        [.enter 0xfffffff 0x2000 smallSegment, .build, .offlineFlag, .check] s ∧
      s.phase = .free ∧ s.engine.descUsed = 1 ∧ s.engine.desc 0 ≠ .zero ∧ ¬ RingAccounted s := by
  have hexec : (exec (Channel.step false) (Channel.start (idleEngine .toDevice 0))
      [.enter 0xfffffff 0x2000 smallSegment, .build, .offlineFlag, .check]).map
        (fun s => (s.phase, s.engine.descUsed, decide (s.engine.desc 0 = .zero))) =
      some (.free, 1, false) := by
    decide +kernel
  obtain ⟨s, hs, hobs⟩ := Option.map_eq_some_iff.mp hexec
  simp only [Prod.mk.injEq, decide_eq_false_iff_not] at hobs
  obtain ⟨hphase, hused, hslot⟩ := hobs
  refine ⟨s, runs_of_exec hs, hphase, hused, hslot, fun accounted => ?_⟩
  have hzero : s.engine.descUsed = 0 := by
    simpa [Channel.currentNum, Channel.current, hphase] using accounted.used
  omega

end NupaNet.Xdma
