import NupaNet.Xdma.Queueing
import NupaNet.Xdma.Submit

/-!
# Requests that are queued beside one another

`transfer_init` takes the slots behind the last transfer whatever is still in
flight, and `xdma_xfer_completion` releases a transfer and frees its request
whatever is still queued.  What keeps the requests of an engine apart is that
nobody builds a transfer without room in the ring, and that no request is freed
with a transfer on the queue.
-/

namespace NupaNet.Xdma.Nowait

open NupaNet.Foundation

def behind (queue : List Nat) (r : Nat) : List Nat :=
  if queue.head? = some r then queue.tail else queue

private theorem behind_of_not_mem {queue : List Nat} {r : Nat} (off : r ∉ queue) :
    behind queue r = queue := by
  refine if_neg fun hhead => off ?_
  exact List.mem_of_mem_head? hhead

/-! ## Completions -/

namespace Inv

variable {pollMode : Bool} {s : Async}

private theorem filled_of_queued (inv : Inv s) {r : Nat} (queued : r ∈ s.engine.transferList) :
    (s.engine.tfer r).descNum ≠ 0 := by
  obtain ⟨gone, accounts⟩ := inv.accounts
  exact accounts.filled r (List.mem_append_right _ (List.mem_append_left _ queued))

private theorem set_request (inv : Inv s) {b : Nat} {old : Request}
    (before : s.requests b = some old)
    (new : Option Request) (engine : XdmaEngine) (tfer : engine.tfer = s.engine.tfer)
    (list : engine.transferList = s.engine.transferList) (idx : engine.descIdx = s.engine.descIdx)
    (used : engine.descUsed ≤ engine.descMax)
    (counted : ∀ request, new = some request → RequestInv s.engine b request)
    (queued : ∀ r ∈ s.engine.transferList, r / 2 = b →
      ∃ request, new = some request ∧ request.collected ≤ r % 2)
    (returned : List Int)
    (accounts : ∃ gone, Accounts { s.setRequest b new with engine, returned } gone) :
    Inv { s.setRequest b new with engine, returned } := by
  have hnum : ∀ k i, numOf engine k i = numOf s.engine k i := fun k i => by
    rw [numOf, numOf, tfer]
  refine ⟨inv.inside, used, ?_, ?_, ?_, ?_, ?_, accounts⟩
  · rw [tfer, list]
    exact inv.listed
  · intro k hk
    have hb : k ≠ b := by
      rintro rfl
      simp [(inv.fresh k hk).1] at before
    refine ⟨(Async.setRequest_ne _ _ hb).trans (inv.fresh k hk).1, fun i hi => ?_⟩
    rw [hnum]
    exact (inv.fresh k hk).2 i hi
  · intro call called
    have hcall := inv.call call called
    have hb := (inv.ne_called called before).symm
    exact hcall.congr (fun i _ => hnum call.request i) idx (le_refl _)
      ((Async.setRequest_ne _ _ hb).trans hcall.alone)
  · intro k request hrequest
    by_cases hb : k = b
    · subst hb
      have hnew := (Async.setRequest_self s k new).symm.trans hrequest
      exact (counted request hnew).congr fun i _ => hnum k i
    · have hold := (Async.setRequest_ne s new hb).symm.trans hrequest
      exact (inv.requests k request hold).congr fun i _ => hnum k i
  · intro r hr
    rw [list] at hr
    by_cases hb : r / 2 = b
    · obtain ⟨request, hrequest, hcollected⟩ := queued r hr hb
      rw [hb]
      exact .inr ⟨request, (Async.setRequest_self s b new).trans hrequest, hcollected⟩
    · rcases inv.queued r hr with hcall | ⟨request, hrequest, hcollected⟩
      · exact .inl hcall
      · exact .inr ⟨request, (Async.setRequest_ne s new hb).trans hrequest, hcollected⟩

section Held

variable {b : Nat} {old : Request} {new : Option Request} {engine : XdmaEngine}
  {returned : List Int}

private theorem held_before (before : s.requests b = some old)
    (later : ∀ request, new = some request → old.collected ≤ request.collected) {k i : Nat}
    (h : Async.Holds { s.setRequest b new with engine, returned } k i) : s.Holds k i := by
  rcases h with hcall | ⟨request, hrequest, hcollected⟩
  · exact .inl hcall
  · by_cases hb : k = b
    · subst hb
      have hnew := (Async.setRequest_self s k new).symm.trans hrequest
      exact .inr ⟨old, before, (later request hnew).trans hcollected⟩
    · exact .inr ⟨request, (Async.setRequest_ne s new hb).symm.trans hrequest, hcollected⟩

private theorem not_held_after (inv : Inv s) (before : s.requests b = some old)
    (later : ∀ request, new = some request → old.collected < request.collected) :
    ¬ Async.Holds { s.setRequest b new with engine, returned } b old.collected := by
  rintro (⟨call, called, rfl, -⟩ | ⟨request, hrequest, hcollected⟩)
  · exact inv.ne_called called before rfl
  · have hnew := (Async.setRequest_self s b new).symm.trans hrequest
    exact absurd (later request hnew) (Nat.not_lt.mpr hcollected)

end Held

theorem free (inv : Inv s) {b : Nat} {old : Request} (before : s.requests b = some old)
    (unqueued : Unqueued s.engine.transferList b) (done : Nat) : Inv (s.free b done) := by
  obtain ⟨gone, reserved, filled, held⟩ := inv.accounts
  refine inv.set_request before none s.engine rfl rfl rfl inv.used (fun request h => by cases h)
    (fun r hr hb => absurd hb (unqueued r hr)) _ ⟨gone, reserved, filled, ?_⟩
  intro k i hi hholds hnum
  exact held k i hi (held_before before (fun request h => by cases h) hholds) hnum

theorem completion (inv : Inv s) {b swDescCnt : Nat}
    (before : s.requests b = some ⟨swDescCnt, none⟩) : Inv (s.afterCompletion b swDescCnt) := by
  have hsum : swDescCnt = numOf s.engine b 0 + numOf s.engine b 1 :=
    (inv.requests b _ before).sum rfl
  unfold Async.afterCompletion
  split
  · next hempty =>
      refine inv.free before (fun r hr hb => ?_) 0
      have hfilled := inv.filled_of_queued hr
      rw [← record_of r, hb] at hfilled
      change numOf s.engine b (r % 2) ≠ 0 at hfilled
      rcases Nat.mod_two_eq_zero_or_one r with hi | hi
      · rw [hi] at hfilled
        omega
      · rw [hi] at hfilled
        omega
  · next hsome =>
      obtain ⟨gone, reserved, filled, held⟩ := inv.accounts
      refine inv.set_request before _ s.engine rfl rfl rfl inv.used ?_ ?_ s.returned
        ⟨gone, reserved, filled, ?_⟩
      · intro request hrequest
        obtain rfl := Option.some.inj hrequest
        refine ⟨fun h => (by cases h), fun completion hcompletion => ?_⟩
        obtain rfl := Option.some.inj hcompletion
        refine ⟨?_, .inl ⟨rfl, ?_⟩⟩
        · change (swDescCnt : Int) ≠ 0
          omega
        · change (swDescCnt : Int) = _
          omega
      · intro r hr hb
        exact ⟨_, rfl, Nat.zero_le _⟩
      · intro k i hi hholds hnum
        exact held k i hi (held_before before (fun request h => Nat.zero_le _) hholds) hnum

section Release

variable {b : Nat} {old : Request}

private theorem release_accounts (inv : Inv s) (before : s.requests b = some old)
    (inside : old.collected < 2) (off : record b old.collected ∉ s.engine.transferList)
    (new : Option Request) (returned : List Int)
    (later : ∀ request, new = some request → old.collected < request.collected) :
    ∃ gone, Accounts { s.setRequest b new with
      engine := release s.engine (record b old.collected), returned } gone := by
  obtain ⟨gone, reserved, filled, held⟩ := inv.accounts
  have hheld : s.Holds b old.collected := .inr ⟨old, before, le_refl _⟩
  refine ⟨gone.erase (record b old.collected), ?_, ?_, ?_⟩
  · by_cases hgone : record b old.collected ∈ gone
    · exact reserved.refund hgone
    · have hnone : numOf s.engine b old.collected = 0 := by
        by_contra hnum
        exact (held b old.collected inside hheld hnum).elim hgone off
      have hused : (release s.engine (record b old.collected)).descUsed = s.engine.descUsed := by
        change s.engine.descUsed - (numOf s.engine b old.collected : Int) = s.engine.descUsed
        omega
      rw [List.erase_of_not_mem hgone]
      simp only [hused]
      exact reserved
  · intro r hr
    refine filled r ?_
    exact (List.mem_append.mp hr).elim
      (fun h => List.mem_append_left _ (List.mem_of_mem_erase h)) (List.mem_append_right _)
  · intro k i hi hholds hnum
    have hne : record k i ≠ record b old.collected := by
      intro heq
      obtain ⟨rfl, rfl⟩ := record_inj hi inside heq
      exact inv.not_held_after before later hholds
    have hbefore := held_before before (fun request h => (later request h).le) hholds
    exact (held k i hi hbefore hnum).imp_left (List.mem_erase_of_ne hne).mpr

private theorem release_used (inv : Inv s) (r : Nat) :
    (release s.engine r).descUsed ≤ (release s.engine r).descMax := by
  have hused := inv.used
  change s.engine.descUsed - ((s.engine.tfer r).descNum : Int) ≤ s.engine.descMax
  omega

private theorem release_free (inv : Inv s) (before : s.requests b = some old)
    (inside : old.collected < 2) (off : record b old.collected ∉ s.engine.transferList)
    (unqueued : Unqueued s.engine.transferList b) (done : Nat) :
    Inv ({ s with engine := release s.engine (record b old.collected) }.free b done) :=
  inv.set_request before none (release s.engine (record b old.collected)) rfl rfl rfl
    (inv.release_used _) (fun request h => by cases h)
    (fun r hr hb => absurd hb (unqueued r hr)) _
    (inv.release_accounts before inside off none _ fun request h => by cases h)

private theorem release_next (inv : Inv s) {swDescCnt : Nat} {completion : Completion}
    (before : s.requests b = some ⟨swDescCnt, some completion⟩)
    (first : completion.tferIdx = 0) (off : completion.xfer b ∉ s.engine.transferList)
    {nents : Int} (left : nents ≠ 0) (rest : nents = numOf s.engine b 1) (done : Nat) :
    Inv ({ s with engine := release s.engine (completion.xfer b) }.setRequest b
      (some ⟨swDescCnt, some ⟨nents, completion.tferIdx + 1, done⟩⟩)) := by
  refine inv.set_request before _ (release s.engine (completion.xfer b)) rfl rfl rfl
    (inv.release_used _) ?_ ?_ s.returned (inv.release_accounts before (first.trans_lt (by decide)) off _ _ ?_)
  · intro request hrequest
    obtain rfl := Option.some.inj hrequest
    refine ⟨fun h => (by cases h), fun next hnext => ?_⟩
    obtain rfl := Option.some.inj hnext
    exact ⟨left, .inr ⟨congrArg Nat.succ first, rest⟩⟩
  · intro r hr hb
    refine ⟨_, rfl, ?_⟩
    have hne : r % 2 ≠ 0 := by
      intro hi
      rw [← record_of r, hb, hi, ← first] at hr
      exact off hr
    change completion.tferIdx + 1 ≤ r % 2
    omega
  · intro request hrequest
    obtain rfl := Option.some.inj hrequest
    exact Nat.lt_succ_self _

end Release

private theorem engineStatusRead_kept (engine : XdmaEngine) (reads : Reads) :
    RingKept engine (engineStatusRead engine reads) ∧
      Served engine (engineStatusRead engine reads) [] ∧
      (engineStatusRead engine reads).tfer = engine.tfer := by
  unfold engineStatusRead
  split
  · exact ⟨⟨rfl, rfl, rfl, rfl, fun _ => ⟨rfl, rfl⟩⟩, .of_same rfl rfl, rfl⟩
  · exact ⟨.refl engine, .of_same rfl rfl, rfl⟩

private theorem inspect_kept (pollMode : Bool) (engine : XdmaEngine) (r : Nat) (reads : Reads) :
    RingKept engine (inspect pollMode engine r reads).engine := by
  unfold inspect
  split
  · exact .refl engine
  · exact .refl engine
  · have hread := (engineStatusRead_kept engine reads).1
    have haborted := hread.trans (.transferAbort _ r)
    exact ⟨haborted.desc, haborted.idx, haborted.max, haborted.used, haborted.slots⟩

private theorem inspect_rv {engine : XdmaEngine} {r : Nat} (reads : Reads)
    (undone : (engine.tfer r).state ≠ .completed) :
    (inspect pollMode engine r reads).rv < 0 := by
  unfold inspect
  split
  · next hdone => exact absurd hdone undone
  · exact (by decide : (-5 : Int) < 0)
  · exact (by decide : (-512 : Int) < 0)

private theorem transferAbort_list {engine : XdmaEngine} {r : Nat}
    (filled : r ∈ engine.transferList → (engine.tfer r).descNum ≠ 0) :
    (transferAbort engine r).1.transferList = behind engine.transferList r := by
  unfold transferAbort
  simp only
  split
  · next hempty => exact (behind_of_not_mem fun h => filled h hempty).symm
  · unfold behind
    split
    · split <;> rfl
    · split <;> rfl

private theorem transferAbort_served {engine : XdmaEngine} {r : Nat}
    (listed : (engine.tfer r).state = .submitted ↔ r ∈ engine.transferList)
    (filled : r ∈ engine.transferList → (engine.tfer r).descNum ≠ 0)
    (off : r ∉ behind engine.transferList r) :
    ∃ taken, Served engine (transferAbort engine r).1 taken := by
  by_cases hhead : engine.transferList.head? = some r
  · obtain ⟨rest, hlist⟩ := List.head?_eq_some_iff.mp hhead
    have hmem : r ∈ engine.transferList := by
      rw [hlist]
      exact List.mem_cons_self
    refine ⟨[r], ?_⟩
    unfold transferAbort
    simp only [filled hmem, hhead, listed.mpr hmem, if_true, if_false]
    refine .of_head ?_ rfl (by simp)
    rw [hlist]
    rfl
  · have hmem : r ∉ engine.transferList := by
      rwa [behind, if_neg hhead] at off
    have hstate : (engine.tfer r).state ≠ .submitted := fun h => hmem (listed.mp h)
    refine ⟨[], ?_⟩
    unfold transferAbort
    simp only [hhead, hstate, if_false]
    split
    · exact .of_same rfl rfl
    · exact .of_same rfl rfl

private theorem inspect_list (inv : Inv s) (pollMode : Bool) {r : Nat} (reads : Reads)
    (undone : (s.engine.tfer r).state ≠ .completed) :
    (inspect pollMode s.engine r reads).engine.transferList = behind s.engine.transferList r := by
  obtain ⟨-, hserved, htfer⟩ := engineStatusRead_kept s.engine reads
  unfold inspect
  split
  · next hdone => exact absurd hdone undone
  · next hfailed =>
      refine (behind_of_not_mem fun hmem => ?_).symm
      have hsubmitted := (inv.listed r).mpr hmem
      rw [hfailed] at hsubmitted
      cases hsubmitted
  · have hlist : (engineStatusRead s.engine reads).transferList = s.engine.transferList :=
      hserved.list.symm
    rw [← hlist]
    refine transferAbort_list fun hmem => ?_
    rw [htfer]
    exact inv.filled_of_queued (hlist ▸ hmem)

private theorem inspect_served (inv : Inv s) (pollMode : Bool) {r : Nat} (reads : Reads)
    (off : r ∉ behind s.engine.transferList r) :
    ∃ taken, Served s.engine (inspect pollMode s.engine r reads).engine taken := by
  obtain ⟨-, hserved, htfer⟩ := engineStatusRead_kept s.engine reads
  have hlist : (engineStatusRead s.engine reads).transferList = s.engine.transferList :=
    hserved.list.symm
  unfold inspect
  split
  · exact ⟨[], .of_same rfl rfl⟩
  · exact ⟨[], .of_same rfl rfl⟩
  · have haborted : ∃ taken, Served (engineStatusRead s.engine reads)
        (transferAbort (engineStatusRead s.engine reads) r).1 taken := by
      refine transferAbort_served ?_ ?_ ?_
      · rw [htfer, hlist]
        exact inv.listed r
      · rw [htfer, hlist]
        exact inv.filled_of_queued
      · rwa [hlist]
    obtain ⟨taken, haborted⟩ := haborted
    exact ⟨_, (hserved.trans haborted).trans (.of_same rfl rfl)⟩

section Collect

variable {b swDescCnt : Nat} {completion : Completion}

private theorem afterCollect_undone (s : Async) (reads : Reads)
    (undone : (s.engine.tfer (completion.xfer b)).state ≠ .completed) :
    s.afterCollect pollMode b swDescCnt completion reads =
      { s with
        engine := release (inspect pollMode s.engine (completion.xfer b) reads).engine
          (completion.xfer b) }.free b
        (completion.done + (inspect pollMode s.engine (completion.xfer b) reads).counted) := by
  unfold Async.afterCollect
  simp only
  rw [if_pos (.inl (inspect_rv reads undone))]

private theorem afterCollect_completed (pollMode : Bool) (s : Async) (reads : Reads)
    (done : (s.engine.tfer (completion.xfer b)).state = .completed) :
    ∃ total, s.afterCollect pollMode b swDescCnt completion reads =
      let released := { s with engine := release s.engine (completion.xfer b) }
      let nents := completion.nents - (s.engine.tfer (completion.xfer b)).descNum
      if nents = 0 then released.free b total
      else released.setRequest b (some ⟨swDescCnt, some ⟨nents, completion.tferIdx + 1, total⟩⟩) := by
  have hinspect : (inspect pollMode s.engine (completion.xfer b) reads).engine = s.engine ∧
      (inspect pollMode s.engine (completion.xfer b) reads).rv = 0 := by
    unfold inspect
    rw [done]
    exact ⟨rfl, rfl⟩
  refine ⟨completion.done + (inspect pollMode s.engine (completion.xfer b) reads).counted, ?_⟩
  unfold Async.afterCollect
  simp only [hinspect.1, hinspect.2, lt_irrefl, false_or]

private theorem unqueued_at_end (inv : Inv s)
    (before : s.requests b = some ⟨swDescCnt, some completion⟩)
    (off : completion.xfer b ∉ s.engine.transferList)
    (finished : completion.nents - (s.engine.tfer (completion.xfer b)).descNum = 0) :
    Unqueued s.engine.transferList b := by
  obtain ⟨-, hcount⟩ := (inv.requests b _ before).left completion rfl
  intro r hr hb
  have hnum : (s.engine.tfer (completion.xfer b)).descNum = numOf s.engine b completion.tferIdx :=
    rfl
  have hfilled := inv.filled_of_queued hr
  have hrecord : r = record b (r % 2) := by rw [← hb, record_of]
  have hne : r % 2 ≠ completion.tferIdx := by
    intro hi
    rw [hrecord, hi] at hr
    exact off hr
  have hcollected : completion.tferIdx ≤ r % 2 := by
    rcases inv.queued r hr with ⟨call, called, hrequest, -⟩ | ⟨request, hrequest, hcollected⟩
    · exact absurd (hb.symm.trans hrequest.symm) (inv.ne_called called before)
    · rw [hb, before, Option.some.injEq] at hrequest
      subst hrequest
      exact hcollected
  have hsecond : r % 2 = 1 := by omega
  have hfirst : completion.tferIdx = 0 := by omega
  rw [hrecord, hsecond] at hfilled
  have hone : numOf s.engine b 1 ≠ 0 := hfilled
  rw [hfirst] at hnum
  omega

theorem collect (inv : Inv s) (before : s.requests b = some ⟨swDescCnt, some completion⟩)
    (unqueued : (s.engine.tfer (completion.xfer b)).state ≠ .completed →
      Unqueued (behind s.engine.transferList (completion.xfer b)) b) (reads : Reads) :
    Inv (s.afterCollect pollMode b swDescCnt completion reads) := by
  obtain ⟨hleft, hcount⟩ := (inv.requests b _ before).left completion rfl
  have hidx : completion.tferIdx < 2 := by omega
  by_cases hdone : (s.engine.tfer (completion.xfer b)).state = .completed
  · -- a completed transfer is off the queue, and the account is refunded
    have hoff : completion.xfer b ∉ s.engine.transferList := by
      intro hmem
      have hsubmitted := (inv.listed _).mpr hmem
      rw [hdone] at hsubmitted
      cases hsubmitted
    obtain ⟨total, hafter⟩ := afterCollect_completed pollMode s reads hdone
    rw [hafter]
    simp only
    split
    · next hfinished =>
        exact inv.release_free before hidx hoff (inv.unqueued_at_end before hoff hfinished) total
    · next hmore =>
        have hnum : (s.engine.tfer (completion.xfer b)).descNum =
            numOf s.engine b completion.tferIdx := rfl
        have hfirst : completion.tferIdx = 0 := by
          rcases hcount with ⟨hfirst, -⟩ | ⟨hsecond, hrest⟩
          · exact hfirst
          · rw [hsecond] at hnum
            omega
        refine inv.release_next before hfirst hoff hmore ?_ total
        rw [hfirst] at hnum
        omega
  · -- any other ends the request; an abort takes it off the head first, as a service would
    rw [afterCollect_undone s reads hdone]
    have hoff : completion.xfer b ∉ behind s.engine.transferList (completion.xfer b) :=
      fun hmem => unqueued hdone _ hmem (record_div hidx).1
    obtain ⟨taken, hserved⟩ := inv.inspect_served pollMode reads hoff
    have hlist := inv.inspect_list pollMode reads hdone
    have hnext := inv.beside (inspect_kept pollMode s.engine (completion.xfer b) reads) hserved
      s.offline s.returned
    refine hnext.release_free before hidx ?_ ?_ _
    · rw [hlist]
      exact hoff
    · rw [hlist]
      exact unqueued hdone

end Collect

end Inv

/-! ## No collision -/

def Async.Live (s : Async) (b : Nat) : Prop :=
  (∃ call, s.call = some call ∧ call.request = b) ∨ s.requests b ≠ none

/-- Every transfer has a record of its own, in the array of a request that is not freed, and no
slot of a submitted transfer belongs to another transfer. -/
structure NoCollision (s : Async) : Prop where
  inside : s.overrun = false
  records : (s.engine.transferList ++ s.building).Nodup
  own : ∀ r ∈ s.engine.transferList, s.Live (r / 2)
  apart : ∀ r r', r ≠ r' → (s.engine.tfer r).state = .submitted →
    (s.engine.tfer r').state = .submitted ∨ r' ∈ s.building →
    (place s.engine r).Apart (place s.engine r')
  used : s.engine.descUsed ≤ s.engine.descMax

theorem Async.Holds.live {s : Async} {b i : Nat} (h : s.Holds b i) : s.Live b := by
  rcases h with ⟨call, called, hrequest, -⟩ | ⟨request, hrequest, -⟩
  · exact .inl ⟨call, called, hrequest⟩
  · exact .inr (by simp [hrequest])

private theorem Inv.noCollision {s : Async} (inv : Inv s) : NoCollision s where
  inside := inv.inside
  records := inv.list_nodup
  own r hr := (inv.queued r hr).live
  apart r r' hne hr hr' := by
    obtain ⟨gone, accounts⟩ := inv.accounts
    refine accounts.reserved.apart inv.used (List.mem_append_left _ ((inv.listed r).mp hr)) ?_ hne
    exact List.mem_append.mpr (hr'.imp_left (inv.listed r').mp)
  used := inv.used

/-- A transfer is built only with room for it in the ring, and a request is freed only when none
of its transfers is on the queue; one that is not completed may be at its head. -/
def Async.Admits (s : Async) : Act → Prop
  | .build => ∀ call ∈ s.call,
      s.engine.descUsed + transferCount s.engine call.req ≤ s.engine.descMax
  | .check => ∀ call ∈ s.call,
      transferQueueCheck s.offline (s.engine.tfer call.xfer) < 0 →
        Unqueued s.engine.transferList call.request
  | .queue _ => ∀ call ∈ s.call,
      s.engine.shutdown.request = true → Unqueued s.engine.transferList call.request
  | .collect b _ => ∀ request ∈ s.requests b, ∀ completion ∈ request.completion,
      (s.engine.tfer (completion.xfer b)).state ≠ .completed →
        Unqueued (behind s.engine.transferList (completion.xfer b)) b
  | _ => True

instance (s : Async) (a : Act) : Decidable (s.Admits a) := by
  cases a <;> unfold Async.Admits <;> infer_instance

theorem Inv.step {pollMode : Bool} {s t : Async} {a : Act} (inv : Inv s) (admits : s.Admits a)
    (h : s.step pollMode a = some t) : Inv t := by
  cases step_moves h with
  | turnedAway rv => exact inv.beside (.refl s.engine) (.of_same rfl rfl) s.offline _
  | enter called ready => exact inv.enter called (swDescCnt_of_ready ready).1
  | outside called top outside =>
      have hinside := (inv.unused_at_top called top).1
      omega
  | build called top inside =>
      exact inv.build called top (admits _ called)
  | refuse called built refused =>
      exact inv.refuse called (admits _ called refused) _
  | check called built passed => exact inv.check called built
  | @queue call status called admitted =>
      cases hshut : s.engine.shutdown.request with
      | false => exact inv.queue called (by simp [admitted]) hshut status
      | true =>
          unfold Async.afterQueue
          rw [transferQueue_refuses pollMode call.xfer hshut]
          exact inv.refuse called (admits call called hshut) _
  | completion before => exact inv.completion before
  | collectOutside before outside =>
      have hcount := (inv.requests _ _ before).left _ rfl
      omega
  | @collect b swDescCnt completion reads before inside =>
      exact inv.collect before (admits _ before completion rfl) reads
  | @service descWriteback reads =>
      obtain ⟨taken, hserved⟩ := Served.engineService pollMode s.engine descWriteback reads
      exact inv.beside (.engineService pollMode s.engine descWriteback reads) hserved _ _
  | offlineFlag => exact inv.beside (.refl s.engine) (.of_same rfl rfl) true _
  | offlineEngine =>
      exact inv.beside (.engineOffline pollMode s.engine) (.of_same rfl rfl) _ _
  | onlineEngine => exact inv.beside (.engineOnline s.engine) (.of_same rfl rfl) _ _
  | onlineFlag => exact inv.beside (.refl s.engine) (.of_same rfl rfl) false _

private theorem Inv.refuse_breaks {s t : Async} (inv : Inv s) {call : Call}
    (called : s.call = some call)
    (queued : ¬ Unqueued s.engine.transferList call.request)
    (list : t.engine.transferList = s.engine.transferList) (gone : t.call = none)
    (requests : t.requests = s.requests) : ¬ NoCollision t := by
  intro h
  refine queued fun r hr hb => ?_
  have hlive := h.own r (list ▸ hr)
  rw [hb] at hlive
  rcases hlive with ⟨other, hother, -⟩ | hrequest
  · simp [gone] at hother
  · rw [requests] at hrequest
    exact hrequest (inv.call call called).alone

private theorem Inv.collect_breaks {pollMode : Bool} {s : Async} (inv : Inv s) {b swDescCnt : Nat}
    {completion : Completion} (before : s.requests b = some ⟨swDescCnt, some completion⟩)
    (reads : Reads) (undone : (s.engine.tfer (completion.xfer b)).state ≠ .completed)
    (queued : ¬ Unqueued (behind s.engine.transferList (completion.xfer b)) b) :
    ¬ NoCollision (s.afterCollect pollMode b swDescCnt completion reads) := by
  rw [Inv.afterCollect_undone s reads undone]
  intro h
  refine queued fun r hr hb => ?_
  have hlive := h.own r (inv.inspect_list pollMode reads undone ▸ hr)
  rw [hb] at hlive
  rcases hlive with ⟨call, called, hrequest⟩ | hrequest
  · exact inv.ne_called called before hrequest.symm
  · exact hrequest (Async.setRequest_self ..)

theorem Inv.breaks {pollMode : Bool} {s t : Async} {a : Act} (inv : Inv s)
    (refused : ¬ s.Admits a) (h : s.step pollMode a = some t) : ¬ NoCollision t := by
  cases step_moves h with
  | outside called top outside =>
      intro hok
      cases hok.inside
  | @build call called top inside =>
      intro hok
      refine refused fun other hother => ?_
      obtain rfl := Option.some.inj (called.symm.trans hother)
      exact hok.used
  | @refuse call called built rejected =>
      refine inv.refuse_breaks called (fun hnone => refused fun other hother _ => ?_) rfl rfl rfl
      obtain rfl := Option.some.inj (called.symm.trans hother)
      exact hnone
  | @check call called built passed =>
      refine absurd (fun other hother rejected => ?_) refused
      obtain rfl := Option.some.inj (called.symm.trans hother)
      exact absurd rejected passed
  | @queue call status called admitted =>
      obtain ⟨hshut, hqueued⟩ : s.engine.shutdown.request = true ∧
          ¬ Unqueued s.engine.transferList call.request := by
        by_contra hnot
        refine refused fun other hother hshut => ?_
        obtain rfl := Option.some.inj (called.symm.trans hother)
        exact not_not.mp fun hqueued => hnot ⟨hshut, hqueued⟩
      unfold Async.afterQueue
      rw [transferQueue_refuses pollMode call.xfer hshut]
      exact inv.refuse_breaks called hqueued rfl rfl rfl
  | collectOutside before outside =>
      intro hok
      cases hok.inside
  | @collect b swDescCnt completion reads before inside =>
      intro hok
      refine refused fun request hrequest other hother hundone => ?_
      obtain rfl := Option.some.inj (before.symm.trans hrequest)
      obtain rfl := Option.some.inj hother
      by_contra hqueued
      exact inv.collect_breaks before reads hundone hqueued hok
  | _ => exact absurd trivial refused

/-! ## The result -/

/-- An engine as `engine_init` leaves it: nothing queued, nothing charged, and the cursor
anywhere in the ring. -/
structure EmptyRing (engine : XdmaEngine) : Prop where
  list : engine.transferList = []
  used : engine.descUsed = 0
  idx : engine.descIdx < engine.descMax

/-- Nothing collides in any state of a run exactly when every step of it builds where there is
room, and frees no request that is queued. -/
theorem no_collision_iff (pollMode : Bool) {engine : XdmaEngine} (empty : EmptyRing engine)
    {acts : List Act} {s : Async}
    (run : Runs (Async.step pollMode) Any (Async.start engine) acts s) :
    Throughout (Async.step pollMode) NoCollision (Async.start engine) acts ↔
      Runs (Async.step pollMode) Async.Admits (Async.start engine) acts s :=
  run.throughout_iff_good Inv.noCollision (fun inv _ good hs => inv.step good hs)
    (fun inv _ bad hs => inv.breaks bad hs) (Inv.start empty.list empty.used empty.idx)

private theorem idleEngine_emptyRing (dir : Direction) {descIdx : Nat} (h : descIdx < 0x800) :
    EmptyRing (idleEngine dir descIdx) :=
  ⟨rfl, rfl, h⟩

def segments (n : Nat) : List Extent := List.replicate n ⟨0x7000, 0x40⟩

def enterWith (n : Nat) : Act := .enter (fun _ => true) 0xfffffff .toDevice 0x2000 (segments n)

def oneDone : Reads := ⟨0x1fc00000, 0, 6, 1, false, 0⟩

def wrappedPair : List Act :=
  [enterWith 2, .build, .check, .queue 1, .build, .check, .queue 1,
    enterWith 1, .build, .check, .queue 1,
    .service 0 oneDone, .service 0 oneDone, .completion 0, .collect 0 oneDone,
    .collect 0 oneDone, .service 0 oneDone, .completion 1, .collect 1 oneDone]

theorem no_collision_wrappedPair :
    ∃ s, Runs (Async.step false) Async.Admits (Async.start (idleEngine .toDevice 0x7ff))
        wrappedPair s ∧
      Throughout (Async.step false) NoCollision (Async.start (idleEngine .toDevice 0x7ff))
        wrappedPair := by
  have hexec : (exec (guarded (Async.step false) fun s a => decide (s.Admits a))
      (Async.start (idleEngine .toDevice 0x7ff)) wrappedPair).isSome = true := by
    decide +kernel
  obtain ⟨s, hs⟩ := Option.isSome_iff_exists.mp hexec
  have hrun : Runs (Async.step false) Async.Admits
      (Async.start (idleEngine .toDevice 0x7ff)) wrappedPair s :=
    (runs_of_guarded hs).mono fun _ _ h => of_decide_eq_true h
  exact ⟨s, hrun, (no_collision_iff false (idleEngine_emptyRing .toDevice (by decide))
    (hrun.mono fun _ _ _ => trivial)).mpr hrun⟩

def fullThenOne : List Act :=
  [enterWith 0x800, .build, .check, .queue 1, enterWith 1, .build]

/-- From the last slot on, a request that goes around the whole ring and further. -/
def aroundTheRing : List Act :=
  [enterWith 0x802, .build, .check, .queue 1, .build, .check, .queue 1, .build]

/-- The second request is built in a slot of the first, which is submitted; and the third
transfer of a request is built behind its array of two. -/
theorem nowait_collides :
    (∃ s, Runs (Async.step false) Any (Async.start (idleEngine .toDevice 0)) fullThenOne s ∧
      (s.engine.tfer (record 0 0)).state = .submitted ∧ s.building = [record 1 0] ∧
      place s.engine (record 0 0) = ⟨0, 0x800⟩ ∧ place s.engine (record 1 0) = ⟨0, 1⟩ ∧
      s.engine.descUsed = 0x801 ∧ s.engine.descMax = 0x800 ∧ ¬ NoCollision s) ∧
    ∃ s, Runs (Async.step false) Any (Async.start (idleEngine .toDevice 0x7ff)) aroundTheRing s ∧
      s.overrun = true ∧ ¬ NoCollision s := by
  constructor
  · have hexec : (exec (Async.step false) (Async.start (idleEngine .toDevice 0)) fullThenOne).map
        (fun s => ((s.engine.tfer (record 0 0)).state, s.building, place s.engine (record 0 0),
          place s.engine (record 1 0), s.engine.descUsed, s.engine.descMax)) =
        some (.submitted, [record 1 0], ⟨0, 0x800⟩, ⟨0, 1⟩, 0x801, 0x800) := by
      decide +kernel
    obtain ⟨s, hs, hobs⟩ := Option.map_eq_some_iff.mp hexec
    simp only [Prod.mk.injEq] at hobs
    obtain ⟨hstate, hbuilding, hfirst, hsecond, hused, hmax⟩ := hobs
    refine ⟨s, runs_of_exec hs, hstate, hbuilding, hfirst, hsecond, hused, hmax, fun h => ?_⟩
    have hle := h.used
    rw [hused, hmax] at hle
    exact absurd hle (by decide)
  · have hexec : (exec (Async.step false) (Async.start (idleEngine .toDevice 0x7ff))
        aroundTheRing).map Async.overrun = some true := by
      decide +kernel
    obtain ⟨s, hs, hoverrun⟩ := Option.map_eq_some_iff.mp hexec
    refine ⟨s, runs_of_exec hs, hoverrun, fun h => ?_⟩
    have hinside := h.inside
    rw [hoverrun] at hinside
    cases hinside

end NupaNet.Xdma.Nowait
