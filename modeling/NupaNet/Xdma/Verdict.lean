import NupaNet.Xdma.Service
import NupaNet.Xdma.Submit

/-!
# What a service makes of a queue

`engine_service` on a queue of any length, for whatever it reads from the
device.  The loop over all but the last transfer takes a count of descriptors,
the difference of the hardware's counter and `desc_dequeued`, and completes
transfers as long as more than their descriptors remain; only what the loop
leaves at the head of the queue is looked at with the status.  The difference is
taken modulo `2 ^ 32` and may be larger than the whole queue, and then there is
nothing left to look at.
-/

namespace NupaNet.Xdma

open NupaNet.Foundation

def descTotal (engine : XdmaEngine) (queue : List Nat) : Nat :=
  (queue.map fun r => (engine.tfer r).descNum).sum

private theorem descTotal_congr {engine engine' : XdmaEngine} {queue : List Nat}
    (h : ∀ r ∈ queue, (engine'.tfer r).descNum = (engine.tfer r).descNum) :
    descTotal engine' queue = descTotal engine queue := by
  unfold descTotal
  rw [List.map_congr_left h]

private theorem descTotal_append (engine : XdmaEngine) (first second : List Nat) :
    descTotal engine (first ++ second) = descTotal engine first + descTotal engine second := by
  simp [descTotal]

/-- The status that a service judges by: polling skips the read when it has a count and no
error. -/
def serviceStatus (engine : XdmaEngine) (descWriteback : U32) (reads : Reads) : U32 :=
  if descWriteback &&& wbCountMask = 0 ∨ descWriteback &&& wbErrMask ≠ 0 then reads.statusRc
  else engine.status

/-- A running engine with a queue of distinct, non-cyclic transfers; `desc_num` is an `int`. -/
structure ServiceQueue (engine : XdmaEngine) : Prop where
  running : engine.running = true
  flush : engine.eopFlush = false
  distinct : engine.transferList.Nodup
  plain : ∀ r ∈ engine.transferList, (engine.tfer r).cyclic = false
  small : ∀ r ∈ engine.transferList, (engine.tfer r).descNum < 2 ^ 31

def dequeued (engine engine' : XdmaEngine) : List Nat :=
  engine.transferList.take (engine.transferList.length - engine'.transferList.length)

/-- A service that leaves `engine'` has taken transfers off the head of the queue only, has
completed no more of them than the count covers, and has failed one if the status shows an
error. -/
structure ReportsErrors (engine engine' : XdmaEngine) (count status : U32) : Prop where
  fifo : engine.transferList = dequeued engine engine' ++ engine'.transferList
  kept : ∀ r, r ∉ dequeued engine engine' → engine'.tfer r = engine.tfer r
  bounded :
    (descTotal engine
      ((dequeued engine engine').filter fun r => (engine'.tfer r).state = .completed) : Int) ≤
      (count.toNat : Int) - engine.descDequeued.toNat
  reported : status &&& xdmaStatErrMask engine.dir ≠ 0 → count ≠ 0 →
    engine.transferList ≠ [] →
    ∃ before r after, dequeued engine engine' = before ++ r :: after ∧
      (engine'.tfer r).state = .failed ∧ ∀ k ∈ after, (engine'.tfer k).state ≠ .completed

/-! ## The loop over all but the last -/

structure Passed (engine : XdmaEngine) (queue taken : List Nat) (descCompleted : U32)
    (out : XdmaEngine × U32) : Prop where
  split : queue = taken ++ out.1.transferList
  completed : ∀ r ∈ taken, (out.1.tfer r).state = .completed
  others : ∀ r, r ∉ taken → out.1.tfer r = engine.tfer r
  count : out.2.toNat + descTotal engine taken = descCompleted.toNat
  left : taken ≠ [] → 0 < out.2.toNat
  stop : ∀ head rest, out.1.transferList = head :: rest →
    out.2.toNat ≤ (engine.tfer head).descNum
  status : out.1.status = engine.status
  dir : out.1.dir = engine.dir
  flush : out.1.eopFlush = engine.eopFlush

private theorem descNum32_toNat {transfer : XdmaTransfer} (small : transfer.descNum < 2 ^ 31) :
    transfer.descNum32.toNat = transfer.descNum := by
  rw [XdmaTransfer.descNum32, BitVec.toNat_ofNat, Nat.mod_eq_of_lt (by omega)]

theorem Passed.cons {engine next : XdmaEngine} {head : Nat} {rest taken : List Nat}
    {descCompleted : U32} {out : XdmaEngine × U32} (new : head ∉ rest)
    (small : (engine.tfer head).descNum < 2 ^ 31)
    (more : (engine.tfer head).descNum32 < descCompleted)
    (completed : (next.tfer head).state = .completed)
    (others : ∀ r, r ≠ head → next.tfer r = engine.tfer r)
    (status : next.status = engine.status) (dir : next.dir = engine.dir)
    (flush : next.eopFlush = engine.eopFlush)
    (passed : Passed next rest taken (descCompleted - (engine.tfer head).descNum32) out) :
    Passed engine (head :: rest) (head :: taken) descCompleted out := by
  have hsmall := descNum32_toNat small
  have hapart (r : Nat) (hr : r ∈ rest) : next.tfer r = engine.tfer r :=
    others r fun heq => new (heq ▸ hr)
  have htaken (r : Nat) (hr : r ∈ taken) : r ∈ rest := by
    rw [passed.split]
    exact List.mem_append_left _ hr
  have hsub : (descCompleted - (engine.tfer head).descNum32).toNat =
      descCompleted.toNat - (engine.tfer head).descNum := by
    rw [BitVec.toNat_sub_of_le (BitVec.le_of_lt more), hsmall]
  have hlt : (engine.tfer head).descNum < descCompleted.toNat := by
    rw [← hsmall]
    exact more
  have hcount := passed.count
  refine ⟨?_, ?_, ?_, ?_, ?_, ?_, passed.status.trans status, passed.dir.trans dir,
    passed.flush.trans flush⟩
  · rw [List.cons_append, ← passed.split]
  · intro r hr
    by_cases hin : r ∈ taken
    · exact passed.completed r hin
    · obtain rfl : r = head := (List.mem_cons.mp hr).resolve_right hin
      rw [passed.others r hin, completed]
  · intro r hr
    obtain ⟨hne, hin⟩ := not_or.mp (mt List.mem_cons.mpr hr)
    rw [passed.others r hin, others r hne]
  · have hsame : descTotal next taken = descTotal engine taken :=
      descTotal_congr fun r hr => by rw [hapart r (htaken r hr)]
    have hcons : descTotal engine (head :: taken) =
        (engine.tfer head).descNum + descTotal engine taken := rfl
    omega
  · intro _
    by_cases hnone : taken = []
    · rw [hnone] at hcount
      simp only [descTotal, List.map_nil, List.sum_nil] at hcount
      omega
    · exact passed.left hnone
  · intro first after hlist
    have hin : first ∈ rest := by
      rw [passed.split, hlist]
      simp
    rw [← hapart first hin]
    exact passed.stop first after hlist

private theorem transferList_passed (queue : List Nat) (engine : XdmaEngine) (descCompleted : U32)
    (distinct : queue.Nodup) (plain : ∀ r ∈ queue, (engine.tfer r).cyclic = false)
    (small : ∀ r ∈ queue, (engine.tfer r).descNum < 2 ^ 31) :
    ∃ taken, Passed engine queue taken descCompleted
      (engineServiceTransferList queue engine descCompleted) := by
  induction queue generalizing engine descCompleted with
  | nil =>
      refine ⟨[], ⟨rfl, by simp, fun _ _ => rfl, ?_, by simp, ?_, rfl, rfl, rfl⟩⟩
      · simp [engineServiceTransferList, descTotal]
      · simp [engineServiceTransferList]
  | cons head rest ih =>
      obtain ⟨hnew, hrest⟩ := List.nodup_cons.mp distinct
      have hsmall := small head List.mem_cons_self
      have hplain := plain head List.mem_cons_self
      unfold engineServiceTransferList
      by_cases hmore : (engine.tfer head).descNum32 < descCompleted
      · rw [if_pos ⟨by simp [hplain], hmore⟩]
        generalize hnext :
          { setTransfer engine head { engine.tfer head with state := .completed } with
            descDequeued := engine.descDequeued + (engine.tfer head).descNum32 } = next
        have hhead : (next.tfer head).state = .completed := by
          rw [← hnext]
          simp [setTransfer]
        have hothers (r : Nat) (hr : r ≠ head) : next.tfer r = engine.tfer r := by
          rw [← hnext]
          exact Function.update_of_ne hr ..
        have hapart (r : Nat) (hr : r ∈ rest) : next.tfer r = engine.tfer r :=
          hothers r fun heq => hnew (heq ▸ hr)
        obtain ⟨taken, passed⟩ := ih next (descCompleted - (engine.tfer head).descNum32) hrest
          (fun r hr => by rw [hapart r hr]; exact plain r (List.mem_cons_of_mem _ hr))
          (fun r hr => by rw [hapart r hr]; exact small r (List.mem_cons_of_mem _ hr))
        exact ⟨head :: taken, Passed.cons hnew hsmall hmore hhead hothers (by rw [← hnext]; rfl)
          (by rw [← hnext]; rfl) (by rw [← hnext]; rfl) passed⟩
      · rw [if_neg fun h => hmore h.2]
        refine ⟨[], ⟨rfl, by simp, fun _ _ => rfl, by simp [descTotal], by simp, ?_, rfl, rfl,
          rfl⟩⟩
        intro first after hlist
        cases hlist
        rw [← descNum32_toNat hsmall]
        exact Nat.le_of_not_lt hmore

/-! ## The last transfer -/

structure Judged (engine : XdmaEngine) (descCompleted : U32)
    (engine' : XdmaEngine) (head : Nat) : Prop where
  list : engine.transferList = head :: engine'.transferList
  others : ∀ r, r ≠ head → engine'.tfer r = engine.tfer r
  flush : engine'.eopFlush = engine.eopFlush
  verdict :
    (engine'.tfer head).state = .failed ∨
      (engine'.tfer head).state = .completed ∧
        engine.status &&& xdmaStatErrMask engine.dir = 0 ∧
        (engine.tfer head).descNum32 ≤ descCompleted

private theorem finalTransfer_judged (pollMode : Bool) {engine : XdmaEngine} {head : Nat}
    {rest : List Nat} (list : engine.transferList = head :: rest)
    (flush : engine.eopFlush = false) (descCompleted : U32) (eopSeen : Bool) :
    Judged engine descCompleted
      (engineServiceFinalTransfer pollMode engine descCompleted eopSeen) head := by
  have hflush : ¬ engine.eopFlush = true := by simp [flush]
  unfold engineServiceFinalTransfer
  simp only [list, if_neg hflush]
  split
  · refine ⟨list, fun r hr => ?_, rfl, .inl ?_⟩
    · exact Function.update_of_ne hr ..
    · simp [engineErrHandle, xdmaEngineStop, setTransfer]
  · next hclean =>
      split
      · refine ⟨list, fun r hr => ?_, rfl, .inl ?_⟩
        · exact Function.update_of_ne hr ..
        · simp [setTransfer]
      · next hreached =>
          refine ⟨list, fun r hr => ?_, rfl, .inr ⟨?_, not_not.mp hclean, ?_⟩⟩
          · exact Function.update_of_ne hr ..
          · simp [setTransfer]
          · exact BitVec.not_lt.mp hreached

theorem engineStart_queue (pollMode : Bool) (engine : XdmaEngine) (status : U32) :
    ((engineStart pollMode engine status).getD engine).transferList = engine.transferList ∧
      ((engineStart pollMode engine status).getD engine).tfer = engine.tfer := by
  cases hstart : engineStart pollMode engine status with
  | none => exact ⟨rfl, rfl⟩
  | some started =>
      unfold engineStart at hstart
      split at hstart
      · cases hstart
      · split at hstart
        · cases hstart
        · cases hstart
          exact ⟨rfl, rfl⟩

theorem engineServiceResume_queue (pollMode : Bool) (engine : XdmaEngine) (status : U32) :
    (engineServiceResume pollMode engine status).transferList = engine.transferList ∧
      (engineServiceResume pollMode engine status).tfer = engine.tfer := by
  unfold engineServiceResume
  split
  · split
    · exact engineStart_queue pollMode engine status
    · split <;> exact ⟨rfl, rfl⟩
  · split <;> exact ⟨rfl, rfl⟩

/-! ## The whole service -/

private theorem engineServiceStatus_status (pollMode : Bool) (engine : XdmaEngine)
    (descWriteback : U32) (reads : Reads) :
    (engineServiceStatus pollMode engine descWriteback reads).status =
        serviceStatus engine descWriteback reads ∧
      (engineServiceStatus pollMode engine descWriteback reads).dir = engine.dir := by
  unfold engineServiceStatus serviceStatus
  simp only
  split <;> split <;> exact ⟨rfl, rfl⟩

/-- All that a service with a count can do to the queue; `left` is the count less
`desc_dequeued`, as the code computes it. -/
inductive Serviced (engine engine' : XdmaEngine) (left : Nat) (error : Prop) : Prop
  | drained : engine'.transferList = [] →
      (∀ r ∈ engine.transferList, (engine'.tfer r).state = .completed) →
      (∀ r, r ∉ engine.transferList → engine'.tfer r = engine.tfer r) →
      (engine.transferList ≠ [] → descTotal engine engine.transferList < left) →
      Serviced engine engine' left error
  | judged {taken : List Nat} {head : Nat} :
      engine.transferList = taken ++ head :: engine'.transferList →
      (∀ r ∈ taken, (engine'.tfer r).state = .completed) →
      (∀ r, r ∉ taken ++ [head] → engine'.tfer r = engine.tfer r) →
      descTotal engine taken ≤ left →
      left ≤ descTotal engine (taken ++ [head]) →
      ((engine'.tfer head).state = .failed ∨
        (engine'.tfer head).state = .completed ∧ ¬ error ∧
          descTotal engine (taken ++ [head]) ≤ left) →
      Serviced engine engine' left error

section Outcome

variable {engine stopped engine' : XdmaEngine} {taken : List Nat} {count : U32}
  {listed : XdmaEngine × U32} {error : Prop}

theorem Passed.drained (passed : Passed stopped engine.transferList taken count listed)
    (tfer : stopped.tfer = engine.tfer) (empty : listed.1.transferList = [])
    (list : engine'.transferList = listed.1.transferList) (kept : engine'.tfer = listed.1.tfer) :
    Serviced engine engine' count.toNat error := by
  have hall : engine.transferList = taken := by simpa [empty] using passed.split
  have hcount := passed.count
  have htotal : descTotal stopped taken = descTotal engine taken :=
    descTotal_congr fun r _ => by rw [tfer]
  refine .drained (list.trans empty) ?_ ?_ ?_
  · intro r hr
    rw [kept]
    exact passed.completed r (hall ▸ hr)
  · intro r hr
    rw [kept, passed.others r (hall ▸ hr), tfer]
  · intro hsome
    have hleft := passed.left (hall ▸ hsome)
    rw [hall]
    omega

theorem Passed.judged (passed : Passed stopped engine.transferList taken count listed)
    (queue : ServiceQueue engine) (tfer : stopped.tfer = engine.tfer) {final : XdmaEngine}
    {head : Nat} (verdict : Judged listed.1 listed.2 final head)
    (clean : stopped.status &&& xdmaStatErrMask stopped.dir = 0 → ¬ error)
    (list : engine'.transferList = final.transferList) (kept : engine'.tfer = final.tfer) :
    Serviced engine engine' count.toNat error := by
  have hcount := passed.count
  have hstop := passed.stop head _ verdict.list
  have htotal : descTotal stopped taken = descTotal engine taken :=
    descTotal_congr fun r _ => by rw [tfer]
  rw [tfer] at hstop
  have hsplit : engine.transferList = taken ++ head :: engine'.transferList := by
    rw [list, passed.split, verdict.list]
  have hin : head ∈ engine.transferList := by
    rw [hsplit]
    simp
  have hhead : head ∉ taken := by
    have hnodup := queue.distinct
    rw [hsplit] at hnodup
    exact fun h => (List.nodup_append.mp hnodup).2.2 head h head List.mem_cons_self rfl
  have hlast : descTotal engine (taken ++ [head]) =
      descTotal engine taken + (engine.tfer head).descNum := by
    rw [descTotal_append]
    simp [descTotal]
  refine .judged hsplit ?_ ?_ (by omega) (by omega) ?_
  · intro r hr
    have hne : r ≠ head := fun heq => hhead (heq ▸ hr)
    rw [kept, verdict.others r hne]
    exact passed.completed r hr
  · intro r hr
    simp only [List.mem_append, List.mem_singleton, not_or] at hr
    rw [kept, verdict.others r hr.2, passed.others r hr.1, tfer]
  · rw [kept]
    rcases verdict.verdict with hfailed | ⟨hcompleted, hclean, hreached⟩
    · exact .inl hfailed
    · rw [passed.status, passed.dir] at hclean
      refine .inr ⟨hcompleted, clean hclean, ?_⟩
      rw [passed.others head hhead, tfer] at hreached
      have hle : (engine.tfer head).descNum ≤ listed.2.toNat := by
        rw [← descNum32_toNat (queue.small head hin)]
        exact hreached
      omega

end Outcome

private theorem engineService_serviced (pollMode : Bool) {engine : XdmaEngine}
    (queue : ServiceQueue engine) {descWriteback : U32} {reads : Reads}
    (some_done : serviceCount descWriteback reads ≠ 0) :
    Serviced engine (engineService pollMode engine descWriteback reads)
      (serviceCount descWriteback reads - engine.descDequeued).toNat
      (serviceStatus engine descWriteback reads &&& xdmaStatErrMask engine.dir ≠ 0) := by
  have hread := engineServiceStatus_undisturbed pollMode engine descWriteback reads
  obtain ⟨hstatus, hdir⟩ := engineServiceStatus_status pollMode engine descWriteback reads
  rw [engineService, if_neg (by simp [queue.running])]
  simp only [some_done, if_false, hread.dequeued, hread.list]
  generalize engineServiceStatus pollMode engine descWriteback reads = stopped at hread hstatus hdir
  obtain ⟨taken, passed⟩ := transferList_passed engine.transferList stopped
    (serviceCount descWriteback reads - engine.descDequeued) queue.distinct
    (fun r hr => by rw [hread.tfer]; exact queue.plain r hr)
    (fun r hr => by rw [hread.tfer]; exact queue.small r hr)
  generalize engineServiceTransferList engine.transferList stopped
    (serviceCount descWriteback reads - engine.descDequeued) = listed at passed ⊢
  have hflush : listed.1.eopFlush = false := passed.flush.trans (hread.flush.trans queue.flush)
  cases hlist : listed.1.transferList with
  | nil =>
      have hfinal : engineServiceFinalTransfer pollMode listed.1 listed.2 reads.eopSeen =
          listed.1 := by
        unfold engineServiceFinalTransfer
        rw [hlist]
      obtain ⟨hqueue, htfer⟩ := engineServiceResume_queue pollMode listed.1 reads.status
      rw [hfinal, if_neg (by simp [hflush])]
      exact passed.drained hread.tfer hlist hqueue htfer
  | cons head rest =>
      have judged := finalTransfer_judged pollMode hlist hflush listed.2 reads.eopSeen
      generalize engineServiceFinalTransfer pollMode listed.1 listed.2 reads.eopSeen = final
        at judged ⊢
      obtain ⟨hqueue, htfer⟩ := engineServiceResume_queue pollMode final reads.status
      rw [if_neg (by simp [judged.flush, hflush])]
      refine passed.judged queue hread.tfer judged (fun hclean => ?_) hqueue htfer
      rw [hstatus, hdir] at hclean
      exact not_not.mpr hclean

private theorem dequeued_of_append {engine engine' : XdmaEngine} {taken : List Nat}
    (split : engine.transferList = taken ++ engine'.transferList) :
    dequeued engine engine' = taken := by
  unfold dequeued
  rw [split]
  simp

private theorem reportsErrors_waits {pollMode : Bool} {engine : XdmaEngine} {descWriteback : U32}
    {reads : Reads} (status : U32) (none_done : serviceCount descWriteback reads = 0) :
    ReportsErrors engine (engineService pollMode engine descWriteback reads) 0 status ↔
      engine.descDequeued ≤ 0#32 := by
  have hsame : Undisturbed engine (engineService pollMode engine descWriteback reads) :=
    engineService_waits pollMode none_done
  have hnone : dequeued engine (engineService pollMode engine descWriteback reads) = [] :=
    dequeued_of_append hsame.list.symm
  constructor
  · intro h
    have hbounded := h.bounded
    simp only [hnone, descTotal, List.filter_nil, List.map_nil, List.sum_nil] at hbounded
    change engine.descDequeued.toNat ≤ 0
    simp only [BitVec.ofNat_eq_ofNat, BitVec.toNat_ofNat, Nat.zero_mod] at hbounded
    omega
  · intro h
    have hzero : engine.descDequeued.toNat ≤ 0 := h
    refine ⟨?_, ?_, ?_, fun _ hcount => absurd rfl hcount⟩
    · rw [hnone, hsame.list]
      rfl
    · intro r _
      rw [hsame.tfer]
    · rw [hnone]
      simp only [descTotal, List.filter_nil, List.map_nil, List.sum_nil]
      omega

theorem Serviced.kept {engine engine' : XdmaEngine} {left : Nat} {error : Prop}
    (serviced : Serviced engine engine' left error) :
    engine.transferList = dequeued engine engine' ++ engine'.transferList ∧
      ∀ r, r ∉ dequeued engine engine' → engine'.tfer r = engine.tfer r := by
  cases serviced with
  | drained hlist hcompleted hothers =>
      have hdequeued : dequeued engine engine' = engine.transferList :=
        dequeued_of_append (by simp [hlist])
      rw [hdequeued, hlist, List.append_nil]
      exact ⟨rfl, hothers⟩
  | @judged taken head hsplit hcompleted hothers =>
      have hsplit' : engine.transferList = taken ++ [head] ++ engine'.transferList := by
        simpa using hsplit
      rw [dequeued_of_append hsplit']
      exact ⟨hsplit', hothers⟩

private theorem descTotal_filter_le (engine : XdmaEngine) (p : Nat → Bool) (queue : List Nat) :
    descTotal engine (queue.filter p) ≤ descTotal engine queue := by
  induction queue with
  | nil => rfl
  | cons head rest ih =>
      have hcons : descTotal engine (head :: rest) =
          (engine.tfer head).descNum + descTotal engine rest := rfl
      by_cases hp : p head = true
      · rw [List.filter_cons_of_pos hp]
        have hkept : descTotal engine (head :: rest.filter p) =
            (engine.tfer head).descNum + descTotal engine (rest.filter p) := rfl
        omega
      · rw [List.filter_cons_of_neg hp]
        omega

private theorem Serviced.completed_le {engine engine' : XdmaEngine} {left : Nat} {error : Prop}
    (serviced : Serviced engine engine' left error) :
    descTotal engine
      ((dequeued engine engine').filter fun r => (engine'.tfer r).state = .completed) ≤ left := by
  cases serviced with
  | drained hlist hcompleted hothers hleft =>
      have hdequeued : dequeued engine engine' = engine.transferList :=
        dequeued_of_append (by simp [hlist])
      rw [hdequeued]
      by_cases hnone : engine.transferList = []
      · rw [hnone]
        exact Nat.zero_le _
      · exact (descTotal_filter_le ..).trans (hleft hnone).le
  | @judged taken head hsplit hcompleted hothers hle hge hverdict =>
      have hsplit' : engine.transferList = taken ++ [head] ++ engine'.transferList := by
        simpa using hsplit
      rw [dequeued_of_append hsplit']
      rcases hverdict with hfailed | ⟨-, -, hreached⟩
      · have hdrop : [head].filter (fun r => decide ((engine'.tfer r).state = .completed)) = [] := by
          simp [hfailed]
        rw [List.filter_append, hdrop, List.append_nil]
        exact (descTotal_filter_le ..).trans hle
      · exact (descTotal_filter_le ..).trans hreached

private theorem Serviced.reported_iff {engine engine' : XdmaEngine} {left : Nat} {error : Prop}
    (serviced : Serviced engine engine' left error) (bad : error)
    (some_queued : engine.transferList ≠ []) :
    (∃ before r after, dequeued engine engine' = before ++ r :: after ∧
      (engine'.tfer r).state = .failed ∧ ∀ k ∈ after, (engine'.tfer k).state ≠ .completed) ↔
      left ≤ descTotal engine engine.transferList := by
  cases serviced with
  | drained hlist hcompleted hothers hleft =>
      have hdequeued : dequeued engine engine' = engine.transferList :=
        dequeued_of_append (by simp [hlist])
      have hlt := hleft some_queued
      constructor
      · rintro ⟨before, r, after, hsplit, hfailed, -⟩
        have hin : r ∈ engine.transferList := by
          rw [← hdequeued, hsplit]
          simp
        rw [hcompleted r hin] at hfailed
        cases hfailed
      · intro hle
        omega
  | @judged taken head hsplit hcompleted hothers hle hge hverdict =>
      have hsplit' : engine.transferList = taken ++ [head] ++ engine'.transferList := by
        simpa using hsplit
      constructor
      · intro _
        rw [hsplit', descTotal_append]
        omega
      · intro _
        refine ⟨taken, head, [], dequeued_of_append hsplit', ?_, by simp⟩
        exact hverdict.resolve_right fun h => h.2.1 bad

/-- A service reports what the hardware shows exactly when the count does not fall behind
`desc_dequeued` and, if the status shows an error, does not exceed the descriptors of the
queue. -/
theorem engineService_reports_iff (pollMode : Bool) {engine : XdmaEngine}
    (queue : ServiceQueue engine) (descWriteback : U32) (reads : Reads) :
    ReportsErrors engine (engineService pollMode engine descWriteback reads)
        (serviceCount descWriteback reads) (serviceStatus engine descWriteback reads) ↔
      engine.descDequeued ≤ serviceCount descWriteback reads ∧
        (serviceStatus engine descWriteback reads &&& xdmaStatErrMask engine.dir ≠ 0 →
          serviceCount descWriteback reads ≠ 0 → engine.transferList ≠ [] →
          (serviceCount descWriteback reads).toNat - engine.descDequeued.toNat ≤
            descTotal engine engine.transferList) := by
  by_cases hnone : serviceCount descWriteback reads = 0
  · rw [hnone, reportsErrors_waits _ hnone]
    simp
  · have serviced := engineService_serviced pollMode queue hnone
    have hle : engine.descDequeued ≤ serviceCount descWriteback reads →
        (serviceCount descWriteback reads - engine.descDequeued).toNat =
          (serviceCount descWriteback reads).toNat - engine.descDequeued.toNat :=
      BitVec.toNat_sub_of_le
    constructor
    · intro h
      have hbounded := h.bounded
      have hahead : engine.descDequeued ≤ serviceCount descWriteback reads := by
        rw [BitVec.le_def]
        omega
      refine ⟨hahead, fun hbad _ hqueued => ?_⟩
      rw [← hle hahead]
      exact (serviced.reported_iff hbad hqueued).mp (h.reported hbad hnone hqueued)
    · rintro ⟨hahead, hfits⟩
      obtain ⟨hsplit, hkept⟩ := serviced.kept
      refine ⟨hsplit, hkept, ?_, fun hbad _ hqueued => ?_⟩
      · have hsum := serviced.completed_le
        rw [hle hahead] at hsum
        have hnat : engine.descDequeued.toNat ≤ (serviceCount descWriteback reads).toNat := hahead
        omega
      · refine (serviced.reported_iff hbad hqueued).mpr ?_
        rw [hle hahead]
        exact hfits hbad hnone hqueued

def queuedTwo (descDequeued : U32) : XdmaEngine :=
  { idleEngine .toDevice 0 with
    running := true
    descDequeued
    transferList := [0, 1]
    tfer := fun _ => { (idleEngine .toDevice 0).tfer 0 with descNum := 2, state := .submitted } }

private theorem queuedTwo_queue (descDequeued : U32) : ServiceQueue (queuedTwo descDequeued) where
  running := rfl
  flush := rfl
  distinct := by simp [queuedTwo]
  plain _ _ := rfl
  small r _ := by simp [queuedTwo]

def serviceReads (status count : U32) : Reads where
  identifier := 0x1fc00000
  status := status
  statusRc := status
  completedDescCount := count
  eopSeen := false
  written := 0

theorem reports_error_in_second :
    ReportsErrors (queuedTwo 0) (engineService false (queuedTwo 0) 0 (serviceReads 0x80000 3)) 3
      0x80000 :=
  (engineService_reports_iff false (queuedTwo_queue 0) 0 (serviceReads 0x80000 3)).mpr
    ⟨by decide, fun _ _ _ => by decide⟩

/-- A vanished device shows every error bit, and both transfers are completed; and a count that
is behind `desc_dequeued` completes both. -/
theorem vanished_device_completes_queue :
    let vanished := engineService false (queuedTwo 0) 0 (serviceReads 0xffffffff 0xffffffff)
    let behind := engineService false (queuedTwo 6) 0 (serviceReads 0 5)
    (∀ r ∈ [0, 1], (vanished.tfer r).state = .completed) ∧
      ¬ ReportsErrors (queuedTwo 0) vanished 0xffffffff 0xffffffff ∧
      (∀ r ∈ [0, 1], (behind.tfer r).state = .completed) ∧
      ¬ ReportsErrors (queuedTwo 6) behind 5 0 := by
  refine ⟨by decide, ?_, by decide, ?_⟩
  · intro h
    obtain ⟨before, r, after, hsplit, hfailed, -⟩ := h.reported (by decide) (by decide) (by decide)
    have hin : r ∈ [0, 1] := by
      have hlist : dequeued (queuedTwo 0)
          (engineService false (queuedTwo 0) 0 (serviceReads 0xffffffff 0xffffffff)) = [0, 1] := by
        decide
      rw [← hlist, hsplit]
      simp
    have hcompleted : ∀ r ∈ [0, 1], ((engineService false (queuedTwo 0) 0
        (serviceReads 0xffffffff 0xffffffff)).tfer r).state = .completed := by
      decide
    rw [hcompleted r hin] at hfailed
    cases hfailed
  · intro h
    have hbounded := h.bounded
    revert hbounded
    decide

end NupaNet.Xdma
