import NupaNet.Thread.Registry

/-!
# Which thread an engine gets

The scan of `xdma_thread_add_work` takes an idle thread if there is one after the
first, else the last thread with less work than the first, else the first.  It
never compares two threads other than the first, and yet the work stays level as
long as devices are opened one after the other and none is closed.
-/

namespace NupaNet.Thread

open NupaNet.Foundation

variable {δ ε : Type} {s s' : Pool δ ε}

/-! ## The choice -/

def Picks (n : Nat) (cnt : Nat → Nat) (idx : Nat) : Prop :=
  idx ≠ 0 ∧ cnt idx = 0 ∨
    (∀ j, 0 < j → j < n → cnt j ≠ 0) ∧
      (cnt idx < cnt 0 ∨ idx = 0 ∧ ∀ j < n, cnt 0 ≤ cnt j)

def Scanned (n : Nat) (cnt : Nat → Nat) (i idx v : Nat) : Prop :=
  i = 0 ∧ idx = n ∨
    0 < i ∧ idx < n ∧ v = cnt 0 ∧ (∀ j, 0 < j → j < i → cnt j ≠ 0) ∧
      (cnt idx < cnt 0 ∨ idx = 0 ∧ ∀ j < i, cnt 0 ≤ cnt j)

/-- Until every thread has work the first has none; from then on no thread has more than the
first, and none is two behind it. -/
def Level (n : Nat) (cnt : Nat → Nat) : Prop :=
  cnt 0 = 0 ∧ (∀ t < n, cnt t ≤ 1) ∨
    ∀ t < n, 1 ≤ cnt t ∧ cnt t ≤ cnt 0 ∧ cnt 0 ≤ cnt t + 1

theorem Level.le_succ {n : Nat} {cnt : Nat → Nat} (h : Level n cnt) {t t' : Nat} (ht : t < n)
    (ht' : t' < n) : cnt t ≤ cnt t' + 1 := by
  rcases h with ⟨-, hone⟩ | hfull
  · have := hone t ht
    omega
  · have := hfull t ht
    have := hfull t' ht'
    omega

theorem Level.pick {n : Nat} {cnt : Nat → Nat} (h : Level n cnt) {idx : Nat} (hidx : idx < n)
    (hpick : Picks n cnt idx) : Level n (Function.update cnt idx (cnt idx + 1)) := by
  rcases h with ⟨hzero, hone⟩ | hfull
  · rcases hpick with ⟨hne, hidle⟩ | ⟨hbusy, hless | ⟨rfl, -⟩⟩
    · refine .inl ⟨by rwa [Function.update_of_ne (Ne.symm hne)], fun t ht => ?_⟩
      by_cases heq : t = idx
      · simp [heq, hidle]
      · rw [Function.update_of_ne heq]
        exact hone t ht
    · omega
    · refine .inr fun t ht => ?_
      by_cases heq : t = 0
      · simp [heq, hzero]
      · have := hone t ht
        have := hbusy t (Nat.pos_of_ne_zero heq) ht
        rw [Function.update_of_ne heq, Function.update_self]
        omega
  · refine .inr fun t ht => ?_
    have hother := hfull t ht
    have hown := hfull idx hidx
    rcases hpick with ⟨-, hidle⟩ | ⟨-, hless | ⟨rfl, hleast⟩⟩
    · omega
    · have hne : 0 ≠ idx := by
        rintro rfl
        omega
      rw [Function.update_of_ne hne]
      by_cases heq : t = idx
      · subst heq
        rw [Function.update_self]
        omega
      · rw [Function.update_of_ne heq]
        exact hother
    · rw [Function.update_self]
      by_cases heq : t = 0
      · subst heq
        rw [Function.update_self]
        omega
      · rw [Function.update_of_ne heq]
        have := hleast t ht
        omega

theorem Scanned.step {n : Nat} {cnt : Nat → Nat} {i idx v : Nat} (h : Scanned n cnt i idx v)
    (hi : i < n) :
    (∀ idx', Pool.scanOne n i idx v (cnt i) = .inl idx' → Picks n cnt idx') ∧
    ∀ idx' v', Pool.scanOne n i idx v (cnt i) = .inr (idx', v') → Scanned n cnt (i + 1) idx' v' := by
  rcases h with ⟨rfl, rfl⟩ | ⟨hpos, hidx, rfl, hbusy, hleast⟩
  · refine ⟨fun idx' h => by simp [Pool.scanOne] at h, fun idx' v' h => ?_⟩
    simp only [Pool.scanOne, if_true, Sum.inr.injEq, Prod.mk.injEq] at h
    obtain ⟨rfl, rfl⟩ := h
    refine .inr ⟨Nat.one_pos, hi, rfl, by omega, .inr ⟨rfl, fun j hj => ?_⟩⟩
    obtain rfl : j = 0 := by omega
    exact Nat.le_refl _
  · simp only [Pool.scanOne, if_neg (Nat.ne_of_lt hidx)]
    split
    · next hidle =>
        refine ⟨fun idx' h => ?_, by simp⟩
        obtain rfl := Sum.inl.inj h
        exact .inl ⟨Nat.ne_of_gt hpos, hidle⟩
    · next hwork =>
        have hbusy' : ∀ j, 0 < j → j < i + 1 → cnt j ≠ 0 := by
          intro j hj hlt
          rcases Nat.lt_succ_iff_lt_or_eq.mp hlt with hbefore | rfl
          · exact hbusy j hj hbefore
          · exact hwork
        split
        · next hless =>
            refine ⟨by simp, fun idx' v' h => ?_⟩
            obtain ⟨rfl, rfl⟩ := Prod.mk.inj (Sum.inr.inj h)
            exact .inr ⟨Nat.succ_pos _, hi, rfl, hbusy', .inl hless⟩
        · next hmore =>
            refine ⟨by simp, fun idx' v' h => ?_⟩
            obtain ⟨rfl, rfl⟩ := Prod.mk.inj (Sum.inr.inj h)
            refine .inr ⟨Nat.succ_pos _, hidx, rfl, hbusy', hleast.imp id fun hfirst => ?_⟩
            refine ⟨hfirst.1, fun j hj => ?_⟩
            rcases Nat.lt_succ_iff_lt_or_eq.mp hj with hbefore | rfl
            · exact hfirst.2 j hbefore
            · exact Nat.le_of_not_lt hmore

private theorem Scanned.picks {n : Nat} {cnt : Nat → Nat} {i idx v : Nat}
    (h : Scanned n cnt i idx v)
    (hpos : 0 < n) (hi : n ≤ i) : Picks n cnt idx := by
  rcases h with ⟨rfl, -⟩ | ⟨-, -, -, hbusy, hleast⟩
  · omega
  · refine .inr ⟨fun j hj hlt => hbusy j hj (by omega), hleast.imp id fun hfirst => ?_⟩
    exact ⟨hfirst.1, fun j hj => hfirst.2 j (by omega)⟩

/-! ## Devices that are opened one after the other -/

def Pool.load (s : Pool δ ε) (t : Nat) : Nat := (s.thread t).workCnt

def DevicePc.Choosing (n : Nat) (cnt : Nat → Nat) : DevicePc ε → Prop
  | .scanning _ _ _ i idx v => Scanned n cnt i idx v
  | .placing _ _ _ idx => Picks n cnt idx
  | _ => True

def DevicePc.growing (pc : DevicePc ε) : Bool :=
  match pc with
  | .closed | .opened _ => true
  | _ => pc.opening

/-- No two opens at a time, no open that fails, and no close. -/
def Pool.OneByOne (s : Pool δ ε) : PoolAct δ ε → Prop
  | .listAdd _ _ => ∀ d, (s.dev d).opening = false
  | .dev _ opens => opens = true
  | .close _ => False
  | _ => True

structure Growing (s : Pool δ ε) : Prop where
  growing : ∀ d, (s.dev d).growing = true
  alone : ∀ d d', (s.dev d).opening = true → (s.dev d').opening = true → d = d'
  choosing : ∀ d, (s.dev d).Choosing s.threadCnt s.load
  level : Level s.threadCnt s.load

private theorem DevicePc.choosing_of_settled {pc : DevicePc ε} (h : pc.opening = false) {n : Nat}
    {cnt : Nat → Nat} : pc.Choosing n cnt := by
  cases pc <;> simp_all [opening, Choosing]

namespace Growing

theorem congr (h : Growing s) (hdev : s'.dev = s.dev) (hcnt : s'.threadCnt = s.threadCnt)
    (hload : s'.load = s.load) : Growing s' := by
  refine ⟨?_, ?_, ?_, ?_⟩
  · rw [hdev]
    exact h.growing
  · rw [hdev]
    exact h.alone
  · rw [hdev, hcnt, hload]
    exact h.choosing
  · rw [hcnt, hload]
    exact h.level

variable [DecidableEq δ] {d : δ}

theorem setDev (h : Growing s) {pc : DevicePc ε} (hdev : s'.dev = Function.update s.dev d pc)
    (hcnt : s'.threadCnt = s.threadCnt) (hopening : (s.dev d).opening = true)
    (hgrowing : pc.growing = true) (hchoosing : pc.Choosing s.threadCnt s'.load)
    (hload : s'.load = s.load ∨ Level s.threadCnt s'.load) : Growing s' := by
  have hothers : ∀ d' ≠ d, (s.dev d').opening = false := fun d' hne =>
    Bool.eq_false_iff.mpr fun hopen => hne (h.alone d' d hopen hopening)
  refine ⟨?_, fun d' d'' => ?_, ?_, ?_⟩
  · rw [hdev]
    exact (Function.forall_update_iff s.dev fun _ pc' => pc'.growing = true).mpr
      ⟨hgrowing, fun d' _ => h.growing d'⟩
  · rw [hdev]
    intro hopen hopen'
    have hself : ∀ d', (Function.update s.dev d pc d').opening = true → d' = d := by
      intro d' hopen
      by_contra hne
      rw [Function.update_of_ne hne, hothers d' hne] at hopen
      cases hopen
    rw [hself d' hopen, hself d'' hopen']
  · rw [hdev, hcnt]
    exact (Function.forall_update_iff s.dev fun _ pc' => pc'.Choosing s.threadCnt s'.load).mpr
      ⟨hchoosing, fun d' hne => DevicePc.choosing_of_settled (hothers d' hne)⟩
  · rw [hcnt]
    rcases hload with heq | hlevel
    · rw [heq]
      exact h.level
    · exact hlevel

omit [DecidableEq δ] in
private theorem load_setThread {t : Nat} {thp : XdmaKthread ε} (hcnt : thp.workCnt = s.load t) :
    (s.setThread t thp).load = s.load := by
  funext t'
  by_cases hne : t' = t
  · simp [Pool.load, Pool.setThread, hne, hcnt]
  · simp [Pool.load, Pool.setThread, hne]

variable [DecidableEq ε]

theorem devMoves (h : Growing s) (hatt : Attached s)
    (hmove : Pool.DevMoves s d true s') : Growing s' := by
  have hgrowing := h.growing d
  have hchoosing := h.choosing d
  cases hmove with
  | probed hpc => exact h.setDev rfl rfl (by rw [hpc]; rfl) rfl trivial (.inl rfl)
  | probe hpc => exact h.setDev rfl rfl (by rw [hpc]; rfl) rfl (.inl ⟨rfl, rfl⟩) (.inl rfl)
  | scan hpc hi hscan =>
      rw [hpc] at hchoosing
      exact h.setDev rfl rfl (by rw [hpc]; rfl) rfl
        ((Scanned.step hchoosing hi).2 _ _ hscan) (.inl rfl)
  | take hpc hi htake =>
      rw [hpc] at hchoosing
      exact h.setDev rfl rfl (by rw [hpc]; rfl) rfl
        ((Scanned.step hchoosing hi).1 _ htake) (.inl rfl)
  | scanned hpc hi =>
      rw [hpc] at hchoosing
      have hlisted : d ∈ s.xdevList.map Prod.fst := by
        rw [hatt.registered.registry d, hpc]
        rfl
      have hpos := hatt.registered.pool
        (List.ne_nil_of_mem (List.mem_map.mp hlisted).choose_spec.1)
      exact h.setDev rfl rfl (by rw [hpc]; rfl) rfl (Scanned.picks hchoosing hpos hi) (.inl rfl)
  | @place _ _ e idx hpc =>
      rw [hpc] at hchoosing
      have hidx := hatt.registered.inBounds d
      rw [hpc] at hidx
      refine h.setDev rfl rfl (by rw [hpc]; rfl) rfl trivial (.inr ?_)
      have hload : (s.setThread idx (Pool.listAddTail (s.thread idx) e)).load =
          Function.update s.load idx (s.load idx + 1) := by
        funext t
        by_cases hne : t = idx
        · simp [Pool.load, Pool.setThread, Pool.listAddTail, hne]
        · simp [Pool.load, Pool.setThread, hne]
      exact hload ▸ h.level.pick hidx hchoosing
  | publish hpc => exact h.setDev rfl rfl (by rw [hpc]; rfl) rfl trivial (.inl rfl)
  | unlist hpc | unpublish hpc | forget hpc | detach hpc | stopMark hpc | free hpc | stop hpc
  | join hpc => simp [hpc, DevicePc.growing, DevicePc.opening] at hgrowing

theorem enlist (h : Growing s) {env : OpenEnv ε} {n : Nat} {thread : Nat → XdmaKthread ε}
    (hsettled : ∀ d, (s.dev d).opening = false)
    (hlevel : Level n fun t => (thread t).workCnt) :
    Growing (Pool.enlist { s with threadCnt := n, thread := thread } d env) where
  growing := (Function.forall_update_iff s.dev fun _ pc' => pc'.growing = true).mpr
    ⟨rfl, fun d' _ => h.growing d'⟩
  alone d' d'' hopen hopen' := by
    have hself : ∀ d', (Function.update s.dev d (.probing [] env.engines) d').opening = true →
        d' = d := by
      intro d' hopen
      by_contra hne
      rw [Function.update_of_ne hne, hsettled d'] at hopen
      cases hopen
    exact (hself d' hopen).trans (hself d'' hopen').symm
  choosing := (Function.forall_update_iff s.dev fun _ pc' =>
    pc'.Choosing n fun t => (thread t).workCnt).mpr
      ⟨trivial, fun d' _ => DevicePc.choosing_of_settled (hsettled d')⟩
  level := hlevel

theorem step (h : Growing s) (hatt : Attached s) {a : PoolAct δ ε} (hok : s.OneByOne a)
    (hs : s.step a = some s') : Growing s' := by
  cases Pool.step_moves hs with
  | listAdd _ _ _ _ _ hmoves =>
      cases hmoves with
      | fail => exact h.congr rfl rfl rfl
      | create => exact h.enlist hok (.inl ⟨rfl, fun _ _ => Nat.zero_le 1⟩)
      | list => exact h.enlist hok h.level
  | dev hmove =>
      obtain rfl : _ = true := hok
      exact h.devMoves hatt hmove
  | close => exact hok.elim
  | main _ hmain => exact h.congr rfl rfl (load_setThread (XdmaKthread.main_work hmain).1)
  | queue | queueNowait | abort => exact h.congr rfl rfl rfl
  | wake hmove =>
      cases hmove with
      | skip | test | crash => exact h.congr rfl rfl rfl
      | @mark t =>
          refine h.congr rfl rfl (load_setThread (t := t) ?_)
          rfl
      | @notify t => exact h.congr rfl rfl (load_setThread (XdmaKthread.wakeUp_work _).1)

end Growing

section

variable [DecidableEq δ] [DecidableEq ε]

/-- At every moment of every run in which the devices are opened one after the other, no open fails
and none is closed, the work of any two threads differs by one engine at most. -/
theorem loads_level {as : List (PoolAct δ ε)}
    (run : Runs Pool.step Pool.OneByOne Pool.start as s) {t t' : Nat} (ht : t < s.threadCnt)
    (ht' : t' < s.threadCnt) :
    (s.thread t).workList.length ≤ (s.thread t').workList.length + 1 := by
  have hboth := run.invariant (P := fun s => Attached s ∧ Growing s)
    (fun h hok hs => ⟨h.1.step hs, h.2.step h.1 hok hs⟩)
    ⟨Attached.start, ⟨fun _ => rfl, (fun _ _ hopen => by cases hopen), fun _ => trivial,
      .inl ⟨rfl, fun _ _ => Nat.zero_le 1⟩⟩⟩
  have hlevel := hboth.2.level.le_succ ht ht'
  rw [← hboth.1.homed.count t ht, ← hboth.1.homed.count t' ht']
  exact hlevel

end

def openThree : List (PoolAct Unit Nat) :=
  .listAdd () ⟨[0, 1, 2], 4, 2, true, fun _ => false⟩ :: List.replicate 18 (.dev () true)

theorem loads_level_openThree : ∃ s, Runs Pool.step Pool.OneByOne Pool.start openThree s ∧
    (s.thread 0).workList = [1, 2] ∧ (s.thread 1).workList = [0] ∧
    (s.thread 0).workList.length ≤ (s.thread 1).workList.length + 1 := by
  have hexec : (exec (guarded Pool.step fun s a => match a with
      | .listAdd _ _ => !(s.dev ()).opening
      | .dev _ opens => opens
      | .close _ => false
      | _ => true) Pool.start openThree).map
      (fun s => (s.threadCnt, (s.thread 0).workList, (s.thread 1).workList)) =
      some (2, [1, 2], [0]) := by
    decide +kernel
  obtain ⟨s, hs, hobs⟩ := Option.map_eq_some_iff.mp hexec
  simp only [Prod.mk.injEq] at hobs
  obtain ⟨hcnt, hfirst, hsecond⟩ := hobs
  have run : Runs Pool.step Pool.OneByOne Pool.start openThree s := by
    refine (runs_of_guarded hs).mono fun s a hok => ?_
    cases a with
    | listAdd d env => exact fun _ => by simpa using hok
    | dev d opens => exact hok
    | close d => cases hok
    | _ => trivial
  exact ⟨s, run, hfirst, hsecond, loads_level run (by simp [hcnt]) (by simp [hcnt])⟩

end NupaNet.Thread
