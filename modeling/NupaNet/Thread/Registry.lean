import NupaNet.Thread.Attachment

/-!
# The device list and the life of the pool

`xdev_list_add` creates the threads with the first device and `xdev_list_remove`
destroys them with the last.  A device comes off the list after its engines have
come off the work lists, so the array of threads is freed with empty lists, and
every use of it before that is inside it.
-/

namespace NupaNet.Thread

open NupaNet.Foundation

variable {δ ε : Type} {s s' : Pool δ ε}

/-! ## Devices without engines -/

private theorem DevicePc.engines_of_unlisted {pc : DevicePc ε} (h : pc.listed = false) :
    pc.engines = [] := by
  cases pc <;> simp_all [listed, engines, attached, loose, coming]

theorem DevicePc.claims_of_engines {pc : DevicePc ε} {cmplthp : ε → Option Nat} {e : ε} {t : Nat}
    (h : pc.engines = []) : ¬ pc.Claims cmplthp e t := by
  intro hclaim
  have hmem := hclaim.mem_engines
  simp [h] at hmem

theorem Registered.unlisted (h : Registered s) (hnil : s.xdevList = []) (d : δ) :
    (s.dev d).listed = false := by
  have hnot := (not_congr (h.registry d)).mp (by simp [hnil])
  exact Bool.eq_false_iff.mpr hnot

theorem Attached.nothing (h : Attached s) (hnil : s.xdevList = []) :
    (∀ d, (s.dev d).engines = []) ∧ ∀ e, s.cmplthp e = none := by
  have hengines : ∀ d, (s.dev d).engines = [] := fun d =>
    DevicePc.engines_of_unlisted (h.registered.unlisted hnil d)
  refine ⟨hengines, fun e => ?_⟩
  cases hthp : s.cmplthp e with
  | none => rfl
  | some t =>
      obtain ⟨d, hatt⟩ := h.homed.cmplthp e t hthp
      have hmem := DevicePc.mem_engines_attached hatt
      simp [hengines d] at hmem

theorem Homed.idle (hengines : ∀ d, (s.dev d).engines = []) (hthp : ∀ e, s.cmplthp e = none)
    (hwork : ∀ t < s.threadCnt, s.thread t = .started) : Homed s where
  count t ht := by rw [hwork t ht]; rfl
  nodup t ht := by
    rw [hwork t ht]
    exact List.nodup_nil
  mem t ht e := by
    rw [hwork t ht]
    refine ⟨fun hmem => absurd hmem List.not_mem_nil, ?_⟩
    rintro ⟨d, hclaim⟩
    exact absurd hclaim (DevicePc.claims_of_engines (hengines d))
  inPool e t := by
    rintro ⟨d, hclaim⟩
    exact absurd hclaim (DevicePc.claims_of_engines (hengines d))
  published d e he := by
    have hmem := DevicePc.mem_engines_attached he
    simp [hengines d] at hmem
  cmplthp e t he := by
    rw [hthp e] at he
    cases he

section

variable [DecidableEq δ] {d : δ}

private theorem Homed.bare (h : Homed s) {pc : DevicePc ε} (hengines : (s.dev d).engines = [])
    (hatt : pc.attached = []) (hloose : pc.loose = none)
    (hdev : s'.dev = Function.update s.dev d pc) (hthp : s'.cmplthp = s.cmplthp)
    (hcnt : s'.threadCnt = s.threadCnt) (hthread : s'.thread = s.thread) : Homed s' := by
  have hold : ∀ e t, ¬ (s.dev d).Claims s.cmplthp e t := fun e t =>
    DevicePc.claims_of_engines hengines
  refine h.congr hcnt (fun t => by simp [hthread]) (fun e t => ?_) ?_ (fun e t he => ?_)
  · simp only [Pool.Claims, hdev, hthp]
    rw [Function.exists_update_iff s.dev fun _ pc' => pc'.Claims s.cmplthp e t]
    constructor
    · rintro (hnew | ⟨d', -, hclaim⟩)
      · simp [DevicePc.Claims, hatt, hloose] at hnew
      · exact ⟨d', hclaim⟩
    · rintro ⟨d', hclaim⟩
      refine .inr ⟨d', ?_, hclaim⟩
      rintro rfl
      exact hold e t hclaim
  · rw [hdev, hthp]
    exact (Function.forall_update_iff s.dev fun _ pc' =>
      ∀ e ∈ pc'.attached, s.cmplthp e ≠ none).mpr
        ⟨by simp [hatt], fun d' _ => h.published d'⟩
  · rw [hthp] at he
    obtain ⟨d', hmem⟩ := h.cmplthp e t he
    refine ⟨d', ?_⟩
    rw [hdev, Function.update_of_ne]
    · exact hmem
    · rintro rfl
      have := DevicePc.mem_engines_attached hmem
      simp [hengines] at this

theorem Attached.unlist (h : Attached s) (hpc : s.dev d = .removing []) (hmutex : s.mutex = none) :
    Attached (s.xdevListRemove d) := by
  have hengines : (s.dev d).engines = [] := by
    simp [hpc, DevicePc.engines, DevicePc.attached, DevicePc.loose, DevicePc.coming]
  have hfree : ∀ d', (s.dev d').destroying ≠ true := by
    intro d'
    rw [ne_eq, h.registered.mutex d', hmutex]
    simp
  have hrest : ∀ d', d' ∈ (s.xdevList.filter fun entry => entry.1 ≠ d).map Prod.fst ↔
      d' ∈ s.xdevList.map Prod.fst ∧ d' ≠ d := by
    intro d'
    simp only [List.mem_map, List.mem_filter, decide_eq_true_eq]
    constructor
    · rintro ⟨entry, ⟨hmem, hne⟩, rfl⟩
      exact ⟨⟨entry, hmem, rfl⟩, hne⟩
    · rintro ⟨⟨entry, hmem, rfl⟩, hne⟩
      exact ⟨entry, ⟨hmem, hne⟩, rfl⟩
  have hregistered : ∀ (pc : DevicePc ε) (mutex : Option δ), pc.engines = [] →
      pc.listed = false → pc.InBounds s.threadCnt → (pc.destroying = true ↔ mutex = some d) →
      (∀ d' ≠ d, mutex ≠ some d') →
      (mutex ≠ none ↔ s.xdevList.filter (fun entry => entry.1 ≠ d) = []) →
      Registered { s with
        xdevList := s.xdevList.filter fun entry => entry.1 ≠ d
        mutex := mutex
        dev := Function.update s.dev d pc } := by
    intro pc mutex hnone hunlisted hbound hdestroying hothers hlast
    have hmem : ∀ d', ∀ e ∈ (Function.update s.dev d pc d').engines, e ∈ (s.dev d').engines :=
      (Function.forall_update_iff s.dev fun d' pc' =>
        ∀ e ∈ pc'.engines, e ∈ (s.dev d').engines).mpr ⟨by simp [hnone], fun _ _ _ he => he⟩
    refine
      { engines := (Function.forall_update_iff s.dev fun _ pc' => pc'.engines.Nodup).mpr
          ⟨by simp [hnone], fun d' _ => h.registered.engines d'⟩
        apart := fun d' d'' e he he' =>
          h.registered.apart d' d'' e (hmem d' e he) (hmem d'' e he')
        used := fun d' e he => h.registered.used d' e (hmem d' e he)
        inBounds := (Function.forall_update_iff s.dev fun _ pc' => pc'.InBounds s.threadCnt).mpr
          ⟨hbound, fun d' _ => h.registered.inBounds d'⟩
        registry := (Function.forall_update_iff s.dev fun d' pc' =>
          d' ∈ (s.xdevList.filter fun entry => entry.1 ≠ d).map Prod.fst ↔
            pc'.listed = true).mpr ⟨?_, fun d' hd => ?_⟩
        distinct := h.registered.distinct.sublist (List.filter_sublist.map Prod.fst)
        pool := fun hne => h.registered.pool fun hnil => hne (by simp [hnil])
        mutex := (Function.forall_update_iff s.dev fun d' pc' =>
          pc'.destroying = true ↔ mutex = some d').mpr
          ⟨hdestroying, fun d' hd => iff_of_false (hfree d') (hothers d' hd)⟩
        last := hlast.mp
        gone := fun hnil hnone => absurd hnone (hlast.mpr hnil) }
    · rw [hrest, hunlisted]
      simp
    · rw [hrest, h.registered.registry d']
      simp [hd]
  simp only [Pool.xdevListRemove]
  split
  · next hnil =>
      refine ⟨hregistered (.stopping 0) (some d) rfl rfl trivial (iff_of_true rfl rfl) ?_ ?_, ?_⟩
      · exact fun d' hd heq => hd (Option.some.inj heq).symm
      · exact iff_of_true (by simp) hnil
      · exact h.homed.bare hengines rfl rfl rfl rfl rfl rfl
  · next hne =>
      refine ⟨hregistered .closed s.mutex rfl rfl trivial ?_ ?_ ?_, ?_⟩
      · rw [hmutex]
        simp [DevicePc.destroying]
      · intro d' _
        simp [hmutex]
      · rw [hmutex]
        exact iff_of_false (fun hnone => hnone rfl) hne
      · exact h.homed.bare hengines rfl rfl rfl rfl rfl rfl

theorem Attached.free (h : Attached s) {i : Nat} (hpc : s.dev d = .stopping i) :
    Attached { s.setDev d .closed with threadCnt := 0, mutex := none } := by
  have hmutex : s.mutex = some d := by
    rw [← h.registered.mutex d, hpc]
    rfl
  have hnil : s.xdevList = [] := h.registered.last (by simp [hmutex])
  obtain ⟨hengines, hthp⟩ := h.nothing hnil
  have hclosed : ∀ d', (Function.update s.dev d .closed d').listed = false ∧
      (Function.update s.dev d .closed d').destroying = false := by
    refine (Function.forall_update_iff s.dev fun d' pc' =>
      pc'.listed = false ∧ pc'.destroying = false).mpr ⟨⟨rfl, rfl⟩, fun d' hd => ?_⟩
    refine ⟨h.registered.unlisted hnil d', Bool.eq_false_iff.mpr fun htrue => hd ?_⟩
    have := (h.registered.mutex d').mp htrue
    rw [hmutex] at this
    exact (Option.some.inj this).symm
  have hnone : ∀ d', (Function.update s.dev d .closed d').engines = [] := fun d' =>
    DevicePc.engines_of_unlisted (hclosed d').1
  refine ⟨?_, Homed.idle hnone hthp fun t ht => absurd ht (Nat.not_lt_zero t)⟩
  refine
    { engines := fun d' => ?_
      apart := fun d' d'' e he => ?_
      used := fun d' e he => ?_
      inBounds := fun d' => ?_
      registry := fun d' => ?_
      distinct := h.registered.distinct
      pool := fun hne => absurd hnil hne
      mutex := fun d' => ?_
      last := fun hne => absurd rfl hne
      gone := fun _ _ => rfl }
  · change (Function.update s.dev d .closed d').engines.Nodup
    rw [hnone d']
    exact List.nodup_nil
  · change e ∈ (Function.update s.dev d .closed d').engines at he
    simp [hnone d'] at he
  · change e ∈ (Function.update s.dev d .closed d').engines at he
    simp [hnone d'] at he
  · change (Function.update s.dev d .closed d').InBounds 0
    have := hclosed d'
    cases hcase : Function.update s.dev d .closed d' <;>
      simp_all [DevicePc.listed, DevicePc.destroying, DevicePc.InBounds]
  · change d' ∈ s.xdevList.map Prod.fst ↔ (Function.update s.dev d .closed d').listed = true
    simp [hnil, (hclosed d').1]
  · change (Function.update s.dev d .closed d').destroying = true ↔ none = some d'
    simp [(hclosed d').2]

variable [DecidableEq ε] {env : OpenEnv ε}

theorem Attached.enlist (h : Attached s) {n : Nat} {thread : Nat → XdmaKthread ε}
    (hclosed : s.dev d = .closed) (hmutex : s.mutex = none) (hnodup : env.engines.Nodup)
    (hfresh : ∀ e ∈ env.engines, s.used e = false) (hpos : 0 < n)
    (hbound : ∀ d', (s.dev d').InBounds n)
    (hhomed : Homed { s with threadCnt := n, thread := thread }) :
    Attached (Pool.enlist { s with threadCnt := n, thread := thread } d env) := by
  have hprobing : (DevicePc.probing [] env.engines).engines = env.engines := by
    simp [DevicePc.engines, DevicePc.attached, DevicePc.loose, DevicePc.coming]
  have hunused : ∀ d', ∀ e ∈ (s.dev d').engines, e ∉ env.engines := by
    intro d' e he hmem
    have := h.registered.used d' e he
    rw [hfresh e hmem] at this
    cases this
  have hcases : ∀ d', ∀ e ∈ (Function.update s.dev d (.probing [] env.engines) d').engines,
      d' = d ∧ e ∈ env.engines ∨ e ∈ (s.dev d').engines :=
    (Function.forall_update_iff s.dev fun d' pc' => ∀ e ∈ pc'.engines,
      d' = d ∧ e ∈ env.engines ∨ e ∈ (s.dev d').engines).mpr
        ⟨fun e he => .inl ⟨rfl, hprobing ▸ he⟩, fun _ _ e he => .inr he⟩
  have hnew : d ∉ s.xdevList.map Prod.fst := by
    rw [h.registered.registry d, hclosed]
    simp [DevicePc.listed]
  refine ⟨?_, ?_⟩
  · refine
      { engines := (Function.forall_update_iff s.dev fun _ pc' => pc'.engines.Nodup).mpr
          ⟨hprobing ▸ hnodup, fun d' _ => h.registered.engines d'⟩
        apart := fun d' d'' e he he' => ?_
        used := fun d' e he => ?_
        inBounds := (Function.forall_update_iff s.dev fun _ pc' => pc'.InBounds n).mpr
          ⟨trivial, fun d' _ => hbound d'⟩
        registry := fun d' => ?_
        distinct := ?_
        pool := fun _ => hpos
        mutex := (Function.forall_update_iff s.dev fun d' pc' =>
          pc'.destroying = true ↔ s.mutex = some d').mpr
          ⟨?_, fun d' _ => h.registered.mutex d'⟩
        last := fun hne => absurd hmutex hne
        gone := fun hnil => absurd hnil (by simp [Pool.enlist]) }
    · rcases hcases d' e he with ⟨rfl, hmem⟩ | hold <;>
        rcases hcases d'' e he' with ⟨rfl, hmem'⟩ | hold'
      · rfl
      · exact absurd hmem (hunused d'' e hold')
      · exact absurd hmem' (hunused d' e hold)
      · exact h.registered.apart d' d'' e hold hold'
    · rcases hcases d' e he with ⟨rfl, hmem⟩ | hold
      · simp [Pool.enlist, hmem]
      · simp [Pool.enlist, h.registered.used d' e hold]
    · by_cases hd : d' = d
      · simp [Pool.enlist, hd, DevicePc.listed]
      · simpa [Pool.enlist, hd] using h.registered.registry d'
    · simp only [Pool.enlist, List.map_append, List.map_cons, List.map_nil]
      refine List.nodup_append.mpr ⟨h.registered.distinct, List.nodup_singleton d, ?_⟩
      intro a ha b hb
      rw [List.mem_singleton.mp hb]
      exact ne_of_mem_of_not_mem ha hnew
    · rw [hmutex]
      simp [DevicePc.destroying]
  · have hnone : (s.dev d).engines = [] := by
      simp [hclosed, DevicePc.engines, DevicePc.attached, DevicePc.loose, DevicePc.coming]
    exact @Homed.bare δ ε _ _ _ d hhomed (.probing [] env.engines) hnone rfl rfl rfl rfl rfl rfl

private theorem startThreads_pos {numThreads : Nat} {fails : Nat → Bool} {cpus threadCnt n : Nat}
    (hpos : 0 < cpus ∨ 0 < threadCnt) (h : startThreads numThreads fails cpus threadCnt = .ok n) :
    0 < n := by
  induction cpus generalizing threadCnt with
  | zero =>
      simp only [startThreads, Except.ok.injEq] at h
      omega
  | succ cpus ih =>
      simp only [startThreads] at h
      split at h
      · cases h
      · split at h
        · cases h
          omega
        · exact ih (.inr (Nat.succ_pos threadCnt)) h

theorem Attached.listAdd (h : Attached s) (hmutex : s.mutex = none) (hclosed : s.dev d = .closed)
    (hnodup : env.engines.Nodup) (hfresh : ∀ e ∈ env.engines, s.used e = false)
    (hcpus : 0 < env.cpus) (hmoves : Pool.ListAddMoves s d env s') : Attached s' := by
  cases hmoves with
  | fail => exact h.congr rfl rfl rfl rfl rfl rfl fun _ => ⟨rfl, rfl⟩
  | create hnil _ hn =>
      obtain ⟨hengines, hthp⟩ := h.nothing hnil
      refine h.enlist hclosed hmutex hnodup hfresh (startThreads_pos (.inl hcpus) hn)
        (fun d' => ?_) (Homed.idle hengines hthp fun _ _ => rfl)
      -- without a listed device and with the mutex free every device is closed
      have hlisted := h.registered.unlisted hnil d'
      have hdestroying := not_congr (h.registered.mutex d')
      rw [hmutex] at hdestroying
      cases hpc : s.dev d' <;>
        simp_all [DevicePc.listed, DevicePc.destroying, DevicePc.InBounds]
  | list hsome =>
      have hne : s.xdevList ≠ [] := by
        rcases hsome with hne | hcnt
        · exact hne
        · exact fun hnil => hcnt (h.registered.gone hnil hmutex)
      exact h.enlist hclosed hmutex hnodup hfresh (h.registered.pool hne) h.registered.inBounds
        h.homed

end

/-! ## Every step -/

section

variable [DecidableEq δ] [DecidableEq ε]

omit [DecidableEq δ] [DecidableEq ε] in
theorem SameWork.setThread {t : Nat} {thp : XdmaKthread ε}
    (hcnt : thp.workCnt = (s.thread t).workCnt) (hlist : thp.workList = (s.thread t).workList) :
    SameWork s (s.setThread t thp) :=
  (Function.forall_update_iff s.thread fun t' thp' => thp'.workCnt = (s.thread t').workCnt ∧
    thp'.workList = (s.thread t').workList).mpr ⟨⟨hcnt, hlist⟩, fun _ _ => ⟨rfl, rfl⟩⟩

omit [DecidableEq ε] in
theorem XdmaKthread.wakeUp_work (thp : XdmaKthread ε) :
    thp.wakeUp.workCnt = thp.workCnt ∧ thp.wakeUp.workList = thp.workList := by
  unfold wakeUp
  split <;> exact ⟨rfl, rfl⟩

theorem XdmaKthread.main_work {thp thp' : XdmaKthread ε} {pend pend' : ε → Bool} {keep : Bool}
    (h : thp.main pend keep = some (thp', pend')) :
    thp'.workCnt = thp.workCnt ∧ thp'.workList = thp.workList := by
  unfold main at h
  split at h <;> simp only [Option.some.injEq, Prod.mk.injEq, reduceCtorEq] at h <;>
    obtain ⟨rfl, -⟩ := h <;> exact ⟨rfl, rfl⟩

namespace Attached

variable {d : δ}

omit [DecidableEq ε] in
theorem setDev (h : Attached s) {old pc : DevicePc ε} (hpc : s.dev d = old)
    (hatt : pc.attached = old.attached) (hloose : pc.loose = old.loose)
    (hcoming : pc.coming = old.coming) (hlisted : pc.listed = old.listed)
    (hdestroying : pc.destroying = old.destroying) (hbound : pc.InBounds s.threadCnt) :
    Attached (s.setDev d pc) := by
  subst hpc
  have hmove : DeviceMove s (s.setDev d pc) d pc :=
    { dev := rfl
      xdevList := rfl
      mutex := rfl
      used := rfl
      threadCnt := rfl
      engines := by
        simp only [DevicePc.engines, hatt, hloose, hcoming, List.Subperm.refl]
      listed := hlisted
      destroying := hdestroying
      inBounds := hbound
      other := fun _ _ => rfl }
  exact h.advance hmove (fun _ => ⟨rfl, rfl⟩) rfl hatt hloose

omit [DecidableEq δ] [DecidableEq ε] in
theorem setThread (h : Attached s) {t : Nat} {thp : XdmaKthread ε}
    (hcnt : thp.workCnt = (s.thread t).workCnt) (hlist : thp.workList = (s.thread t).workList) :
    Attached (s.setThread t thp) :=
  h.congr rfl rfl rfl rfl rfl rfl (.setThread hcnt hlist)

omit [DecidableEq δ] [DecidableEq ε] in
private theorem scan_inBounds (h : Attached s) {found todo : List ε} {e : ε} {i idx v : Nat}
    (hpc : s.dev d = .scanning found e todo i idx v) (hi : i < s.threadCnt) :
    (∀ idx', Pool.scanOne s.threadCnt i idx v (s.thread i).workCnt = .inl idx' →
      idx' < s.threadCnt) ∧
    ∀ idx' v', Pool.scanOne s.threadCnt i idx v (s.thread i).workCnt = .inr (idx', v') →
      idx' < s.threadCnt := by
  have hidx := h.registered.inBounds d
  rw [hpc] at hidx
  simp only [Pool.scanOne]
  split_ifs with hfirst hzero hless <;> simp only [DevicePc.InBounds] at hidx <;>
    simp_all

theorem devMoves (h : Attached s) {opens : Bool} (hmove : Pool.DevMoves s d opens s') :
    Attached s' := by
  cases hmove with
  | probed hpc => cases opens <;> exact h.setDev hpc rfl rfl rfl rfl rfl trivial
  | probe hpc => exact h.setDev hpc rfl rfl rfl rfl rfl (.inl ⟨rfl, rfl⟩)
  | scan hpc hi hscan =>
      exact h.setDev hpc rfl rfl rfl rfl rfl (.inr ((h.scan_inBounds hpc hi).2 _ _ hscan))
  | take hpc hi htake =>
      exact h.setDev hpc rfl rfl rfl rfl rfl ((h.scan_inBounds hpc hi).1 _ htake)
  | scanned hpc hi =>
      refine h.setDev hpc rfl rfl rfl rfl rfl ?_
      have hidx := h.registered.inBounds d
      rw [hpc] at hidx
      have hlisted : d ∈ s.xdevList.map Prod.fst := by
        rw [h.registered.registry d, hpc]
        rfl
      have hpos := h.registered.pool (List.ne_nil_of_mem (List.mem_map.mp hlisted).choose_spec.1)
      simp only [DevicePc.InBounds] at hidx ⊢
      omega
  | place hpc => exact h.place hpc
  | publish hpc => exact h.publish hpc
  | unlist hpc hmutex => exact h.unlist hpc hmutex
  | unpublish hpc => exact h.unpublish hpc
  | forget hpc => exact h.setDev hpc rfl rfl rfl rfl rfl trivial
  | detach hpc => exact h.detach hpc
  | stopMark hpc hi =>
      refine setDev (s := s.setThread _ _) (h.setThread ?_ ?_) hpc rfl rfl rfl rfl rfl hi <;> rfl
  | free hpc => exact h.free hpc
  | @stop i hpc =>
      have hi := h.registered.inBounds d
      rw [hpc] at hi
      have hwork := XdmaKthread.wakeUp_work (s.thread i)
      exact setDev (s := s.setThread i { (s.thread i).wakeUp with stop := true })
        (h.setThread hwork.1 hwork.2) hpc rfl rfl rfl rfl rfl hi
  | join hpc => exact h.setDev hpc rfl rfl rfl rfl rfl trivial

theorem step (h : Attached s) {a : PoolAct δ ε} (hs : s.step a = some s') : Attached s' := by
  cases Pool.step_moves hs with
  | listAdd hmutex hclosed hnodup hfresh hcpus hmoves =>
      exact h.listAdd hmutex hclosed hnodup hfresh hcpus hmoves
  | dev hmove => exact h.devMoves hmove
  | close hpc => exact h.setDev hpc rfl rfl rfl rfl rfl trivial
  | main _ hmain =>
      have hwork := XdmaKthread.main_work hmain
      exact h.congr rfl rfl rfl rfl rfl rfl (SameWork.setThread hwork.1 hwork.2)
  | queue | queueNowait | abort => exact h.congr rfl rfl rfl rfl rfl rfl fun _ => ⟨rfl, rfl⟩
  | wake hmove =>
      cases hmove with
      | skip | test | crash =>
          exact h.congr rfl rfl rfl rfl rfl rfl fun _ => ⟨rfl, rfl⟩
      | @mark t =>
          have hwork : SameWork s (s.setThread t { s.thread t with schedule := true }) :=
            SameWork.setThread rfl rfl
          exact h.congr rfl rfl rfl rfl rfl rfl hwork
      | @notify t =>
          have hwork := XdmaKthread.wakeUp_work (s.thread t)
          exact h.congr rfl rfl rfl rfl rfl rfl (SameWork.setThread hwork.1 hwork.2)

theorem runs {as : List (PoolAct δ ε)} {ok : Pool δ ε → PoolAct δ ε → Prop}
    (run : Runs Pool.step ok Pool.start as s) : Attached s :=
  run.invariant (fun h _ hs => h.step hs) Attached.start

end Attached

/-! ## Engines that a thread is looking at -/

def XdmaKthread.visits (thp : XdmaKthread ε) : List ε :=
  match thp.pc with
  | .pending rest | .work rest => rest
  | _ => []

omit [DecidableEq δ] [DecidableEq ε] in
private theorem XdmaKthread.visits_of_unlocked {thp : XdmaKthread ε} (h : thp.locked = false) :
    thp.visits = [] := by
  cases hpc : thp.pc <;> simp_all [locked, visits]

omit [DecidableEq δ] [DecidableEq ε] in
private theorem XdmaKthread.wakeUp_visits (thp : XdmaKthread ε) :
    thp.wakeUp.visits = thp.visits := by
  cases hpc : thp.pc <;> simp [wakeUp, visits, hpc]

omit [DecidableEq δ] in
theorem XdmaKthread.main_visits {thp thp' : XdmaKthread ε} {pend pend' : ε → Bool} {keep : Bool}
    (hvisits : ∀ e ∈ thp.visits, e ∈ thp.workList)
    (h : thp.main pend keep = some (thp', pend')) :
    ∀ e ∈ thp'.visits, e ∈ thp.workList := by
  unfold main at h
  split at h <;> simp only [Option.some.injEq, Prod.mk.injEq, reduceCtorEq] at h <;>
    obtain ⟨rfl, -⟩ := h <;> simp_all only [visits, goto, XdmaKthread.goto]
  all_goals grind

/-- The loops of a thread visit its own work list, which stays as it is because the thread holds
its lock. -/
def Visiting (s : Pool δ ε) : Prop :=
  ∀ t, ∀ e ∈ (s.thread t).visits, e ∈ (s.thread t).workList

omit [DecidableEq δ] [DecidableEq ε] in
theorem Visiting.setThread (h : Visiting s) {t : Nat} {thp : XdmaKthread ε}
    (hvisits : ∀ e ∈ thp.visits, e ∈ thp.workList) : Visiting (s.setThread t thp) :=
  (Function.forall_update_iff s.thread fun _ thp' => ∀ e ∈ thp'.visits, e ∈ thp'.workList).mpr
    ⟨hvisits, fun t' _ => h t'⟩

theorem Visiting.devMoves (h : Visiting s) {d : δ} {opens : Bool}
    (hmove : Pool.DevMoves s d opens s') : Visiting s' := by
  cases hmove with
  | probed | probe | scan | take | scanned | publish | unpublish | forget | free | join => exact h
  | @place _ _ e t hpc hfree =>
      refine h.setThread (t := t) ?_
      have hnone : (Pool.listAddTail (s.thread t) e).visits = [] :=
        XdmaKthread.visits_of_unlocked hfree
      simp [hnone]
  | unlist =>
      simp only [Pool.xdevListRemove]
      split <;> exact h
  | @detach _ e t hpc hfree =>
      refine h.setThread (t := t) ?_
      have hnone : (Pool.listDel (s.thread t) e).visits = [] :=
        XdmaKthread.visits_of_unlocked hfree
      simp [hnone]
  | @stopMark i => exact h.setThread (t := i) (h i)
  | @stop i =>
      refine h.setThread (t := i) fun e he => ?_
      have hwork := XdmaKthread.wakeUp_work (s.thread i)
      have hvisits := XdmaKthread.wakeUp_visits (s.thread i)
      change e ∈ (s.thread i).wakeUp.visits at he
      change e ∈ (s.thread i).wakeUp.workList
      rw [hwork.2]
      exact h i e (hvisits ▸ he)

theorem Visiting.step (h : Visiting s) {a : PoolAct δ ε} (hs : s.step a = some s') :
    Visiting s' := by
  cases Pool.step_moves hs with
  | listAdd _ _ _ _ _ hmoves =>
      cases hmoves with
      | fail | list => exact h
      | create =>
          intro t e he
          cases he
  | dev hmove => exact h.devMoves hmove
  | close | queue | queueNowait | abort => exact h
  | @main t _ _ _ _ hmain =>
      refine h.setThread (t := t) ?_
      rw [(XdmaKthread.main_work hmain).2]
      exact XdmaKthread.main_visits (h t) hmain
  | wake hmove =>
      cases hmove with
      | skip | test | crash => exact h
      | @mark t => exact h.setThread (t := t) (h t)
      | @notify t =>
          refine h.setThread (t := t) ?_
          rw [XdmaKthread.wakeUp_visits, (XdmaKthread.wakeUp_work _).2]
          exact h t

theorem Visiting.runs {as : List (PoolAct δ ε)} {ok : Pool δ ε → PoolAct δ ε → Prop}
    (run : Runs Pool.step ok Pool.start as s) : Visiting s := by
  refine run.invariant (fun h _ hs => h.step hs) fun t e he => ?_
  cases he

/-! ## The lists over every run -/

/-- At every moment of every run `work_cnt` counts the list, an attached engine is on exactly the
list that its `cmplthp` names, and what a thread looks at next is an engine of a listed device
that has not been taken off. -/
theorem work_lists_exact {as : List (PoolAct δ ε)} (run : Runs Pool.step Any Pool.start as s) :
    (∀ t < s.threadCnt, (s.thread t).workCnt = (s.thread t).workList.length ∧
      (s.thread t).workList.Nodup) ∧
    (∀ d, ∀ e ∈ (s.dev d).attached, ∃ t < s.threadCnt, s.cmplthp e = some t ∧
      ∀ t' < s.threadCnt, (e ∈ (s.thread t').workList ↔ t' = t)) ∧
    ∀ t < s.threadCnt, ∀ e ∈ (s.thread t).visits,
      ∃ d ∈ s.xdevList.map Prod.fst, (s.dev d).Claims s.cmplthp e t := by
  have h := Attached.runs run
  refine ⟨fun t ht => ⟨h.homed.count t ht, h.homed.nodup t ht⟩, fun d e he => ?_,
    fun t ht e he => ?_⟩
  · obtain ⟨t, hthp⟩ := Option.ne_none_iff_exists'.mp (h.homed.published d e he)
    have hclaim : s.Claims e t := ⟨d, .inl ⟨he, hthp⟩⟩
    have ht := h.homed.inPool e t hclaim
    have hmem := (h.homed.mem t ht e).mpr hclaim
    refine ⟨t, ht, hthp, fun t' ht' => ⟨fun hmem' => h.unique ht' ht hmem' hmem, ?_⟩⟩
    rintro rfl
    exact hmem
  · obtain ⟨d, hclaim⟩ := (h.homed.mem t ht e).mp (Visiting.runs run t e he)
    refine ⟨d, ?_, hclaim⟩
    rw [h.registered.registry d]
    by_contra hunlisted
    have hnone := DevicePc.engines_of_unlisted (Bool.eq_false_iff.mpr hunlisted)
    exact DevicePc.claims_of_engines hnone hclaim

end

def openTwo : List (PoolAct Nat Nat) :=
  .listAdd 0 ⟨[0, 1], 2, 2, true, fun _ => false⟩ ::
    (List.replicate 12 (.dev 0 true) ++ [.main 1 false, .main 1 false])

theorem work_lists_exact_openTwo : ∃ s, Runs Pool.step Any Pool.start openTwo s ∧
    s.threadCnt = 2 ∧ (s.dev 0).attached = [0, 1] ∧ (s.thread 1).visits = [0] ∧
    (∃ t < 2, s.cmplthp 0 = some t ∧ ∀ t' < 2, (0 ∈ (s.thread t').workList ↔ t' = t)) ∧
    ∃ d ∈ s.xdevList.map Prod.fst, (s.dev d).Claims s.cmplthp 0 1 := by
  have hexec : (exec Pool.step Pool.start openTwo).map
      (fun s => (s.threadCnt, (s.dev 0).attached, (s.thread 1).visits)) =
      some (2, [0, 1], [0]) := by
    decide +kernel
  obtain ⟨s, hs, hobs⟩ := Option.map_eq_some_iff.mp hexec
  simp only [Prod.mk.injEq] at hobs
  obtain ⟨hcnt, hatt, hvisits⟩ := hobs
  have hexact := work_lists_exact (runs_of_exec hs)
  rw [hcnt] at hexact
  refine ⟨s, runs_of_exec hs, hcnt, hatt, hvisits, hexact.2.1 0 0 (by simp [hatt]), ?_⟩
  exact hexact.2.2 1 (by decide) 0 (by simp [hvisits])

end NupaNet.Thread
