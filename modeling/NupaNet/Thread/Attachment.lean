import Mathlib.Data.List.Nodup
import Mathlib.Data.List.Perm.Subperm
import NupaNet.Thread.Pool

/-!
# Every engine on one work list

`xdma_thread_add_work` puts the engine on a list before `engine->cmplthp` names
the thread, and `xdma_thread_remove_work` clears the pointer before it takes the
engine off, so in between the two disagree.  The invariant says for each device
which engines are in that state, and what the lists of the threads hold at any
moment: the engines of the listed devices, each once.
-/

namespace NupaNet.Thread

open NupaNet.Foundation

variable {δ ε : Type}

namespace DevicePc

def listed : DevicePc ε → Bool
  | .closed | .stopping _ | .stopBit _ | .joining _ => false
  | _ => true

def destroying : DevicePc ε → Bool
  | .stopping _ | .stopBit _ | .joining _ => true
  | _ => false

def opening : DevicePc ε → Bool
  | .probing _ _ | .scanning _ _ _ _ _ _ | .placing _ _ _ _ | .publishing _ _ _ _ => true
  | _ => false

/-- The index with which `cs_threads` is used next is one of the array; a scan has one from its
first iteration on. -/
def InBounds (threadCnt : Nat) : DevicePc ε → Prop
  | .scanning _ _ _ i idx _ => i = 0 ∧ idx = threadCnt ∨ idx < threadCnt
  | .placing _ _ _ idx => idx < threadCnt
  | .stopBit i | .joining i => i < threadCnt
  | _ => True

end DevicePc

/-- The device at this point has the engine `e` on the list of thread `t`. -/
def DevicePc.Claims (pc : DevicePc ε) (cmplthp : ε → Option Nat) (e : ε) (t : Nat) : Prop :=
  e ∈ pc.attached ∧ cmplthp e = some t ∨ pc.loose = some (e, t)

def Pool.Claims (s : Pool δ ε) (e : ε) (t : Nat) : Prop :=
  ∃ d, (s.dev d).Claims s.cmplthp e t

/-- The devices that are open, the engines they own and the array of threads. -/
structure Registered (s : Pool δ ε) : Prop where
  engines : ∀ d, (s.dev d).engines.Nodup
  apart : ∀ d d' e, e ∈ (s.dev d).engines → e ∈ (s.dev d').engines → d = d'
  used : ∀ d, ∀ e ∈ (s.dev d).engines, s.used e = true
  inBounds : ∀ d, (s.dev d).InBounds s.threadCnt
  registry : ∀ d, d ∈ s.xdevList.map Prod.fst ↔ (s.dev d).listed = true
  distinct : (s.xdevList.map Prod.fst).Nodup
  pool : s.xdevList ≠ [] → 0 < s.threadCnt
  mutex : ∀ d, (s.dev d).destroying = true ↔ s.mutex = some d
  last : s.mutex ≠ none → s.xdevList = []
  gone : s.xdevList = [] → s.mutex = none → s.threadCnt = 0

structure Homed (s : Pool δ ε) : Prop where
  count : ∀ t < s.threadCnt, (s.thread t).workCnt = (s.thread t).workList.length
  nodup : ∀ t < s.threadCnt, (s.thread t).workList.Nodup
  mem : ∀ t < s.threadCnt, ∀ e, e ∈ (s.thread t).workList ↔ s.Claims e t
  inPool : ∀ e t, s.Claims e t → t < s.threadCnt
  published : ∀ d, ∀ e ∈ (s.dev d).attached, s.cmplthp e ≠ none
  cmplthp : ∀ e t, s.cmplthp e = some t → ∃ d, e ∈ (s.dev d).attached

structure Attached (s : Pool δ ε) : Prop where
  registered : Registered s
  homed : Homed s

variable {s s' : Pool δ ε}

/-! ## Engines of a program point -/

namespace DevicePc

variable {pc : DevicePc ε} {e : ε} {t : Nat}

theorem mem_engines_attached (h : e ∈ pc.attached) : e ∈ pc.engines := by
  simp [engines, h]

private theorem mem_engines_loose (h : pc.loose = some (e, t)) : e ∈ pc.engines := by
  simp [engines, h]

theorem Claims.mem_engines {cmplthp : ε → Option Nat} (h : pc.Claims cmplthp e t) :
    e ∈ pc.engines :=
  h.elim (fun hatt => mem_engines_attached hatt.1) mem_engines_loose

theorem Claims.unique {cmplthp : ε → Option Nat} {t' : Nat} (hnodup : pc.engines.Nodup)
    (h : pc.Claims cmplthp e t) (h' : pc.Claims cmplthp e t') : t = t' := by
  simp only [engines] at hnodup
  have hapart := (List.nodup_append.mp (List.nodup_append.mp hnodup).1).2.2
  rcases h with ⟨hatt, hthp⟩ | hloose <;> rcases h' with ⟨hatt', hthp'⟩ | hloose'
  · exact Option.some.inj (hthp.symm.trans hthp')
  · exact absurd rfl (hapart e hatt e (by simp [hloose']))
  · exact absurd rfl (hapart e hatt' e (by simp [hloose]))
  · rw [hloose] at hloose'
    exact (Prod.mk.inj (Option.some.inj hloose')).2

private theorem coming_not_claimed {cmplthp : ε → Option Nat} (hnodup : pc.engines.Nodup)
    (h : e ∈ pc.coming) : ¬ pc.Claims cmplthp e t := by
  have hapart := (List.nodup_append.mp hnodup).2.2
  rintro (⟨hatt, -⟩ | hloose)
  · exact hapart e (by simp [hatt]) e h rfl
  · exact hapart e (by simp [hloose]) e h rfl

end DevicePc

namespace Attached

private theorem claims_iff (h : Attached s) {d : δ} {e : ε} (he : e ∈ (s.dev d).engines) (t : Nat) :
    s.Claims e t ↔ (s.dev d).Claims s.cmplthp e t := by
  constructor
  · rintro ⟨d', hclaim⟩
    obtain rfl := h.registered.apart d d' e he hclaim.mem_engines
    exact hclaim
  · exact fun hclaim => ⟨d, hclaim⟩

theorem unique (h : Attached s) {e : ε} {t t' : Nat} (ht : t < s.threadCnt)
    (ht' : t' < s.threadCnt) (he : e ∈ (s.thread t).workList)
    (he' : e ∈ (s.thread t').workList) : t = t' := by
  obtain ⟨d, hclaim⟩ := (h.homed.mem t ht e).mp he
  have hclaim' := (h.claims_iff hclaim.mem_engines t').mp ((h.homed.mem t' ht' e).mp he')
  exact hclaim.unique (h.registered.engines d) hclaim'

theorem start [DecidableEq δ] [DecidableEq ε] : Attached (Pool.start : Pool δ ε) := by
  constructor <;> constructor <;>
    simp [Pool.start, DevicePc.attached, DevicePc.loose, DevicePc.engines, DevicePc.coming,
      DevicePc.InBounds, DevicePc.listed, DevicePc.destroying, Pool.Claims, DevicePc.Claims]

end Attached

/-! ## Steps that leave the lists alone -/

def SameWork (s s' : Pool δ ε) : Prop :=
  ∀ t, (s'.thread t).workCnt = (s.thread t).workCnt ∧
    (s'.thread t).workList = (s.thread t).workList

theorem Registered.congr (h : Registered s) (hlist : s'.xdevList = s.xdevList)
    (hmutex : s'.mutex = s.mutex) (hdev : s'.dev = s.dev) (hused : s'.used = s.used)
    (hcnt : s'.threadCnt = s.threadCnt) : Registered s' := by
  cases s
  cases s'
  subst hlist hmutex hdev hused hcnt
  exact ⟨h.engines, h.apart, h.used, h.inBounds, h.registry, h.distinct, h.pool, h.mutex, h.last,
    h.gone⟩

theorem Homed.congr (h : Homed s) (hcnt : s'.threadCnt = s.threadCnt) (hwork : SameWork s s')
    (hclaims : ∀ e t, s'.Claims e t ↔ s.Claims e t)
    (hpublished : ∀ d, ∀ e ∈ (s'.dev d).attached, s'.cmplthp e ≠ none)
    (hthp : ∀ e t, s'.cmplthp e = some t → ∃ d, e ∈ (s'.dev d).attached) : Homed s' where
  count t ht := by
    rw [(hwork t).1, (hwork t).2]
    exact h.count t (hcnt ▸ ht)
  nodup t ht := by
    rw [(hwork t).2]
    exact h.nodup t (hcnt ▸ ht)
  mem t ht e := by
    rw [(hwork t).2, hclaims]
    exact h.mem t (hcnt ▸ ht) e
  inPool e t hclaim := by
    rw [hcnt]
    exact h.inPool e t ((hclaims e t).mp hclaim)
  published := hpublished
  cmplthp := hthp

theorem Attached.congr (h : Attached s) (hlist : s'.xdevList = s.xdevList)
    (hmutex : s'.mutex = s.mutex) (hdev : s'.dev = s.dev) (hused : s'.used = s.used)
    (hthp : s'.cmplthp = s.cmplthp) (hcnt : s'.threadCnt = s.threadCnt)
    (hwork : SameWork s s') : Attached s' where
  registered := h.registered.congr hlist hmutex hdev hused hcnt
  homed := by
    refine h.homed.congr hcnt hwork (fun e t => ?_) ?_ ?_
    · rw [Pool.Claims, Pool.Claims, hdev, hthp]
    · rw [hdev, hthp]
      exact h.homed.published
    · rw [hdev, hthp]
      exact h.homed.cmplthp

/-! ## Steps of a device -/

section

variable [DecidableEq δ] {d : δ} {pc : DevicePc ε}

structure DeviceMove (s s' : Pool δ ε) (d : δ) (pc : DevicePc ε) : Prop where
  dev : s'.dev = Function.update s.dev d pc
  xdevList : s'.xdevList = s.xdevList
  mutex : s'.mutex = s.mutex
  used : s'.used = s.used
  threadCnt : s'.threadCnt = s.threadCnt
  engines : pc.engines.Subperm (s.dev d).engines
  listed : pc.listed = (s.dev d).listed
  destroying : pc.destroying = (s.dev d).destroying
  inBounds : pc.InBounds s.threadCnt
  other : ∀ e, e ∉ (s.dev d).engines → s'.cmplthp e = s.cmplthp e

theorem Registered.move (h : Registered s) (hmove : DeviceMove s s' d pc) : Registered s' := by
  have hmem : ∀ d', ∀ e ∈ (Function.update s.dev d pc d').engines, e ∈ (s.dev d').engines :=
    (Function.forall_update_iff s.dev fun d' pc' => ∀ e ∈ pc'.engines, e ∈ (s.dev d').engines).mpr
      ⟨fun _ he => hmove.engines.subset he, fun _ _ _ he => he⟩
  obtain ⟨l, hperm, hsub⟩ := hmove.engines
  refine Registered.congr (s := { s with dev := Function.update s.dev d pc }) ?_ hmove.xdevList
    hmove.mutex hmove.dev hmove.used hmove.threadCnt
  exact
    { engines := (Function.forall_update_iff s.dev fun _ pc' => pc'.engines.Nodup).mpr
        ⟨hperm.nodup_iff.mp ((h.engines d).sublist hsub), fun d' _ => h.engines d'⟩
      apart := fun d' d'' e he he' => h.apart d' d'' e (hmem d' e he) (hmem d'' e he')
      used := fun d' e he => h.used d' e (hmem d' e he)
      inBounds := (Function.forall_update_iff s.dev fun _ pc' => pc'.InBounds s.threadCnt).mpr
        ⟨hmove.inBounds, fun d' _ => h.inBounds d'⟩
      registry := (Function.forall_update_iff s.dev fun d' pc' =>
        d' ∈ s.xdevList.map Prod.fst ↔ pc'.listed = true).mpr
        ⟨by rw [hmove.listed]; exact h.registry d, fun d' _ => h.registry d'⟩
      distinct := h.distinct
      pool := h.pool
      mutex := (Function.forall_update_iff s.dev fun d' pc' =>
        pc'.destroying = true ↔ s.mutex = some d').mpr
        ⟨by rw [hmove.destroying]; exact h.mutex d, fun d' _ => h.mutex d'⟩
      last := h.last
      gone := h.gone }

namespace Attached

/-- What is claimed after a step of `d`: by `d`, and by the other devices as before. -/
private theorem claims_move (h : Attached s) (hmove : DeviceMove s s' d pc) (e : ε) (t : Nat) :
    s'.Claims e t ↔ pc.Claims s'.cmplthp e t ∨ e ∉ (s.dev d).engines ∧ s.Claims e t := by
  simp only [Pool.Claims, hmove.dev]
  rw [Function.exists_update_iff s.dev fun _ pc' => pc'.Claims s'.cmplthp e t]
  refine or_congr_right ⟨?_, ?_⟩
  · rintro ⟨d', hd, hclaim⟩
    have hother : e ∉ (s.dev d).engines := fun he =>
      hd (h.registered.apart d' d e hclaim.mem_engines he)
    refine ⟨hother, d', ?_⟩
    rwa [DevicePc.Claims, hmove.other e hother] at hclaim
  · rintro ⟨hother, d', hclaim⟩
    refine ⟨d', ?_, ?_⟩
    · rintro rfl
      exact hother hclaim.mem_engines
    · rwa [DevicePc.Claims, hmove.other e hother]

theorem move (h : Attached s) (hmove : DeviceMove s s' d pc)
    (hwork : ∀ t < s.threadCnt, (s'.thread t).workCnt = (s'.thread t).workList.length ∧
      (s'.thread t).workList.Nodup ∧ ∀ e, e ∈ (s'.thread t).workList ↔
        pc.Claims s'.cmplthp e t ∨ e ∉ (s.dev d).engines ∧ e ∈ (s.thread t).workList)
    (hinPool : ∀ e t, pc.Claims s'.cmplthp e t → t < s.threadCnt)
    (hpublished : ∀ e ∈ pc.attached, s'.cmplthp e ≠ none)
    (hown : ∀ e ∈ (s.dev d).engines, ∀ t, s'.cmplthp e = some t → e ∈ pc.attached) :
    Attached s' := by
  have hclaims := h.claims_move hmove
  have hcnt := hmove.threadCnt
  refine ⟨h.registered.move hmove, ?_⟩
  refine
    { count := fun t ht => (hwork t (hcnt ▸ ht)).1
      nodup := fun t ht => (hwork t (hcnt ▸ ht)).2.1
      mem := fun t ht e => ?_
      inPool := fun e t hclaim => ?_
      published := ?_
      cmplthp := fun e t he => ?_ }
  · rw [(hwork t (hcnt ▸ ht)).2.2 e, hclaims, h.homed.mem t (hcnt ▸ ht) e]
  · rw [hcnt]
    exact ((hclaims e t).mp hclaim).elim (hinPool e t) fun hold => h.homed.inPool e t hold.2
  · rw [hmove.dev]
    refine (Function.forall_update_iff s.dev fun _ pc' =>
      ∀ e ∈ pc'.attached, s'.cmplthp e ≠ none).mpr ⟨hpublished, fun d' hd e he => ?_⟩
    rw [hmove.other e fun hmem =>
      hd (h.registered.apart d' d e (DevicePc.mem_engines_attached he) hmem)]
    exact h.homed.published d' e he
  · rw [hmove.dev, Function.exists_update_iff s.dev fun _ pc' => e ∈ pc'.attached]
    by_cases hmem : e ∈ (s.dev d).engines
    · exact .inl (hown e hmem t he)
    · rw [hmove.other e hmem] at he
      obtain ⟨d', hatt⟩ := h.homed.cmplthp e t he
      refine .inr ⟨d', ?_, hatt⟩
      rintro rfl
      exact hmem (DevicePc.mem_engines_attached hatt)

omit [DecidableEq δ] in
private theorem mem_workList (h : Attached s) (d : δ) {t : Nat} (ht : t < s.threadCnt) (e : ε) :
    e ∈ (s.thread t).workList ↔ (s.dev d).Claims s.cmplthp e t ∨
      e ∉ (s.dev d).engines ∧ e ∈ (s.thread t).workList := by
  by_cases hmem : e ∈ (s.dev d).engines
  · rw [h.homed.mem t ht e, h.claims_iff hmem]
    simp [hmem]
  · have hclaim : ¬ (s.dev d).Claims s.cmplthp e t := fun hclaim => hmem hclaim.mem_engines
    simp [hmem, hclaim]

omit [DecidableEq δ] in
private theorem attached_of_cmplthp (h : Attached s) {e : ε} (he : e ∈ (s.dev d).engines) {t : Nat}
    (hthp : s.cmplthp e = some t) : e ∈ (s.dev d).attached := by
  obtain ⟨d', hmem⟩ := h.homed.cmplthp e t hthp
  obtain rfl := h.registered.apart d d' e he (DevicePc.mem_engines_attached hmem)
  exact hmem

private theorem keepLists (h : Attached s) (hmove : DeviceMove s s' d pc) (hsame : SameWork s s')
    (hclaims : ∀ e t, pc.Claims s'.cmplthp e t ↔ (s.dev d).Claims s.cmplthp e t)
    (hpublished : ∀ e ∈ pc.attached, s'.cmplthp e ≠ none)
    (hown : ∀ e ∈ (s.dev d).engines, ∀ t, s'.cmplthp e = some t → e ∈ pc.attached) :
    Attached s' := by
  refine h.move hmove (fun t ht => ?_) (fun e t hclaim => ?_) hpublished hown
  · rw [(hsame t).1, (hsame t).2]
    refine ⟨h.homed.count t ht, h.homed.nodup t ht, fun e => ?_⟩
    rw [hclaims]
    exact h.mem_workList d ht e
  · exact h.homed.inPool e t ⟨d, (hclaims e t).mp hclaim⟩

theorem advance (h : Attached s) (hmove : DeviceMove s s' d pc) (hsame : SameWork s s')
    (hthp : s'.cmplthp = s.cmplthp) (hatt : pc.attached = (s.dev d).attached)
    (hloose : pc.loose = (s.dev d).loose) : Attached s' := by
  refine h.keepLists hmove hsame (fun e t => ?_) (fun e he => ?_) (fun e he t hsome => ?_)
  · rw [DevicePc.Claims, DevicePc.Claims, hatt, hloose, hthp]
  · rw [hthp]
    exact h.homed.published d e (hatt ▸ he)
  · rw [hatt]
    exact h.attached_of_cmplthp he (hthp ▸ hsome)

variable [DecidableEq ε] {found todo : List ε} {e : ε} {t : Nat}

theorem place (h : Attached s) (hpc : s.dev d = .placing found e todo t) :
    Attached ((s.setThread t (Pool.listAddTail (s.thread t) e)).setDev d
      (.publishing found e todo t)) := by
  have hengines := h.registered.engines d
  have ht : t < s.threadCnt := by
    have := h.registered.inBounds d
    rwa [hpc] at this
  have hunclaimed : ∀ t', ¬ (s.dev d).Claims s.cmplthp e t' := fun t' =>
    DevicePc.coming_not_claimed hengines (by simp [hpc, DevicePc.coming])
  have hmem : e ∈ (s.dev d).engines := by
    simp [hpc, DevicePc.engines, DevicePc.coming]
  have hoff : e ∉ (s.thread t).workList := by
    rw [h.homed.mem t ht e, h.claims_iff hmem]
    exact hunclaimed t
  have hmove : DeviceMove s ((s.setThread t (Pool.listAddTail (s.thread t) e)).setDev d
      (.publishing found e todo t)) d (.publishing found e todo t) :=
    { dev := rfl
      xdevList := rfl
      mutex := rfl
      used := rfl
      threadCnt := rfl
      engines := by
        simp [hpc, DevicePc.engines, DevicePc.attached, DevicePc.loose, DevicePc.coming,
          List.Subperm.refl]
      listed := by rw [hpc]; rfl
      destroying := by rw [hpc]; rfl
      inBounds := trivial
      other := fun _ _ => rfl }
  have hclaims : ∀ e' t', (DevicePc.publishing found e todo t).Claims s.cmplthp e' t' ↔
      (s.dev d).Claims s.cmplthp e' t' ∨ e' = e ∧ t' = t := by
    intro e' t'
    simp [hpc, DevicePc.Claims, DevicePc.attached, DevicePc.loose, eq_comm]
  refine h.move hmove ?_ ?_ ?_ ?_
  · refine (Function.forall_update_iff s.thread fun t' thp => t' < s.threadCnt →
      thp.workCnt = thp.workList.length ∧ thp.workList.Nodup ∧ ∀ e', e' ∈ thp.workList ↔
        (DevicePc.publishing found e todo t).Claims s.cmplthp e' t' ∨
          e' ∉ (s.dev d).engines ∧ e' ∈ (s.thread t').workList).mpr ⟨fun _ => ?_, ?_⟩
    · refine ⟨by simp [Pool.listAddTail, h.homed.count t ht], ?_, fun e' => ?_⟩
      · exact List.nodup_append.mpr ⟨h.homed.nodup t ht, List.nodup_singleton e,
          fun a ha b hb => by
            rw [List.mem_singleton.mp hb]
            exact ne_of_mem_of_not_mem ha hoff⟩
      · simp only [Pool.listAddTail, List.mem_append, List.mem_singleton]
        rw [hclaims, h.mem_workList d ht e']
        tauto
    · intro t' hne ht'
      refine ⟨h.homed.count t' ht', h.homed.nodup t' ht', fun e' => ?_⟩
      rw [hclaims, h.mem_workList d ht' e']
      tauto
  · intro e' t' hclaim
    rcases (hclaims e' t').mp hclaim with hold | ⟨-, rfl⟩
    · exact h.homed.inPool e' t' ⟨d, hold⟩
    · exact ht
  · intro e' he'
    exact h.homed.published d e' (by simpa [hpc, DevicePc.attached] using he')
  · intro e' he' t' hthp
    simpa [hpc, DevicePc.attached] using h.attached_of_cmplthp he' hthp

theorem publish (h : Attached s) (hpc : s.dev d = .publishing found e todo t) :
    Attached ((s.setCmplthp e (some t)).setDev d (.probing (found ++ [e]) todo)) := by
  have hnodup := h.registered.engines d
  have ht : t < s.threadCnt := h.homed.inPool e t ⟨d, .inr (by simp [hpc, DevicePc.loose])⟩
  have hfound : e ∉ found := by
    simp only [hpc, DevicePc.engines, DevicePc.attached, DevicePc.loose, Option.map_some,
      Option.toList_some] at hnodup
    have hapart := (List.nodup_append.mp (List.nodup_append.mp hnodup).1).2.2
    exact fun hmem => hapart e hmem e (by simp) rfl
  have hmove : DeviceMove s ((s.setCmplthp e (some t)).setDev d (.probing (found ++ [e]) todo)) d
      (.probing (found ++ [e]) todo) :=
    { dev := rfl
      xdevList := rfl
      mutex := rfl
      used := rfl
      threadCnt := rfl
      engines := by
        simp [hpc, DevicePc.engines, DevicePc.attached, DevicePc.loose, DevicePc.coming,
          List.Subperm.refl]
      listed := by rw [hpc]; rfl
      destroying := by rw [hpc]; rfl
      inBounds := trivial
      other := fun e' he' => by
        have hne : e' ≠ e := by
          rintro rfl
          exact he' (by simp [hpc, DevicePc.engines, DevicePc.loose])
        simp [Pool.setDev, Pool.setCmplthp, hne] }
  refine h.keepLists hmove (fun _ => ⟨rfl, rfl⟩) (fun e' t' => ?_) (fun e' he' => ?_)
    (fun e' he' t' hthp => ?_)
  · simp only [DevicePc.Claims, Pool.setDev, Pool.setCmplthp, hpc, DevicePc.attached,
      DevicePc.loose]
    by_cases he' : e' = e
    · subst he'
      simp [hfound]
    · simp [he', Ne.symm he']
  · by_cases hne : e' = e
    · simp [hne, Pool.setDev, Pool.setCmplthp]
    · simp only [Pool.setDev, Pool.setCmplthp, Function.update_of_ne hne]
      exact h.homed.published d e' (by simpa [hpc, DevicePc.attached, hne] using he')
  · by_cases hne : e' = e
    · simp [hne, DevicePc.attached]
    · simp only [Pool.setDev, Pool.setCmplthp, Function.update_of_ne hne] at hthp
      have hatt := h.attached_of_cmplthp he' hthp
      rw [hpc] at hatt
      exact List.mem_append_left [e] hatt

theorem unpublish (h : Attached s) (hpc : s.dev d = .removing (e :: todo)) :
    Attached ((s.setCmplthp e none).setDev d (.detaching e (s.cmplthp e) todo)) := by
  have hnodup := h.registered.engines d
  simp only [hpc, DevicePc.engines, DevicePc.attached, DevicePc.loose, DevicePc.coming,
    Option.map_none, Option.toList_none, List.append_nil, List.nodup_cons] at hnodup
  obtain ⟨t, hthp⟩ := Option.ne_none_iff_exists'.mp
    (h.homed.published d e (by simp [hpc, DevicePc.attached]))
  rw [hthp]
  have hmove : DeviceMove s ((s.setCmplthp e none).setDev d (.detaching e (some t) todo)) d
      (.detaching e (some t) todo) :=
    { dev := rfl
      xdevList := rfl
      mutex := rfl
      used := rfl
      threadCnt := rfl
      engines := by
        simp only [hpc, DevicePc.engines, DevicePc.attached, DevicePc.loose, DevicePc.coming,
          Option.map_some, Option.toList_some, Option.map_none, Option.toList_none,
          List.append_nil]
        exact (List.perm_append_singleton e todo).subperm
      listed := by rw [hpc]; rfl
      destroying := by rw [hpc]; rfl
      inBounds := trivial
      other := fun e' he' => by
        have hne : e' ≠ e := by
          rintro rfl
          exact he' (by simp [hpc, DevicePc.engines, DevicePc.attached])
        simp [Pool.setDev, Pool.setCmplthp, hne] }
  refine h.keepLists hmove (fun _ => ⟨rfl, rfl⟩) (fun e' t' => ?_) (fun e' he' => ?_)
    (fun e' he' t' hthp' => ?_)
  · simp only [DevicePc.Claims, Pool.setDev, Pool.setCmplthp, hpc, DevicePc.attached,
      DevicePc.loose]
    by_cases hne : e' = e
    · subst hne
      simp [hnodup.1, hthp]
    · simp [hne, Ne.symm hne]
  · have hne : e' ≠ e := ne_of_mem_of_not_mem he' hnodup.1
    simp only [Pool.setDev, Pool.setCmplthp, Function.update_of_ne hne]
    refine h.homed.published d e' ?_
    rw [hpc]
    exact List.mem_cons_of_mem e he'
  · by_cases hne : e' = e
    · simp [hne, Pool.setDev, Pool.setCmplthp] at hthp'
    · simp only [Pool.setDev, Pool.setCmplthp, Function.update_of_ne hne] at hthp'
      have hatt := h.attached_of_cmplthp he' hthp'
      rw [hpc] at hatt
      exact (List.mem_cons.mp hatt).resolve_left hne

theorem detach (h : Attached s) (hpc : s.dev d = .detaching e (some t) todo) :
    Attached ((s.setThread t (Pool.listDel (s.thread t) e)).setDev d (.removing todo)) := by
  have hnodup := h.registered.engines d
  simp only [hpc, DevicePc.engines, DevicePc.attached, DevicePc.loose, DevicePc.coming,
    Option.map_some, Option.toList_some, List.append_nil] at hnodup
  have htodo : e ∉ todo := fun hmem =>
    (List.nodup_append.mp hnodup).2.2 e hmem e (by simp) rfl
  have hclaim : (s.dev d).Claims s.cmplthp e t := .inr (by simp [hpc, DevicePc.loose])
  have ht : t < s.threadCnt := h.homed.inPool e t ⟨d, hclaim⟩
  have hon : e ∈ (s.thread t).workList := (h.homed.mem t ht e).mpr ⟨d, hclaim⟩
  have hmove : DeviceMove s ((s.setThread t (Pool.listDel (s.thread t) e)).setDev d
      (.removing todo)) d (.removing todo) :=
    { dev := rfl
      xdevList := rfl
      mutex := rfl
      used := rfl
      threadCnt := rfl
      engines := by
        simp only [hpc, DevicePc.engines, DevicePc.attached, DevicePc.loose, DevicePc.coming,
          Option.map_some, Option.toList_some, Option.map_none, Option.toList_none,
          List.append_nil]
        exact (List.sublist_append_left todo [e]).subperm
      listed := by rw [hpc]; rfl
      destroying := by rw [hpc]; rfl
      inBounds := trivial
      other := fun _ _ => rfl }
  have hclaims : ∀ e' t', (DevicePc.removing todo).Claims s.cmplthp e' t' ↔
      (s.dev d).Claims s.cmplthp e' t' ∧ e' ≠ e := by
    intro e' t'
    simp only [hpc, DevicePc.Claims, DevicePc.attached, DevicePc.loose]
    by_cases hne : e' = e
    · subst hne
      simp [htodo]
    · simp [hne, Ne.symm hne]
  refine h.move hmove ?_ ?_ ?_ ?_
  · refine (Function.forall_update_iff s.thread fun t' thp => t' < s.threadCnt →
      thp.workCnt = thp.workList.length ∧ thp.workList.Nodup ∧ ∀ e', e' ∈ thp.workList ↔
        (DevicePc.removing todo).Claims s.cmplthp e' t' ∨
          e' ∉ (s.dev d).engines ∧ e' ∈ (s.thread t').workList).mpr ⟨fun _ => ?_, ?_⟩
    · refine ⟨?_, (h.homed.nodup t ht).erase e, fun e' => ?_⟩
      · simp [Pool.listDel, h.homed.count t ht, List.length_erase_of_mem hon]
      · simp only [Pool.listDel, (h.homed.nodup t ht).mem_erase_iff]
        rw [hclaims, h.mem_workList d ht e']
        have hmem := hclaim.mem_engines
        by_cases hne : e' = e
        · subst hne
          simp [hmem]
        · tauto
    · intro t' hne ht'
      refine ⟨h.homed.count t' ht', h.homed.nodup t' ht', fun e' => ?_⟩
      rw [hclaims, h.mem_workList d ht' e']
      have hkeep : (s.dev d).Claims s.cmplthp e' t' → e' ≠ e := by
        rintro hclaim' rfl
        exact hne (hclaim'.unique (h.registered.engines d) hclaim)
      tauto
  · intro e' t' hclaim'
    exact h.homed.inPool e' t' ⟨d, ((hclaims e' t').mp hclaim').1⟩
  · intro e' he'
    exact h.homed.published d e' (by simpa [hpc, DevicePc.attached] using he')
  · intro e' he' t' hthp
    simpa [hpc, DevicePc.attached] using h.attached_of_cmplthp he' hthp

end Attached

end

end NupaNet.Thread
