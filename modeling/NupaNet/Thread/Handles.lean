import Mathlib.Algebra.Order.Ring.Nat
import NupaNet.Thread.Registry

/-!
# Numbers and handles of the devices

`xdev_list_add` numbers a device with one more than the last of the list, and
`debug_check_dev_hndl`, with which the entry points of the library begin, looks a
`pci_dev` up in the list and compares what it finds with the handle.
-/

namespace NupaNet.Thread

open NupaNet.Foundation

variable {δ ε : Type} {s s' : Pool δ ε}

/-! ## The list over a step -/

inductive ListStep (s s' : Pool δ ε) (a : PoolAct δ ε) : Prop where
  | same : s'.xdevList = s.xdevList → ListStep s s' a
  | add {d : δ} {env : OpenEnv ε} : a = .listAdd d env →
      s'.xdevList = s.xdevList ++
        [(d, (s.xdevList.getLast?.map fun last => last.2 + 1).getD 0)] → ListStep s s' a
  | remove {p : δ × BitVec 32 → Bool} : s'.xdevList = s.xdevList.filter p → ListStep s s' a

private theorem Pool.listStep [DecidableEq δ] [DecidableEq ε] {a : PoolAct δ ε}
    (hs : s.step a = some s') : ListStep s s' a := by
  cases step_moves hs with
  | listAdd _ _ _ _ _ hmoves =>
      cases hmoves with
      | fail => exact .same rfl
      | create | list => exact .add rfl rfl
  | dev hmove =>
      cases hmove with
      | @unlist =>
          simp only [xdevListRemove]
          split <;> exact .remove rfl
      | _ => exact .same rfl
  | wake hmove => cases hmove <;> exact .same rfl
  | close | main | queue | queueNowait | abort => exact .same rfl

/-! ## Numbers -/

def PoolAct.isListAdd : PoolAct δ ε → Bool
  | .listAdd _ _ => true
  | _ => false

/-- The numbers on the list are those of an increasing sequence below `k`, cut to 32 bits. -/
def Numbered (k : Nat) (xdevList : List (δ × BitVec 32)) : Prop :=
  ∃ l : List (δ × Nat), xdevList = l.map (fun x => (x.1, BitVec.ofNat 32 x.2)) ∧
    (l.map Prod.snd).Pairwise (· < ·) ∧ ∀ x ∈ l, x.2 < k

namespace Numbered

variable {k : Nat} {xdevList : List (δ × BitVec 32)}

theorem mono (h : Numbered k xdevList) {k' : Nat} (hle : k ≤ k') : Numbered k' xdevList := by
  obtain ⟨l, heq, hsorted, hbound⟩ := h
  exact ⟨l, heq, hsorted, fun x hx => Nat.lt_of_lt_of_le (hbound x hx) hle⟩

theorem filter (h : Numbered k xdevList) (p : δ × BitVec 32 → Bool) :
    Numbered k (xdevList.filter p) := by
  obtain ⟨l, rfl, hsorted, hbound⟩ := h
  refine ⟨l.filter (p ∘ fun x => (x.1, BitVec.ofNat 32 x.2)), List.filter_map, ?_, ?_⟩
  · exact hsorted.sublist (List.filter_sublist.map Prod.snd)
  · exact fun x hx => hbound x (List.mem_of_mem_filter hx)

theorem add (h : Numbered k xdevList) (d : δ) : Numbered (k + 1)
    (xdevList ++ [(d, (xdevList.getLast?.map fun last => last.2 + 1).getD 0)]) := by
  obtain ⟨l, rfl, hsorted, hbound⟩ := h
  rcases List.eq_nil_or_concat l with rfl | ⟨init, last, rfl⟩
  · exact ⟨[(d, 0)], rfl, by simp, by simp⟩
  · rw [List.concat_eq_append] at hsorted hbound ⊢
    refine ⟨init ++ [last] ++ [(d, last.2 + 1)], ?_, ?_, ?_⟩
    · simp [BitVec.ofNat_add]
    · simp only [List.map_append, List.map_cons, List.map_nil] at hsorted ⊢
      refine List.pairwise_append.mpr ⟨hsorted, List.pairwise_singleton _ _, fun a ha b hb => ?_⟩
      obtain rfl := List.mem_singleton.mp hb
      rcases List.mem_append.mp ha with hinit | hlast
      · exact Nat.lt_succ_of_lt ((List.pairwise_append.mp hsorted).2.2 a hinit last.2 (by simp))
      · rw [List.mem_singleton.mp hlast]
        exact Nat.lt_succ_self _
    · intro x hx
      have hlast := hbound last (by simp)
      rcases List.mem_append.mp hx with hold | hnew
      · exact Nat.lt_succ_of_lt (hbound x hold)
      · rw [List.mem_singleton.mp hnew]
        exact Nat.succ_lt_succ hlast

theorem nodup (h : Numbered k xdevList) (hk : k ≤ 2 ^ 32) : (xdevList.map Prod.snd).Nodup := by
  obtain ⟨l, rfl, hsorted, hbound⟩ := h
  rw [List.map_map]
  have hnodup : (l.map Prod.snd).Nodup := hsorted.imp Nat.ne_of_lt
  refine List.Nodup.map_on ?_ hnodup.of_map
  intro x hx y hy heq
  have hval := congrArg BitVec.toNat heq
  simp only [Function.comp_apply, BitVec.toNat_ofNat,
    Nat.mod_eq_of_lt (Nat.lt_of_lt_of_le (hbound x hx) hk),
    Nat.mod_eq_of_lt (Nat.lt_of_lt_of_le (hbound y hy) hk)] at hval
  exact List.inj_on_of_nodup_map hnodup hx hy hval

theorem step [DecidableEq δ] [DecidableEq ε] (h : Numbered k s.xdevList) {a : PoolAct δ ε}
    (hs : s.step a = some s') : Numbered (k + a.isListAdd.toNat) s'.xdevList := by
  cases Pool.listStep hs with
  | same heq =>
      rw [heq]
      exact h.mono (Nat.le_add_right _ _)
  | @add d env ha heq =>
      rw [heq, ha]
      exact h.add d
  | @remove p heq =>
      rw [heq]
      exact (h.filter p).mono (Nat.le_add_right _ _)

theorem runs [DecidableEq δ] [DecidableEq ε] {as : List (PoolAct δ ε)} (h : Numbered k s.xdevList)
    (run : Runs Pool.step Any s as s') :
    Numbered (k + as.countP PoolAct.isListAdd) s'.xdevList := by
  induction run generalizing k with
  | refl => exact h
  | @next s t u a as _ hs _ ih =>
      have hrest := ih (h.step hs)
      refine hrest.mono (Nat.le_of_eq ?_)
      cases hadd : a.isListAdd <;> simp [hadd]
      omega

end Numbered

/-- In a run with at most `2 ^ 32` calls of `xdev_list_add`, no two listed devices have the same
`idx`. -/
theorem idx_distinct [DecidableEq δ] [DecidableEq ε] {as : List (PoolAct δ ε)}
    (run : Runs Pool.step Any Pool.start as s) (hfew : as.countP PoolAct.isListAdd ≤ 2 ^ 32) :
    (s.xdevList.map Prod.snd).Nodup := by
  have hstart : Numbered 0 (Pool.start : Pool δ ε).xdevList :=
    ⟨[], rfl, List.Pairwise.nil, by simp⟩
  refine (hstart.runs run).nodup ?_
  rwa [Nat.zero_add]

def reopen : List (PoolAct Nat Nat) :=
  let env : OpenEnv Nat := ⟨[], 2, 1, true, fun _ => false⟩
  [.listAdd 0 env, .listAdd 1 env, .listAdd 2 env, .dev 1 true, .close 1, .dev 1 true,
    .listAdd 3 env]

theorem idx_distinct_reopen : ∃ s, Runs Pool.step Any Pool.start reopen s ∧
    s.xdevList = [(0, 0), (2, 2), (3, 3)] ∧ (s.xdevList.map Prod.snd).Nodup := by
  have hexec : (exec Pool.step Pool.start reopen).map Pool.xdevList =
      some [(0, 0), (2, 2), (3, 3)] := by
    decide +kernel
  obtain ⟨s, hs, hlist⟩ := Option.map_eq_some_iff.mp hexec
  exact ⟨s, runs_of_exec hs, hlist, idx_distinct (runs_of_exec hs) (by decide)⟩

/-! ## Handles -/

section

variable {π : Type} [DecidableEq π] [DecidableEq δ] (pdevOf : δ → π)

def xdevFindByPdev (xdevList : List (δ × BitVec 32)) (pdev : π) : Option δ :=
  (xdevList.find? fun entry => pdevOf entry.1 = pdev).map Prod.fst

/-- `debug_check_dev_hndl`: 0 or `-EINVAL`. -/
def debugCheckDevHndl (xdevList : List (δ × BitVec 32)) (pdev : Option π) (hndl : δ) : Int :=
  match pdev with
  | none => -22
  | some pdev =>
      match xdevFindByPdev pdevOf xdevList pdev with
      | none => -22
      | some xdev => if xdev ≠ hndl then -22 else 0

/-- A device is not opened while one of the list is bound to the same `pci_dev`. -/
def Pool.BoundOnce (s : Pool δ ε) (a : PoolAct δ ε) : Prop :=
  ∀ d env, a = .listAdd d env → ∀ d' ∈ s.xdevList.map Prod.fst, pdevOf d' ≠ pdevOf d

def Bound (s : Pool δ ε) : Prop := (s.xdevList.map fun entry => pdevOf entry.1).Nodup

variable {pdevOf}

omit [DecidableEq π] in
theorem Bound.step [DecidableEq ε] (h : Bound pdevOf s) {a : PoolAct δ ε}
    (honce : s.BoundOnce pdevOf a) (hs : s.step a = some s') : Bound pdevOf s' := by
  cases Pool.listStep hs with
  | same heq =>
      rw [Bound, heq]
      exact h
  | @add d env ha heq =>
      rw [Bound, heq, List.map_append]
      refine List.nodup_append.mpr ⟨h, List.nodup_singleton _, fun x hx y hy => ?_⟩
      obtain rfl := List.mem_singleton.mp hy
      obtain ⟨entry, hmem, rfl⟩ := List.mem_map.mp hx
      exact honce d env ha entry.1 (List.mem_map_of_mem hmem)
  | @remove p heq =>
      rw [Bound, heq]
      exact h.sublist (List.filter_sublist.map _)

omit [DecidableEq δ] in
private theorem xdevFindByPdev_eq_some (h : Bound pdevOf s) (pdev : π) (d : δ) :
    xdevFindByPdev pdevOf s.xdevList pdev = some d ↔
      d ∈ s.xdevList.map Prod.fst ∧ pdevOf d = pdev := by
  simp only [xdevFindByPdev, Option.map_eq_some_iff]
  constructor
  · rintro ⟨entry, hfind, rfl⟩
    exact ⟨List.mem_map_of_mem (List.mem_of_find?_eq_some hfind),
      by simpa using List.find?_some hfind⟩
  · rintro ⟨hmem, hpdev⟩
    obtain ⟨entry, hentry, rfl⟩ := List.mem_map.mp hmem
    cases hfind : s.xdevList.find? fun entry => pdevOf entry.1 = pdev with
    | none =>
        have := List.find?_eq_none.mp hfind entry hentry
        simp [hpdev] at this
    | some other =>
        have hother := List.mem_of_find?_eq_some hfind
        have hsame : pdevOf other.1 = pdevOf entry.1 := by
          rw [hpdev]
          simpa using List.find?_some hfind
        rw [List.inj_on_of_nodup_map h hother hentry hsame]
        exact ⟨entry, rfl, rfl⟩

/-- In every run in which a `pci_dev` is bound to one device at a time, `debug_check_dev_hndl`
accepts a handle with a `pci_dev` exactly when the handle is that of a listed device of it. -/
theorem handle_check_exact [DecidableEq ε] {as : List (PoolAct δ ε)}
    (run : Runs Pool.step (fun s a => s.BoundOnce pdevOf a) Pool.start as s) (pdev : Option π)
    (hndl : δ) : debugCheckDevHndl pdevOf s.xdevList pdev hndl = 0 ↔
      (s.dev hndl).listed = true ∧ pdev = some (pdevOf hndl) := by
  have hboth := run.invariant (P := fun s => Attached s ∧ Bound pdevOf s)
    (fun h honce hs => ⟨h.1.step hs, h.2.step honce hs⟩) ⟨Attached.start, List.nodup_nil⟩
  rw [← hboth.1.registered.registry hndl]
  cases pdev with
  | none => simp [debugCheckDevHndl]
  | some pdev =>
      have hfind := xdevFindByPdev_eq_some hboth.2 pdev hndl
      simp only [debugCheckDevHndl, Option.some.injEq]
      rw [eq_comm (a := pdev), ← hfind]
      split
      · next hnone => simp [hnone]
      · next xdev hsome =>
          rw [hsome]
          by_cases heq : xdev = hndl
          · simp [heq]
          · simp [heq]

end

theorem handle_check_exact_two : ∃ s : Pool Nat Nat,
    Runs Pool.step (fun s a => s.BoundOnce id a) Pool.start (reopen.take 2) s ∧
    debugCheckDevHndl id s.xdevList (some 1) 1 = 0 ∧
    debugCheckDevHndl id s.xdevList (some 0) 1 ≠ 0 := by
  have hexec : (exec (guarded Pool.step fun s a => match a with
      | .listAdd d _ => decide (∀ d' ∈ s.xdevList.map Prod.fst, id d' ≠ id d)
      | _ => true) Pool.start (reopen.take 2)).map (fun s => (s.dev 1).listed) = some true := by
    decide +kernel
  obtain ⟨s, hs, hlisted⟩ := Option.map_eq_some_iff.mp hexec
  have run : Runs Pool.step (fun s a => s.BoundOnce id a) Pool.start (reopen.take 2) s := by
    refine (runs_of_guarded hs).mono fun s a hok d env ha => ?_
    subst ha
    exact of_decide_eq_true hok
  refine ⟨s, run, (handle_check_exact run (some 1) 1).mpr ⟨hlisted, rfl⟩, ?_⟩
  rw [ne_eq, handle_check_exact run (some 0) 1]
  exact fun h => absurd h.2 (by decide)

end NupaNet.Thread
