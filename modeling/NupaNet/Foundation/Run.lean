import Mathlib.Data.List.Basic

/-!
# Executable labelled transition systems

A system is a partial step function `σ → α → Option σ`: the action says which
component moves and carries every choice of the environment, so a list of
actions is one interleaving.  `Runs` is the set of finite runs whose steps all
meet a side condition `ok`; `exec` replays a run, and `guarded` turns a
decidable side condition into part of the step so that a run of it can be
evaluated.
-/

namespace NupaNet.Foundation

variable {σ α : Type*}

inductive Runs (step : σ → α → Option σ) (ok : σ → α → Prop) :
    σ → List α → σ → Prop
  | refl (s : σ) : Runs step ok s [] s
  | next {s t u : σ} {a : α} {as : List α} :
      ok s a → step s a = some t → Runs step ok t as u → Runs step ok s (a :: as) u

def Any : σ → α → Prop := fun _ _ => True

namespace Runs

variable {step : σ → α → Option σ} {ok ok' : σ → α → Prop} {s t : σ} {as : List α}

theorem mono (weaken : ∀ s a, ok s a → ok' s a) (run : Runs step ok s as t) :
    Runs step ok' s as t := by
  induction run with
  | refl s => exact .refl s
  | next hok hstep _ ih => exact .next (weaken _ _ hok) hstep ih

/-- What the initial state has and every admitted step keeps, every state of a run has. -/
theorem invariant {P : σ → Prop}
    (keep : ∀ {s a t}, P s → ok s a → step s a = some t → P t)
    (run : Runs step ok s as t) (start : P s) : P t := by
  induction run with
  | refl s => exact start
  | next hok hstep _ ih => exact ih (keep start hok hstep)

theorem append {u : σ} {bs : List α} (run : Runs step ok s as t) (rest : Runs step ok t bs u) :
    Runs step ok s (as ++ bs) u := by
  induction run with
  | refl s => exact rest
  | next hok hstep _ ih => exact .next hok hstep (ih rest)

end Runs

/-- `P` in the initial state and in every state the actions lead through. -/
def Throughout (step : σ → α → Option σ) (P : σ → Prop) : σ → List α → Prop
  | s, [] => P s
  | s, a :: as => P s ∧ ∀ t, step s a = some t → Throughout step P t as

theorem Throughout.start {step : σ → α → Option σ} {P : σ → Prop} {s : σ} {as : List α}
    (h : Throughout step P s as) : P s := by
  cases as with
  | nil => exact h
  | cons a as => exact h.1

theorem Throughout.final {step : σ → α → Option σ} {ok : σ → α → Prop} {P : σ → Prop} {s t : σ}
    {as : List α} (h : Throughout step P s as) (run : Runs step ok s as t) : P t := by
  induction run with
  | refl s => exact h
  | next _ hstep _ ih => exact ih (h.2 _ hstep)

/-- `I` is kept by the good steps and gives `P`, and a step that is not good ends outside `P`: a
run keeps `P` throughout exactly when all its actions are good. -/
theorem Runs.throughout_iff_good {step : σ → α → Option σ} {base good : σ → α → Prop}
    {I P : σ → Prop} {s u : σ} {as : List α} (gives : ∀ {s}, I s → P s)
    (keeps : ∀ {s a t}, I s → base s a → good s a → step s a = some t → I t)
    (breaks : ∀ {s a t}, I s → base s a → ¬ good s a → step s a = some t → ¬ P t)
    (run : Runs step base s as u) (start : I s) :
    Throughout step P s as ↔ Runs step good s as u := by
  induction run with
  | refl s => exact ⟨fun _ => .refl s, fun _ => gives start⟩
  | @next s t u a as hbase hstep _ ih =>
      constructor
      · intro h
        have hthrough := h.2 t hstep
        have hgood : good s a := by
          by_contra hbad
          exact breaks start hbase hbad hstep hthrough.start
        exact .next hgood hstep ((ih (keeps start hbase hgood hstep)).mp hthrough)
      · intro h
        cases h with
        | next hgood hstep' hrest =>
            obtain rfl := Option.some.inj (hstep.symm.trans hstep')
            refine ⟨gives start, fun t ht => ?_⟩
            obtain rfl := Option.some.inj (hstep.symm.trans ht)
            exact (ih (keeps start hbase hgood hstep)).mpr hrest

/-- Where an invariant makes one step keep `P` exactly when the action is good, a run keeps `P`
throughout exactly when all its actions are good. -/
theorem Runs.throughout_iff {step : σ → α → Option σ} {base good : σ → α → Prop}
    {I P : σ → Prop} {s u : σ} {as : List α}
    (keep : ∀ {s a t}, I s → base s a → step s a = some t → I t)
    (sharp : ∀ {s a t}, I s → P s → base s a → step s a = some t → (P t ↔ good s a))
    (run : Runs step base s as u) (inv : I s) (start : P s) :
    Throughout step P s as ↔ Runs step good s as u := by
  refine run.throughout_iff_good (I := fun s => I s ∧ P s) And.right ?_ ?_ ⟨inv, start⟩
  · intro s a t h hbase hgood hstep
    exact ⟨keep h.1 hbase hstep, (sharp h.1 h.2 hbase hstep).mpr hgood⟩
  · intro s a t h hbase hbad hstep hP
    exact hbad ((sharp h.1 h.2 hbase hstep).mp hP)

def exec (step : σ → α → Option σ) : σ → List α → Option σ
  | s, [] => some s
  | s, a :: as => (step s a).bind fun t => exec step t as

def guarded (step : σ → α → Option σ) (ok : σ → α → Bool) (s : σ) (a : α) : Option σ :=
  if ok s a then step s a else none

theorem exec_append (step : σ → α → Option σ) (s : σ) (as bs : List α) :
    exec step s (as ++ bs) = (exec step s as).bind fun t => exec step t bs := by
  induction as generalizing s with
  | nil => rfl
  | cons a as ih =>
      simp only [List.cons_append, exec, Option.bind_assoc]
      congr 1
      funext t
      exact ih t

theorem runs_of_exec {step : σ → α → Option σ} {s t : σ} {as : List α}
    (h : exec step s as = some t) : Runs step Any s as t := by
  induction as generalizing s with
  | nil =>
      obtain rfl : s = t := Option.some.inj h
      exact .refl s
  | cons a as ih =>
      obtain ⟨u, hu, hrest⟩ := Option.bind_eq_some_iff.mp h
      exact .next trivial hu (ih hrest)

theorem runs_of_guarded {step : σ → α → Option σ} {ok : σ → α → Bool} {s t : σ}
    {as : List α} (h : exec (guarded step ok) s as = some t) :
    Runs step (fun s a => ok s a = true) s as t := by
  induction as generalizing s with
  | nil =>
      obtain rfl : s = t := Option.some.inj h
      exact .refl s
  | cons a as ih =>
      obtain ⟨u, hu, hrest⟩ := Option.bind_eq_some_iff.mp h
      simp only [guarded] at hu
      split at hu
      · next hok => exact .next hok hu (ih hrest)
      · cases hu

theorem Runs.of_guarded {step : σ → α → Option σ} {ok : σ → α → Bool} {s t : σ} {as : List α}
    (run : Runs (guarded step ok) Any s as t) : Runs step (fun s a => ok s a = true) s as t := by
  induction run with
  | refl s => exact .refl s
  | next _ hstep _ ih =>
      simp only [guarded] at hstep
      split at hstep
      · next hok => exact .next hok hstep ih
      · cases hstep

/-- A run whose actions are all good is a run of good steps. -/
theorem Runs.of_forall {step : σ → α → Option σ} {good : α → Prop} {s t : σ} {as : List α}
    (run : Runs step Any s as t) (all : ∀ a ∈ as, good a) :
    Runs step (fun _ a => good a) s as t := by
  induction run with
  | refl s => exact .refl s
  | next _ hstep _ ih =>
      have hrest := ih fun a ha => all a (List.mem_cons_of_mem _ ha)
      exact .next (all _ List.mem_cons_self) hstep hrest

end NupaNet.Foundation
