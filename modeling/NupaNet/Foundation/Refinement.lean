import NupaNet.Foundation.Run

/-!
# Refinement

One system refines another along a function `abs` on states when each of its
steps is either invisible there or one step with the label it shows.  The run
that a concrete run amounts to is then the list of its labels.
-/

namespace NupaNet.Foundation

variable {σ τ α β : Type*}

structure Refines (step : σ → α → Option σ) (ok : σ → α → Prop) (astep : τ → β → Option τ)
    (inv : σ → Prop) (abs : σ → τ) (label : σ → α → Option β) : Prop where
  keep : ∀ {s a t}, inv s → ok s a → step s a = some t → inv t
  silent : ∀ {s a t}, inv s → ok s a → step s a = some t → label s a = none → abs t = abs s
  visible : ∀ {s a t b}, inv s → ok s a → step s a = some t → label s a = some b →
    astep (abs s) b = some (abs t)

def trace (step : σ → α → Option σ) (label : σ → α → Option β) : σ → List α → List β
  | _, [] => []
  | s, a :: as =>
      match step s a with
      | none => []
      | some t => (label s a).toList ++ trace step label t as

private theorem trace_cons {step : σ → α → Option σ} {label : σ → α → Option β} {s t : σ} {a : α}
    {as : List α} (h : step s a = some t) :
    trace step label s (a :: as) = (label s a).toList ++ trace step label t as := by
  simp only [trace, h]

/-- Where every step shows, whatever the state, the trace is the list of what the actions show. -/
theorem trace_map {step : σ → α → Option σ} {ok : σ → α → Prop} {label : α → β} {s t : σ}
    {as : List α} (run : Runs step ok s as t) :
    trace step (fun _ a => some (label a)) s as = as.map label := by
  induction run with
  | refl s => rfl
  | next _ hstep _ ih => rw [trace_cons hstep, ih, Option.toList_some, List.map_cons]; rfl

/-- Every run of the concrete system is a run of the abstract one. -/
theorem Refines.runs {step : σ → α → Option σ} {ok : σ → α → Prop} {astep : τ → β → Option τ}
    {inv : σ → Prop} {abs : σ → τ} {label : σ → α → Option β}
    (h : Refines step ok astep inv abs label) {s t : σ} {as : List α}
    (run : Runs step ok s as t) (start : inv s) :
    Runs astep Any (abs s) (trace step label s as) (abs t) := by
  induction run with
  | refl s => exact .refl _
  | @next s t u a as hok hstep _ ih =>
      have hrest := ih (h.keep start hok hstep)
      rw [trace_cons hstep]
      cases hlabel : label s a with
      | none =>
          rw [← h.silent start hok hstep hlabel]
          exact hrest
      | some b => exact .next trivial (h.visible start hok hstep hlabel) hrest

end NupaNet.Foundation
