import Mathlib.Logic.Function.Basic
import NupaNet.Foundation.Run

/-!
# Bounded queues

A family of first-in first-out queues of a common capacity, as a system whose
actions name the queue and the element.
-/

namespace NupaNet.Foundation

variable {κ φ : Type*}

inductive FifoAct (κ φ : Type*) where
  | enq (k : κ) (x : φ)
  | deq (k : κ) (x : φ)
  deriving DecidableEq

variable [DecidableEq κ] [DecidableEq φ]

def fifoStep (capacity : Nat) (q : κ → List φ) : FifoAct κ φ → Option (κ → List φ)
  | .enq k x =>
      if (q k).length < capacity then some (Function.update q k (q k ++ [x])) else none
  | .deq k x =>
      match q k with
      | [] => none
      | y :: rest => if y = x then some (Function.update q k rest) else none

namespace FifoAct

def enqueued (k : κ) : FifoAct κ φ → Option φ
  | .enq k' x => if k' = k then some x else none
  | .deq _ _ => none

def dequeued (k : κ) : FifoAct κ φ → Option φ
  | .enq _ _ => none
  | .deq k' x => if k' = k then some x else none

end FifoAct

variable {capacity : Nat} {q q' : κ → List φ} {as : List (FifoAct κ φ)}

private theorem fifoStep_balance {a : FifoAct κ φ} (h : fifoStep capacity q a = some q') (k : κ) :
    q k ++ (a.enqueued k).toList = (a.dequeued k).toList ++ q' k := by
  cases a with
  | enq k' x =>
      simp only [fifoStep] at h
      split at h
      · cases h
        by_cases hk : k' = k
        · subst hk
          simp [FifoAct.enqueued, FifoAct.dequeued]
        · simp [FifoAct.enqueued, FifoAct.dequeued, hk, Function.update_of_ne (Ne.symm hk)]
      · cases h
  | deq k' x =>
      simp only [fifoStep] at h
      split at h
      · cases h
      · next y rest hq =>
          split at h
          · next heq =>
              cases h
              by_cases hk : k' = k
              · subst hk
                simp [FifoAct.enqueued, FifoAct.dequeued, hq, heq]
              · simp [FifoAct.enqueued, FifoAct.dequeued, hk, Function.update_of_ne (Ne.symm hk)]
          · cases h

/-- What was in a queue and what has come to it is what has left it, in the same order, and what
is in it now. -/
theorem fifo_balance (run : Runs (fifoStep capacity) Any q as q') (k : κ) :
    q k ++ as.filterMap (FifoAct.enqueued k) = as.filterMap (FifoAct.dequeued k) ++ q' k := by
  induction run with
  | refl q => simp
  | @next q t u a as _ hstep _ ih =>
      have hone := fifoStep_balance hstep k
      have hcons : ∀ f : FifoAct κ φ → Option φ,
          (a :: as).filterMap f = (f a).toList ++ as.filterMap f := by
        intro f
        cases hf : f a <;> simp [hf]
      rw [hcons, hcons, ← List.append_assoc, hone, List.append_assoc, ih, List.append_assoc]

theorem fifo_bounded (run : Runs (fifoStep capacity) Any q as q')
    (start : ∀ k, (q k).length ≤ capacity) (k : κ) : (q' k).length ≤ capacity := by
  refine run.invariant (P := fun q => ∀ k, (q k).length ≤ capacity) ?_ start k
  intro q a t h _ hstep k
  cases a with
  | enq k' x =>
      simp only [fifoStep] at hstep
      split at hstep
      · next hroom =>
          cases hstep
          by_cases hk : k = k'
          · subst hk
            simp only [Function.update_self, List.length_append, List.length_singleton]
            omega
          · simpa [hk] using h k
      · cases hstep
  | deq k' x =>
      simp only [fifoStep] at hstep
      split at hstep
      · cases hstep
      · next y rest hq =>
          split at hstep
          · cases hstep
            by_cases hk : k = k'
            · subst hk
              have := h k
              simp only [hq, List.length_cons] at this
              simp only [Function.update_self]
              omega
            · simpa [hk] using h k
          · cases hstep

end NupaNet.Foundation
