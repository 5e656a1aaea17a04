import Mathlib.Logic.Function.Basic

/-!
# Arrays filled by counting loops

An array is a function of its index.  `modifyRange` is the loop that visits the
slots `base, base + 1, …` in order and rewrites each with its own function.
-/

namespace NupaNet.Foundation

variable {α : Type*}

def modifyAt (d : Nat → α) (i : Nat) (f : α → α) : Nat → α :=
  Function.update d i (f (d i))

def modifyRange (d : Nat → α) (base : Nat) (f : Nat → α → α) : Nat → Nat → α
  | 0 => d
  | count + 1 => modifyAt (modifyRange d base f count) (base + count) (f count)

theorem modifyAt_same (d : Nat → α) (i : Nat) (f : α → α) :
    modifyAt d i f i = f (d i) := by
  simp [modifyAt]

theorem modifyAt_ne {d : Nat → α} {i k : Nat} {f : α → α} (h : k ≠ i) :
    modifyAt d i f k = d k := by
  simp [modifyAt, h]

theorem modifyRange_outside {d : Nat → α} {base count k : Nat} {f : Nat → α → α}
    (h : k < base ∨ base + count ≤ k) : modifyRange d base f count k = d k := by
  induction count with
  | zero => rfl
  | succ count ih =>
      unfold modifyRange
      rw [modifyAt_ne (by omega)]
      exact ih (by omega)

theorem modifyRange_inside {d : Nat → α} {base count i : Nat} {f : Nat → α → α}
    (h : i < count) : modifyRange d base f count (base + i) = f i (d (base + i)) := by
  induction count with
  | zero => omega
  | succ count ih =>
      unfold modifyRange
      rcases Nat.lt_succ_iff_lt_or_eq.mp h with before | rfl
      · rw [modifyAt_ne (by omega)]
        exact ih before
      · rw [modifyAt_same, modifyRange_outside (by omega)]

/-- A loop whose steps keep a property of the entries keeps it everywhere. -/
theorem modifyRange_kept {β : Type*} {g : α → β} {f : Nat → α → α}
    (keep : ∀ i entry, g (f i entry) = g entry) (d : Nat → α) (base count k : Nat) :
    g (modifyRange d base f count k) = g (d k) := by
  by_cases inside : base ≤ k ∧ k < base + count
  · obtain ⟨i, rfl⟩ := Nat.exists_eq_add_of_le inside.1
    rw [modifyRange_inside (by omega), keep]
  · rw [modifyRange_outside (by omega)]

end NupaNet.Foundation
