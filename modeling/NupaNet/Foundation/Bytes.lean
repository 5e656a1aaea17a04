import Mathlib.Data.List.OfFn
import Mathlib.Data.List.Basic

/-!
# Byte-addressed memory

A memory is a function from addresses to bytes.  `overlay` is what a block
transfer leaves behind: the bytes of a block, at the positions the transfer
reached, over the old contents.  `block` reads a range back as a list.
`scatter` writes a list of cells, over any type of addresses.
-/

namespace NupaNet.Foundation

abbrev Memory := Nat → UInt8

def block (m : Memory) (base len : Nat) : List UInt8 :=
  (List.range len).map fun k => m (base + k)

/-- `m` with the positions `moved` of the block `[base, base + len)` taken from `src`. -/
def overlay (m : Memory) (base len : Nat) (moved : Nat → Bool) (src : Memory) : Memory :=
  fun a => if base ≤ a ∧ a < base + len ∧ moved (a - base) then src (a - base) else m a

@[simp] theorem block_length (m : Memory) (base len : Nat) :
    (block m base len).length = len := by
  simp [block]

theorem block_congr {m m' : Memory} {base len : Nat}
    (h : ∀ a, base ≤ a → a < base + len → m' a = m a) :
    block m' base len = block m base len := by
  refine List.map_congr_left fun k hk => ?_
  have hk' : k < len := List.mem_range.mp hk
  exact h (base + k) (by omega) (by omega)

theorem overlay_outside {m : Memory} {base len a : Nat} {moved : Nat → Bool} {src : Memory}
    (h : a < base ∨ base + len ≤ a) : overlay m base len moved src a = m a := by
  have : ¬ (base ≤ a ∧ a < base + len ∧ moved (a - base) = true) := by omega
  simp [overlay, this]

theorem block_overlay {m : Memory} {base len : Nat} {moved : Nat → Bool} {src : Memory}
    (full : ∀ k < len, moved k = true) :
    block (overlay m base len moved src) base len = block src 0 len := by
  refine List.map_congr_left fun k hk => ?_
  have hk' : k < len := List.mem_range.mp hk
  have hmoved : moved k = true := full k hk'
  simp [overlay, hk', hmoved]

/-! ## Cells written one after the other -/

section Scatter

variable {κ β : Type*} [DecidableEq κ]

def scatter (m : κ → β) (cells : List (κ × β)) : κ → β :=
  cells.foldl (fun m cell => Function.update m cell.1 cell.2) m

private theorem scatter_cons (m : κ → β) (cell : κ × β) (cells : List (κ × β)) :
    scatter m (cell :: cells) = scatter (Function.update m cell.1 cell.2) cells := rfl

theorem scatter_outside {m : κ → β} {cells : List (κ × β)} {k : κ}
    (h : k ∉ cells.map Prod.fst) : scatter m cells k = m k := by
  induction cells generalizing m with
  | nil => rfl
  | cons cell cells ih =>
      rw [List.map_cons, List.mem_cons, not_or] at h
      rw [scatter_cons, ih h.2, Function.update_of_ne h.1]

/-- Distinct cells are read back as they were written. -/
theorem map_scatter {cells : List (κ × β)} (m : κ → β) (distinct : (cells.map Prod.fst).Nodup) :
    (cells.map Prod.fst).map (scatter m cells) = cells.map Prod.snd := by
  induction cells generalizing m with
  | nil => rfl
  | cons cell cells ih =>
      rw [List.map_cons, List.nodup_cons] at distinct
      obtain ⟨hnew, hrest⟩ := distinct
      rw [List.map_cons, List.map_cons, List.map_cons, scatter_cons, ih _ hrest,
        scatter_outside hnew, Function.update_self]

end Scatter

end NupaNet.Foundation
