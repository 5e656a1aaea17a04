import Mathlib.Algebra.BigOperators.Group.List.Basic
import Mathlib.Algebra.Order.Ring.Nat

/-!
# Text in a buffer

Text is put into a buffer of a fixed capacity by appending strings, each with a
terminator behind it, and by overwriting the last character.  Only what is
appended decides whether the writes stay inside the buffer.
-/

namespace NupaNet.Foundation

inductive Edit
  | append (more : List Char)
  | patch (c : Char)

namespace Edit

def apply (text : List Char) : Edit → List Char
  | .append more => text ++ more
  | .patch c => text.set (text.length - 1) c

/-- A string and its terminator lie inside the buffer, and a patched character inside the text. -/
def Inside (capacity : Nat) (text : List Char) : Edit → Prop
  | .append more => (text ++ more).length + 1 ≤ capacity
  | .patch _ => text.length - 1 < text.length

def size : Edit → Nat
  | .append more => more.length
  | .patch _ => 0

end Edit

def Within (capacity : Nat) : List Char → List Edit → Prop
  | _, [] => True
  | text, edit :: rest => edit.Inside capacity text ∧ Within capacity (edit.apply text) rest

def written (edits : List Edit) : Nat := (edits.map Edit.size).sum

@[simp]
theorem written_nil : written [] = 0 := rfl

@[simp]
theorem written_cons (edit : Edit) (rest : List Edit) :
    written (edit :: rest) = edit.size + written rest := by
  simp [written]

@[simp]
theorem written_append (first second : List Edit) :
    written (first ++ second) = written first + written second := by
  simp [written]

theorem within_iff {capacity : Nat} {text : List Char} (started : text ≠ [])
    (room : text.length + 1 ≤ capacity) (edits : List Edit) :
    Within capacity text edits ↔ text.length + written edits + 1 ≤ capacity := by
  induction edits generalizing text with
  | nil => exact iff_of_true trivial room
  | cons edit rest ih =>
      have hpos := List.length_pos_of_ne_nil started
      rw [Within, written_cons]
      cases edit with
      | append more =>
          have hlength : (text ++ more).length = text.length + more.length := List.length_append
          rw [Edit.Inside, Edit.apply, Edit.size, hlength]
          constructor
          · rintro ⟨hroom, hrest⟩
            rw [ih (by simp [started]) (by omega), hlength] at hrest
            omega
          · intro htotal
            refine ⟨by omega, ?_⟩
            rw [ih (by simp [started]) (by omega), hlength]
            omega
      | patch c =>
          have hlength : (text.set (text.length - 1) c).length = text.length := List.length_set
          have hstarted : text.set (text.length - 1) c ≠ [] := by
            rw [← List.length_pos_iff, hlength]
            exact hpos
          rw [Edit.Inside, Edit.apply, Edit.size, ih hstarted (by omega), hlength]
          omega

end NupaNet.Foundation
