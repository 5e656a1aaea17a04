import Mathlib.Algebra.BigOperators.Group.List.Basic
import Mathlib.Algebra.Order.Ring.Nat
import Mathlib.Order.Interval.Finset.Nat

/-!
# Cutting a stream

A stream that comes in runs is cut into pieces.  No piece is longer than a limit,
and none reaches over a multiple of the window: a piece wants what is left of its
run, up to the limit, and gets what is left of the window.
-/

namespace NupaNet.Foundation

structure Piece where
  start : Nat
  want : Nat
  len : Nat
deriving DecidableEq, Repr

def pieceBytes (pieces : List Piece) : Nat := (pieces.map Piece.len).sum

@[simp]
theorem pieceBytes_nil : pieceBytes [] = 0 := rfl

@[simp]
theorem pieceBytes_cons (piece : Piece) (rest : List Piece) :
    pieceBytes (piece :: rest) = piece.len + pieceBytes rest := by
  simp [pieceBytes]

@[simp]
theorem pieceBytes_append (first second : List Piece) :
    pieceBytes (first ++ second) = pieceBytes first + pieceBytes second := by
  simp [pieceBytes]

theorem pieceBytes_pos {pieces : List Piece} (positive : ∀ piece ∈ pieces, 0 < piece.len)
    (some : pieces ≠ []) : 0 < pieceBytes pieces := by
  obtain ⟨piece, rest, rfl⟩ := List.exists_cons_of_ne_nil some
  have hlen := positive piece List.mem_cons_self
  rw [pieceBytes_cons]
  omega

section Cut

variable (window limit : Nat)

def cutLen (start left : Nat) : Nat := min (min left limit) (window - start % window)

def cutFuel : Nat → Nat → Nat → List Piece
  | 0, _, _ => []
  | fuel + 1, start, left =>
      if left = 0 then []
      else
        ⟨start, min left limit, cutLen window limit start left⟩ ::
          cutFuel fuel (start + cutLen window limit start left)
            (left - cutLen window limit start left)

/-- The pieces of a run of `left` from `start` on; each takes something, so that `left` rounds are
enough. -/
def cutRun (start left : Nat) : List Piece := cutFuel window limit left start left

def cutRuns : Nat → List Nat → List Piece
  | _, [] => []
  | start, left :: rest => cutRun window limit start left ++ cutRuns (start + left) rest

end Cut

/-- Each piece starts where the one before ends. -/
def Consecutive : Nat → List Piece → Prop
  | _, [] => True
  | start, piece :: rest => piece.start = start ∧ Consecutive (start + piece.len) rest

theorem Consecutive.append {start : Nat} {first second : List Piece}
    (one : Consecutive start first) (two : Consecutive (start + pieceBytes first) second) :
    Consecutive start (first ++ second) := by
  induction first generalizing start with
  | nil => exact two
  | cons piece rest ih =>
      rw [pieceBytes_cons, ← Nat.add_assoc] at two
      exact ⟨one.1, ih one.2 two⟩

theorem Consecutive.start_eq {start r : Nat} {pieces : List Piece} {piece : Piece}
    (consecutive : Consecutive start pieces) (at_r : pieces[r]? = some piece) :
    piece.start = start + pieceBytes (pieces.take r) := by
  induction pieces generalizing start r with
  | nil => simp at at_r
  | cons head rest ih =>
      cases r with
      | zero =>
          rw [List.getElem?_cons_zero, Option.some.injEq] at at_r
          rw [← at_r]
          exact consecutive.1
      | succ r =>
          rw [List.getElem?_cons_succ] at at_r
          rw [ih consecutive.2 at_r, List.take_succ_cons, pieceBytes_cons, Nat.add_assoc]

section Lemmas

variable {window limit : Nat}

theorem cutLen_le (window limit start left : Nat) : cutLen window limit start left ≤ left := by
  unfold cutLen
  omega

theorem cutLen_window {window : Nat} (hwindow : 0 < window) (limit start left : Nat) :
    start % window + cutLen window limit start left ≤ window := by
  have hmod := Nat.mod_lt start hwindow
  unfold cutLen
  omega

variable (hwindow : 0 < window) (hlimit : 0 < limit)

include hwindow hlimit

theorem cutLen_pos (start : Nat) {left : Nat} (some : 0 < left) :
    0 < cutLen window limit start left := by
  have hmod := Nat.mod_lt start hwindow
  unfold cutLen
  omega

private theorem cutFuel_eq (start : Nat) {fuel fuel' left : Nat} (enough : left ≤ fuel)
    (enough' : left ≤ fuel') :
    cutFuel window limit fuel start left = cutFuel window limit fuel' start left := by
  induction fuel generalizing fuel' start left with
  | zero =>
      obtain rfl : left = 0 := Nat.le_zero.mp enough
      cases fuel' with
      | zero => rfl
      | succ fuel' => simp [cutFuel]
  | succ fuel ih =>
      rcases Nat.eq_zero_or_pos left with rfl | hpos
      · cases fuel' with
        | zero => simp [cutFuel]
        | succ fuel' => simp [cutFuel]
      · obtain ⟨fuel', rfl⟩ : ∃ n, fuel' = n + 1 := ⟨fuel' - 1, by omega⟩
        have hlen := cutLen_pos hwindow hlimit start hpos
        have hrest := ih (start + cutLen window limit start left)
          (show left - cutLen window limit start left ≤ fuel by omega)
          (show left - cutLen window limit start left ≤ fuel' by omega)
        rw [cutFuel, cutFuel, hrest]

theorem cutRun_step (start : Nat) {left : Nat} (some : 0 < left) :
    cutRun window limit start left =
      ⟨start, min left limit, cutLen window limit start left⟩ ::
        cutRun window limit (start + cutLen window limit start left)
          (left - cutLen window limit start left) := by
  have hlen := cutLen_pos hwindow hlimit start some
  have hle := cutLen_le window limit start left
  obtain ⟨fuel, rfl⟩ : ∃ n, left = n + 1 := ⟨left - 1, by omega⟩
  unfold cutRun
  rw [cutFuel, if_neg (by omega)]
  exact congrArg _ (cutFuel_eq hwindow hlimit _ (by omega) (Nat.le_refl _))

theorem cutRun_eq_nil_iff (start left : Nat) : cutRun window limit start left = [] ↔ left = 0 := by
  constructor
  · intro hnone
    by_contra hleft
    rw [cutRun_step hwindow hlimit start (Nat.pos_of_ne_zero hleft)] at hnone
    cases hnone
  · rintro rfl
    rfl

/-- What is left of a run after its first pieces is cut as a run of its own. -/
theorem cutRun_drop (r start left : Nat) :
    pieceBytes ((cutRun window limit start left).take r) ≤ left ∧
      (cutRun window limit start left).drop r =
        cutRun window limit
          (start + pieceBytes ((cutRun window limit start left).take r))
          (left - pieceBytes ((cutRun window limit start left).take r)) := by
  induction r generalizing start left with
  | zero => simp
  | succ r ih =>
      rcases Nat.eq_zero_or_pos left with rfl | hpos
      · simp [cutRun, cutFuel]
      · have hle := cutLen_le window limit start left
        obtain ⟨hrest, hdrop⟩ := ih (start + cutLen window limit start left)
          (left - cutLen window limit start left)
        rw [cutRun_step hwindow hlimit start hpos, List.take_succ_cons, List.drop_succ_cons,
          pieceBytes_cons, hdrop]
        simp only
        refine ⟨by omega, ?_⟩
        rw [Nat.add_assoc, Nat.sub_sub]

theorem cutRun_bytes (start left : Nat) :
    pieceBytes (cutRun window limit start left) = left := by
  obtain ⟨hle, hdrop⟩ :=
    cutRun_drop hwindow hlimit (cutRun window limit start left).length start left
  rw [List.take_length] at hle hdrop
  rw [List.drop_length] at hdrop
  have hnone := (cutRun_eq_nil_iff hwindow hlimit _ _).mp hdrop.symm
  omega

theorem cutRuns_bytes (start : Nat) (runs : List Nat) :
    pieceBytes (cutRuns window limit start runs) = runs.sum := by
  induction runs generalizing start with
  | nil => rfl
  | cons left rest ih =>
      rw [cutRuns, pieceBytes_append, cutRun_bytes hwindow hlimit, ih, List.sum_cons]

theorem cutRun_consecutive (start left : Nat) :
    Consecutive start (cutRun window limit start left) := by
  induction left using Nat.strongRecOn generalizing start with
  | ind left ih =>
      rcases Nat.eq_zero_or_pos left with rfl | hpos
      · exact trivial
      · have hlen := cutLen_pos hwindow hlimit start hpos
        rw [cutRun_step hwindow hlimit start hpos]
        exact ⟨rfl, ih _ (by omega) _⟩

theorem cutRun_len_pos (start left : Nat) :
    ∀ piece ∈ cutRun window limit start left, 0 < piece.len := by
  induction left using Nat.strongRecOn generalizing start with
  | ind left ih =>
      rcases Nat.eq_zero_or_pos left with rfl | hpos
      · intro piece hmem
        cases hmem
      · have hlen := cutLen_pos hwindow hlimit start hpos
        rw [cutRun_step hwindow hlimit start hpos, List.forall_mem_cons]
        exact ⟨hlen, ih _ (by omega) _⟩

theorem cutRuns_len_pos (start : Nat) (runs : List Nat) :
    ∀ piece ∈ cutRuns window limit start runs, 0 < piece.len := by
  induction runs generalizing start with
  | nil =>
      intro piece hmem
      cases hmem
  | cons left rest ih =>
      rw [cutRuns, List.forall_mem_append]
      exact ⟨cutRun_len_pos hwindow hlimit start left, ih (start + left)⟩

theorem cutRuns_consecutive (start : Nat) (runs : List Nat) :
    Consecutive start (cutRuns window limit start runs) := by
  induction runs generalizing start with
  | nil => exact trivial
  | cons left rest ih =>
      refine (cutRun_consecutive hwindow hlimit start left).append ?_
      rw [cutRun_bytes hwindow hlimit]
      exact ih (start + left)

theorem cutRun_window (start left : Nat) :
    ∀ piece ∈ cutRun window limit start left, piece.start % window + piece.len ≤ window := by
  induction left using Nat.strongRecOn generalizing start with
  | ind left ih =>
      rcases Nat.eq_zero_or_pos left with rfl | hpos
      · intro piece hmem
        cases hmem
      · have hlen := cutLen_pos hwindow hlimit start hpos
        rw [cutRun_step hwindow hlimit start hpos, List.forall_mem_cons]
        exact ⟨cutLen_window hwindow limit start left, ih _ (by omega) _⟩

end Lemmas

/-- The members of consecutive pieces are one interval. -/
theorem Consecutive.members {start : Nat} {pieces : List Piece}
    (consecutive : Consecutive start pieces) :
    (pieces.flatMap fun piece => List.range' piece.start piece.len) =
      List.range' start (pieceBytes pieces) := by
  induction pieces generalizing start with
  | nil => rfl
  | cons piece rest ih =>
      rw [List.flatMap_cons, ih consecutive.2, consecutive.1, pieceBytes_cons]
      exact List.range'_append_1

theorem Consecutive.within {start : Nat} {pieces : List Piece}
    (consecutive : Consecutive start pieces) :
    ∀ piece ∈ pieces, piece.start + piece.len ≤ start + pieceBytes pieces := by
  induction pieces generalizing start with
  | nil =>
      intro piece hmem
      cases hmem
  | cons head rest ih =>
      rw [pieceBytes_cons, List.forall_mem_cons]
      refine ⟨by rw [consecutive.1]; omega, fun piece hmem => ?_⟩
      have hle := ih consecutive.2 piece hmem
      omega

/-! ## The windows of a run -/

def windowsTouched (window start left : Nat) : Finset Nat :=
  (Finset.range left).image fun k => (start + k) / window

section Windows

variable {window limit : Nat} (hwindow : 0 < window)

include hwindow

private theorem windowsTouched_eq_Icc (start : Nat) {left : Nat} (some : 0 < left) :
    windowsTouched window start left =
      Finset.Icc (start / window) ((start + left - 1) / window) := by
  ext w
  simp only [windowsTouched, Finset.mem_image, Finset.mem_range, Finset.mem_Icc]
  constructor
  · rintro ⟨k, hk, rfl⟩
    exact ⟨Nat.div_le_div_right (by omega), Nat.div_le_div_right (by omega)⟩
  · rintro ⟨hfirst, hlast⟩
    rcases hfirst.eq_or_lt with rfl | hlt
    · exact ⟨0, some, rfl⟩
    · -- a later window is touched at its first member
      have hstart : start < w * window := (Nat.div_lt_iff_lt_mul hwindow).mp hlt
      have hend : w * window ≤ start + left - 1 := (Nat.le_div_iff_mul_le hwindow).mp hlast
      refine ⟨w * window - start, by omega, ?_⟩
      rw [Nat.add_sub_cancel' hstart.le, Nat.mul_div_cancel _ hwindow]

theorem windowsTouched_card (start : Nat) {left : Nat} (some : 0 < left) :
    (windowsTouched window start left).card =
      (start % window + left + (window - 1)) / window := by
  have hdiv := Nat.div_add_mod start window
  have hlast : (start + left - 1) / window =
      start / window + (start % window + left - 1) / window := by
    rw [← Nat.mul_add_div hwindow]
    congr 1
    omega
  have hround : (start % window + left + (window - 1)) / window =
      (start % window + left - 1) / window + 1 := by
    rw [← Nat.add_div_right _ hwindow]
    congr 1
    omega
  rw [windowsTouched_eq_Icc hwindow start some, Nat.card_Icc, hlast, hround, Nat.add_assoc,
    Nat.add_sub_cancel_left]

/-- With room for a whole window in a piece, there is one piece in each window. -/
theorem cutRun_length (wide : window ≤ limit) (start : Nat) {left : Nat} (some : 0 < left) :
    (cutRun window limit start left).length = (windowsTouched window start left).card := by
  have hlimit : 0 < limit := hwindow.trans_le wide
  induction left using Nat.strongRecOn generalizing start with
  | ind left ih =>
      have hmod := Nat.mod_lt start hwindow
      have hlen := cutLen_pos hwindow hlimit start some
      rw [cutRun_step hwindow hlimit start some, List.length_cons,
        windowsTouched_card hwindow start some]
      by_cases hshort : left ≤ window - start % window
      · have hcut : cutLen window limit start left = left := by
          unfold cutLen
          omega
        have hone : (start % window + left + (window - 1)) / window = 1 :=
          Nat.div_eq_of_lt_le (by omega) (by omega)
        rw [hcut, Nat.sub_self, hone]
        rfl
      · have hcut : cutLen window limit start left = window - start % window := by
          unfold cutLen
          omega
        have hnext : (start + (window - start % window)) % window = 0 := by
          have hdiv := Nat.div_add_mod start window
          rw [show start + (window - start % window) = window * (start / window + 1) by
            rw [Nat.mul_add]
            omega]
          exact Nat.mul_mod_right _ _
        have hleft : 0 < left - (window - start % window) := by omega
        rw [hcut, ih _ (by omega) _ hleft, windowsTouched_card hwindow _ hleft, hnext,
          ← Nat.add_div_right _ hwindow]
        congr 1
        omega

end Windows

end NupaNet.Foundation
