import Mathlib.Algebra.BigOperators.Group.List.Basic
import Mathlib.Algebra.Order.Ring.Nat
import Mathlib.Data.List.Nodup
import Mathlib.Data.List.Pairwise
import Mathlib.Logic.Function.Basic

/-!
# Reservations in a ring of slots

Blocks of consecutive slots are reserved one behind another, up to a cursor, and
no block reaches over the end of the ring.  Their owners form a queue: the first
of them retire, and a retired owner gives its slots back at some later time.
What is told from outside is the cursor and one number, `used`, which is at least
what was reserved and not given back.  As long as that number is not larger than
the ring, the blocks that are still queued do not meet.
-/

namespace NupaNet.Foundation

variable {ι : Type*}

structure Place where
  start : Nat
  size : Nat
deriving DecidableEq, Repr

def Place.Apart (p q : Place) : Prop :=
  p.start + p.size ≤ q.start ∨ q.start + q.size ≤ p.start

theorem Place.Apart.symm {p q : Place} (h : p.Apart q) : q.Apart p := Or.symm h

/-- A reserved block; it loses its owner when the reservation is given up without being undone. -/
structure Block (ι : Type*) where
  owner : Option ι
  place : Place

def reservedSlots (window : List (Block ι)) : Nat :=
  (window.map fun block => block.place.size).sum

@[simp]
theorem reservedSlots_nil : reservedSlots ([] : List (Block ι)) = 0 := rfl

@[simp]
theorem reservedSlots_cons (block : Block ι) (rest : List (Block ι)) :
    reservedSlots (block :: rest) = block.place.size + reservedSlots rest := by
  simp [reservedSlots]

@[simp]
theorem reservedSlots_append (first second : List (Block ι)) :
    reservedSlots (first ++ second) = reservedSlots first + reservedSlots second := by
  simp [reservedSlots]

/-- The blocks lie one behind another from `first` to `cursor`. -/
def Placed (slots : Nat) : Nat → List (Block ι) → Nat → Prop
  | first, [], cursor => first = cursor
  | first, block :: rest, cursor =>
      block.place.start = first ∧ first + block.place.size ≤ slots ∧
        Placed slots ((first + block.place.size) % slots) rest cursor

namespace Placed

variable {slots first cursor : Nat} {window : List (Block ι)}

private theorem snoc (placed : Placed slots first window cursor) (owner : Option ι) {size : Nat}
    (room : cursor + size ≤ slots) :
    Placed slots first (window ++ [⟨owner, ⟨cursor, size⟩⟩]) ((cursor + size) % slots) := by
  induction window generalizing first with
  | nil =>
      obtain rfl : first = cursor := placed
      exact ⟨rfl, room, rfl⟩
  | cons block rest ih => exact ⟨placed.1, placed.2.1, ih placed.2.2⟩

private theorem suffix {before : List (Block ι)} (lt : first < slots)
    (placed : Placed slots first (before ++ window) cursor) :
    ∃ next, next < slots ∧ Placed slots next window cursor := by
  induction before generalizing first with
  | nil => exact ⟨first, lt, placed⟩
  | cons block rest ih => exact ih (Nat.mod_lt _ (Nat.zero_lt_of_lt lt)) placed.2.2

theorem disown {before after : List (Block ι)} {block : Block ι}
    (placed : Placed slots first (before ++ block :: after) cursor) :
    Placed slots first (before ++ ⟨none, block.place⟩ :: after) cursor := by
  induction before generalizing first with
  | nil => exact placed
  | cons head rest ih => exact ⟨placed.1, placed.2.1, ih placed.2.2⟩

theorem start_eq {before after : List (Block ι)} {block : Block ι} (lt : first < slots)
    (placed : Placed slots first (before ++ block :: after) cursor) :
    block.place.start = (first + reservedSlots before) % slots ∧
      block.place.start + block.place.size ≤ slots := by
  induction before generalizing first with
  | nil =>
      rw [reservedSlots_nil, Nat.add_zero, Nat.mod_eq_of_lt lt, placed.1]
      exact ⟨rfl, placed.2.1⟩
  | cons head rest ih =>
      obtain ⟨hstart, hroom⟩ := ih (Nat.mod_lt _ (Nat.zero_lt_of_lt lt)) placed.2.2
      rw [Nat.mod_add_mod, Nat.add_assoc] at hstart
      exact ⟨hstart, hroom⟩

theorem apart (lt : first < slots) (placed : Placed slots first window cursor)
    (fits : reservedSlots window ≤ slots) :
    window.Pairwise fun b c => b.place.Apart c.place := by
  induction window generalizing first with
  | nil => exact .nil
  | cons block rest ih =>
      obtain ⟨hstart, hroom, hrest⟩ := placed
      rw [reservedSlots_cons] at fits
      have hlt := Nat.mod_lt (first + block.place.size) (Nat.zero_lt_of_lt lt)
      refine .cons (fun c hc => ?_) (ih hlt hrest (by omega))
      obtain ⟨mid, after, rfl⟩ := List.append_of_mem hc
      obtain ⟨hlater, -⟩ := start_eq hlt hrest
      rw [Nat.mod_add_mod] at hlater
      rw [reservedSlots_append, reservedSlots_cons] at fits
      unfold Place.Apart
      by_cases hwrap : first + block.place.size + reservedSlots mid < slots
      · rw [Nat.mod_eq_of_lt hwrap] at hlater
        omega
      · rw [Nat.mod_eq_sub_mod (Nat.le_of_not_lt hwrap), Nat.mod_eq_of_lt (by omega)] at hlater
        omega

end Placed

def charged (place : ι → Place) (gone : List ι) : Nat := (gone.map fun i => (place i).size).sum

private theorem charged_cons (place : ι → Place) (i : ι) (gone : List ι) :
    charged place (i :: gone) = (place i).size + charged place gone := by
  simp [charged]

private theorem charged_append (place : ι → Place) (first second : List ι) :
    charged place (first ++ second) = charged place first + charged place second := by
  simp [charged]

private theorem charged_congr {place place' : ι → Place} {gone : List ι}
    (same : ∀ i ∈ gone, place' i = place i) : charged place' gone = charged place gone := by
  unfold charged
  rw [List.map_congr_left fun i hi => by rw [same i hi]]

private theorem charged_erase [DecidableEq ι] (place : ι → Place) {gone : List ι} {i : ι}
    (mem : i ∈ gone) : (place i).size + charged place (gone.erase i) = charged place gone := by
  have hperm := ((List.perm_cons_erase mem).map fun i => (place i).size).sum_eq
  rw [List.map_cons, List.sum_cons] at hperm
  exact hperm.symm

private theorem charged_owners_le {place : ι → Place} {window : List (Block ι)}
    (places : ∀ block ∈ window, ∀ i, block.owner = some i → place i = block.place) :
    charged place (window.filterMap Block.owner) ≤ reservedSlots window := by
  induction window with
  | nil => exact le_refl _
  | cons block rest ih =>
      have hrest := ih fun other hother => places other (List.mem_cons_of_mem _ hother)
      rw [reservedSlots_cons]
      cases howner : block.owner with
      | none =>
          rw [List.filterMap_cons_none howner]
          omega
      | some i =>
          have hplace := places block List.mem_cons_self i howner
          rw [List.filterMap_cons_some howner, charged_cons, hplace]
          omega

/-- The owners in `queue` have reserved up to `cursor`; those in `gone` have left the queue and
not given their slots back. -/
structure Reserved (slots cursor : Nat) (used : Int) (place : ι → Place) (queue gone : List ι) :
    Prop where
  cursor_lt : cursor < slots
  distinct : (gone ++ queue).Nodup
  window : ∃ first window, first < slots ∧ Placed slots first window cursor ∧
    window.filterMap Block.owner = queue ∧
    (∀ block ∈ window, ∀ i, block.owner = some i → place i = block.place) ∧
    ((charged place gone + reservedSlots window : Nat) : Int) ≤ used

namespace Reserved

variable {slots cursor : Nat} {used : Int} {place : ι → Place} {queue gone : List ι}

theorem none (place : ι → Place) (lt : cursor < slots) : Reserved slots cursor 0 place [] [] where
  cursor_lt := lt
  distinct := List.nodup_nil
  window := ⟨cursor, [], lt, rfl, rfl, by simp, le_refl _⟩

theorem congr (reserved : Reserved slots cursor used place queue gone) {place' : ι → Place}
    (same : ∀ i ∈ gone ++ queue, place' i = place i) :
    Reserved slots cursor used place' queue gone := by
  obtain ⟨first, window, hlt, hplaced, howners, hplaces, htotal⟩ := reserved.window
  refine ⟨reserved.cursor_lt, reserved.distinct, first, window, hlt, hplaced, howners, ?_, ?_⟩
  · intro block hblock i hi
    have hmem : i ∈ queue := by
      rw [← howners]
      exact List.mem_filterMap.mpr ⟨block, hblock, hi⟩
    rw [same i (List.mem_append_right _ hmem)]
    exact hplaces block hblock i hi
  · rwa [charged_congr fun i hi => same i (List.mem_append_left _ hi)]

theorem apart (reserved : Reserved slots cursor used place queue gone) (fits : used ≤ slots)
    {i j : ι} (hi : i ∈ queue) (hj : j ∈ queue) (ne : i ≠ j) : (place i).Apart (place j) := by
  obtain ⟨first, window, hlt, hplaced, howners, hplaces, htotal⟩ := reserved.window
  rw [← howners] at hi hj
  obtain ⟨b, hb, hbi⟩ := List.mem_filterMap.mp hi
  obtain ⟨c, hc, hcj⟩ := List.mem_filterMap.mp hj
  have hne : b ≠ c := by
    rintro rfl
    exact ne (Option.some.inj (hbi.symm.trans hcj))
  have hsymm : Std.Symm fun b c : Block ι => b.place.Apart c.place := ⟨fun _ _ h => h.symm⟩
  rw [hplaces b hb i hbi, hplaces c hc j hcj]
  exact (hplaced.apart hlt (by omega)).forall hb hc hne

theorem size_le_used [DecidableEq ι] (reserved : Reserved slots cursor used place queue gone)
    {i : ι}
    (mem : i ∈ gone ∨ i ∈ queue) : ((place i).size : Int) ≤ used := by
  obtain ⟨first, window, -, -, howners, hplaces, htotal⟩ := reserved.window
  rcases mem with hgone | hqueue
  · have herase := charged_erase place hgone
    omega
  · rw [← howners] at hqueue
    obtain ⟨block, hblock, howner⟩ := List.mem_filterMap.mp hqueue
    obtain ⟨before, after, rfl⟩ := List.append_of_mem hblock
    rw [reservedSlots_append, reservedSlots_cons] at htotal
    rw [hplaces block hblock i howner]
    omega

theorem disown {i : ι} (reserved : Reserved slots cursor used place (queue ++ [i]) gone) :
    Reserved slots cursor used place queue gone := by
  obtain ⟨first, window, hlt, hplaced, howners, hplaces, htotal⟩ := reserved.window
  obtain ⟨front, back, rfl, hfront, hback⟩ := List.filterMap_eq_append_iff.mp howners
  obtain ⟨before, block, after, rfl, hbefore, howner, hafter⟩ :=
    List.filterMap_eq_cons_iff.mp hback
  have hdistinct : (gone ++ queue).Nodup := by
    have hall := reserved.distinct
    rw [← List.append_assoc] at hall
    exact (List.nodup_append.mp hall).1
  refine ⟨reserved.cursor_lt, hdistinct, first, front ++ before ++ ⟨.none, block.place⟩ :: after,
    hlt, ?_, ?_, ?_, ?_⟩
  · rw [← List.append_assoc] at hplaced
    exact hplaced.disown
  · have hnone : before.filterMap Block.owner = [] := List.filterMap_eq_nil_iff.mpr hbefore
    simp [hfront, hnone, hafter]
  · intro other hother j hj
    simp only [List.append_assoc, List.mem_append, List.mem_cons] at hother
    rcases hother with hin | hin | rfl | hin
    · exact hplaces other (by simp [hin]) j hj
    · exact hplaces other (by simp [hin]) j hj
    · cases hj
    · exact hplaces other (by simp [hin]) j hj
  · simpa [Nat.add_assoc] using htotal

/-- The first owners leave the queue; the blocks without an owner among theirs are left behind. -/
theorem retire {taken : List ι}
    (reserved : Reserved slots cursor used place (taken ++ queue) gone) :
    Reserved slots cursor used place queue (gone ++ taken) := by
  obtain ⟨first, window, hlt, hplaced, howners, hplaces, htotal⟩ := reserved.window
  obtain ⟨front, back, rfl, hfront, hback⟩ := List.filterMap_eq_append_iff.mp howners
  obtain ⟨next, hnext, hrest⟩ := hplaced.suffix hlt
  have hsizes : charged place (front.filterMap Block.owner) ≤ reservedSlots front :=
    charged_owners_le fun block hblock => hplaces block (List.mem_append_left _ hblock)
  rw [hfront] at hsizes
  refine ⟨reserved.cursor_lt, ?_, next, back, hnext, hrest, hback,
    fun block hblock => hplaces block (List.mem_append_right _ hblock), ?_⟩
  · rw [List.append_assoc]
    exact reserved.distinct
  · rw [reservedSlots_append] at htotal
    rw [charged_append]
    omega

section Owners

variable [DecidableEq ι]

theorem reserve (reserved : Reserved slots cursor used place queue gone) {i : ι}
    (new : i ∉ gone ++ queue) {size : Nat} (room : cursor + size ≤ slots) :
    Reserved slots ((cursor + size) % slots) (used + size)
      (Function.update place i ⟨cursor, size⟩) (queue ++ [i]) gone := by
  have hcongr : Reserved slots cursor used (Function.update place i ⟨cursor, size⟩) queue gone := by
    refine reserved.congr fun j hj => Function.update_of_ne ?_ _ _
    rintro rfl
    exact new hj
  obtain ⟨first, window, hlt, hplaced, howners, hplaces, htotal⟩ := hcongr.window
  refine ⟨Nat.mod_lt _ (Nat.zero_lt_of_lt reserved.cursor_lt), ?_, first,
    window ++ [⟨some i, ⟨cursor, size⟩⟩], hlt, hplaced.snoc _ room, ?_, ?_, ?_⟩
  · rw [← List.append_assoc]
    refine List.nodup_append.mpr ⟨reserved.distinct, List.nodup_singleton i, fun j hj k hk => ?_⟩
    rintro rfl
    exact new (List.mem_singleton.mp hk ▸ hj)
  · simp [howners]
  · intro block hblock j hj
    rcases List.mem_append.mp hblock with hin | hin
    · exact hplaces block hin j hj
    · obtain rfl := List.mem_singleton.mp hin
      obtain rfl := Option.some.inj hj
      exact Function.update_self ..
  · rw [reservedSlots_append, reservedSlots_cons, reservedSlots_nil]
    push_cast at htotal ⊢
    omega

theorem refund (reserved : Reserved slots cursor used place queue gone) {i : ι} (mem : i ∈ gone) :
    Reserved slots cursor (used - (place i).size) place queue (gone.erase i) := by
  obtain ⟨first, window, hlt, hplaced, howners, hplaces, htotal⟩ := reserved.window
  have herase := charged_erase place mem
  refine ⟨reserved.cursor_lt, ?_, first, window, hlt, hplaced, howners, hplaces, by omega⟩
  exact reserved.distinct.sublist (List.erase_sublist.append_right queue)

end Owners

end Reserved

end NupaNet.Foundation
