import Mathlib.Data.List.Range

/-!
# Linked chains

A reader of a linked chain has an address and fetches from it a record and the
address of the next record, or the end of the chain.  `walk` lists the records
on the way; a chain whose links are known one by one is walked in their order.
`walkAhead` is a reader that takes some records behind the one a link leads to
along with it; where they lie in chain order it reads the same records.
-/

namespace NupaNet.Foundation

variable {α β : Type*}

/-- The records from an address on, if the chain ends within `fuel` of them. -/
def walk (fetch : α → Option (β × Option α)) : Nat → α → Option (List β)
  | 0, _ => none
  | fuel + 1, addr =>
      match fetch addr with
      | none => none
      | some (record, none) => some [record]
      | some (record, some next) => (walk fetch fuel next).map (record :: ·)

private theorem walk_last {fetch : α → Option (β × Option α)} {addr : α} {record : β}
    (last : fetch addr = some (record, none)) (fuel : Nat) :
    walk fetch (fuel + 1) addr = some [record] := by
  rw [walk, last]

private theorem walk_link {fetch : α → Option (β × Option α)} {addr next : α} {record : β}
    (link : fetch addr = some (record, some next)) (fuel : Nat) :
    walk fetch (fuel + 1) addr = (walk fetch fuel next).map (record :: ·) := by
  rw [walk, link]

theorem walk_linked {fetch : α → Option (β × Option α)} {links fuel : Nat} (addr : Nat → α)
    (record : Nat → β)
    (linked : ∀ i < links, fetch (addr i) = some (record i, some (addr (i + 1))))
    (last : fetch (addr links) = some (record links, none)) (enough : links < fuel) :
    walk fetch fuel (addr 0) = some ((List.range (links + 1)).map record) := by
  induction links generalizing addr record fuel with
  | zero =>
      obtain ⟨fuel, rfl⟩ := Nat.exists_eq_add_of_lt enough
      exact walk_last last _
  | succ links ih =>
      obtain ⟨fuel, rfl⟩ : ∃ left, fuel = left + 1 := ⟨fuel - 1, by omega⟩
      have hrest := ih (fun i => addr (i + 1)) (fun i => record (i + 1))
        (fun i hi => linked (i + 1) (by omega)) last (by omega : links < fuel)
      rw [walk_link (linked 0 (by omega)), hrest, List.range_succ_eq_map (n := links + 1)]
      simp

/-! ## Reading ahead -/

/-- The record at an address and `ahead` more, from each address on to the next. -/
def readBlock (fetch : α → Option (β × Option (α × Nat))) (succ : α → α) :
    Nat → α → Option (List (β × Option (α × Nat)))
  | 0, addr => (fetch addr).map fun first => [first]
  | ahead + 1, addr =>
      (fetch addr).bind fun first => (readBlock fetch succ ahead (succ addr)).map (first :: ·)

/-- The blocks read from an address on, if the chain ends within `fuel` of them.  A link allows a
number of records to be read behind the one it leads to; `want` says how many a reader cares
for. -/
def walkAhead (fetch : α → Option (β × Option (α × Nat))) (succ : α → α) (want : Nat → Nat) :
    Nat → α → Nat → Option (List (List β))
  | 0, _, _ => none
  | fuel + 1, addr, allowed =>
      match readBlock fetch succ (min (want fuel) allowed) addr with
      | none => none
      | some block =>
          if block.any fun read => read.2.isNone then some [block.map Prod.fst]
          else
            match block.getLast?.bind Prod.snd with
            | none => none
            | some link =>
                (walkAhead fetch succ want fuel link.1 link.2).map (block.map Prod.fst :: ·)

/-- A chain of `n` records whose links allow only what lies ahead in it. -/
structure LaidOut (fetch : α → Option (β × Option (α × Nat))) (succ : α → α) (n : Nat)
    (addr : Nat → α) (record : Nat → β) (allowed : Nat → Nat) : Prop where
  fetched : ∀ i < n, fetch (addr i) =
    some (record i, if i + 1 = n then none else some (addr (i + 1), allowed (i + 1)))
  inside : ∀ i < n, i + allowed i < n
  next : ∀ i < n, ∀ m < allowed i, addr (i + m + 1) = succ (addr (i + m))

section

variable {fetch : α → Option (β × Option (α × Nat))} {succ : α → α} {n : Nat} {addr : Nat → α}
  {record : Nat → β} {allowed : Nat → Nat}

def LaidOut.read (_ : LaidOut fetch succ n addr record allowed) (j : Nat) :
    β × Option (α × Nat) :=
  (record j, if j + 1 = n then none else some (addr (j + 1), allowed (j + 1)))

private theorem LaidOut.readBlock (h : LaidOut fetch succ n addr record allowed) (ahead : Nat)
    {i : Nat}
    (inside : i + ahead < n)
    (next : ∀ m < ahead, addr (i + m + 1) = succ (addr (i + m))) :
    readBlock fetch succ ahead (addr i) =
      some ((List.range' i (ahead + 1)).map h.read) := by
  induction ahead generalizing i with
  | zero => simp [Foundation.readBlock, h.fetched i inside, LaidOut.read]
  | succ ahead ih =>
      have hrest := ih (i := i + 1) (by omega) fun m hm => by
        have hnext := next (m + 1) (by omega)
        rwa [show i + (m + 1) = i + 1 + m by omega] at hnext
      have hfirst : addr (i + 1) = succ (addr i) := next 0 (by omega)
      have hrange : List.range' i (ahead + 1 + 1) = i :: List.range' (i + 1) (ahead + 1) :=
        List.range'_succ ..
      rw [Foundation.readBlock, h.fetched i (by omega), Option.bind_some, ← hfirst, hrest,
        Option.map_some, hrange, List.map_cons]
      rfl

variable {want : Nat → Nat} {fuel count ahead : Nat} {a : α}
  {block : List (β × Option (α × Nat))}

private theorem walkAhead_end (takes : min (want fuel) count = ahead)
    (hblock : readBlock fetch succ ahead a = some block) (ends : ∃ read ∈ block, read.2 = none) :
    walkAhead fetch succ want (fuel + 1) a count = some [block.map Prod.fst] := by
  obtain ⟨read, hmem, hend⟩ := ends
  have hany : block.any (fun read => read.2.isNone) = true :=
    List.any_eq_true.mpr ⟨read, hmem, by rw [hend]; rfl⟩
  simp only [walkAhead, takes, hblock, hany, if_true]

private theorem walkAhead_on (takes : min (want fuel) count = ahead)
    (hblock : readBlock fetch succ ahead a = some block) (goes : ∀ read ∈ block, read.2 ≠ none)
    {last : β} {link : α × Nat} (hlast : block.getLast? = some (last, some link)) :
    walkAhead fetch succ want (fuel + 1) a count =
      (walkAhead fetch succ want fuel link.1 link.2).map (block.map Prod.fst :: ·) := by
  have hany : block.any (fun read => read.2.isNone) = false := by
    rw [List.any_eq_false]
    intro read hmem hnone
    exact goes read hmem (Option.isNone_iff_eq_none.mp hnone)
  simp only [walkAhead, takes, hblock, hany, Bool.false_eq_true, if_false, hlast,
    Option.bind_some]

/-- Whatever a reader cares for, it reads the rest of the chain, each record once and in order,
in blocks that the links have allowed. -/
theorem LaidOut.walkAhead (h : LaidOut fetch succ n addr record allowed) (want : Nat → Nat)
    (fuel : Nat) {i : Nat} (inside : i < n) (enough : n - i ≤ fuel) :
    ∃ blocks, walkAhead fetch succ want fuel (addr i) (allowed i) = some blocks ∧
      blocks.flatten = (List.range' i (n - i)).map record ∧
      ∀ block ∈ blocks, ∃ k ahead, k + ahead < n ∧ ahead ≤ allowed k ∧
        block = (List.range' k (ahead + 1)).map record := by
  induction fuel generalizing i with
  | zero => omega
  | succ fuel ih =>
      have hallowed := h.inside i inside
      obtain ⟨ahead, htakes, hmin⟩ : ∃ ahead, min (want fuel) (allowed i) = ahead ∧
          ahead ≤ allowed i := ⟨_, rfl, Nat.min_le_right ..⟩
      have hblock := h.readBlock ahead (i := i) (by omega) fun m hm => h.next i inside m (by omega)
      have hrecords : ((List.range' i (ahead + 1)).map h.read).map Prod.fst =
          (List.range' i (ahead + 1)).map record := List.map_map
      by_cases hend : i + ahead + 1 = n
      · -- the block holds the end of the chain
        have hmem : i + ahead ∈ List.range' i (ahead + 1) := List.mem_range'_1.mpr (by omega)
        have hwalk := walkAhead_end htakes hblock
          ⟨_, List.mem_map_of_mem hmem, if_pos hend⟩
        rw [hrecords] at hwalk
        refine ⟨_, hwalk, ?_, fun block hmem => ?_⟩
        · rw [List.flatten_cons, List.flatten_nil, List.append_nil,
            show n - i = ahead + 1 by omega]
        · exact ⟨i, ahead, by omega, hmin, List.mem_singleton.mp hmem⟩
      · obtain ⟨blocks, hblocks, hflat, hall⟩ :=
          ih (i := i + ahead + 1) (by omega) (by omega)
        have hgoes : ∀ read ∈ (List.range' i (ahead + 1)).map h.read, read.2 ≠ none := by
          intro read hmem
          obtain ⟨j, hj, rfl⟩ := List.mem_map.mp hmem
          rw [List.mem_range'_1] at hj
          simp [LaidOut.read, show ¬ j + 1 = n by omega]
        have hlast : ((List.range' i (ahead + 1)).map h.read).getLast? =
            some (record (i + ahead), some (addr (i + ahead + 1), allowed (i + ahead + 1))) := by
          rw [List.getLast?_map, List.range'_concat, List.getLast?_concat]
          simp [LaidOut.read, hend]
        have hwalk := walkAhead_on htakes hblock hgoes hlast
        rw [hblocks, hrecords, Option.map_some] at hwalk
        refine ⟨_, hwalk, ?_, fun block hmem => ?_⟩
        · have hsplit : List.range' i (ahead + 1) ++
              List.range' (i + (ahead + 1)) (n - (i + (ahead + 1))) =
              List.range' i (ahead + 1 + (n - (i + (ahead + 1)))) := List.range'_append_1 ..
          have hcount : ahead + 1 + (n - (i + (ahead + 1))) = n - i := by omega
          rw [List.flatten_cons, hflat, ← List.map_append, Nat.add_assoc i, hsplit, hcount]
        · rcases List.mem_cons.mp hmem with rfl | hmem
          · exact ⟨i, ahead, by omega, hmin, rfl⟩
          · exact hall block hmem

end

end NupaNet.Foundation
