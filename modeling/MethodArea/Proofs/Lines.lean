/-
# `Proofs.Lines` — the line at a program counter

The rows of a line table are sorted by their start and searched from the
front.  What the search answers can be said of the rows as they were
recorded, in any order and with any number of rows for one start: the line
is that of the row that `Governs` the program counter,

    its start is not after pc,
    no row with a start not after pc starts later, and
    none of those with the same start was recorded later.

Sorting is stable, so it is the sorting of the rows together with their
places by start and then by place, and in that order no two rows are equal.
The rows that start in time are a front part of the sorted ones
(`takeWhile_eq_filter`), and the last of them comes after all others.

What a table has of the rows of several line number tables is said without
sorting as well (`LineTable.Holds`): for every start it has the rows with
that start, in the order in which they were recorded.
-/
import MethodArea.LineTable

namespace MethodArea

open Attribute

/-- Of the rows as they were recorded, the one in place `i` gives the line at
a program counter. -/
structure Governs (rows : List LineRow) (pc i : Nat) (row : LineRow) : Prop where
  recorded : rows[i]? = some row
  started : row.startPc.toNat ≤ pc
  latest : ∀ j other, rows[j]? = some other → other.startPc.toNat ≤ pc →
    other.startPc ≤ row.startPc ∧ (other.startPc = row.startPc → j ≤ i)

theorem Governs.unique {rows : List LineRow} {pc i j : Nat} {row other : LineRow}
    (h : Governs rows pc i row) (h' : Governs rows pc j other) : row = other := by
  obtain ⟨hle, hij⟩ := h.latest j other h'.recorded h'.started
  obtain ⟨hge, hji⟩ := h'.latest i row h.recorded h.started
  have hstart : other.startPc = row.startPc := UInt16.le_antisymm hle hge
  have hplace : i = j := Nat.le_antisymm (hji hstart.symm) (hij hstart)
  have hrow := h.recorded
  rw [hplace, h'.recorded] at hrow
  exact (Option.some.inj hrow).symm

namespace LineTable

/-- Where what comes first satisfies a predicate if what comes later does,
the elements that satisfy it are a front part of the list. -/
theorem takeWhile_eq_filter {α : Type} {R : α → α → Prop} {p : α → Bool}
    (hp : ∀ a b, R a b → p b = true → p a = true) {xs : List α} (h : xs.Pairwise R) :
    xs.takeWhile p = xs.filter p := by
  induction xs with
  | nil => rfl
  | cons x xs ih =>
      obtain ⟨hx, hxs⟩ := List.pairwise_cons.1 h
      cases hpx : p x with
      | true => rw [List.takeWhile_cons_of_pos hpx, List.filter_cons_of_pos hpx, ih hxs]
      | false =>
          have hnone : xs.filter p = [] := by
            refine List.filter_eq_nil_iff.2 fun y hy hpy => ?_
            rw [hp x y (hx y hy) hpy] at hpx
            cases hpx
          rw [List.takeWhile_cons_of_neg (by simp [hpx]), List.filter_cons_of_neg (by simp [hpx]),
            hnone]

/-- The order of rows with their places: by start, then by place. -/
theorem zipIdxLE_before_iff {a b : LineRow × Nat} :
    List.zipIdxLE before a b = true ↔
      a.1.startPc ≤ b.1.startPc ∧ (a.1.startPc = b.1.startPc → a.2 ≤ b.2) := by
  simp only [List.zipIdxLE, before, decide_eq_true_eq]
  split
  · next hle =>
      split
      · next hge =>
          have heq : a.1.startPc = b.1.startPc := UInt16.le_antisymm hle hge
          simp [heq]
      · next hlt =>
          have hne : a.1.startPc ≠ b.1.startPc := fun heq => hlt (heq ▸ UInt16.le_refl _)
          simp [hle, hne]
  · next hnot => simp [hnot]

/-- The rows with their places, sorted. -/
def places (rows : List LineRow) : List (LineRow × Nat) :=
  rows.zipIdx.mergeSort (List.zipIdxLE before)

theorem mem_places_iff {rows : List LineRow} {row : LineRow} {i : Nat} :
    (row, i) ∈ places rows ↔ rows[i]? = some row := by
  rw [places, List.mem_mergeSort, List.mk_mem_zipIdx_iff_getElem?]

theorem pairwise_places (rows : List LineRow) :
    (places rows).Pairwise (fun a b => List.zipIdxLE before a b = true) := by
  have htrans : ∀ a b c : LineRow × Nat, List.zipIdxLE before a b → List.zipIdxLE before b c →
      List.zipIdxLE before a c := List.zipIdxLE_trans fun _ _ _ => before_trans
  have htotal : ∀ a b : LineRow × Nat, List.zipIdxLE before a b || List.zipIdxLE before b a :=
    List.zipIdxLE_total before_total
  exact List.pairwise_mergeSort htrans htotal _

/-- The places of the rows that start in time. -/
def placesUpTo (rows : List LineRow) (pc : Nat) : List (LineRow × Nat) :=
  (places rows).filter (fun e => e.1.startPc.toNat ≤ pc)

theorem mem_placesUpTo_iff {rows : List LineRow} {pc : Nat} {row : LineRow} {i : Nat} :
    (row, i) ∈ placesUpTo rows pc ↔ rows[i]? = some row ∧ row.startPc.toNat ≤ pc := by
  rw [placesUpTo, List.mem_filter, mem_places_iff, decide_eq_true_eq]

theorem line?_ofRows (rows : List LineRow) (pc : Nat) :
    (ofRows rows).line? pc = ((placesUpTo rows pc).getLast?).map (fun e => e.1.line) := by
  have hsorted : rows.mergeSort before = (places rows).map Prod.fst :=
    List.mergeSort_zipIdx.symm
  have hfront : (places rows).takeWhile (fun e => e.1.startPc.toNat ≤ pc) =
      placesUpTo rows pc := by
    refine takeWhile_eq_filter ?_ (pairwise_places rows)
    intro a b hab hb
    have hle : a.1.startPc.toNat ≤ b.1.startPc.toNat := (zipIdxLE_before_iff.1 hab).1
    exact decide_eq_true (Nat.le_trans hle (of_decide_eq_true hb))
  show (((rows.mergeSort before).takeWhile fun row => row.startPc.toNat ≤ pc).getLast?).map
    LineRow.line = _
  rw [hsorted, List.takeWhile_map, ← hfront, List.getLast?_map, Option.map_map]
  rfl

/-- The last of the places gives the line. -/
theorem governs_of_getLast? {rows : List LineRow} {pc i : Nat} {row : LineRow}
    (h : (placesUpTo rows pc).getLast? = some (row, i)) : Governs rows pc i row := by
  obtain ⟨front, hfront⟩ := List.getLast?_eq_some_iff.1 h
  have hsorted : (front ++ [(row, i)]).Pairwise (fun a b => List.zipIdxLE before a b = true) :=
    hfront ▸ (pairwise_places rows).filter _
  obtain ⟨hrow, hstarted⟩ := mem_placesUpTo_iff.1 (List.mem_of_getLast? h)
  refine ⟨hrow, hstarted, fun j other hother hle => ?_⟩
  have hmem : (other, j) ∈ front ++ [(row, i)] := hfront ▸ mem_placesUpTo_iff.2 ⟨hother, hle⟩
  rcases List.mem_append.1 hmem with hmem | hmem
  · exact zipIdxLE_before_iff.1
      ((List.pairwise_append.1 hsorted).2.2 _ hmem _ (List.mem_singleton_self _))
  · obtain ⟨rfl, rfl⟩ := Prod.mk.inj (List.mem_singleton.1 hmem)
    exact ⟨UInt16.le_refl _, fun _ => Nat.le_refl _⟩

/-- There is no line exactly if no row starts in time. -/
theorem line?_ofRows_eq_none_iff {rows : List LineRow} {pc : Nat} :
    (ofRows rows).line? pc = none ↔ ∀ row ∈ rows, pc < row.startPc.toNat := by
  rw [line?_ofRows, Option.map_eq_none_iff, List.getLast?_eq_none_iff]
  constructor
  · intro hnil row hmem
    obtain ⟨i, hi⟩ := List.mem_iff_getElem?.1 hmem
    refine Nat.lt_of_not_le fun hle => ?_
    have hplace := mem_placesUpTo_iff.2 ⟨hi, hle⟩
    rw [hnil] at hplace
    exact absurd hplace List.not_mem_nil
  · intro hlate
    refine List.eq_nil_iff_forall_not_mem.2 fun ⟨row, i⟩ hmem => ?_
    obtain ⟨hi, hle⟩ := mem_placesUpTo_iff.1 hmem
    exact Nat.not_le.2 (hlate row (List.mem_of_getElem? hi)) hle

/-- A line is that of the row that governs the program counter. -/
theorem exists_governs_of_line? {rows : List LineRow} {pc : Nat} {line : UInt16}
    (h : (ofRows rows).line? pc = some line) :
    ∃ i row, Governs rows pc i row ∧ row.line = line := by
  rw [line?_ofRows] at h
  obtain ⟨⟨row, i⟩, hlast, hline⟩ := Option.map_eq_some_iff.1 h
  exact ⟨i, row, governs_of_getLast? hlast, hline⟩

/-! ## Several tables -/

/-- The line table of all rows in some tables, if there are any tables. -/
def ofTables? : List (List LineRow) → Option LineTable
  | [] => none
  | tables => some (ofRows tables.flatten)

/-- A line table has the rows of some tables and no others, those of one
start in the order in which they were recorded; without tables there is
none. -/
inductive Holds : List (List LineRow) → Option LineTable → Prop
  | none : Holds [] none
  | some {tables : List (List LineRow)} {table : LineTable} : tables ≠ [] →
      (∀ start, table.rows.filter (·.startPc = start) =
        tables.flatten.filter (·.startPc = start)) →
      Holds tables (some table)

/-- Sorting leaves the rows of one start as they are. -/
theorem filter_ofRows (rows : List LineRow) (start : UInt16) :
    (ofRows rows).rows.filter (·.startPc = start) = rows.filter (·.startPc = start) := by
  have hsorted : (rows.filter (·.startPc = start)).Pairwise (fun a b => before a b) := by
    refine List.pairwise_of_forall_mem_list fun a ha b hb => ?_
    have hstart := (of_decide_eq_true (List.mem_filter.1 ha).2).trans
      (of_decide_eq_true (List.mem_filter.1 hb).2).symm
    exact decide_eq_true (hstart ▸ UInt16.le_refl _)
  have htrans : ∀ a b c : LineRow, before a b → before b c → before a c :=
    fun _ _ _ => before_trans
  have hkept := List.sublist_mergeSort htrans before_total hsorted List.filter_sublist
  have hfilter := hkept.filter (·.startPc = start)
  simp only [List.filter_filter, Bool.and_self] at hfilter
  exact (hfilter.eq_of_length ((List.mergeSort_perm rows before).filter _).length_eq.symm).symm

theorem holds_ofTables? (tables : List (List LineRow)) : Holds tables (ofTables? tables) := by
  cases tables with
  | nil => exact .none
  | cons rows tables => exact .some (List.cons_ne_nil _ _) (filter_ofRows _)

end LineTable

end MethodArea
