/-
# `LineTable` — the source lines of code

A table is sorted by the program counter at which its rows start, rows
with the same start in the order in which they were recorded.  The line at
a program counter is that of the last row that starts no later, so a later
record wins over an earlier one with the same start.
-/
import MethodArea.Attribute.Layout

namespace MethodArea

open Attribute

/-- The line rows of a method, sorted by their start. -/
structure LineTable where
  rows : List LineRow
  sorted : rows.Pairwise (fun a b => a.startPc ≤ b.startPc)
deriving DecidableEq

namespace LineTable

/-- Whether a row may stand before another one. -/
def before (a b : LineRow) : Bool := a.startPc ≤ b.startPc

theorem before_trans {a b c : LineRow} (hab : before a b) (hbc : before b c) : before a c :=
  decide_eq_true (UInt16.le_trans (of_decide_eq_true hab) (of_decide_eq_true hbc))

theorem before_total (a b : LineRow) : (before a b || before b a) = true := by
  rw [Bool.or_eq_true]
  rcases UInt16.le_total a.startPc b.startPc with h | h
  · exact .inl (decide_eq_true h)
  · exact .inr (decide_eq_true h)

/-- The table of rows as they were recorded. -/
def ofRows (rows : List LineRow) : LineTable where
  rows := rows.mergeSort before
  sorted :=
    (@List.pairwise_mergeSort _ before (fun _ _ _ => before_trans) before_total rows).imp
      (fun h => of_decide_eq_true h)

/-- The line at a program counter; none before the first row. -/
def line? (table : LineTable) (pc : Nat) : Option UInt16 :=
  ((table.rows.takeWhile (fun row => row.startPc.toNat ≤ pc)).getLast?).map LineRow.line

end LineTable

/-- What a program counter of a method says about the source. -/
inductive SourceLine where
  | found (line : UInt16)
  | nativeMethod
  | noLineTable
  | outOfRange
deriving DecidableEq

end MethodArea
