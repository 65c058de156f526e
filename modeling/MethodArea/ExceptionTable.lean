/-
# `ExceptionTable` — which handler takes an exception

The entries of a table stand in class-file order, and the first one that
covers the program counter and accepts the exception takes it; nested
`try` blocks are laid out for this.  Which catch types an exception is
accepted by is the caller's affair: a look-up is given a predicate on
class names.

An entry applies to a code array when its range is not empty and ends in
the code, and its handler starts in it.
-/
import MethodArea.Attribute.Layout
import MethodArea.ConstantPool

namespace MethodArea

/-- What an entry catches. -/
inductive CatchType where
  | any
  | cls (name : String)
deriving DecidableEq

/-- One protected range and its handler. -/
structure HandlerEntry where
  startPc : UInt16
  endPc : UInt16
  handlerPc : UInt16
  catchType : CatchType
deriving DecidableEq

namespace HandlerEntry

/-- Whether a program counter is in the range, whose end is outside. -/
def covers (e : HandlerEntry) (pc : Nat) : Bool := e.startPc.toNat ≤ pc && pc < e.endPc.toNat

/-- Whether the entry catches what the predicate describes. -/
def catches (e : HandlerEntry) (accepts : String → Bool) : Bool :=
  match e.catchType with
  | .any => true
  | .cls name => accepts name

/-- What keeps the entry from applying to code of a given length. -/
def defect? (e : HandlerEntry) (codeLength : Nat) : Option HandlerDefect :=
  if e.endPc ≤ e.startPc then some (.emptyRange e.startPc e.endPc)
  else if codeLength < e.endPc.toNat then some (.endBeyondCode e.endPc codeLength)
  else if codeLength ≤ e.handlerPc.toNat then some (.handlerBeyondCode e.handlerPc codeLength)
  else none

/-- The entry applies to code of a given length. -/
def Fits (e : HandlerEntry) (codeLength : Nat) : Prop :=
  e.startPc < e.endPc ∧ e.endPc.toNat ≤ codeLength ∧ e.handlerPc.toNat < codeLength

/-- An entry without defect applies, and the other way round. -/
theorem defect?_eq_none_iff {e : HandlerEntry} {codeLength : Nat} :
    e.defect? codeLength = none ↔ e.Fits codeLength := by
  unfold defect? Fits
  rw [← UInt16.not_le]
  constructor
  · intro h
    split at h
    · cases h
    · split at h
      · cases h
      · split at h
        · cases h
        · exact ⟨by assumption, by omega, by omega⟩
  · rintro ⟨h₁, h₂, h₃⟩
    rw [if_neg h₁, if_neg (by omega), if_neg (by omega)]

end HandlerEntry

/-- The entries of a method, in class-file order. -/
structure ExceptionTable where
  entries : List HandlerEntry
deriving DecidableEq

namespace ExceptionTable

open Attribute

/-- The table of a method without handlers. -/
def empty : ExceptionTable := ⟨[]⟩

/-- What a row catches. -/
def catchType (pool : ConstantPool) (index : UInt16) : Except HandlerDefect CatchType :=
  if index = 0 then .ok .any
  else
    match pool.className index with
    | .ok name => .ok (.cls name)
    | .error _ => .error (.catchTypeNotClass index)

/-- An entry that applies to code of a given length, or what keeps it from
applying. -/
def checked (codeLength : Nat) (e : HandlerEntry) : Except HandlerDefect HandlerEntry :=
  match e.defect? codeLength with
  | none => .ok e
  | some defect => .error defect

/-- The entry of a row, for code of a given length. -/
def entryOfRow (pool : ConstantPool) (codeLength : Nat) (row : HandlerRow) :
    Except HandlerDefect HandlerEntry := do
  let caught ← catchType pool row.catchType
  checked codeLength ⟨row.startPc, row.endPc, row.handlerPc, caught⟩

/-- A defect of the entry in a given position, as an error of its
method. -/
def blame {α : Type} (method : MethodRef) (position : Nat) :
    Except HandlerDefect α → Except Error α
  | .ok a => .ok a
  | .error defect => .error (.malformedExceptionTable method position defect)

/-- The table of the rows of a method, for code of a given length. -/
def ofRows (method : MethodRef) (pool : ConstantPool) (codeLength : Nat)
    (rows : List HandlerRow) : Except Error ExceptionTable := do
  let entries ← rows.zipIdx.mapM (fun (row, i) => blame method i (entryOfRow pool codeLength row))
  pure ⟨entries⟩

/-- Checks every entry against code of a given length. -/
def validate (method : MethodRef) (codeLength : Nat) (table : ExceptionTable) :
    Except Error Unit :=
  table.entries.zipIdx.forM (fun (e, i) => do
    let _ ← blame method i (checked codeLength e)
    pure ())

/-- The position of the entry that takes an exception thrown at `pc`. -/
def find? (table : ExceptionTable) (accepts : String → Bool) (pc : Nat) : Option Nat :=
  table.entries.findIdx? (fun e => e.covers pc && e.catches accepts)

/-- Where an exception thrown at `pc` is handled. -/
def lookup (table : ExceptionTable) (accepts : String → Bool) (pc : Nat) : Option UInt16 :=
  (table.entries.find? (fun e => e.covers pc && e.catches accepts)).map HandlerEntry.handlerPc

end ExceptionTable

end MethodArea
