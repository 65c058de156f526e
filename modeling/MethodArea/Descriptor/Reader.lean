/-
# `Descriptor.Reader` — descriptors out of text

Each reader takes one thing off the front of a text and answers it with
the rest, or says what it missed and where.  A type is a base type, an
object type or an array, tried in this order; where none of them fits, the
array is the one reported.  A missed type is no failure of a whole
descriptor while parameters are read: it ends their list.  The one fault
that nothing recovers from is an array with too many dimensions.
-/
import MethodArea.Descriptor.Basic
import MethodArea.Error

namespace MethodArea.Descriptor

/-- What a reader looked for in vain. -/
inductive Expectation where
  | mark (c : Char)
  | className
  | arrayMark
  | endOfText
deriving DecidableEq

/-- Why a reader stopped, with the text left at that place. -/
inductive Fault where
  | missing (what : Expectation) (place : List Char)
  | tooManyDimensions (place : List Char)
deriving DecidableEq

namespace Fault

/-- The text left at the place of a fault. -/
def place : Fault → List Char
  | .missing _ place => place
  | .tooManyDimensions place => place

/-- Whether a reader that meets a fault may go on with something else: it may
after an error, but not after a failure. -/
inductive Severity where
  | error
  | failure
deriving DecidableEq

/-- How a severity is written. -/
def Severity.text : Severity → String
  | .error => "Error"
  | .failure => "Failure"

/-- The severity of a fault. -/
def severity : Fault → Severity
  | .missing _ _ => .error
  | .tooManyDimensions _ => .failure

/-- The kind of a fault: which reader reports it. -/
inductive Kind where
  | char
  | takeTill1
  | many1Count
  | eof
  | tooLarge
deriving DecidableEq

/-- How a kind is written. -/
def Kind.text : Kind → String
  | .char => "Char"
  | .takeTill1 => "TakeTill1"
  | .many1Count => "Many1Count"
  | .eof => "Eof"
  | .tooLarge => "TooLarge"

/-- The kind of a fault. -/
def kind : Fault → Kind
  | .missing (.mark _) _ => .char
  | .missing .className _ => .takeTill1
  | .missing .arrayMark _ => .many1Count
  | .missing .endOfText _ => .eof
  | .tooManyDimensions _ => .tooLarge

end Fault

/-- Something read off the front of a text, and the rest. -/
abbrev Result (α : Type) : Type := Except Fault (α × List Char)

/-! ## Types -/

/-- A base type, by its letter. -/
def readBase? : List Char → Option (BaseType × List Char)
  | [] => none
  | c :: rest => (BaseType.ofCode? c).map (·, rest)

/-- A class name between `L` and `;`. -/
def readObject : List Char → Result FieldType
  | 'L' :: text =>
    let name := text.takeWhile (· ≠ ';')
    if name = [] then .error (.missing .className text)
    else
      match text.dropWhile (· ≠ ';') with
      | _ :: rest => .ok (.object (String.ofList name), rest)
      | [] => .error (.missing (.mark ';') [])
  | text => .error (.missing (.mark 'L') text)

/-- A type below all array levels. -/
def readElement (text : List Char) : Result FieldType :=
  match readBase? text with
  | some (type, rest) => .ok (.base type, rest)
  | none => readObject text

/-- One or more array levels and the type below them. -/
def readArray (text : List Char) : Result FieldType :=
  let dimensions := (text.takeWhile (· = '[')).length
  if dimensions = 0 then .error (.missing .arrayMark text)
  else if FieldType.maxDimensions < dimensions then .error (.tooManyDimensions text)
  else
    match readElement (text.dropWhile (· = '[')) with
    | .ok (element, rest) => .ok (.arrayOf dimensions element, rest)
    | .error fault => .error fault

/-- Any field type. -/
def readFieldType (text : List Char) : Result FieldType :=
  match readElement text with
  | .ok read => .ok read
  | .error _ => readArray text

/-- A field type, or `V` for none. -/
def readReturnType (text : List Char) : Result (Option FieldType) :=
  match readFieldType text with
  | .ok (t, rest) => .ok (some t, rest)
  | .error (.tooManyDimensions place) => .error (.tooManyDimensions place)
  | .error (.missing _ _) =>
    match text with
    | 'V' :: rest => .ok (none, rest)
    | _ => .error (.missing (.mark 'V') text)

/-! ## Every type that is read takes text away -/

theorem length_of_readBase? {text rest : List Char} {b : BaseType}
    (h : readBase? text = some (b, rest)) : rest.length < text.length := by
  cases text with
  | nil => cases h
  | cons c tail =>
    obtain ⟨_, _, e⟩ := Option.map_eq_some_iff.1 h
    cases e
    exact Nat.lt_succ_self _

theorem length_of_readObject {text rest : List Char} {t : FieldType}
    (h : readObject text = .ok (t, rest)) : rest.length < text.length := by
  unfold readObject at h
  split at h
  · next tail =>
    dsimp only at h
    split at h
    · cases h
    · split at h
      · next c tail' e =>
        cases h
        have hd := (List.dropWhile_sublist (l := tail) (fun c => decide (c ≠ ';'))).length_le
        rw [e] at hd
        simp only [List.length_cons] at hd ⊢
        omega
      · cases h
  · cases h

theorem length_of_readElement {text rest : List Char} {t : FieldType}
    (h : readElement text = .ok (t, rest)) : rest.length < text.length := by
  unfold readElement at h
  split at h
  · next e =>
    cases h
    exact length_of_readBase? e
  · exact length_of_readObject h

theorem length_of_readArray {text rest : List Char} {t : FieldType}
    (h : readArray text = .ok (t, rest)) : rest.length < text.length := by
  unfold readArray at h
  dsimp only at h
  split at h
  · cases h
  · split at h
    · cases h
    · split at h
      · next e =>
        cases h
        have hd := (List.dropWhile_sublist (l := text) (fun c => decide (c = '['))).length_le
        exact Nat.lt_of_lt_of_le (length_of_readElement e) hd
      · cases h

theorem length_of_readFieldType {text rest : List Char} {t : FieldType}
    (h : readFieldType text = .ok (t, rest)) : rest.length < text.length := by
  unfold readFieldType at h
  split at h
  · next e =>
    cases h
    exact length_of_readElement e
  · exact length_of_readArray h

/-! ## Whole descriptors -/

/-- Field types for as long as there are any, after those in `done` (last
one first). -/
def readTypesFrom (done : List FieldType) (text : List Char) : Result (List FieldType) :=
  match _ : readFieldType text with
  | .ok (t, rest) => readTypesFrom (t :: done) rest
  | .error (.missing _ _) => .ok (done.reverse, text)
  | .error (.tooManyDimensions place) => .error (.tooManyDimensions place)
termination_by text.length
decreasing_by exact length_of_readFieldType ‹_›

/-- Field types for as long as there are any. -/
def readTypes (text : List Char) : Result (List FieldType) := readTypesFrom [] text

/-- A given character. -/
def readMark (c : Char) : List Char → Result Unit
  | [] => .error (.missing (.mark c) [])
  | d :: rest => if d = c then .ok ((), rest) else .error (.missing (.mark c) (d :: rest))

/-- What was read, if it was all there was. -/
def atEnd {α : Type} : α × List Char → Result α
  | (a, []) => .ok (a, [])
  | (_, rest) => .error (.missing .endOfText rest)

/-- A field descriptor: one field type and nothing after it. -/
def readField (text : List Char) : Except Fault (FieldType × List Char) := do
  atEnd (← readFieldType text)

/-- A method descriptor: the parameter types in parentheses, the result
type, and nothing after it. -/
def readMethod (text : List Char) : Except Fault (MethodDescriptor × List Char) := do
  let ((), text) ← readMark '(' text
  let (parameters, text) ← readTypes text
  let ((), text) ← readMark ')' text
  let (returnType, text) ← readReturnType text
  atEnd (⟨parameters, returnType⟩, text)

end Descriptor

/-- The field type of a descriptor. -/
def FieldType.parse (descriptor : String) : Except Error FieldType :=
  match Descriptor.readField descriptor.toList with
  | .ok (t, _) => .ok t
  | .error _ => .error (.malformedDescriptor descriptor)

/-- The method types of a descriptor. -/
def MethodDescriptor.parse (descriptor : String) : Except Error MethodDescriptor :=
  match Descriptor.readMethod descriptor.toList with
  | .ok (d, _) => .ok d
  | .error _ => .error (.malformedDescriptor descriptor)

end MethodArea
