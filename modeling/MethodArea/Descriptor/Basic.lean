/-
# `Descriptor.Basic` — the types of fields and methods, and their text

A field type is one of eight base types, an object type, which names a
class, or an array of another type.  A method descriptor lists the types
of the parameters and the type of the result, which is absent for `void`.

Both have one written form, and the types that this form can be read back
from are the well-formed ones: class names are not empty and have no `;`,
and arrays have at most 255 dimensions.
-/
namespace MethodArea

/-- The eight types that are no references. -/
inductive BaseType where
  | byte
  | char
  | double
  | float
  | int
  | long
  | short
  | boolean
deriving DecidableEq

/-- The letter of a base type. -/
def BaseType.code : BaseType → Char
  | .byte => 'B'
  | .char => 'C'
  | .double => 'D'
  | .float => 'F'
  | .int => 'I'
  | .long => 'J'
  | .short => 'S'
  | .boolean => 'Z'

/-- The base type of a letter. -/
def BaseType.ofCode? : Char → Option BaseType
  | 'B' => some .byte
  | 'C' => some .char
  | 'D' => some .double
  | 'F' => some .float
  | 'I' => some .int
  | 'J' => some .long
  | 'S' => some .short
  | 'Z' => some .boolean
  | _ => none

@[simp] theorem BaseType.ofCode?_code (b : BaseType) : ofCode? b.code = some b := by
  cases b <;> rfl

/-- Base types have different letters, and `ofCode?` knows no other. -/
theorem BaseType.ofCode?_eq_some_iff {c : Char} {b : BaseType} :
    ofCode? c = some b ↔ c = b.code := by
  constructor
  · intro h
    unfold ofCode? at h
    split at h <;> cases h <;> rfl
  · rintro rfl
    exact ofCode?_code b

/-- The type of a field, a parameter or a result. -/
inductive FieldType where
  | base (type : BaseType)
  | object (className : String)
  | array (element : FieldType)
deriving DecidableEq

namespace FieldType

/-- The characters of a field type. -/
def chars : FieldType → List Char
  | .base type => [type.code]
  | .object className => 'L' :: (className.toList ++ [';'])
  | .array element => '[' :: element.chars

/-- The written form of a field type. -/
def text (t : FieldType) : String := String.ofList t.chars

/-- The types that take two slots of local variables. -/
def isWide (t : FieldType) : Bool := t = .base .long || t = .base .double

/-- The number of slots of local variables. -/
def slots (t : FieldType) : Nat := if t.isWide then 2 else 1

/-- Whether the type is a base type. -/
def isPrimitive : FieldType → Bool
  | .base _ => true
  | _ => false

/-- The number of array levels. -/
def dimensions : FieldType → Nat
  | .array element => element.dimensions + 1
  | _ => 0

/-- The type below all array levels. -/
def innermost : FieldType → FieldType
  | .array element => element.innermost
  | t => t

/-- Arrays of `n` levels more. -/
def arrayOf : Nat → FieldType → FieldType
  | 0, t => t
  | n + 1, t => .array (arrayOf n t)

/-- The most array levels that a descriptor may have. -/
def maxDimensions : Nat := 255

/-- A type below all array levels that can be read back. -/
def IsElement : FieldType → Prop
  | .base _ => True
  | .object className => className ≠ "" ∧ ';' ∉ className.toList
  | .array _ => False

instance : DecidablePred IsElement
  | .base _ => inferInstanceAs (Decidable True)
  | .object className => inferInstanceAs (Decidable (className ≠ "" ∧ ';' ∉ className.toList))
  | .array _ => inferInstanceAs (Decidable False)

/-- A type that can be read back. -/
def WellFormed (t : FieldType) : Prop := t.innermost.IsElement ∧ t.dimensions ≤ maxDimensions

instance : DecidablePred WellFormed := fun _ => inferInstanceAs (Decidable (_ ∧ _))

end FieldType

/-- The types of a method; no result type stands for `void`. -/
structure MethodDescriptor where
  parameters : List FieldType
  returnType : Option FieldType
deriving DecidableEq

namespace MethodDescriptor

/-- The characters of a result type. -/
def returnChars : Option FieldType → List Char
  | some t => t.chars
  | none => ['V']

/-- The characters of a method descriptor. -/
def chars (d : MethodDescriptor) : List Char :=
  '(' :: (d.parameters.flatMap FieldType.chars ++ ')' :: returnChars d.returnType)

/-- The written form of a method descriptor. -/
def text (d : MethodDescriptor) : String := String.ofList d.chars

/-- Whether the method has no result. -/
def isVoid (d : MethodDescriptor) : Bool := d.returnType.isNone

/-- The slots that the parameters take, without those of a receiver. -/
def argSlots (d : MethodDescriptor) : Nat := d.parameters.foldr (fun t n => t.slots + n) 0

/-- A method descriptor that can be read back. -/
def WellFormed (d : MethodDescriptor) : Prop :=
  (∀ t ∈ d.parameters, t.WellFormed) ∧ ∀ t ∈ d.returnType, t.WellFormed

end MethodDescriptor

end MethodArea
