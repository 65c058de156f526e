/-
# `Error` — what can be wrong with a class file or a native link

Errors are causes; the wording of each stands in one function,
`Error.message`.  A message names a method by its full text, class, name
and descriptor run together, and numbers constant pool entries from one
and exception table entries from zero.
-/
import MethodArea.Text.Quoted

namespace MethodArea

/-- A method by name: its class, its own name and its descriptor.  This is
also the key under which native implementations are registered. -/
structure MethodRef where
  className : String
  name : String
  descriptor : String
deriving DecidableEq

/-- The full text of a method name. -/
def MethodRef.text (r : MethodRef) : String := r.className ++ "." ++ r.name ++ r.descriptor

/-- What keeps an exception table entry from applying to a code array. -/
inductive HandlerDefect where
  | emptyRange (startPc endPc : UInt16)
  | endBeyondCode (endPc : UInt16) (codeLength : Nat)
  | handlerBeyondCode (handlerPc : UInt16) (codeLength : Nat)
  | catchTypeNotClass (index : UInt16)
deriving DecidableEq

/-- The wording of a defect. -/
def HandlerDefect.message : HandlerDefect → String
  | .emptyRange startPc endPc =>
    s!"start pc {startPc.toNat} is not before end pc {endPc.toNat}"
  | .endBeyondCode endPc codeLength =>
    s!"end pc {endPc.toNat} is beyond code length {codeLength}"
  | .handlerBeyondCode handlerPc codeLength =>
    s!"handler pc {handlerPc.toNat} is beyond code length {codeLength}"
  | .catchTypeNotClass index => s!"catch type #{index.toNat} is not a class constant"

/-- What is wrong with an attribute: bytes are missing or left over, or a
`Code` attribute is there without need or needed and not there. -/
inductive AttributeDefect where
  | layout
  | unexpectedCode (method : MethodRef)
  | missingCode (method : MethodRef)
deriving DecidableEq

/-- The wording of a defect. -/
def AttributeDefect.message : AttributeDefect → String
  | .layout => "Error(Eof)"
  | .unexpectedCode method => "unexpected on a native or abstract method: " ++ method.text
  | .missingCode method => "required on a method with a body: " ++ method.text

/-- The kinds of constant that are asked for by kind. -/
inductive ConstantKind where
  | utf8
  | classRef
deriving DecidableEq

/-- How a kind of constant is named in messages. -/
def ConstantKind.text : ConstantKind → String
  | .utf8 => "Utf8"
  | .classRef => "Class"

/-- Why a class does not load, a native method does not link, or a code
array is not replaced. -/
inductive Error where
  | malformedDescriptor (descriptor : String)
  | malformedExceptionTable (method : MethodRef) (position : Nat) (defect : HandlerDefect)
  | missingNativeBinding (method : MethodRef)
  | notNativeMethod (method : MethodRef)
  | malformedAttribute (name : String) (defect : AttributeDefect)
  | invalidConstantPoolIndex (index : UInt16) (expected : ConstantKind)
  | invalidModifiedUtf8 (index : UInt16)
deriving DecidableEq

/-- The wording of an error. -/
def Error.message : Error → String
  | .malformedDescriptor descriptor => "malformed descriptor " ++ Text.quote descriptor
  | .malformedExceptionTable method position defect =>
    s!"malformed exception table entry #{position} in {method.text}: {defect.message}"
  | .missingNativeBinding method => "no native binding registered for " ++ method.text
  | .notNativeMethod method => method.text ++ " is not a native method"
  | .malformedAttribute name defect =>
    s!"malformed {name} attribute: {defect.message}"
  | .invalidConstantPoolIndex index expected =>
    s!"constant pool entry #{index.toNat} is not a valid {expected.text}"
  | .invalidModifiedUtf8 index =>
    s!"constant pool entry #{index.toNat} is not valid modified UTF-8"

end MethodArea
