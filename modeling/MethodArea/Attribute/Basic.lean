/-
# `Attribute.Basic` — attributes with their payload decoded

An attribute is told by its name.  Eight names are recognised; what an
attribute of another name holds is not looked at.  A `Code` attribute keeps
the attributes inside it, decoded as well and in order; what a method takes
from them is the rows of all line number tables together.
-/
import MethodArea.Attribute.Layout

namespace MethodArea

open Attribute

/-- The names of attributes that are recognised. -/
inductive AttributeName where
  | code
  | lineNumberTable
  | exceptions
  | signature
  | constantValue
  | annotations
  | parameterAnnotations
  | annotationDefault
deriving DecidableEq

/-- How an attribute name is written. -/
def AttributeName.text : AttributeName → String
  | .code => "Code"
  | .lineNumberTable => "LineNumberTable"
  | .exceptions => "Exceptions"
  | .signature => "Signature"
  | .constantValue => "ConstantValue"
  | .annotations => "RuntimeVisibleAnnotations"
  | .parameterAnnotations => "RuntimeVisibleParameterAnnotations"
  | .annotationDefault => "AnnotationDefault"

/-- The recognised names, in no particular order. -/
def AttributeName.all : List AttributeName :=
  [.code, .lineNumberTable, .exceptions, .signature, .constantValue, .annotations,
    .parameterAnnotations, .annotationDefault]

/-- The recognised name that a text is. -/
def AttributeName.ofText? (text : String) : Option AttributeName :=
  all.find? (fun name => name.text = text)

/-- The code of a method, as its attribute gives it, with the attributes
inside that one. -/
structure CodeAttribute (α : Type) where
  maxStack : UInt16
  maxLocals : UInt16
  code : List UInt8
  handlers : List HandlerRow
  attributes : List α
deriving DecidableEq

/-- An attribute with its payload decoded. -/
inductive Attribute where
  | code (code : CodeAttribute Attribute)
  | lineNumberTable (rows : List LineRow)
  | exceptions (indices : List UInt16)
  | signature (text : String)
  | constantValue (index : UInt16)
  | annotations (data : List UInt8)
  | parameterAnnotations (data : List UInt8)
  | annotationDefault (data : List UInt8)
  | unknown

namespace Attribute

/-! ## What an attribute says -/

/-- The generic signature that an attribute gives. -/
def signature? : Attribute → Option String
  | .signature text => some text
  | _ => none

/-- The annotation data that an attribute gives. -/
def annotations? : Attribute → Option (List UInt8)
  | .annotations data => some data
  | _ => none

/-- The index of the initial value that an attribute gives. -/
def constantValue? : Attribute → Option UInt16
  | .constantValue index => some index
  | _ => none

/-- The line rows of an attribute that is a line number table. -/
def lineRows? : Attribute → Option (List LineRow)
  | .lineNumberTable rows => some rows
  | _ => none

/-- The line rows of all line number tables together, if there is one. -/
def allLineRows? (attributes : List Attribute) : Option (List LineRow) :=
  match attributes.filterMap lineRows? with
  | [] => none
  | tables => some tables.flatten

end Attribute

end MethodArea
