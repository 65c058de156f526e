/-
# `ClassFile` — class files as their decoder hands them over

Indices stand as they do in the file: constant pool indices count from
one, and zero points nowhere.  Attribute payloads are still bytes.  Only
what loading a class looks at is kept.
-/
import MethodArea.AccessFlags
import MethodArea.Text.ModifiedUtf8

namespace MethodArea

/-- An entry of a constant pool.  `τ` is what a text entry holds and `ν`
what the entries hold that name something by a text entry; symbolic
references stay indices throughout. -/
inductive Constant (τ ν : Type) where
  | utf8 (text : τ)
  | integer (value : Int32)
  | float (bits : UInt32)
  | long (value : Int64)
  | double (bits : UInt64)
  | classRef (name : ν)
  | string (text : ν)
  | fieldRef (classIndex nameAndTypeIndex : UInt16)
  | methodRef (classIndex nameAndTypeIndex : UInt16)
  | interfaceMethodRef (classIndex nameAndTypeIndex : UInt16)
  | nameAndType (nameIndex descriptorIndex : UInt16)
  | methodHandle (kind : UInt8) (index : UInt16)
  | methodType (descriptorIndex : UInt16)
  | dynamic (bootstrapIndex nameAndTypeIndex : UInt16)
  | invokeDynamic (bootstrapIndex nameAndTypeIndex : UInt16)
  | moduleRef (name : ν)
  | packageRef (name : ν)
  | empty
deriving DecidableEq

/-- An entry as it is written: text as bytes, names as indices. -/
abbrev RawConstant : Type := Constant (List UInt8) UInt16

/-- The text entry that holds a text. -/
def RawConstant.ofText (text : String) : RawConstant := .utf8 (Text.ModifiedUtf8.encode text)

/-- An attribute: the index of its name, and its payload. -/
structure AttributeInfo where
  nameIndex : UInt16
  info : List UInt8
deriving DecidableEq

/-- A field or a method. -/
structure MemberInfo where
  flags : AccessFlags
  nameIndex : UInt16
  descriptorIndex : UInt16
  attributes : List AttributeInfo
deriving DecidableEq

/-- A class file. -/
structure ClassFile where
  constants : List RawConstant
  flags : AccessFlags
  thisClass : UInt16
  fields : List MemberInfo
  methods : List MemberInfo
deriving DecidableEq

end MethodArea
