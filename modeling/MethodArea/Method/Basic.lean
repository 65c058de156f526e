/-
# `Method.Basic` — methods and what they answer

What the `Code` attribute of a method gives stands in five fields: the
sizes of a frame, the code array, the handlers and the line table.  A
method whose class file entry has no such attribute has no code array, and
the other four are empty.

Two things about a loaded method can change: its code array, which has a
revision number so that two arrays with the same bytes are still told
apart, and the native implementation that it is bound to.
-/
import MethodArea.Descriptor.Interner
import MethodArea.ExceptionTable
import MethodArea.LineTable
import MethodArea.Member

namespace MethodArea

/-- The identity of a native implementation. -/
abbrev BindingId : Type := Nat

/-- A code array; `revision` counts the replacements it came by. -/
structure Code where
  bytes : List UInt8
  revision : Nat
deriving DecidableEq

/-- A method of a loaded class. -/
structure Method extends Member where
  shared : SharedDescriptor
  stackSize : UInt16
  localSize : UInt16
  code : Option Code
  handlers : ExceptionTable
  lines : Option LineTable
  exceptions : Option (List String)
  parameterAnnotations : Option (List UInt8)
  annotationDefault : Option (List UInt8)
  bound : Option BindingId
deriving DecidableEq

namespace Method

/-! ## Names and flags -/

def constructorName : String := "<init>"
def classInitializerName : String := "<clinit>"
def registerNativesName : String := "registerNatives"
def initIdsName : String := "initIDs"
def mainName : String := "main"
def mainDescriptor : String := "([Ljava/lang/String;)V"
def noArgVoidDescriptor : String := "()V"

open AccessFlags

def isSynchronized (m : Method) : Bool := m.flags.has accSynchronized
def isNative (m : Method) : Bool := m.flags.has accNative
def isAbstract (m : Method) : Bool := m.flags.has accAbstract
def isVarargs (m : Method) : Bool := m.flags.has accVarargs
def isBridge (m : Method) : Bool := m.flags.has accBridge
def isStrict (m : Method) : Bool := m.flags.has accStrict

/-- Whether the method is static, has a given name, takes nothing and
gives nothing. -/
def isStaticNoArgVoid (m : Method) (name : String) : Bool :=
  m.isStatic && m.name == name && m.descriptor == noArgVoidDescriptor

def isConstructor (m : Method) : Bool := !m.isStatic && m.name == constructorName
def isClassInitializer (m : Method) : Bool := m.isStaticNoArgVoid classInitializerName

/-- The hooks by which library classes install their natives. -/
def isRegisterNatives (m : Method) : Bool := m.isStaticNoArgVoid registerNativesName
def isInitIds (m : Method) : Bool := m.isStaticNoArgVoid initIdsName

/-- Native and abstract methods have no body, class initializers
always do. -/
def isBodiless (m : Method) : Bool :=
  (m.isNative || m.isAbstract) && m.name != classInitializerName

/-- The method, pointing back at its class. -/
def pointBack (id : ClassId) (m : Method) : Method := { m with owner := some id }

/-! ## What a method answers -/

/-- The full text of a method's name. -/
def text (m : Method) : String := m.ref.text

/-- The types of the parameters and of the result. -/
def parsedDescriptor (m : Method) : MethodDescriptor := m.shared.value

/-- Whether the method has no result. -/
def isVoid (m : Method) : Bool := m.parsedDescriptor.isVoid

/-- The slots of the declared parameters. -/
def argSlots (m : Method) : Nat := m.parsedDescriptor.argSlots

/-- The slots of the parameters, with the receiver of an instance
method. -/
def actualArgSlots (m : Method) : Nat := if m.isStatic then m.argSlots else m.argSlots + 1

/-- The operand stack that a frame needs. -/
def maxStack (m : Method) : Nat := m.stackSize.toNat

/-- The local variables that a frame needs. -/
def maxLocals (m : Method) : Nat := m.localSize.toNat

/-- The bytes of the code array. -/
def codeBytes (m : Method) : Option (List UInt8) := m.code.map Code.bytes

/-- The source line at a program counter of the code. -/
def sourceLine (m : Method) (pc : Nat) : SourceLine :=
  if m.isNative then .nativeMethod
  else
    match m.lines with
    | none => .noLineTable
    | some table =>
      if m.codeBytes.elim 0 List.length ≤ pc then .outOfRange
      else
        match table.line? pc with
        | some line => .found line
        | none => .outOfRange

end Method

end MethodArea
