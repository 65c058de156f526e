/-
# `Native.Value` — what native implementations take, give and throw

A value has one of nine kinds.  Floating-point values are kept as their
bits, so that nothing about them is lost, the payload of a pattern that is
no number included.  Asking a value for another kind than its own throws
an exception that shows the value; floating-point values are shown by the
fewest digits that read back, positionally from 0.0001 up to below
10^16.
-/
import MethodArea.Decimal.Layout

namespace MethodArea

/-- What native code throws: an exception of the virtual machine, by class
and message, or an exception object of the program. -/
inductive Exception where
  | vm (type : String) (message : String)
  | user (id : UInt32)
deriving DecidableEq

/-- The exception for arguments that do not fit. -/
def Exception.illegalArgument (message : String) : Exception :=
  .vm "java/lang/IllegalArgumentException" message

/-- An argument or a result of native code. -/
inductive Value where
  | boolean (v : Bool)
  | byte (v : Int8)
  | char (v : UInt16)
  | short (v : Int16)
  | int (v : Int32)
  | long (v : Int64)
  | float (bits : UInt32)
  | double (bits : UInt64)
  | reference (id : UInt32)
deriving DecidableEq

namespace Value

/-- How floating-point values are laid out where a value is shown. -/
def layout : Decimal.Layout := ⟨-4, 16⟩

/-- The text of a value. -/
def text : Value → String
  | .boolean v => s!"Boolean({v})"
  | .byte v => s!"Byte({v.toInt})"
  | .char v => s!"Char({v.toNat})"
  | .short v => s!"Short({v.toInt})"
  | .int v => s!"Int({v.toInt})"
  | .long v => s!"Long({v.toInt})"
  | .float bits => "Float(" ++ Decimal.text layout .single bits.toNat ++ ")"
  | .double bits => "Double(" ++ Decimal.text layout .double bits.toNat ++ ")"
  | .reference id => s!"Reference({id.toNat})"

/-- The exception for a value of another kind than the one asked for. -/
def mismatch (asked : String) (v : Value) : Exception :=
  .illegalArgument s!"get_{asked}: invalid type {v.text}"

/-! ## Asking for a kind -/

def getBoolean : Value → Except Exception Bool
  | .boolean v => .ok v
  | v => .error (v.mismatch "boolean")

def getByte : Value → Except Exception Int8
  | .byte v => .ok v
  | v => .error (v.mismatch "byte")

def getChar : Value → Except Exception UInt16
  | .char v => .ok v
  | v => .error (v.mismatch "char")

def getShort : Value → Except Exception Int16
  | .short v => .ok v
  | v => .error (v.mismatch "short")

def getInt : Value → Except Exception Int32
  | .int v => .ok v
  | v => .error (v.mismatch "int")

def getLong : Value → Except Exception Int64
  | .long v => .ok v
  | v => .error (v.mismatch "long")

def getFloat : Value → Except Exception UInt32
  | .float bits => .ok bits
  | v => .error (v.mismatch "float")

def getDouble : Value → Except Exception UInt64
  | .double bits => .ok bits
  | v => .error (v.mismatch "double")

def getReference : Value → Except Exception UInt32
  | .reference id => .ok id
  | v => .error (v.mismatch "ref")

end Value

end MethodArea
