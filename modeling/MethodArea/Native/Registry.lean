/-
# `Native.Registry` — native implementations and where methods find them

An implementation is a function of the arguments and of the class it is
called for.  Registries do not hold implementations but their identities,
under the full names of the methods they are for; the same function
registered twice is two implementations.  One identity is set aside for
the implementation that does nothing, which answers the hooks of library
classes whatever is registered.
-/
import MethodArea.Class
import MethodArea.Native.Value
import MethodArea.Table

namespace MethodArea

/-- What a native implementation is called with. -/
structure Env where
  args : List Value
  cls : Class

/-- An argument by position. -/
def Env.arg (env : Env) (position : Nat) : Except Exception Value :=
  match env.args[position]? with
  | some v => .ok v
  | none => .error (.illegalArgument s!"missing argument #{position}")

/-- A native implementation. -/
abbrev Native : Type := Env → Except Exception (Option Value)

namespace Native

/-- The implementation that does nothing. -/
def noOp : Native := fun _ => .ok none

/-- The identity of the implementation that does nothing. -/
def noOpId : BindingId := 0

/-- The text of any bound implementation. -/
def bindingText : String := "<native method>"

end Native

/-- The implementations that are registered, by method name. -/
abbrev Registry : Type := Table MethodRef BindingId

namespace Registry

/-- The implementation that a native method finds. -/
def find (registry : Registry) (m : Method) : Option BindingId :=
  if m.isRegisterNatives || m.isInitIds then some Native.noOpId else registry.get? m.ref

end Registry

/-- A registry by name: the one of the whole process, or another one. -/
inductive RegistryName where
  | processWide
  | named (name : String)
deriving DecidableEq

end MethodArea
