/-
# `Area.Binding` — registering natives, binding methods to them, calling

A registration takes the place of an earlier one under the same name and
touches no method that is bound already.  A native method is bound by the
first look-up that finds something, against whichever registry is asked,
and every later resolution answers the same implementation without a
look-up.
-/
import MethodArea.Area.Basic
import MethodArea.Method.Cells

namespace MethodArea.Area

/-- What a registration answers: what stood there before, and the new
implementation. -/
structure Registration where
  previous : Option BindingId
  binding : BindingId
deriving DecidableEq

/-- Registers an implementation. -/
def register (a : Area) (name : RegistryName) (key : MethodRef) (native : Native) :
    Registration × Area :=
  let registry := a.registry name
  let binding := a.natives.length
  (⟨registry.get? key, binding⟩,
    { a with natives := a.natives ++ [native] }.setRegistry name (registry.insert key binding))

/-- Takes a registration back; answers what it was. -/
def unregister (a : Area) (name : RegistryName) (key : MethodRef) : Option BindingId × Area :=
  let registry := a.registry name
  (registry.get? key, a.setRegistry name (registry.erase key))

/-- Registers the built-in natives in the registry of the process. -/
def registerNatives (a : Area) : Area :=
  Native.builtIn.foldl (fun a (key, native) => (a.register .processWide key native).2) a

/-- What a resolution answers, and how many look-ups it took. -/
structure Resolution where
  outcome : Except Error BindingId
  lookups : Nat

/-- A look-up in a registry that counts how often it is used. -/
def countedFind (registry : Registry) (m : Method) : StateM Nat (Option BindingId) := do
  modify (· + 1)
  pure (registry.find m)

/-- Resolves a native method against a registry. -/
def resolve (a : Area) (handle : String) (position : Nat) (name : RegistryName) :
    Except Failure Resolution × Area :=
  match a.methodOf handle position with
  | .error failure => (.error failure, a)
  | .ok (c, m) =>
    match (m.resolve (countedFind (a.registry name))).run 0 with
    | ((outcome, resolved), lookups) =>
      (.ok ⟨outcome, lookups⟩, a.setMethod c.id position resolved)

/-- Calls an implementation for a class. -/
def invoke (a : Area) (binding : BindingId) (handle : String) (args : List Value) :
    Except Failure (Except Exception (Option Value)) :=
  match a.native? binding with
  | none => .error (.noBinding binding)
  | some native => do
    let c ← a.classOf handle
    pure (native ⟨args, c⟩)

end MethodArea.Area
