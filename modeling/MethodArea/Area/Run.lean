/-
# `Area.Run` — the operations on the area, one after another

`Operation` lists what can change an area, `step` answers one operation,
and `run` carries out a list of them.  An area is reachable when some run
from the empty one leads to it.
-/
import MethodArea.Area.Binding
import MethodArea.Area.Linking

namespace MethodArea.Area

/-- What can be asked of an area that may change it. -/
inductive Operation where
  | load (handle : String) (file : ClassFile) (superClass : Option String)
      (interfaces : List String)
  | hold (handle : String) (id : ClassId)
  | unload (handle : String)
  | intern (descriptor : String)
  | replaceCode (handle : String) (position : Nat) (bytes : List UInt8)
  | resolve (handle : String) (position : Nat) (registry : RegistryName)
  | register (registry : RegistryName) (key : MethodRef) (native : Native)
  | unregister (registry : RegistryName) (key : MethodRef)
  | registerNatives

/-- What an operation answers when it does not fail. -/
inductive Reply where
  | loaded (c : Class)
  | held (wasThere : Bool)
  | unloaded (wasThere : Bool)
  | interned (shared : SharedDescriptor)
  | replaced (previous : Option (List UInt8))
  | resolved (binding : BindingId)
  | registered (registration : Registration)
  | unregistered (previous : Option BindingId)
  | installed
deriving DecidableEq

/-- Carries out one operation. -/
def step (a : Area) : Operation → Except Failure Reply × Area
  | .load handle file superClass interfaces =>
    let (result, a) := a.load handle file superClass interfaces
    (.loaded <$> result, a)
  | .hold handle id =>
    let (wasThere, a) := a.hold handle id
    (.ok (.held wasThere), a)
  | .unload handle =>
    let (wasThere, a) := a.unload handle
    (.ok (.unloaded wasThere), a)
  | .intern descriptor =>
    let (result, a) := a.intern descriptor
    (.interned <$> result.mapError .refused, a)
  | .replaceCode handle position bytes =>
    let (result, a) := a.replaceCode handle position bytes
    (.replaced <$> result, a)
  | .resolve handle position registry =>
    let (result, a) := a.resolve handle position registry
    (result.bind (fun r => .resolved <$> r.outcome.mapError .refused), a)
  | .register registry key native =>
    let (registration, a) := a.register registry key native
    (.ok (.registered registration), a)
  | .unregister registry key =>
    let (previous, a) := a.unregister registry key
    (.ok (.unregistered previous), a)
  | .registerNatives => (.ok .installed, a.registerNatives)

/-- Carries out a list of operations. -/
def run (a : Area) (operations : List Operation) : Area :=
  operations.foldl (fun a op => (a.step op).2) a

/-- Some run from the empty area leads to this one. -/
def Reachable (a : Area) : Prop := ∃ operations, a = run empty operations

end MethodArea.Area
