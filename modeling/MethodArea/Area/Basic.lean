/-
# `Area.Basic` — the method area

The method area holds the classes that exist, the handles by which they
are held, the strong counts, the native registries and the implementations
registered in them, and the descriptors interned so far.  A handle has a
strong reference to its class, and so has a class to its super class and
its interfaces.  The references that members have to their class are weak:
they are not counted, and can be followed as long as the class exists
(`upgrade`).

Identities are given out once: those of classes by counting loads, those
of implementations by their place in the list of all that were ever
registered.
-/
import MethodArea.Hierarchy
import MethodArea.Native.BuiltIn
import MethodArea.References

namespace MethodArea

/-- The state of the method area; classes are listed newest first. -/
structure Area where
  classes : List Class
  handles : Table String ClassId
  strong : StrongCounts
  registries : Table RegistryName Registry
  natives : List Native
  descriptors : Interner
  nextClass : ClassId

/-- Why an operation on the area fails: it names something that is not
there, or what it asks for is refused. -/
inductive Failure where
  | noClass (handle : String)
  | noMethod (position : Nat)
  | noBinding (id : BindingId)
  | refused (e : Error)
deriving DecidableEq

namespace Area

/-- The area before anything is loaded or registered. -/
def empty : Area where
  classes := []
  handles := .empty
  strong := .empty
  registries := .empty
  natives := [Native.noOp]
  descriptors := .empty
  nextClass := 0

/-! ## Looking things up -/

/-- The class of an identity, if it still exists. -/
def class? (a : Area) (id : ClassId) : Option Class := Hierarchy.class? a.classes id

/-- The class that a weak reference leads to: one with strong references. -/
def upgrade (a : Area) (ref : WeakRef) : Option Class :=
  ref.bind fun id => if a.strong.of id = 0 then none else a.class? id

/-- The class that a handle names. -/
def classOf (a : Area) (handle : String) : Except Failure Class :=
  match (a.handles.get? handle).bind a.class? with
  | some c => .ok c
  | none => .error (.noClass handle)

/-- The method in a position of the class that a handle names. -/
def methodOf (a : Area) (handle : String) (position : Nat) : Except Failure (Class × Method) := do
  let c ← a.classOf handle
  match c.methods[position]? with
  | some m => pure (c, m)
  | none => .error (.noMethod position)

/-- A registry; one that nothing was registered in is empty. -/
def registry (a : Area) (name : RegistryName) : Registry :=
  (a.registries.get? name).getD .empty

/-- The implementation of an identity. -/
def native? (a : Area) (id : BindingId) : Option Native := a.natives[id]?

/-- Whether a class has a given name, or some class that its links lead to
has. -/
def isSubclassOf (a : Area) (id : ClassId) (target : String) : Bool :=
  Hierarchy.isSubclassOf target a.classes id

/-- A code array as it is told apart from all others: by the method it
came to be in, and by the replacement that brought it there. -/
structure CodeArray where
  owner : ClassId
  position : Nat
  code : Code
deriving DecidableEq

/-- The code array that a method has now. -/
def codeArray (a : Area) (handle : String) (position : Nat) :
    Except Failure (Option CodeArray) := do
  let (c, m) ← a.methodOf handle position
  pure (m.code.map (CodeArray.mk c.id position))

/-- Whether two methods share their descriptor. -/
def sharesDescriptor (m n : Method) : Bool := m.shared.id == n.shared.id

/-! ## Changing parts of the area -/

/-- The area once a strong reference to a class is dropped, without the
classes that this destroys. -/
def drop (a : Area) (id : ClassId) : Area :=
  let strong := a.strong.drop a.classes id
  { a with strong, classes := a.classes.filter (fun c => 0 < strong.of c.id) }

/-- The area with another method in a position of a class. -/
def setMethod (a : Area) (id : ClassId) (position : Nat) (m : Method) : Area :=
  { a with classes := a.classes.map (fun c => if c.id = id then c.setMethod position m else c) }

/-- The area with another registry of a name. -/
def setRegistry (a : Area) (name : RegistryName) (registry : Registry) : Area :=
  { a with registries := a.registries.insert name registry }

end Area

end MethodArea
