/-
# `Area.Linking` — loading classes and dropping them

Loading a class puts its handle on the new class.  What the handle named
before loses a reference, and may cease to exist with all that only it
held; the classes that the new one links to are held by it from then on.
It is given clones of the references that handles have, and a load that
fails gives them back; nothing has changed then but the interned
descriptors.

A class that exists only because others link to it can be had from these,
or from one of its own members, and so be given a handle of its own again.
-/
import MethodArea.Area.Basic
import MethodArea.Method.Cells

namespace MethodArea.Area

/-- The identities of the classes that handles name. -/
def idsOf (a : Area) (handles : List String) : Except Failure (List ClassId) :=
  handles.mapM (fun handle => Class.id <$> a.classOf handle)

/-- The identities that a load links to; the super class is looked up
first. -/
def linksOf (a : Area) (superClass : Option String) (interfaces : List String) :
    Except Failure (Option ClassId × List ClassId) := do
  let superIds ← a.idsOf superClass.toList
  let interfaceIds ← a.idsOf interfaces
  pure (superIds.head?, interfaceIds)

/-- Moves a strong reference into a handle, and drops the one that was
there. -/
def assign (a : Area) (handle : String) (id : ClassId) : Area :=
  let assigned := { a with handles := a.handles.insert handle id }
  match a.handles.get? handle with
  | none => assigned
  | some previous => assigned.drop previous

/-- The area with one class more, named by a handle.  The class has strong
references to what it links to, and the handle has the only one to it. -/
def add (a : Area) (handle : String) (c : Class) : Area :=
  let strong := c.links.foldl StrongCounts.increment a.strong
  assign { a with
    classes := c :: a.classes
    strong := strong.increment c.id
    nextClass := a.nextClass + 1 } handle c.id

/-- Loads a class file under a handle. -/
def load (a : Area) (handle : String) (file : ClassFile) (superClass : Option String)
    (interfaces : List String) : Except Failure Class × Area :=
  match a.linksOf superClass interfaces with
  | .error failure => (.error failure, a)
  | .ok (superId, interfaceIds) =>
    match Class.load a.nextClass file superId interfaceIds a.descriptors with
    | (.error e, descriptors) => (.error (.refused e), { a with descriptors })
    | (.ok c, descriptors) => (.ok c, add { a with descriptors } handle c)

/-- Puts a handle on a class that exists; answers whether it does. -/
def hold (a : Area) (handle : String) (id : ClassId) : Bool × Area :=
  match a.upgrade (some id) with
  | none => (false, a)
  | some c => (true, assign { a with strong := a.strong.increment c.id } handle c.id)

/-- Drops a handle; answers whether there was one. -/
def unload (a : Area) (handle : String) : Bool × Area :=
  match a.handles.get? handle with
  | none => (false, a)
  | some id => (true, drop { a with handles := a.handles.erase handle } id)

/-- Interns a method descriptor. -/
def intern (a : Area) (descriptor : String) : Except Error SharedDescriptor × Area :=
  match a.descriptors.intern descriptor with
  | (result, descriptors) => (result, { a with descriptors })

/-- Replaces the code of a method; answers the bytes it had before. -/
def replaceCode (a : Area) (handle : String) (position : Nat) (bytes : List UInt8) :
    Except Failure (Option (List UInt8)) × Area :=
  match a.methodOf handle position with
  | .error failure => (.error failure, a)
  | .ok (c, m) =>
    match m.replaceCode bytes with
    | .error e => (.error (.refused e), a)
    | .ok replaced => (.ok m.codeBytes, a.setMethod c.id position replaced)

end MethodArea.Area
