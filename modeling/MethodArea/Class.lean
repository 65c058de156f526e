/-
# `Class` — loaded classes

A class is loaded from its file, its super class and its interfaces, which
are loaded already.  Anything wrong with the file fails the class as a
whole, and the first defect is the one reported: the constant pool comes
first, then the name, the fields and the methods, each list in order.

Links to other classes are identities.  A class may share its name with
others; its identity it shares with none.  Once it has one, all of its
fields and methods are made to point back at it.
-/
import MethodArea.Field
import MethodArea.Method.Loading

namespace MethodArea

/-- A loaded class. -/
structure Class where
  id : ClassId
  name : String
  flags : AccessFlags
  superClass : Option ClassId
  interfaces : List ClassId
  pool : ConstantPool
  fields : List Field
  methods : List Method
  instanceSlots : Nat
  staticSlots : Nat
deriving DecidableEq

namespace Class

/-! ## Loading -/

/-- The parts of a class that come before its methods. -/
structure Header where
  pool : ConstantPool
  name : String
  assigned : Field.Assigned
deriving DecidableEq

/-- The header of a class file. -/
def Header.ofFile (file : ClassFile) : Except Error Header := do
  let pool ← ConstantPool.ofRaw file.constants
  let name ← pool.className file.thisClass
  let fields ← file.fields.mapM (Field.ofInfo pool name)
  pure ⟨pool, name, Field.assignSlots 0 0 fields⟩

/-- The class of a file, under an identity of its own.  Method descriptors
are interned as they are come by, so those of a class that fails further on
stay interned. -/
def load (id : ClassId) (file : ClassFile) (superClass : Option ClassId)
    (interfaces : List ClassId) (s : Interner) : Except Error Class × Interner :=
  match Header.ofFile file with
  | .error e => (.error e, s)
  | .ok header =>
    match Method.loadAll header.pool header.name file.methods s with
    | (.error e, s) => (.error e, s)
    | (.ok methods, s) =>
      (.ok {
        id
        name := header.name
        flags := file.flags
        superClass
        interfaces
        pool := header.pool
        fields := header.assigned.fields.map (Field.pointBack id)
        methods := methods.map (Method.pointBack id)
        instanceSlots := header.assigned.instanceSlots
        staticSlots := header.assigned.staticSlots }, s)

/-! ## What a class answers -/

/-- The classes that a class names as its super class or an interface. -/
def links (c : Class) : List ClassId := c.superClass.toList ++ c.interfaces

/-- Whether the class is an interface. -/
def isInterface (c : Class) : Bool := c.flags.has AccessFlags.accInterface

/-- What stands before the last slash of the name; nothing without one. -/
def package (c : Class) : String :=
  String.ofList ((c.name.toList.reverse.dropWhile (· ≠ '/')).drop 1).reverse

/-- The position of the first method of a name and descriptor. -/
def findMethod? (c : Class) (name descriptor : String) : Option Nat :=
  c.methods.findIdx? (fun m => m.name = name && m.descriptor = descriptor)

/-- The first method of a name and descriptor. -/
def getMethod? (c : Class) (name descriptor : String) : Option Method :=
  c.methods.find? (fun m => m.name = name && m.descriptor = descriptor)

/-- The first field of a name and descriptor. -/
def getField? (c : Class) (name descriptor : String) : Option Field :=
  c.fields.find? (fun f => f.name = name && f.descriptor = descriptor)

/-- The position of the class initializer. -/
def classInitializer? (c : Class) : Option Nat :=
  c.methods.findIdx? Method.isClassInitializer

/-- The position of the entry point: the first method with its name and
descriptor, if that one is public and static. -/
def mainMethod? (c : Class) : Option Nat := do
  let position ← c.findMethod? Method.mainName Method.mainDescriptor
  let m ← c.methods[position]?
  if m.isPublic && m.isStatic then some position else none

/-- The class with another method in a given position. -/
def setMethod (c : Class) (position : Nat) (m : Method) : Class :=
  { c with methods := c.methods.set position m }

end Class

end MethodArea
