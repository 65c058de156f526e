/-
# `Field` — fields and the slots they live in

A class has two spaces of slots, one for its static fields and one for the
fields of its instances.  Each field takes the next free slots of its
space, in declaration order: two for `long` and `double`, one for any
other type, arrays of the two included.  Where the next free slot of a
space is once all fields have theirs, is the size of that space.
-/
import MethodArea.Descriptor.Reader
import MethodArea.Member

namespace MethodArea

/-- A field of a loaded class. -/
structure Field extends Member where
  type : FieldType
  constantIndex : Option UInt16
  slot : Nat
deriving DecidableEq

namespace Field

open AccessFlags

def isVolatile (f : Field) : Bool := f.flags.has accVolatile
def isTransient (f : Field) : Bool := f.flags.has accTransient
def isEnum (f : Field) : Bool := f.flags.has accEnum

/-- The number of slots that a field takes. -/
def slotSize (f : Field) : Nat := f.type.slots

/-- The field that an entry of a class file describes, before it has its
slots.  Of several initial values the first one counts. -/
def ofInfo (pool : ConstantPool) (className : String) (info : MemberInfo) :
    Except Error Field := do
  let attributes ← Attribute.decodeAll pool info.attributes
  let member ← Member.ofInfo pool className info attributes
  let type ← FieldType.parse member.descriptor
  pure {
    toMember := member
    type
    constantIndex := (attributes.filterMap Attribute.constantValue?).head?
    slot := 0 }

/-- The field, pointing back at its class. -/
def pointBack (id : ClassId) (f : Field) : Field := { f with owner := some id }

/-- Fields that have their slots, and the sizes of the two spaces. -/
structure Assigned where
  fields : List Field
  instanceSlots : Nat
  staticSlots : Nat
deriving DecidableEq

/-- One field more, in front of the others. -/
def Assigned.cons (f : Field) (assigned : Assigned) : Assigned :=
  { assigned with fields := f :: assigned.fields }

/-- The fields with their slots, from the next free slot of either space
on. -/
def assignSlots (nextInstance nextStatic : Nat) : List Field → Assigned
  | [] => ⟨[], nextInstance, nextStatic⟩
  | f :: fs =>
    if f.isStatic then
      (assignSlots nextInstance (nextStatic + f.slotSize) fs).cons { f with slot := nextStatic }
    else
      (assignSlots (nextInstance + f.slotSize) nextStatic fs).cons { f with slot := nextInstance }

end Field

end MethodArea
