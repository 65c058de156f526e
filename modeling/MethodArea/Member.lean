/-
# `Member` — what fields and methods have in common

A member knows the class that it belongs to twice: by a weak reference to
the very class that was loaded, and by that class's name.  The reference
leads nowhere yet when the member is made out of its entry; the class sets
it once it has its identity.  Of the attributes that both kinds of member
may carry, a later one replaces an earlier one.
-/
import MethodArea.Attribute.Decoding

namespace MethodArea

/-- The identity of a loaded class; no two loads have the same. -/
abbrev ClassId : Type := Nat

/-- A weak reference to a class.  It does not count among the references
that keep the class, and it leads nowhere until it is set. -/
abbrev WeakRef : Type := Option ClassId

/-- A field or a method of a loaded class. -/
structure Member where
  owner : WeakRef
  className : String
  flags : AccessFlags
  name : String
  descriptor : String
  signature : Option String
  annotations : Option (List UInt8)
deriving DecidableEq

namespace Member

/-- The full text of a member's name. -/
def ref (m : Member) : MethodRef := ⟨m.className, m.name, m.descriptor⟩

/-- The member of a class that an entry of its file describes; the entry's
attributes are decoded already. -/
def ofInfo (pool : ConstantPool) (className : String) (info : MemberInfo)
    (attributes : List Attribute) : Except Error Member := do
  let name ← pool.utf8 info.nameIndex
  let descriptor ← pool.utf8 info.descriptorIndex
  pure {
    owner := none
    className
    flags := info.flags
    name
    descriptor
    signature := (attributes.filterMap Attribute.signature?).getLast?
    annotations := (attributes.filterMap Attribute.annotations?).getLast? }

open AccessFlags

def isPublic (m : Member) : Bool := m.flags.has accPublic
def isPrivate (m : Member) : Bool := m.flags.has accPrivate
def isProtected (m : Member) : Bool := m.flags.has accProtected
def isStatic (m : Member) : Bool := m.flags.has accStatic
def isFinal (m : Member) : Bool := m.flags.has accFinal
def isSynthetic (m : Member) : Bool := m.flags.has accSynthetic

end Member

end MethodArea
