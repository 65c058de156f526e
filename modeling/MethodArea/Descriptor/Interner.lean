/-
# `Descriptor.Interner` — one shared value per descriptor text

Descriptors repeat heavily across classes, so each text is parsed once.
An interner lists the texts it has seen with their values; the position in
that list is the identity of the shared value.  Texts are only ever added
at the end, and only with what parsing them gives, so an identity, once
given out, keeps its text and value for good.
-/
import MethodArea.Descriptor.Reader

namespace MethodArea

/-- A method descriptor shared by all that have its text. -/
structure SharedDescriptor where
  id : Nat
  value : MethodDescriptor
deriving DecidableEq

/-- The descriptor texts seen so far, oldest first. -/
structure Interner where
  entries : List (String × MethodDescriptor)
deriving DecidableEq

namespace Interner

/-- The interner that has seen nothing. -/
def empty : Interner := ⟨[]⟩

/-- The shared value of a text seen before. -/
def find? (s : Interner) (descriptor : String) : Option SharedDescriptor := do
  let id ← s.entries.findIdx? (fun e => e.1 = descriptor)
  let entry ← s.entries[id]?
  some ⟨id, entry.2⟩

/-- The shared value of a text, and the interner that has seen it.  A text
that does not parse leaves no trace. -/
def intern (s : Interner) (descriptor : String) : Except Error SharedDescriptor × Interner :=
  match s.find? descriptor with
  | some shared => (.ok shared, s)
  | none =>
    match MethodDescriptor.parse descriptor with
    | .ok value => (.ok ⟨s.entries.length, value⟩, ⟨s.entries ++ [(descriptor, value)]⟩)
    | .error e => (.error e, s)

end Interner

end MethodArea
