/-
# `Hierarchy` — super classes and interfaces

The classes that exist are listed newest first.  A class only names older
ones as its super class or interface, so a walk along these links never
turns back in the list, and recursion on the list follows every path.
Classes are compared by name at the end of a path: two classes may have
the same name, and either one counts.

`Reaches` is the relation that the walk decides: zero or more steps, each
to the super class or to an interface.
-/
import MethodArea.Class

namespace MethodArea.Hierarchy

/-- The class of an identity. -/
def class? (classes : List Class) (id : ClassId) : Option Class :=
  classes.find? (fun c => c.id = id)

/-- The links of a class lead from one identity to another. -/
def Links (classes : List Class) (a b : ClassId) : Prop :=
  ∃ c, class? classes a = some c ∧ b ∈ c.links

/-- A path of links. -/
inductive Reaches (classes : List Class) : ClassId → ClassId → Prop
  | refl (a : ClassId) : Reaches classes a a
  | step {a b d : ClassId} : Links classes a b → Reaches classes b d → Reaches classes a d

/-- Whether a class has a given name, or some class that its links lead to
has. -/
def isSubclassOf (target : String) : List Class → ClassId → Bool
  | [], _ => false
  | c :: older, id =>
    if c.id = id then
      c.name == target || c.interfaces.any (isSubclassOf target older) ||
        c.superClass.any (isSubclassOf target older)
    else isSubclassOf target older id

end MethodArea.Hierarchy
