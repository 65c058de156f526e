/-
# `References` — strong counts, and what a class takes with it

A class exists for as long as there are strong references to it: those of
handles, and those of classes that exist to their super class and their
interfaces.  They are counted.  Dropping the last one destroys the class,
which then drops the references that it has itself, so that a whole chain
of classes may go (`drop`).

The classes are listed newest first, and a class refers to older ones only.
What a class drops therefore stands further down the list, and the cascade
recurses on the list.
-/
import MethodArea.Class
import MethodArea.Table

namespace MethodArea

/-- How many strong references there are to each class; to one that is not
listed there are none. -/
abbrev StrongCounts : Type := Table ClassId Nat

namespace StrongCounts

/-- The number of strong references to a class. -/
def of (strong : StrongCounts) (id : ClassId) : Nat := (strong.get? id).getD 0

/-- The counts with one reference more to a class. -/
def increment (strong : StrongCounts) (id : ClassId) : StrongCounts :=
  strong.insert id (strong.of id + 1)

/-- The counts with one reference fewer to a class. -/
def decrement (strong : StrongCounts) (id : ClassId) : StrongCounts :=
  strong.insert id (strong.of id - 1)

/-- The counts once a reference to a class is dropped.  If it was the last
one, the references that the class has itself are dropped as well, that to
its super class first. -/
def drop : List Class → ClassId → StrongCounts → StrongCounts
  | [], id, strong => strong.decrement id
  | c :: older, id, strong =>
    if c.id = id then
      let strong := strong.decrement id
      if strong.of id = 0 then c.links.foldl (fun strong link => drop older link strong) strong
      else strong
    else drop older id strong

end StrongCounts

end MethodArea
