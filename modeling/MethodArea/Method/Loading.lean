/-
# `Method.Loading` — methods out of class file entries

The attributes of an entry are decoded first, then its name and its
descriptor are looked up and the descriptor is parsed, then the attributes
take effect in order.  Of several attributes that say the same thing the
last one counts, but each of them has to be right.

At the end a method must have code where it needs some and none where it
must not: native and abstract methods have none and all others have some,
except that a class initializer has some whatever its flags are.
-/
import MethodArea.Method.Basic

namespace MethodArea.Method

/-- The method of a member and its shared descriptor, before any attribute
has taken effect. -/
def bare (member : Member) (shared : SharedDescriptor) : Method where
  toMember := member
  shared
  stackSize := 0
  localSize := 0
  code := none
  handlers := .empty
  lines := none
  exceptions := none
  parameterAnnotations := none
  annotationDefault := none
  bound := none

/-- The method with what a `Code` attribute gives in place of what an
earlier one gave.  The line number tables inside the attribute make one
table, and without any there is none. -/
def addCode (pool : ConstantPool) (m : Method) (c : CodeAttribute Attribute) :
    Except Error Method := do
  let handlers ← ExceptionTable.ofRows m.ref pool c.code.length c.handlers
  pure { m with
    stackSize := c.maxStack
    localSize := c.maxLocals
    code := some ⟨c.code, 0⟩
    handlers
    lines := (Attribute.allLineRows? c.attributes).map LineTable.ofRows }

/-- The method once one more attribute has taken effect. -/
def addAttribute (pool : ConstantPool) (m : Method) : Attribute → Except Error Method
  | .code c => m.addCode pool c
  | .exceptions indices => do
    let names ← indices.mapM pool.className
    pure { m with exceptions := some names }
  | .parameterAnnotations data => .ok { m with parameterAnnotations := some data }
  | .annotationDefault data => .ok { m with annotationDefault := some data }
  | _ => .ok m

/-- The method, if it has code exactly where it should. -/
def checkCode (m : Method) : Except Error Method :=
  if m.isBodiless && m.code.isSome then
    .error (.malformedAttribute AttributeName.code.text (.unexpectedCode m.ref))
  else if !m.isBodiless && m.code.isNone then
    .error (.malformedAttribute AttributeName.code.text (.missingCode m.ref))
  else .ok m

/-- The method of a member, its shared descriptor and its decoded
attributes. -/
def build (pool : ConstantPool) (member : Member) (shared : SharedDescriptor)
    (attributes : List Attribute) : Except Error Method := do
  let m ← attributes.foldlM (addAttribute pool) (bare member shared)
  checkCode m

/-- The member of a method and its attributes. -/
def memberOfInfo (pool : ConstantPool) (className : String) (info : MemberInfo) :
    Except Error (Member × List Attribute) := do
  let attributes ← Attribute.decodeAll pool info.attributes
  let member ← Member.ofInfo pool className info attributes
  pure (member, attributes)

/-- The method that an entry of a class file describes.  Its descriptor is
interned even if something about the rest of the method is wrong. -/
def load (pool : ConstantPool) (className : String) (info : MemberInfo) (s : Interner) :
    Except Error Method × Interner :=
  match memberOfInfo pool className info with
  | .error e => (.error e, s)
  | .ok (member, attributes) =>
    match s.intern member.descriptor with
    | (.error e, s) => (.error e, s)
    | (.ok shared, s) => (build pool member shared attributes, s)

/-- The methods that the entries of a class file describe, up to the first
that is wrong. -/
def loadAll (pool : ConstantPool) (className : String) :
    List MemberInfo → Interner → Except Error (List Method) × Interner
  | [], s => (.ok [], s)
  | info :: infos, s =>
    match load pool className info s with
    | (.error e, s) => (.error e, s)
    | (.ok m, s) =>
      match loadAll pool className infos s with
      | (.error e, s) => (.error e, s)
      | (.ok ms, s) => (.ok (m :: ms), s)

end MethodArea.Method
