/-
# `Proofs.Method.Effect` — what the attributes of a method come to

The attributes of a method take effect one after the other.  What they come
to can be said kind by kind:

    Code                all have to be right, the last one fills the body
    Exceptions          all have to be right, the last one counts
    the two kinds of    the last one counts
      annotation data
    any other           nothing

`Effects` gathers the effects of each kind in order, and `Method.after` has
the last ones.  A method after some effects and then some more is the method
after both (`after_append`), which carries the induction along the list:
`foldlM_addAttribute_eq_ok_iff`.  So attributes of different kinds are not
in each other's way, whether the method loads or not, and a new method has
the body of the last attribute that is code (`ofLast_foldlM`).
-/
import MethodArea.Method.Loading
import MethodArea.Proofs.Outcome

namespace MethodArea

namespace Attribute

/-! ## Effects by kind -/

/-- The code that an attribute gives. -/
def code? : Attribute → Option (CodeAttribute Attribute)
  | .code c => some c
  | _ => none

/-- The indices of the exceptions that an attribute lists. -/
def exceptions? : Attribute → Option (List UInt16)
  | .exceptions indices => some indices
  | _ => none

/-- The parameter annotation data that an attribute gives. -/
def parameterAnnotations? : Attribute → Option (List UInt8)
  | .parameterAnnotations data => some data
  | _ => none

/-- The data of the default value that an attribute gives. -/
def annotationDefault? : Attribute → Option (List UInt8)
  | .annotationDefault data => some data
  | _ => none

end Attribute

/-- What a `Code` attribute fills in. -/
structure Body where
  stackSize : UInt16
  localSize : UInt16
  code : Option Code
  handlers : ExceptionTable
  lines : Option LineTable

/-- The body that a `Code` attribute gives to a method. -/
def Body.ofCode (method : MethodRef) (pool : ConstantPool) (c : CodeAttribute Attribute) :
    Except Error Body := do
  let handlers ← ExceptionTable.ofRows method pool c.code.length c.handlers
  pure ⟨c.maxStack, c.maxLocals, some ⟨c.code, 0⟩, handlers,
    (Attribute.allLineRows? c.attributes).map LineTable.ofRows⟩

/-- The effects of attributes, those of each kind in order. -/
@[ext]
structure Effects where
  bodies : List Body
  exceptions : List (List String)
  parameterAnnotations : List (List UInt8)
  annotationDefaults : List (List UInt8)

namespace Effects

/-- The effects that attributes have on a method, if they are right. -/
def ofAttributes (method : MethodRef) (pool : ConstantPool) (attributes : List Attribute) :
    Except Error Effects := do
  let bodies ← (attributes.filterMap Attribute.code?).mapM (Body.ofCode method pool)
  let exceptions ← (attributes.filterMap Attribute.exceptions?).mapM (·.mapM pool.className)
  pure ⟨bodies, exceptions, attributes.filterMap Attribute.parameterAnnotations?,
    attributes.filterMap Attribute.annotationDefault?⟩

/-- Effects and more effects. -/
def append (e f : Effects) : Effects where
  bodies := e.bodies ++ f.bodies
  exceptions := e.exceptions ++ f.exceptions
  parameterAnnotations := e.parameterAnnotations ++ f.parameterAnnotations
  annotationDefaults := e.annotationDefaults ++ f.annotationDefaults

theorem ofAttributes_eq_ok_iff {method : MethodRef} {pool : ConstantPool}
    {attributes : List Attribute} {e : Effects} :
    ofAttributes method pool attributes = .ok e ↔
      (attributes.filterMap Attribute.code?).mapM (Body.ofCode method pool) = .ok e.bodies ∧
      (attributes.filterMap Attribute.exceptions?).mapM (·.mapM pool.className) =
        .ok e.exceptions ∧
      e.parameterAnnotations = attributes.filterMap Attribute.parameterAnnotations? ∧
      e.annotationDefaults = attributes.filterMap Attribute.annotationDefault? := by
  constructor
  · intro h
    obtain ⟨bodies, hbodies, h⟩ := Except.bind_eq_ok_iff.1 h
    obtain ⟨exceptions, hexceptions, h⟩ := Except.bind_eq_ok_iff.1 h
    cases h
    exact ⟨hbodies, hexceptions, rfl, rfl⟩
  · intro h
    obtain ⟨hbodies, hexceptions, hparameters, hdefaults⟩ := h
    refine Except.bind_eq_ok_iff.2 ⟨_, hbodies, Except.bind_eq_ok_iff.2 ⟨_, hexceptions, ?_⟩⟩
    rw [← hparameters, ← hdefaults]
    rfl

theorem ofAttributes_nil (method : MethodRef) (pool : ConstantPool) :
    ofAttributes method pool [] = .ok ⟨[], [], [], []⟩ := rfl

/-- The effects of the attributes in two lists, one behind the other. -/
theorem ofAttributes_append_eq_ok_iff {method : MethodRef} {pool : ConstantPool}
    {before after : List Attribute} {e : Effects} :
    ofAttributes method pool (before ++ after) = .ok e ↔
      ∃ e₁ e₂, ofAttributes method pool before = .ok e₁ ∧
        ofAttributes method pool after = .ok e₂ ∧ e = e₁.append e₂ := by
  simp only [ofAttributes_eq_ok_iff, List.filterMap_append, Except.mapM_append_eq_ok_iff]
  constructor
  · intro h
    obtain ⟨⟨b₁, b₂, hb₁, hb₂, hb⟩, ⟨x₁, x₂, hx₁, hx₂, hx⟩, hp, hd⟩ := h
    exact ⟨⟨b₁, x₁, _, _⟩, ⟨b₂, x₂, _, _⟩, ⟨hb₁, hx₁, rfl, rfl⟩, ⟨hb₂, hx₂, rfl, rfl⟩,
      Effects.ext hb hx hp hd⟩
  · intro h
    obtain ⟨e₁, e₂, ⟨hb₁, hx₁, hp₁, hd₁⟩, ⟨hb₂, hx₂, hp₂, hd₂⟩, rfl⟩ := h
    rw [← hp₁, ← hp₂, ← hd₁, ← hd₂]
    exact ⟨⟨_, _, hb₁, hb₂, rfl⟩, ⟨_, _, hx₁, hx₂, rfl⟩, rfl, rfl⟩

end Effects

namespace Method

/-! ## A method after some effects -/

/-- What a `Code` attribute has filled in. -/
def body (m : Method) : Body := ⟨m.stackSize, m.localSize, m.code, m.handlers, m.lines⟩

/-- The method with other parts where attributes have an effect. -/
def withParts (m : Method) (b : Body) (exceptions : Option (List String))
    (parameterAnnotations annotationDefault : Option (List UInt8)) : Method :=
  { m with
    stackSize := b.stackSize
    localSize := b.localSize
    code := b.code
    handlers := b.handlers
    lines := b.lines
    exceptions, parameterAnnotations, annotationDefault }

/-- The method after some effects: of each kind the last one counts. -/
def after (m : Method) (e : Effects) : Method :=
  m.withParts (e.bodies.getLast?.getD m.body) (e.exceptions.getLast?.or m.exceptions)
    (e.parameterAnnotations.getLast?.or m.parameterAnnotations)
    (e.annotationDefaults.getLast?.or m.annotationDefault)

theorem after_append (m : Method) (e f : Effects) :
    m.after (e.append f) = (m.after e).after f := by
  have hbodies : (e.bodies ++ f.bodies).getLast?.getD m.body =
      f.bodies.getLast?.getD (m.after e).body := by
    rw [List.getLast?_append]
    cases f.bodies.getLast? with
    | none => rfl
    | some _ => rfl
  have hlast : ∀ {α : Type} (xs ys : List α) (before : Option α),
      (xs ++ ys).getLast?.or before = ys.getLast?.or (xs.getLast?.or before) := by
    intro α xs ys before
    rw [List.getLast?_append, Option.or_assoc]
  rw [after, Effects.append, hbodies, hlast, hlast, hlast]
  rfl

/-! ## One attribute, then all -/

/-- What an attribute takes effect as is right, and the method is what it is
after that. -/
theorem addAttribute_eq_ok_iff {pool : ConstantPool} {m m' : Method} {a : Attribute} :
    m.addAttribute pool a = .ok m' ↔
      ∃ e, Effects.ofAttributes m.ref pool [a] = .ok e ∧ m' = m.after e := by
  cases a with
  | code c =>
      simp only [Effects.ofAttributes_eq_ok_iff]
      constructor
      · intro h
        obtain ⟨handlers, hrows, h⟩ := Except.bind_eq_ok_iff.1 h
        cases h
        have hbody : Body.ofCode m.ref pool c = .ok ⟨c.maxStack, c.maxLocals, some ⟨c.code, 0⟩,
            handlers, (Attribute.allLineRows? c.attributes).map LineTable.ofRows⟩ :=
          Except.bind_eq_ok_iff.2 ⟨handlers, hrows, rfl⟩
        have hbodies := Except.mapM_singleton_eq_ok_iff.2 ⟨_, hbody, rfl⟩
        exact ⟨⟨[_], [], [], []⟩, ⟨hbodies, rfl, rfl, rfl⟩, rfl⟩
      · intro h
        obtain ⟨⟨bodies, exceptions, _, _⟩, ⟨hbodies, hexceptions, rfl, rfl⟩, rfl⟩ := h
        obtain ⟨b, hb, rfl⟩ := Except.mapM_singleton_eq_ok_iff.1 hbodies
        obtain ⟨handlers, hrows, hb⟩ := Except.bind_eq_ok_iff.1 hb
        cases hb
        cases hexceptions
        exact Except.bind_eq_ok_iff.2 ⟨handlers, hrows, rfl⟩
  | exceptions indices =>
      simp only [Effects.ofAttributes_eq_ok_iff]
      constructor
      · intro h
        obtain ⟨names, hnames, h⟩ := Except.bind_eq_ok_iff.1 h
        cases h
        refine ⟨⟨[], [names], [], []⟩, ⟨rfl, ?_, rfl, rfl⟩, rfl⟩
        exact Except.mapM_singleton_eq_ok_iff.2 ⟨names, hnames, rfl⟩
      · intro h
        obtain ⟨⟨bodies, exceptions, _, _⟩, ⟨hbodies, hexceptions, rfl, rfl⟩, rfl⟩ := h
        obtain ⟨names, hnames, rfl⟩ := Except.mapM_singleton_eq_ok_iff.1 hexceptions
        cases hbodies
        exact Except.bind_eq_ok_iff.2 ⟨names, hnames, rfl⟩
  | parameterAnnotations _ | annotationDefault _ | lineNumberTable _ | signature _
  | constantValue _ | annotations _ | unknown =>
      constructor
      · intro h
        cases h
        exact ⟨_, rfl, rfl⟩
      · intro h
        obtain ⟨e, he, rfl⟩ := h
        cases he
        rfl

/-- Attributes take effect exactly if their effects are right, and the
method is then what it is after these. -/
theorem foldlM_addAttribute_eq_ok_iff {pool : ConstantPool} {attributes : List Attribute}
    {m m' : Method} :
    attributes.foldlM (addAttribute pool) m = .ok m' ↔
      ∃ e, Effects.ofAttributes m.ref pool attributes = .ok e ∧ m' = m.after e := by
  induction attributes generalizing m with
  | nil =>
      rw [List.foldlM_nil, Effects.ofAttributes_nil]
      constructor
      · intro h
        cases h
        exact ⟨_, rfl, rfl⟩
      · intro h
        obtain ⟨e, he, rfl⟩ := h
        cases he
        rfl
  | cons a attributes ih =>
      rw [List.foldlM_cons, Except.bind_eq_ok_iff]
      have hcons : a :: attributes = [a] ++ attributes := rfl
      rw [hcons]
      simp only [Effects.ofAttributes_append_eq_ok_iff, addAttribute_eq_ok_iff, ih]
      constructor
      · intro h
        obtain ⟨_, ⟨e, he, rfl⟩, f, hf, rfl⟩ := h
        exact ⟨_, ⟨e, f, he, hf, rfl⟩, (after_append m e f).symm⟩
      · intro h
        obtain ⟨_, ⟨e, f, he, hf, rfl⟩, rfl⟩ := h
        exact ⟨_, ⟨e, he, rfl⟩, f, hf, after_append m e f⟩

end Method

/-! ## The last body -/

/-- The body of a method without code. -/
def Body.empty : Body := ⟨0, 0, none, .empty, none⟩

/-- A body is that of the last of some codes, or empty if there are none. -/
def Body.OfLast (method : MethodRef) (pool : ConstantPool) (codes : List (CodeAttribute Attribute))
    (b : Body) : Prop :=
  match codes.getLast? with
  | some c => Body.ofCode method pool c = .ok b
  | none => b = .empty

theorem Body.ofLast_code_isSome_iff {method : MethodRef} {pool : ConstantPool}
    {codes : List (CodeAttribute Attribute)} {b : Body} (h : b.OfLast method pool codes) :
    b.code.isSome = true ↔ codes ≠ [] := by
  unfold OfLast at h
  split at h
  · next c hlast =>
      have hne : codes ≠ [] := by
        intro hnil
        rw [hnil] at hlast
        cases hlast
      obtain ⟨handlers, -, hbody⟩ := Except.bind_eq_ok_iff.1 h
      cases hbody
      exact ⟨fun _ => hne, fun _ => rfl⟩
  · next hlast =>
      rw [h, List.getLast?_eq_none_iff.1 hlast]
      simp [empty]

/-- Once all attributes of a new method have taken effect, it has the body of
the last one that is code. -/
theorem Method.ofLast_foldlM {pool : ConstantPool} {member : Member} {shared : SharedDescriptor}
    {attributes : List Attribute} {m : Method}
    (h : attributes.foldlM (addAttribute pool) (bare member shared) = .ok m) :
    m.body.OfLast m.ref pool (attributes.filterMap Attribute.code?) := by
  obtain ⟨e, he, rfl⟩ := foldlM_addAttribute_eq_ok_iff.1 h
  have hbodies := Except.mapM_eq_ok_iff.1 (Effects.ofAttributes_eq_ok_iff.1 he).1
  have hlast := congrArg List.getLast? hbodies
  rw [List.getLast?_map, List.getLast?_map] at hlast
  show Body.OfLast _ _ _ (e.bodies.getLast?.getD Body.empty)
  unfold Body.OfLast
  split
  · next c hc =>
      rw [hc] at hlast
      obtain ⟨b, hb, hcode⟩ := Option.map_eq_some_iff.1 hlast.symm
      rw [hb]
      exact hcode.symm
  · next hnone =>
      rw [hnone] at hlast
      rw [Option.map_eq_none_iff.1 hlast.symm]
      rfl

end MethodArea
