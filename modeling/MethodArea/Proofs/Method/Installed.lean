/-
# `Proofs.Method.Installed` — code, handlers and binding of one method agree

What a `Code` attribute gives stands in five fields, which loading fills
one attribute after the other and replacing code touches again later.
`Settled` is what all ways to a method have in common once its attributes
have taken effect:

* without code the other four fields are empty;
* with code, every handler fits the code that stands there now.

`Installed` adds what the last check of loading asks for, code exactly
where the method is not bodiless, and that only a native method is bound.

The proofs follow the two ways.  Loading starts from a method with nothing
(`settled_bare`), goes through the attributes (`settled_addAttribute`) and
ends in the check.  Afterwards a method changes only as `Change` says, and
each such change keeps `Installed` (`Change.installed`).
-/
import MethodArea.Method.Cells
import MethodArea.Method.Loading
import MethodArea.Proofs.Handlers

namespace MethodArea

/-- A member knows the name of its class before it points back at it. -/
theorem Member.className_of_ofInfo {pool : ConstantPool} {className : String} {info : MemberInfo}
    {attributes : List Attribute} {member : Member}
    (h : ofInfo pool className info attributes = .ok member) : member.className = className := by
  obtain ⟨name, -, h⟩ := Except.bind_eq_ok_iff.1 h
  obtain ⟨descriptor, -, h⟩ := Except.bind_eq_ok_iff.1 h
  cases h
  rfl

namespace Method

/-- What the fields that a `Code` attribute fills have to do with each
other. -/
structure Settled (m : Method) : Prop where
  of_none : m.code = none →
    m.handlers = .empty ∧ m.stackSize = 0 ∧ m.localSize = 0 ∧ m.lines = none
  fits : ∀ c, m.code = some c → m.handlers.Fits c.bytes.length

/-- A method as it stands in a loaded class. -/
structure Installed (m : Method) : Prop extends Settled m where
  code_isSome : m.code.isSome = !m.isBodiless
  native_of_bound : m.bound.isSome → m.isNative

/-- To point back at a class makes no difference to the body. -/
theorem Installed.pointBack {m : Method} (h : m.Installed) (id : ClassId) :
    (m.pointBack id).Installed :=
  ⟨⟨h.of_none, h.fits⟩, h.code_isSome, h.native_of_bound⟩

/-! ## What an installed method answers -/

theorem isBodiless_eq_false_iff {m : Method} :
    m.isBodiless = false ↔
      (m.isNative = false ∧ m.isAbstract = false) ∨ m.name = classInitializerName := by
  simp only [isBodiless, Bool.and_eq_false_iff, Bool.or_eq_false_iff, bne_eq_false_iff_eq]

theorem Installed.code_isSome_iff {m : Method} (h : m.Installed) :
    m.code.isSome ↔
      (m.isNative = false ∧ m.isAbstract = false) ∨ m.name = classInitializerName := by
  rw [h.code_isSome, ← isBodiless_eq_false_iff, Bool.not_eq_true']

theorem Installed.lookup_lt {m : Method} (h : m.Installed) {accepts : String → Bool} {pc : Nat}
    {handler : UInt16} (hfound : m.handlers.lookup accepts pc = some handler) :
    ∃ c, m.code = some c ∧ pc < c.bytes.length ∧ handler.toNat < c.bytes.length := by
  cases hcode : m.code with
  | none =>
      rw [(h.of_none hcode).1] at hfound
      cases hfound
  | some c => exact ⟨c, rfl, ExceptionTable.lookup_lt (h.fits c hcode) hfound⟩

/-! ## Loading -/

theorem settled_bare (member : Member) (shared : SharedDescriptor) :
    Settled (bare member shared) :=
  ⟨fun _ => ⟨rfl, rfl, rfl, rfl⟩, fun _ h => by cases h⟩

theorem settled_addCode {pool : ConstantPool} {m m' : Method}
    {c : CodeAttribute Attribute}
    (h : m.addCode pool c = .ok m') : Settled m' := by
  obtain ⟨handlers, hrows, h⟩ := Except.bind_eq_ok_iff.1 h
  cases h
  refine ⟨?_, ?_⟩
  · intro hnone
    cases hnone
  · intro code hcode
    cases hcode
    exact ExceptionTable.fits_of_ofRows hrows

/-- An attribute either fills all five fields or leaves all five alone. -/
theorem settled_addAttribute {pool : ConstantPool} {m m' : Method} {a : Attribute}
    (hm : Settled m) (h : m.addAttribute pool a = .ok m') : Settled m' := by
  cases a with
  | code c => exact settled_addCode h
  | exceptions indices =>
      obtain ⟨names, -, h⟩ := Except.bind_eq_ok_iff.1 h
      cases h
      exact ⟨hm.of_none, hm.fits⟩
  | parameterAnnotations data =>
      cases h
      exact ⟨hm.of_none, hm.fits⟩
  | annotationDefault data =>
      cases h
      exact ⟨hm.of_none, hm.fits⟩
  | lineNumberTable _ | signature _ | constantValue _ | annotations _ | unknown =>
      cases h
      exact hm

/-- No attribute touches the member that the method is or its shared
descriptor, and none binds it. -/
theorem addAttribute_keeps {pool : ConstantPool} {m m' : Method} {a : Attribute}
    (h : m.addAttribute pool a = .ok m') :
    m'.toMember = m.toMember ∧ m'.shared = m.shared ∧ m'.bound = m.bound := by
  cases a with
  | code c =>
      obtain ⟨handlers, -, h⟩ := Except.bind_eq_ok_iff.1 h
      cases h
      exact ⟨rfl, rfl, rfl⟩
  | exceptions indices =>
      obtain ⟨names, -, h⟩ := Except.bind_eq_ok_iff.1 h
      cases h
      exact ⟨rfl, rfl, rfl⟩
  | parameterAnnotations _ | annotationDefault _ | lineNumberTable _ | signature _
  | constantValue _ | annotations _ | unknown =>
      cases h
      exact ⟨rfl, rfl, rfl⟩

theorem checkCode_eq_ok_iff {m m' : Method} :
    checkCode m = .ok m' ↔ m' = m ∧ m.code.isSome = !m.isBodiless := by
  simp only [checkCode]
  cases hbody : m.isBodiless <;> cases hcode : m.code <;> simp [eq_comm]

theorem build_eq_ok {pool : ConstantPool} {member : Member} {shared : SharedDescriptor}
    {attributes : List Attribute} {m : Method}
    (h : build pool member shared attributes = .ok m) :
    Installed m ∧ m.toMember = member ∧ m.shared = shared ∧ m.bound = none := by
  obtain ⟨m₀, hattributes, h⟩ := Except.bind_eq_ok_iff.1 h
  obtain ⟨rfl, hcode⟩ := checkCode_eq_ok_iff.1 h
  -- along the attributes: the fields agree, and nothing is bound yet
  have hstep : ∀ (m : Method) (a : Attribute) (m' : Method),
      Settled m ∧ m.toMember = member ∧ m.shared = shared ∧ m.bound = none →
      m.addAttribute pool a = .ok m' →
      Settled m' ∧ m'.toMember = member ∧ m'.shared = shared ∧ m'.bound = none := by
    rintro m a m' ⟨hm, hmember, hshared, hbound⟩ h
    obtain ⟨hmember', hshared', hbound'⟩ := addAttribute_keeps h
    exact ⟨settled_addAttribute hm h, hmember'.trans hmember, hshared'.trans hshared,
      hbound'.trans hbound⟩
  obtain ⟨hm, hmember, hshared, hbound⟩ :=
    Except.foldlM_induction hstep ⟨settled_bare member shared, rfl, rfl, rfl⟩ hattributes
  refine ⟨⟨hm, hcode, ?_⟩, hmember, hshared, hbound⟩
  intro hsome
  rw [hbound] at hsome
  cases hsome

theorem memberOfInfo_eq_ok_iff {pool : ConstantPool} {className : String}
    {info : MemberInfo} {member : Member} {attributes : List Attribute} :
    memberOfInfo pool className info = .ok (member, attributes) ↔
      Attribute.decodeAll pool info.attributes = .ok attributes ∧
        Member.ofInfo pool className info attributes = .ok member := by
  constructor
  · intro h
    obtain ⟨_, hdecode, h⟩ := Except.bind_eq_ok_iff.1 h
    obtain ⟨_, hmember, h⟩ := Except.bind_eq_ok_iff.1 h
    cases h
    exact ⟨hdecode, hmember⟩
  · rintro ⟨hdecode, hmember⟩
    exact Except.bind_eq_ok_iff.2 ⟨_, hdecode, Except.bind_eq_ok_iff.2 ⟨_, hmember, rfl⟩⟩

/-- A method is loaded if its attributes are right, its entry gives its member,
the value that its descriptor shares is interned, and its attributes build
it. -/
theorem load_eq_ok_iff {pool : ConstantPool} {className : String}
    {info : MemberInfo} {s s' : Interner} {m : Method} :
    load pool className info s = (.ok m, s') ↔
      ∃ attributes, Attribute.decodeAll pool info.attributes = .ok attributes ∧
        Member.ofInfo pool className info attributes = .ok m.toMember ∧
        s.intern m.descriptor = (.ok m.shared, s') ∧
        build pool m.toMember m.shared attributes = .ok m := by
  constructor
  · intro h
    simp only [load] at h
    split at h
    · cases h
    · next member attributes hinfo =>
        split at h
        · cases h
        · next shared s₁ hintern =>
            obtain ⟨hbuild, rfl⟩ := Prod.mk.inj h
            obtain ⟨-, rfl, rfl, -⟩ := build_eq_ok hbuild
            obtain ⟨hdecode, hmember⟩ := memberOfInfo_eq_ok_iff.1 hinfo
            exact ⟨attributes, hdecode, hmember, hintern, hbuild⟩
  · rintro ⟨attributes, hdecode, hmember, hintern, hbuild⟩
    rw [load, memberOfInfo_eq_ok_iff.2 ⟨hdecode, hmember⟩]
    dsimp only
    rw [hintern]
    exact congrArg (·, s') hbuild

theorem load_eq_ok {pool : ConstantPool} {className : String}
    {info : MemberInfo} {s s' : Interner} {m : Method}
    (h : load pool className info s = (.ok m, s')) :
    Installed m ∧ m.className = className ∧ m.bound = none := by
  obtain ⟨attributes, -, hmember, -, hbuild⟩ := load_eq_ok_iff.1 h
  obtain ⟨hinstalled, -, -, hbound⟩ := build_eq_ok hbuild
  exact ⟨hinstalled, Member.className_of_ofInfo hmember, hbound⟩

/-- The methods of a list are loaded from the entries in their places. -/
theorem forall₂_load_of_loadAll {pool : ConstantPool} {className : String}
    {infos : List MemberInfo} {s s' : Interner} {ms : List Method}
    (h : loadAll pool className infos s = (.ok ms, s')) :
    List.Forall₂ (fun info m => ∃ s₁ s₂, load pool className info s₁ = (.ok m, s₂))
      infos ms := by
  induction infos generalizing s ms with
  | nil =>
      cases h
      exact .nil
  | cons info infos ih =>
      rw [loadAll] at h
      split at h
      · cases h
      · next m s₁ hload =>
          split at h
          · cases h
          · next ms' s₂ hrest =>
              cases h
              exact .cons ⟨s, s₁, hload⟩ (ih hrest)

theorem load_of_loadAll {pool : ConstantPool} {className : String}
    {infos : List MemberInfo} {s s' : Interner} {ms : List Method}
    (h : loadAll pool className infos s = (.ok ms, s')) {i : Nat} {m : Method}
    (hm : ms[i]? = some m) :
    ∃ info s₁ s₂, infos[i]? = some info ∧
      load pool className info s₁ = (.ok m, s₂) := by
  have hall := forall₂_load_of_loadAll h
  obtain ⟨hlt, rfl⟩ := List.getElem?_eq_some_iff.1 hm
  have hinfo : i < infos.length := hall.length_eq ▸ hlt
  obtain ⟨s₁, s₂, hload⟩ := hall.get hinfo hlt
  exact ⟨infos[i], s₁, s₂, List.getElem?_eq_getElem hinfo, hload⟩

/-! ## Changes to a loaded method -/

/-- What may happen to a method after it is loaded: its code is replaced by
an array that its handlers fit, or, native and not bound yet, it is
bound. -/
inductive Change (m : Method) : Method → Prop
  | replaceCode {bytes : List UInt8} {m' : Method} :
      m.replaceCode bytes = .ok m' → Change m m'
  | bind {id : BindingId} : m.isNative → m.bound = none → Change m { m with bound := some id }

theorem replaceCode_eq_ok_iff {m m' : Method} {bytes : List UInt8} :
    m.replaceCode bytes = .ok m' ↔
      m.isBodiless = false ∧ m.handlers.Fits bytes.length ∧
        m' = { m with code := some ⟨bytes, m.code.elim 0 Code.revision + 1⟩ } := by
  have hvalidate : m.handlers.validate m.ref bytes.length = .ok () ↔
      m.handlers.Fits bytes.length := ExceptionTable.validate_eq_ok_iff
  rw [← hvalidate]
  simp only [replaceCode]
  cases hbody : m.isBodiless with
  | true => simp
  | false =>
      cases hvalid : m.handlers.validate m.ref bytes.length with
      | error e => simp
      | ok u => simp [eq_comm]

theorem Change.installed {m m' : Method} (hm : Installed m) (h : Change m m') :
    Installed m' := by
  cases h with
  | replaceCode h =>
      obtain ⟨hbody, hfits, rfl⟩ := replaceCode_eq_ok_iff.1 h
      refine ⟨⟨?_, ?_⟩, ?_, hm.native_of_bound⟩
      · intro hnone
        cases hnone
      · intro c hc
        cases hc
        exact hfits
      · exact (congrArg not hbody).symm
  | bind hnative hbound =>
      exact ⟨⟨hm.of_none, hm.fits⟩, hm.code_isSome, fun _ => hnative⟩

/-- A change is to the code or to the binding. -/
theorem Change.toMember {m m' : Method} (h : Change m m') : m'.toMember = m.toMember := by
  cases h with
  | replaceCode h =>
      obtain ⟨-, -, rfl⟩ := replaceCode_eq_ok_iff.1 h
      rfl
  | bind hnative hbound => rfl

theorem Change.handlers {m m' : Method} (h : Change m m') : m'.handlers = m.handlers := by
  cases h with
  | replaceCode h =>
      obtain ⟨-, -, rfl⟩ := replaceCode_eq_ok_iff.1 h
      rfl
  | bind hnative hbound => rfl

end Method

end MethodArea
