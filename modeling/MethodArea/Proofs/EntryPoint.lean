/-
# `Proofs.EntryPoint` — the entry point and the initializer of a class

A class file may declare any number of methods of one name and descriptor,
and of the methods of a loaded class the first one counts:

    initializer    the first that is static and has the name `<clinit>` and
                   the descriptor `()V`
    entry point    the first that has the name `main` and the descriptor
                   `([Ljava/lang/String;)V`, if it is public and static

The initializer is searched for by all that makes it one, so it is found if
there is one.  The entry point is searched for by name and descriptor, and
the flags of what was found are looked at after that.  A method that has
that name and descriptor and is not public or not static hides all that
come after it, an entry point among them too.

`entry_point_found_iff` says that nothing else goes wrong: the first entry
point of a file is found exactly if no method of its name and descriptor
comes before it.  `hidden_entry_point_missed` is a file where one does.
-/
import Mathlib
import MethodArea.Proofs.Area.Order
import MethodArea.Proofs.Method.Installed

namespace MethodArea

/-! ## First positions -/

/-- Something holds in a position of a list. -/
def HoldsAt {α : Type} (p : α → Prop) (xs : List α) (i : Nat) : Prop :=
  ∃ x, xs[i]? = some x ∧ p x

/-- Something holds in a position of a list, and in none before it. -/
structure FirstAt {α : Type} (p : α → Prop) (xs : List α) (i : Nat) : Prop where
  here : HoldsAt p xs i
  before : ∀ j < i, ¬ HoldsAt p xs j

section Positions

variable {α β : Type} {p q : α → Prop} {xs : List α} {i j : Nat}

theorem HoldsAt.imp (h : HoldsAt p xs i) (hpq : ∀ x, p x → q x) : HoldsAt q xs i := by
  obtain ⟨x, hx, hpx⟩ := h
  exact ⟨x, hx, hpq x hpx⟩

theorem FirstAt.unique (hi : FirstAt p xs i) (hj : FirstAt p xs j) : i = j := by
  rcases Nat.lt_trichotomy i j with hlt | heq | hgt
  · exact absurd hi.here (hj.before i hlt)
  · exact heq
  · exact absurd hj.here (hi.before j hgt)

/-- Where something holds, it has held for the first time there or before. -/
theorem HoldsAt.exists_firstAt (h : HoldsAt p xs i) : ∃ k ≤ i, FirstAt p xs k := by
  classical
  have hex : ∃ i, HoldsAt p xs i := ⟨i, h⟩
  refine ⟨Nat.find hex, Nat.find_min' hex h, Nat.find_spec hex, ?_⟩
  intro j hj
  exact Nat.find_min hex hj

theorem exists_firstAt_iff : (∃ i, FirstAt p xs i) ↔ ∃ x ∈ xs, p x := by
  constructor
  · rintro ⟨i, ⟨x, hx, hpx⟩, -⟩
    exact ⟨x, List.mem_of_getElem? hx, hpx⟩
  · rintro ⟨x, hmem, hpx⟩
    obtain ⟨i, hx⟩ := List.mem_iff_getElem?.1 hmem
    obtain ⟨k, -, hk⟩ := HoldsAt.exists_firstAt ⟨x, hx, hpx⟩
    exact ⟨k, hk⟩

/-- A search for what can be tested finds the first position. -/
theorem findIdx?_eq_some_iff_firstAt {test : α → Bool} (h : ∀ x, test x = true ↔ p x) :
    xs.findIdx? test = some i ↔ FirstAt p xs i := by
  rw [List.findIdx?_eq_some_iff_getElem]
  constructor
  · rintro ⟨hlt, htest, hbefore⟩
    refine ⟨⟨xs[i], List.getElem?_eq_getElem hlt, (h _).1 htest⟩, ?_⟩
    rintro j hj ⟨x, hx, hpx⟩
    obtain ⟨hjlt, rfl⟩ := List.getElem?_eq_some_iff.1 hx
    exact hbefore j hj ((h _).2 hpx)
  · rintro ⟨⟨x, hx, hpx⟩, hbefore⟩
    obtain ⟨hlt, rfl⟩ := List.getElem?_eq_some_iff.1 hx
    refine ⟨hlt, (h _).2 hpx, ?_⟩
    intro j hj htest
    exact hbefore j hj ⟨_, List.getElem?_eq_getElem _, (h _).1 htest⟩

/-- Positions of two lists that go together place by place. -/
theorem holdsAt_iff_of_forall₂ {R : β → α → Prop} {ys : List β} {q : β → Prop}
    (h : List.Forall₂ R ys xs) (hpq : ∀ y x, R y x → (q y ↔ p x)) (i : Nat) :
    HoldsAt q ys i ↔ HoldsAt p xs i := by
  induction h generalizing i with
  | nil => simp [HoldsAt]
  | cons hR _ ih =>
      cases i with
      | zero => simpa [HoldsAt] using hpq _ _ hR
      | succ i => simpa [HoldsAt] using ih i

theorem firstAt_congr {ys : List β} {q : β → Prop} (h : ∀ i, HoldsAt q ys i ↔ HoldsAt p xs i) :
    FirstAt q ys i ↔ FirstAt p xs i := by
  constructor
  · rintro ⟨hhere, hbefore⟩
    exact ⟨(h i).1 hhere, fun j hj hpj => hbefore j hj ((h j).2 hpj)⟩
  · rintro ⟨hhere, hbefore⟩
    exact ⟨(h i).2 hhere, fun j hj hqj => hbefore j hj ((h j).1 hqj)⟩

/-- Of what is looked for in two stages, the first is found exactly if nothing
that passes the first stage only comes before it. -/
theorem firstAt_and_holdsAt_iff (hpq : ∀ x, p x → q x) :
    (∀ i, FirstAt q xs i ∧ HoldsAt p xs i ↔ FirstAt p xs i) ↔
      ¬ ∃ i j, i < j ∧ FirstAt q xs i ∧ FirstAt p xs j := by
  constructor
  · rintro hall ⟨i, j, hlt, hi, hj⟩
    exact absurd (hi.unique ((hall j).2 hj).1) (Nat.ne_of_lt hlt)
  · intro hno i
    constructor
    · rintro ⟨hfirst, hhere⟩
      exact ⟨hhere, fun j hj hpj => hfirst.before j hj (hpj.imp hpq)⟩
    · intro hfirst
      obtain ⟨k, hk, hfirst'⟩ := (hfirst.here.imp hpq).exists_firstAt
      rcases Nat.lt_or_eq_of_le hk with hlt | rfl
      · exact absurd ⟨k, i, hlt, hfirst', hfirst⟩ hno
      · exact ⟨hfirst', hfirst.here⟩

end Positions

/-! ## Entries and their methods -/

namespace MemberInfo

/-- The name and the descriptor of an entry. -/
def Named (pool : ConstantPool) (name descriptor : String) (info : MemberInfo) : Prop :=
  pool.utf8 info.nameIndex = .ok name ∧ pool.utf8 info.descriptorIndex = .ok descriptor

/-- An entry has the name and the descriptor of an entry point. -/
def NamedMain (pool : ConstantPool) (info : MemberInfo) : Prop :=
  info.Named pool "main" "([Ljava/lang/String;)V"

/-- An entry declares an entry point. -/
def IsEntryPoint (pool : ConstantPool) (info : MemberInfo) : Prop :=
  info.NamedMain pool ∧ info.flags.has AccessFlags.accPublic ∧
    info.flags.has AccessFlags.accStatic

/-- An entry declares a class initializer. -/
def IsInitializer (pool : ConstantPool) (info : MemberInfo) : Prop :=
  info.Named pool "<clinit>" "()V" ∧ info.flags.has AccessFlags.accStatic

end MemberInfo

namespace Method

/-- A method has the flags, the name and the descriptor of an entry. -/
structure OfEntry (pool : ConstantPool) (info : MemberInfo) (m : Method) : Prop where
  flags : m.flags = info.flags
  name : pool.utf8 info.nameIndex = .ok m.name
  descriptor : pool.utf8 info.descriptorIndex = .ok m.descriptor

theorem ofEntry_of_load {pool : ConstantPool} {className : String}
    {info : MemberInfo} {s s' : Interner} {m : Method}
    (h : load pool className info s = (.ok m, s')) : OfEntry pool info m := by
  obtain ⟨attributes, -, hmember, -, -⟩ := load_eq_ok_iff.1 h
  obtain ⟨name, hname, hmember⟩ := Except.bind_eq_ok_iff.1 hmember
  obtain ⟨descriptor, hdescriptor, hmember⟩ := Except.bind_eq_ok_iff.1 hmember
  have hm := Except.ok.inj hmember
  refine ⟨?_, ?_, ?_⟩
  · rw [← hm]
  · rw [← hm]
    exact hname
  · rw [← hm]
    exact hdescriptor

/-- Flags, name and descriptor do not depend on the owner. -/
theorem OfEntry.pointBack {pool : ConstantPool} {info : MemberInfo} {m : Method}
    (h : OfEntry pool info m) (id : ClassId) : OfEntry pool info (m.pointBack id) :=
  ⟨h.flags, h.name, h.descriptor⟩

theorem OfEntry.named_iff {pool : ConstantPool} {info : MemberInfo} {m : Method}
    (h : OfEntry pool info m) {name descriptor : String} :
    info.Named pool name descriptor ↔ m.name = name ∧ m.descriptor = descriptor := by
  simp [MemberInfo.Named, h.name, h.descriptor]

end Method

namespace Class

theorem classInitializer?_eq_some_iff {c : Class} {i : Nat} :
    c.classInitializer? = some i ↔
      FirstAt (fun m : Method => (m.name = "<clinit>" ∧ m.descriptor = "()V") ∧ m.isStatic)
        c.methods i := by
  refine findIdx?_eq_some_iff_firstAt ?_
  intro m
  simp only [Method.isClassInitializer, Method.isStaticNoArgVoid, Bool.and_eq_true, beq_iff_eq]
  constructor
  · rintro ⟨⟨hstatic, hname⟩, hdescriptor⟩
    exact ⟨⟨hname, hdescriptor⟩, hstatic⟩
  · rintro ⟨⟨hname, hdescriptor⟩, hstatic⟩
    exact ⟨⟨hstatic, hname⟩, hdescriptor⟩

/-- The flags are looked at once a method is found. -/
theorem mainMethod?_eq_some_iff {c : Class} {i : Nat} :
    c.mainMethod? = some i ↔
      FirstAt (fun m : Method => m.name = "main" ∧ m.descriptor = "([Ljava/lang/String;)V")
        c.methods i ∧
      HoldsAt (fun m : Method => m.isPublic ∧ m.isStatic) c.methods i := by
  have hfind : ∀ k, c.findMethod? Method.mainName Method.mainDescriptor = some k ↔
      FirstAt (fun m : Method => m.name = "main" ∧ m.descriptor = "([Ljava/lang/String;)V")
        c.methods k := by
    intro k
    refine findIdx?_eq_some_iff_firstAt ?_
    intro m
    rw [Bool.and_eq_true]
    exact and_congr decide_eq_true_iff decide_eq_true_iff
  simp only [mainMethod?, Option.bind_eq_bind, Option.bind_eq_some_iff, hfind,
    Option.ite_none_right_eq_some, Bool.and_eq_true, Option.some.injEq]
  constructor
  · rintro ⟨k, hfirst, m, hm, hflags, rfl⟩
    exact ⟨hfirst, m, hm, hflags⟩
  · rintro ⟨hfirst, m, hm, hflags⟩
    exact ⟨i, hfirst, m, hm, hflags, rfl⟩

theorem forall₂_ofEntry_methods {id : ClassId} {file : ClassFile} {superClass : Option ClassId}
    {interfaces : List ClassId} {s s' : Interner} {c : Class}
    (h : load id file superClass interfaces s = (.ok c, s')) :
    List.Forall₂ (Method.OfEntry c.pool) file.methods c.methods := by
  obtain ⟨-, methods, hall, hmethods⟩ := load_eq_ok h
  rw [hmethods, List.forall₂_map_right_iff]
  refine (Method.forall₂_load_of_loadAll hall).imp ?_
  rintro info m ⟨s₁, s₂, hload⟩
  exact (Method.ofEntry_of_load hload).pointBack id

section Loaded

variable {id : ClassId} {file : ClassFile} {superClass : Option ClassId}
  {interfaces : List ClassId} {s s' : Interner} {c : Class}
  (h : load id file superClass interfaces s = (.ok c, s'))

include h

/-- The initializer is the one that the file declares first. -/
theorem classInitializer?_of_load {i : Nat} :
    c.classInitializer? = some i ↔ FirstAt (MemberInfo.IsInitializer c.pool) file.methods i := by
  rw [classInitializer?_eq_some_iff]
  refine (firstAt_congr (holdsAt_iff_of_forall₂ (forall₂_ofEntry_methods h) ?_)).symm
  intro info m hentry
  rw [MemberInfo.IsInitializer, hentry.named_iff, Member.isStatic, hentry.flags]

/-- The entry point is the one that the file declares first, if no other
method of its name and descriptor is declared before it. -/
theorem mainMethod?_of_load {i : Nat} :
    c.mainMethod? = some i ↔ FirstAt (MemberInfo.NamedMain c.pool) file.methods i ∧
      HoldsAt (MemberInfo.IsEntryPoint c.pool) file.methods i := by
  have hentries := forall₂_ofEntry_methods h
  have hnamed : ∀ k, HoldsAt (MemberInfo.NamedMain c.pool) file.methods k ↔
      HoldsAt (fun m : Method => m.name = "main" ∧ m.descriptor = "([Ljava/lang/String;)V")
        c.methods k :=
    holdsAt_iff_of_forall₂ hentries fun info m hentry => hentry.named_iff
  have hflags : ∀ k, HoldsAt (fun info : MemberInfo =>
        info.flags.has AccessFlags.accPublic ∧ info.flags.has AccessFlags.accStatic)
        file.methods k ↔
      HoldsAt (fun m : Method => m.isPublic ∧ m.isStatic) c.methods k := by
    refine holdsAt_iff_of_forall₂ hentries ?_
    intro info m hentry
    rw [Member.isPublic, Member.isStatic, hentry.flags]
  rw [mainMethod?_eq_some_iff, ← firstAt_congr hnamed, ← hflags]
  constructor
  · rintro ⟨hfirst, info, hinfo, hpublic⟩
    obtain ⟨info', hinfo', hname⟩ := hfirst.here
    rw [hinfo] at hinfo'
    cases hinfo'
    exact ⟨hfirst, info, hinfo, hname, hpublic⟩
  · rintro ⟨hfirst, hentry⟩
    exact ⟨hfirst, hentry.imp fun _ hinfo => hinfo.2⟩

end Loaded

/-- The initializer that a class file declares first is the initializer of its
class.  The entry point that it declares first is the entry point, unless
a method of the same name and descriptor that is none comes before all
entry points; then there is none. -/
theorem entry_point_found_iff {id : ClassId} {file : ClassFile} {superClass : Option ClassId}
    {interfaces : List ClassId} {s s' : Interner} {c : Class}
    (h : load id file superClass interfaces s = (.ok c, s')) :
    (∀ i, c.classInitializer? = some i ↔
      FirstAt (MemberInfo.IsInitializer c.pool) file.methods i) ∧
    ((∃ i, c.classInitializer? = some i) ↔
      ∃ info ∈ file.methods, info.IsInitializer c.pool) ∧
    (∀ i, c.mainMethod? = some i ↔ FirstAt (MemberInfo.NamedMain c.pool) file.methods i ∧
      HoldsAt (MemberInfo.IsEntryPoint c.pool) file.methods i) ∧
    ((∀ i, c.mainMethod? = some i ↔ FirstAt (MemberInfo.IsEntryPoint c.pool) file.methods i) ↔
      ¬ ∃ i j, i < j ∧ FirstAt (MemberInfo.NamedMain c.pool) file.methods i ∧
        FirstAt (MemberInfo.IsEntryPoint c.pool) file.methods j) := by
  have hinitializer : ∀ i, c.classInitializer? = some i ↔
      FirstAt (MemberInfo.IsInitializer c.pool) file.methods i :=
    fun i => classInitializer?_of_load h
  have hmain : ∀ i, c.mainMethod? = some i ↔
      FirstAt (MemberInfo.NamedMain c.pool) file.methods i ∧
        HoldsAt (MemberInfo.IsEntryPoint c.pool) file.methods i :=
    fun i => mainMethod?_of_load h
  refine ⟨hinitializer, ?_, hmain, ?_⟩
  · simp only [hinitializer]
    exact exists_firstAt_iff
  · simp only [hmain]
    exact firstAt_and_holdsAt_iff fun _ hentry => hentry.1

/-- A class with two native methods that have the name and the descriptor of
an entry point, and given flags. -/
def twoMains (first second : AccessFlags) : ClassFile where
  constants := [.ofText "A", .classRef 1, .ofText "main", .ofText "([Ljava/lang/String;)V"]
  flags := ⟨1⟩
  thisClass := 2
  fields := []
  methods := [⟨first, 3, 4, []⟩, ⟨second, 3, 4, []⟩]

/-- The pool of that class. -/
def twoMainsPool : ConstantPool :=
  ⟨#[.utf8 "A", .classRef "A", .utf8 "main", .utf8 "([Ljava/lang/String;)V"]⟩

theorem header_twoMains (first second : AccessFlags) :
    Header.ofFile (twoMains first second) = .ok ⟨twoMainsPool, "A", ⟨[], 0, 0⟩⟩ := by
  have hpool : ConstantPool.ofRaw (twoMains first second).constants = .ok twoMainsPool := by cbv
  simp only [Header.ofFile, hpool]
  rfl

/-- A native method needs no code. -/
theorem exists_load_nativeMain {flags : AccessFlags} {s s' : Interner} {shared : SharedDescriptor}
    (hflags : flags.has AccessFlags.accNative)
    (hintern : s.intern "([Ljava/lang/String;)V" = (.ok shared, s')) :
    ∃ m, Method.load twoMainsPool "A" ⟨flags, 3, 4, []⟩ s = (.ok m, s') := by
  refine ⟨.bare ⟨none, "A", flags, "main", "([Ljava/lang/String;)V", none, none⟩ shared,
    Method.load_eq_ok_iff.2 ⟨[], rfl, rfl, hintern, Method.checkCode_eq_ok_iff.2 ⟨rfl, ?_⟩⟩⟩
  simp [Method.bare, Method.isBodiless, Method.isNative, hflags, Method.classInitializerName]

theorem exists_load_twoMains (first second : AccessFlags)
    (hfirst : first.has AccessFlags.accNative) (hsecond : second.has AccessFlags.accNative) :
    ∃ c s, load 0 (twoMains first second) none [] Interner.empty = (.ok c, s) ∧
      c.pool = twoMainsPool := by
  have hparse : MethodDescriptor.parse "([Ljava/lang/String;)V" =
      .ok ⟨[.array (.object "java/lang/String")], none⟩ := by cbv
  have hnew : ∃ shared s, Interner.empty.intern "([Ljava/lang/String;)V" = (.ok shared, s) ∧
      s.intern "([Ljava/lang/String;)V" = (.ok shared, s) := by
    simp [Interner.intern, Interner.find?, Interner.empty, hparse]
  obtain ⟨shared, s, hintern, hagain⟩ := hnew
  obtain ⟨m₁, h₁⟩ := exists_load_nativeMain hfirst hintern
  obtain ⟨m₂, h₂⟩ := exists_load_nativeMain hsecond hagain
  have hall : Method.loadAll twoMainsPool "A" [⟨first, 3, 4, []⟩, ⟨second, 3, 4, []⟩]
      Interner.empty = (.ok [m₁, m₂], s) := by
    simp only [Method.loadAll, h₁, h₂]
  have hmethods : (twoMains first second).methods = [⟨first, 3, 4, []⟩, ⟨second, 3, 4, []⟩] := rfl
  simp only [load, header_twoMains, hmethods, hall]
  exact ⟨_, _, rfl, rfl⟩

theorem namedMain_twoMains (flags : AccessFlags) :
    MemberInfo.NamedMain twoMainsPool ⟨flags, 3, 4, []⟩ := ⟨rfl, rfl⟩

/-- An entry point in front of a method that is not static. -/
theorem entry_point_found_iff_in_front :
    ∃ c s, load 0 (twoMains ⟨0x109⟩ ⟨0x101⟩) none [] Interner.empty = (.ok c, s) ∧
      c.mainMethod? = some 0 := by
  obtain ⟨c, s, hload, hpool⟩ := exists_load_twoMains ⟨0x109⟩ ⟨0x101⟩ (by decide) (by decide)
  refine ⟨c, s, hload, ((entry_point_found_iff hload).2.2.1 0).2 ?_⟩
  rw [hpool]
  have hnamed := namedMain_twoMains ⟨0x109⟩
  have hfirst : FirstAt (MemberInfo.NamedMain twoMainsPool) (twoMains ⟨0x109⟩ ⟨0x101⟩).methods 0 :=
    ⟨⟨_, rfl, hnamed⟩, fun j hj => absurd hj (Nat.not_lt_zero j)⟩
  exact ⟨hfirst, _, rfl, hnamed, by decide, by decide⟩

/-- An entry point behind a method that is not static, which hides it. -/
theorem hidden_entry_point_missed :
    ¬ ∀ (id : ClassId) (file : ClassFile) (superClass : Option ClassId)
      (interfaces : List ClassId) (s : Interner) (c : Class) (s' : Interner),
      load id file superClass interfaces s = (.ok c, s') →
      ∀ i, c.mainMethod? = some i ↔
        FirstAt (MemberInfo.IsEntryPoint c.pool) file.methods i := by
  intro hall
  obtain ⟨c, s, hload, hpool⟩ := exists_load_twoMains ⟨0x101⟩ ⟨0x109⟩ (by decide) (by decide)
  have hnot : ¬ MemberInfo.IsEntryPoint twoMainsPool ⟨⟨0x101⟩, 3, 4, []⟩ := by
    rintro ⟨-, -, hstatic⟩
    exact absurd hstatic (by decide)
  have hsecond : FirstAt (MemberInfo.IsEntryPoint c.pool) (twoMains ⟨0x101⟩ ⟨0x109⟩).methods 1 := by
    rw [hpool]
    refine ⟨⟨_, rfl, namedMain_twoMains _, by decide, by decide⟩, ?_⟩
    rintro j hj ⟨info, hinfo, hentry⟩
    obtain rfl := Nat.lt_one_iff.1 hj
    cases hinfo
    exact hnot hentry
  -- the search by name stops at the first of the two
  have hfirst := ((mainMethod?_of_load hload).1 ((hall _ _ _ _ _ _ _ hload 1).2 hsecond)).1
  refine hfirst.before 0 Nat.zero_lt_one ⟨_, rfl, ?_⟩
  rw [hpool]
  exact namedMain_twoMains _

end Class

end MethodArea
