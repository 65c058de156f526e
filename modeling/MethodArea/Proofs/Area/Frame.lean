/-
# `Proofs.Area.Frame` — what an operation leaves alone

What an operation may change depends on what it is and on what it replies
(`Frame`):

    load, loaded c      c is new; everything else that is still held is as
                        it was, and all of it is if the handle is new
    hold, unload        what is not held any more goes, the rest stays
    replaceCode         the code of one method
    resolve             the empty binding of one method, or nothing
    register,           one key of one registry
      unregister
    registerNatives     the keys of the built-in natives
    intern              the interned descriptors
    any of them, error  nothing; a load may have interned descriptors

So a class is the same at any two times at which it exists, code and
bindings of its methods apart (`fixed_eq_of_later`), and it is a subclass of
the same names (`isSubclassOf_eq_of_later`): what it is linked to exists as
long as it does, whatever happens to the handles.
-/
import MethodArea.Proofs.Area.Lifetime

namespace MethodArea

open Hierarchy

/-! ## The methods of a class, one of them replaced -/

theorem Class.fixed_setMethod {c : Class} {position : Nat} {m m' : Method}
    (hm : c.methods[position]? = some m) (hfixed : m'.fixed = m.fixed) :
    (c.setMethod position m').fixed = c.fixed := by
  obtain ⟨hlt, hget⟩ := List.getElem?_eq_some_iff.1 hm
  have hmethods : (c.methods.set position m').map Method.fixed = c.methods.map Method.fixed := by
    rw [List.map_set, hfixed, ← hget, ← List.getElem_map Method.fixed, List.set_getElem_self]
    simpa using hlt
  simp only [fixed, setMethod, hmethods]

theorem Class.setMethod_self {c : Class} {position : Nat} {m : Method}
    (hm : c.methods[position]? = some m) : c.setMethod position m = c := by
  obtain ⟨hlt, hget⟩ := List.getElem?_eq_some_iff.1 hm
  rw [setMethod, ← hget, List.set_getElem_self]

/-- A resolution that succeeds finds the method bound to what it answers, or
not bound. -/
theorem Method.bound_of_answer {registry : Registry} {m : Method} {b : BindingId}
    (h : m.answer registry = .ok b) : m.bound = some b ∨ m.bound = none := by
  rw [answer] at h
  split at h
  · split at h
    · next id hbound =>
        cases h
        exact .inl hbound
    · next hbound => exact .inr hbound
  · cases h

namespace Area

/-! ## What may change -/

/-- Of some classes, those are left that can be reached from the handles, and
the rest of the area is as it was. -/
structure Keeps (a : Area) (classes : List Class) (handles : Table String ClassId) (a' : Area) :
    Prop where
  sublist : a'.classes.Sublist classes
  mem_iff : ∀ d ∈ classes, d ∈ a'.classes ↔
    ∃ handle id, handles.get? handle = some id ∧ Reaches classes id d.id
  handles : a'.handles = handles
  registries : a'.registries = a.registries
  natives : a'.natives = a.natives

/-- A new class is added under a handle. -/
structure Adds (a : Area) (handle : String) (c : Class) (a' : Area) : Prop where
  fresh : a.class? c.id = none
  added : a'.class? c.id = some c
  keeps : a.Keeps (c :: a.classes) (a.handles.insert handle c.id) a'
  all : a.handles.get? handle = none → a'.classes = c :: a.classes

/-- One method is replaced, by one that differs in its cells at most. -/
structure Rewrites (a : Area) (id : MethodId) (m : Method) (a' : Area) : Prop where
  rewritten : a'.method? id = some m
  others : ∀ other, other ≠ id → a'.method? other = a.method? other
  fixed : a'.classes.map Class.fixed = a.classes.map Class.fixed
  handles : a'.handles = a.handles
  strong : a'.strong = a.strong
  registries : a'.registries = a.registries
  natives : a'.natives = a.natives
  descriptors : a'.descriptors = a.descriptors

/-- Some keys of some registries are written. -/
structure Registers (a : Area) (about : RegistryName → MethodRef → Prop) (a' : Area) : Prop where
  others : ∀ name key, ¬ about name key →
    (a'.registry name).get? key = (a.registry name).get? key
  natives : ∃ more, a'.natives = a.natives ++ more
  classes : a'.classes = a.classes
  handles : a'.handles = a.handles
  strong : a'.strong = a.strong
  descriptors : a'.descriptors = a.descriptors

/-- What an operation may change, by what it replies. -/
inductive Frame (a : Area) : Operation → Except Failure Reply → Area → Prop
  | loaded {handle : String} {file : ClassFile} {superClass : Option String}
      {interfaces : List String} {c : Class} {a' : Area} : a.Adds handle c a' →
      Frame a (.load handle file superClass interfaces) (.ok (.loaded c)) a'
  | held {handle : String} {id : ClassId} {a' : Area} : (a.class? id).isSome →
      a.Keeps a.classes (a.handles.insert handle id) a' → a'.descriptors = a.descriptors →
      Frame a (.hold handle id) (.ok (.held true)) a'
  | notHeld {handle : String} {id : ClassId} : a.class? id = none →
      Frame a (.hold handle id) (.ok (.held false)) a
  | unloaded {handle : String} {a' : Area} : a.Keeps a.classes (a.handles.erase handle) a' →
      a'.descriptors = a.descriptors →
      Frame a (.unload handle) (.ok (.unloaded (a.handles.get? handle).isSome)) a'
  | replaced {handle : String} {position : Nat} {bytes : List UInt8} {id : MethodId} {m : Method}
      {revision : Nat} {a' : Area} : a.methodId? handle position = some id →
      a.method? id = some m → a.Rewrites id { m with code := some ⟨bytes, revision⟩ } a' →
      Frame a (.replaceCode handle position bytes) (.ok (.replaced m.codeBytes)) a'
  | bound {handle : String} {position : Nat} {name : RegistryName} {id : MethodId} {m : Method}
      {b : BindingId} {a' : Area} : a.methodId? handle position = some id →
      a.method? id = some m → m.bound = none → a.Rewrites id { m with bound := some b } a' →
      Frame a (.resolve handle position name) (.ok (.resolved b)) a'
  | boundBefore {handle : String} {position : Nat} {name : RegistryName} {id : MethodId}
      {m : Method} {b : BindingId} : a.methodId? handle position = some id →
      a.method? id = some m → m.bound = some b →
      Frame a (.resolve handle position name) (.ok (.resolved b)) a
  | registered {name : RegistryName} {key : MethodRef} {native : Native}
      {registration : Registration} {a' : Area} :
      a.Registers (fun name' key' => name' = name ∧ key' = key) a' →
      (a'.registry name).get? key = some registration.binding →
      a'.native? registration.binding = some native →
      Frame a (.register name key native) (.ok (.registered registration)) a'
  | unregistered {name : RegistryName} {key : MethodRef} {a' : Area} :
      a.Registers (fun name' key' => name' = name ∧ key' = key) a' →
      (a'.registry name).get? key = none → a'.natives = a.natives →
      Frame a (.unregister name key) (.ok (.unregistered ((a.registry name).get? key))) a'
  | installed {a' : Area} :
      a.Registers (fun name key => name = .processWide ∧ key ∈ Native.builtIn.map Prod.fst) a' →
      Frame a .registerNatives (.ok .installed) a'
  | interned {descriptor : String} {shared : SharedDescriptor} {descriptors : Interner} :
      Frame a (.intern descriptor) (.ok (.interned shared)) { a with descriptors }
  | failed {op : Operation} {failure : Failure} {descriptors : Interner} :
      (op.file? = none → descriptors = a.descriptors) →
      Frame a op (.error failure) { a with descriptors }

theorem Frame.of_error {a a' : Area} {op : Operation} {failure : Failure} (h : a' = a) :
    a.Frame op (.error failure) a' := by
  have hsame : a.Frame op (.error failure) { a with descriptors := a.descriptors } :=
    .failed fun _ => rfl
  rwa [h]

/-- Of what fails, only a load leaves a trace. -/
theorem Frame.eq_of_error {a a' : Area} {op : Operation} {failure : Failure}
    (h : a.Frame op (.error failure) a') (hop : op.file? = none) : a' = a := by
  cases h with
  | failed hdescriptors => rw [hdescriptors hop]

/-! ## Loading and letting go -/

/-- What can be reached from the handles of an area that a run leads to is
what is left there of any classes. -/
theorem Reachable.keeps {a b : Area} (h : Reachable b) {classes : List Class}
    (hin : InOrder classes) (hsub : b.classes.Sublist classes)
    (hregistries : b.registries = a.registries) (hnatives : b.natives = a.natives) :
    a.Keeps classes b.handles b where
  sublist := hsub
  mem_iff := by
    intro d hd
    have hpaths : ∀ {handle : String} {id : ClassId}, b.handles.get? handle = some id →
        (Reaches b.classes id d.id ↔ Reaches classes id d.id) := by
      intro handle id hhandle
      refine h.closed.reaches_iff (agrees_of_sublist hin hsub) ?_
      exact exists_class?_iff.2 (h.counted.exists_of_handle hhandle)
    constructor
    · intro hmem
      obtain ⟨handle, id, hhandle, hpath⟩ := h.exists_handle hmem
      exact ⟨handle, id, hhandle, (hpaths hhandle).1 hpath⟩
    · intro hheld
      obtain ⟨handle, id, hhandle, hpath⟩ := hheld
      obtain ⟨d', hd', hid⟩ :=
        (h.exists_iff d.id).2 ⟨handle, id, hhandle, (hpaths hhandle).2 hpath⟩
      -- classes in order with one identity are the same
      have hfound := (class?_eq_some_iff hin.descending).2 ⟨hsub.subset hd', hid⟩
      rw [(class?_eq_some_iff hin.descending).2 ⟨hd, rfl⟩] at hfound
      cases hfound
      exact hd'
  handles := rfl
  registries := hregistries
  natives := hnatives

/-- Under a new handle nothing is dropped. -/
theorem classes_add_of_new (a : Area) {handle : String} (hnew : a.handles.get? handle = none)
    (c : Class) : (a.add handle c).classes = c :: a.classes := by
  simp only [add, assign, hnew]

theorem Reachable.frame_load {a : Area} (h : Reachable a) (handle : String) (file : ClassFile)
    (superClass : Option String) (interfaces : List String) :
    a.Frame (.load handle file superClass interfaces)
      (.loaded <$> (a.load handle file superClass interfaces).1)
      (a.load handle file superClass interfaces).2 := by
  have hafter : Reachable (a.load handle file superClass interfaces).2 :=
    h.step (.load handle file superClass interfaces)
  rcases a.load_eq_cases handle file superClass interfaces with
    ⟨failure, descriptors, heq⟩ | ⟨_, _, descriptors, c, hlinks, hload, heq⟩
  · rw [heq]
    exact .failed fun hfile => by cases hfile
  · rw [heq] at hafter ⊢
    have hid : c.id = a.nextClass := (Class.load_eq_ok hload).1
    have hlinked : ∀ id ∈ c.links, ∃ d ∈ a.classes, d.id = id := by
      rw [Class.load_links hload]
      exact exists_of_mem_linksOf hlinks
    have hin := inOrder_cons h.inOrder h.ordered hid hlinked
    have hall : a.handles.get? handle = none →
        (add { a with descriptors } handle c).classes = c :: a.classes :=
      fun hnew => classes_add_of_new { a with descriptors } hnew c
    obtain ⟨classes, strong, hsub, hadd⟩ := add_eq { a with descriptors } handle c
    rw [hadd] at hafter hall ⊢
    have hkeeps : a.Keeps (c :: a.classes) (a.handles.insert handle c.id) _ :=
      hafter.keeps hin hsub rfl rfl
    have hhandle : (a.handles.insert handle c.id).get? handle = some c.id := by
      rw [Table.get?_insert, if_pos rfl]
    refine .loaded ⟨?_, ?_, hkeeps, hall⟩
    · refine Option.eq_none_iff_forall_ne_some.2 fun d hd => ?_
      obtain ⟨hmem, hdid⟩ := h.ordered.class?_eq_some_iff.1 hd
      have hlt := h.ordered.below d hmem
      rw [hdid, hid] at hlt
      exact Nat.lt_irrefl _ hlt
    · refine hafter.ordered.class?_eq_some_iff.2 ⟨?_, rfl⟩
      exact (hkeeps.mem_iff c List.mem_cons_self).2 ⟨handle, c.id, hhandle, .refl _⟩

theorem Reachable.frame_hold {a : Area} (h : Reachable a) (handle : String) (id : ClassId) :
    a.Frame (.hold handle id) (.ok (.held (a.hold handle id).1)) (a.hold handle id).2 := by
  have hafter : Reachable (a.hold handle id).2 := h.step (.hold handle id)
  rcases a.hold_eq_cases handle id with ⟨hnone, heq⟩ | ⟨c, hc, heq⟩
  · rw [heq]
    rw [h.upgrade_eq] at hnone
    exact .notHeld hnone
  · rw [h.upgrade_eq] at hc
    obtain ⟨classes, strong, hsub, hassign⟩ :=
      assign_eq { a with strong := a.strong.increment id } handle id
    rw [heq, hassign] at hafter ⊢
    exact .held (by rw [hc]; rfl) (hafter.keeps h.inOrder hsub rfl rfl) rfl

theorem Reachable.frame_unload {a : Area} (h : Reachable a) (handle : String) :
    a.Frame (.unload handle) (.ok (.unloaded (a.unload handle).1)) (a.unload handle).2 := by
  have hafter : Reachable (a.unload handle).2 := h.step (.unload handle)
  have hreply : (a.unload handle).1 = (a.handles.get? handle).isSome := by
    rcases a.unload_eq_cases handle with ⟨hnone, heq⟩ | ⟨id, hid, heq⟩
    · rw [heq, hnone]
      rfl
    · rw [heq, hid]
      rfl
  rw [hreply]
  rcases a.unload_eq_cases handle with ⟨hnone, heq⟩ | ⟨id, -, heq⟩
  · rw [heq]
    refine .unloaded ?_ rfl
    rw [Table.erase_eq_self hnone]
    exact h.keeps h.inOrder (List.Sublist.refl _) rfl rfl
  · rw [heq] at hafter ⊢
    exact .unloaded (hafter.keeps h.inOrder (classes_drop_sublist _ _) rfl rfl) rfl

/-! ## The cells of a method -/

/-- To put another method into a class makes no difference to what does not
tell that class from what it was. -/
theorem Ordered.map_setMethod {β : Type} {a : Area} (h : a.Ordered) {c : Class} {position : Nat}
    {m : Method} (hc : a.class? c.id = some c) {f : Class → β}
    (hf : f (c.setMethod position m) = f c) :
    (a.setMethod c.id position m).classes.map f = a.classes.map f := by
  simp only [Area.setMethod, List.map_map]
  refine List.map_congr_left fun d hd => ?_
  show f (if d.id = c.id then d.setMethod position m else d) = f d
  split
  · next hid =>
      have hclass : a.class? c.id = some d := h.class?_eq_some_iff.2 ⟨hd, hid⟩
      rw [hc] at hclass
      cases hclass
      exact hf
  · rfl

theorem Ordered.setMethod_self {a : Area} (h : a.Ordered) {handle : String} {position : Nat}
    {c : Class} {m : Method} (hof : a.methodOf handle position = .ok (c, m)) :
    a.setMethod c.id position m = a := by
  obtain ⟨hc, hm⟩ := methodOf_eq_ok hof
  have hclasses := h.map_setMethod (f := id) hc (Class.setMethod_self hm)
  rw [List.map_id, List.map_id] at hclasses
  show { a with classes := (a.setMethod c.id position m).classes } = a
  rw [hclasses]

theorem Ordered.rewrites {a : Area} (h : a.Ordered) {handle : String} {position : Nat}
    {c : Class} {m m' : Method} (hof : a.methodOf handle position = .ok (c, m))
    (hfixed : m'.fixed = m.fixed) :
    a.Rewrites ⟨c.id, position⟩ m' (a.setMethod c.id position m') := by
  obtain ⟨hc, hm⟩ := methodOf_eq_ok hof
  have hlt : position < c.methods.length := (List.getElem?_eq_some_iff.1 hm).1
  refine ⟨?_, ?_, h.map_setMethod hc (Class.fixed_setMethod hm hfixed), rfl, rfl, rfl, rfl, rfl⟩
  · rw [method?, class?_setMethod, hc, Option.map_some, if_pos rfl]
    exact List.getElem?_set_self hlt
  · intro other hne
    rw [method?, method?, class?_setMethod]
    cases hd : a.class? other.cls with
    | none => rfl
    | some d =>
        rw [Option.map_some]
        split
        · next hid =>
            have hcls : other.cls = c.id := (class?_id hd).symm.trans hid
            rw [hcls, hc] at hd
            cases hd
            have hposition : position ≠ other.position := by
              intro heq
              rw [heq, ← hcls] at hne
              exact hne rfl
            exact List.getElem?_set_ne hposition
        · rfl

theorem Reachable.frame_replaceCode {a : Area} (h : Reachable a) (handle : String)
    (position : Nat) (bytes : List UInt8) :
    a.Frame (.replaceCode handle position bytes)
      (.replaced <$> (a.replaceCode handle position bytes).1)
      (a.replaceCode handle position bytes).2 := by
  cases hof : a.methodOf handle position with
  | error failure =>
      simp only [replaceCode, hof]
      exact .of_error rfl
  | ok found =>
      obtain ⟨c, m⟩ := found
      simp only [replaceCode, hof]
      cases hreplace : m.replaceCode bytes with
      | error e => exact .of_error rfl
      | ok replaced =>
          obtain ⟨-, -, rfl⟩ := Method.replaceCode_eq_ok_iff.1 hreplace
          exact .replaced (methodId?_of_ok hof) (method?_of_methodOf hof)
            (h.ordered.rewrites hof rfl)

/-- A resolution answers what the method does, and leaves the method that
this makes. -/
theorem resolve_eq {a : Area} {handle : String} {position : Nat} {c : Class} {m : Method}
    (hof : a.methodOf handle position = .ok (c, m)) (name : RegistryName) :
    ∃ lookups, a.resolve handle position name =
      (.ok ⟨m.answer (a.registry name), lookups⟩,
        a.setMethod c.id position (m.answered (m.answer (a.registry name)))) := by
  have hrun := Method.resolve_countedFind (a.registry name) m
  refine ⟨((m.resolve (countedFind (a.registry name))).run 0).2, ?_⟩
  simp only [resolve, hof]
  generalize (m.resolve (countedFind (a.registry name))).run 0 = result at hrun ⊢
  obtain ⟨⟨outcome, resolved⟩, lookups⟩ := result
  cases hrun
  rfl

theorem Reachable.frame_resolve {a : Area} (h : Reachable a) (handle : String)
    (position : Nat) (name : RegistryName) :
    a.Frame (.resolve handle position name)
      ((a.resolve handle position name).1.bind
        (fun r => .resolved <$> r.outcome.mapError .refused))
      (a.resolve handle position name).2 := by
  cases hof : a.methodOf handle position with
  | error failure =>
      simp only [resolve, hof]
      exact .of_error rfl
  | ok found =>
      obtain ⟨c, m⟩ := found
      obtain ⟨lookups, heq⟩ := resolve_eq hof name
      have hid := methodId?_of_ok hof
      have hmethod := method?_of_methodOf hof
      rw [heq]
      cases hanswer : m.answer (a.registry name) with
      | error e => exact .of_error (h.ordered.setMethod_self hof)
      | ok b =>
          rcases Method.bound_of_answer hanswer with hbound | hnone
          · have hsame : m.answered (.ok b) = m := by
              rw [Method.answered, ← hbound]
            rw [hsame, h.ordered.setMethod_self hof]
            exact .boundBefore hid hmethod hbound
          · exact .bound hid hmethod hnone (h.ordered.rewrites hof rfl)

/-! ## Registering -/

theorem Registers.refl (a : Area) (about : RegistryName → MethodRef → Prop) :
    a.Registers about a :=
  ⟨fun _ _ _ => rfl, ⟨[], (List.append_nil _).symm⟩, rfl, rfl, rfl, rfl⟩

theorem Registers.trans {a b d : Area} {about about' : RegistryName → MethodRef → Prop}
    (h : a.Registers about b) (h' : b.Registers about' d) :
    a.Registers (fun name key => about name key ∨ about' name key) d := by
  obtain ⟨more, hmore⟩ := h.natives
  obtain ⟨more', hmore'⟩ := h'.natives
  refine ⟨?_, ⟨more ++ more', ?_⟩, h'.classes.trans h.classes, h'.handles.trans h.handles,
    h'.strong.trans h.strong, h'.descriptors.trans h.descriptors⟩
  · intro name key habout
    obtain ⟨hfirst, hsecond⟩ := not_or.1 habout
    rw [h'.others name key hsecond, h.others name key hfirst]
  · rw [hmore', hmore, List.append_assoc]

theorem Registers.mono {a b : Area} {about about' : RegistryName → MethodRef → Prop}
    (h : a.Registers about b) (hmore : ∀ name key, about name key → about' name key) :
    a.Registers about' b :=
  { h with others := fun name key habout => h.others name key (mt (hmore name key) habout) }

/-- What stands under a name once it is registered or taken back: what was
written there, and elsewhere what stood there before. -/
theorem registry_get?_register (a : Area) (name : RegistryName) (key : MethodRef)
    (native : Native) (name' : RegistryName) (key' : MethodRef) :
    ((a.register name key native).2.registry name').get? key' =
      if name' = name ∧ key' = key then some (a.register name key native).1.binding
      else (a.registry name').get? key' := by
  have hop : Operation.register name key native ≠ .registerNatives := by simp
  refine (registry_get?_step a hop name' key').trans ?_
  rw [written?]
  split
  · rfl
  · rfl

theorem registry_get?_unregister (a : Area) (name : RegistryName) (key : MethodRef)
    (name' : RegistryName) (key' : MethodRef) :
    ((a.unregister name key).2.registry name').get? key' =
      if name' = name ∧ key' = key then none else (a.registry name').get? key' := by
  have hop : Operation.unregister name key ≠ .registerNatives := by simp
  refine (registry_get?_step a hop name' key').trans ?_
  rw [written?]
  split
  · rfl
  · rfl

theorem registers_register (a : Area) (name : RegistryName) (key : MethodRef) (native : Native) :
    a.Registers (fun name' key' => name' = name ∧ key' = key) (a.register name key native).2 := by
  refine ⟨?_, ⟨[native], rfl⟩, rfl, rfl, rfl, rfl⟩
  intro name' key' habout
  rw [registry_get?_register, if_neg habout]

theorem registers_unregister (a : Area) (name : RegistryName) (key : MethodRef) :
    a.Registers (fun name' key' => name' = name ∧ key' = key) (a.unregister name key).2 := by
  refine ⟨?_, ⟨[], (List.append_nil _).symm⟩, rfl, rfl, rfl, rfl⟩
  intro name' key' habout
  rw [registry_get?_unregister, if_neg habout]

theorem registers_foldl (natives : List (MethodRef × Native)) (a : Area) :
    a.Registers (fun name key => name = .processWide ∧ key ∈ natives.map Prod.fst)
      (natives.foldl (fun a (key, native) => (a.register .processWide key native).2) a) := by
  induction natives generalizing a with
  | nil => exact .refl a _
  | cons entry natives ih =>
      obtain ⟨key, native⟩ := entry
      refine ((registers_register a .processWide key native).trans (ih _)).mono ?_
      intro name' key' habout
      rcases habout with ⟨hname, hkey⟩ | ⟨hname, hkey⟩
      · exact ⟨hname, hkey ▸ List.mem_cons_self⟩
      · exact ⟨hname, List.mem_cons_of_mem _ hkey⟩

theorem frame_register (a : Area) (name : RegistryName) (key : MethodRef) (native : Native) :
    a.Frame (.register name key native) (.ok (.registered (a.register name key native).1))
      (a.register name key native).2 := by
  refine .registered (registers_register a name key native) ?_ List.getElem?_concat_length
  rw [registry_get?_register, if_pos ⟨rfl, rfl⟩]

theorem frame_unregister (a : Area) (name : RegistryName) (key : MethodRef) :
    a.Frame (.unregister name key) (.ok (.unregistered (a.unregister name key).1))
      (a.unregister name key).2 := by
  refine .unregistered (registers_unregister a name key) ?_ rfl
  rw [registry_get?_unregister, if_pos ⟨rfl, rfl⟩]

/-! ## Every operation -/

theorem frame_intern (a : Area) (descriptor : String) :
    a.Frame (.intern descriptor) (.interned <$> (a.intern descriptor).1.mapError .refused)
      (a.intern descriptor).2 := by
  simp only [intern, Interner.intern]
  split
  · exact .interned
  · split
    · exact .interned
    · exact .of_error rfl

/-- Every operation changes at most what its reply says. -/
theorem Reachable.frame_step {a : Area} (h : Reachable a) (op : Operation) :
    a.Frame op (a.step op).1 (a.step op).2 := by
  cases op with
  | load handle file superClass interfaces => exact h.frame_load handle file superClass interfaces
  | hold handle id => exact h.frame_hold handle id
  | unload handle => exact h.frame_unload handle
  | intern descriptor => exact frame_intern a descriptor
  | replaceCode handle position bytes => exact h.frame_replaceCode handle position bytes
  | resolve handle position name => exact h.frame_resolve handle position name
  | register name key native => exact frame_register a name key native
  | unregister name key => exact frame_unregister a name key
  | registerNatives => exact .installed (registers_foldl Native.builtIn a)

/-! ## Any two times -/

/-- Whether a class is a subclass of a name can be told from all that was
loaded, now or later. -/
theorem isSubclassOf_iff_loads {ops : List Operation} (later : List Operation) {id : ClassId}
    (hid : ∃ c, (run empty ops).class? id = some c) (target : String) :
    (run empty ops).isSubclassOf id target = true ↔
      ∃ d ∈ loads (ops ++ later), Reaches (loads (ops ++ later)) id d.id ∧ d.name = target := by
  have hreach : Reachable (run empty ops) := ⟨ops, rfl⟩
  refine (isSubclassOf_iff hreach.inOrder).trans ?_
  constructor
  · intro hexists
    obtain ⟨c, hc, hpath, rfl⟩ := hexists
    obtain ⟨d, hd, hfixed⟩ :=
      exists_class?_loads later (hreach.ordered.class?_eq_some_iff.2 ⟨hc, rfl⟩)
    obtain ⟨hmem, hdid⟩ := class?_loads_iff.1 hd
    refine ⟨d, hmem, ?_, Class.name_eq_of_fixed hfixed⟩
    rw [hdid]
    exact (reaches_loads_iff later hid).1 hpath
  · intro hexists
    obtain ⟨d, hmem, hpath, rfl⟩ := hexists
    have hpath := (reaches_loads_iff later hid).2 hpath
    obtain ⟨c, hc, hcid⟩ :=
      hreach.closed.exists_of_reaches hpath (exists_class?_iff.1 hid)
    obtain ⟨d', hd', hfixed⟩ :=
      exists_class?_loads later (hreach.ordered.class?_eq_some_iff.2 ⟨hc, rfl⟩)
    rw [hcid, class?_loads_iff.2 ⟨hmem, rfl⟩] at hd'
    cases hd'
    exact ⟨c, hc, hcid ▸ hpath, (Class.name_eq_of_fixed hfixed).symm⟩

theorem isSubclassOf_eq_of_later {ops later : List Operation} {id : ClassId} {c c' : Class}
    (hc : (run empty ops).class? id = some c)
    (hc' : (run empty (ops ++ later)).class? id = some c') (target : String) :
    (run empty (ops ++ later)).isSubclassOf id target = (run empty ops).isSubclassOf id target := by
  have hlater := isSubclassOf_iff_loads [] ⟨c', hc'⟩ target
  rw [List.append_nil] at hlater
  exact Bool.eq_iff_iff.2 (hlater.trans (isSubclassOf_iff_loads later ⟨c, hc⟩ target).symm)

/-- What exists after a run is changed in its cells only, by those operations
that are meant to, and stays what it is in all other respects. -/
theorem classes_constant_but_cells (ops : List Operation) :
    (∀ op, (run empty ops).Frame op ((run empty ops).step op).1 ((run empty ops).step op).2) ∧
    ∀ later id c c', (run empty ops).class? id = some c →
      (run empty (ops ++ later)).class? id = some c' →
      c'.fixed = c.fixed ∧ ∀ target,
        (run empty (ops ++ later)).isSubclassOf id target =
          (run empty ops).isSubclassOf id target := by
  have hreach : Reachable (run empty ops) := ⟨ops, rfl⟩
  refine ⟨hreach.frame_step, ?_⟩
  intro later id c c' hc hc'
  exact ⟨fixed_eq_of_later hc hc', isSubclassOf_eq_of_later hc hc'⟩

/-- A class with a native method, and its super class. -/
def subclassOfA : List Operation :=
  [.load "A" (classWithMembers "demo/A") none [],
    .load "B" (classWithMembers "demo/B") (some "A") []]

/-- The handle of the super class gets another class, and the method is
bound. -/
def reloadAndBind : List Operation :=
  [.load "A" (classWithMembers "demo/C") none [],
    .register .processWide ⟨"demo/B", "f", "()V"⟩ Native.noOp,
    .resolve "B" 0 .processWide]

/-- The class is not the same any more, but only the binding of its method
makes the difference, and to give the method code fails without a trace. -/
theorem classes_constant_but_cells_reloaded_super :
    (∃ c c', (run empty subclassOfA).class? 1 = some c ∧
      (run empty (subclassOfA ++ reloadAndBind)).class? 1 = some c' ∧ c' ≠ c ∧
      c'.fixed = c.fixed ∧
      (run empty (subclassOfA ++ reloadAndBind)).isSubclassOf 1 "demo/A" = true) ∧
    ((run empty subclassOfA).step (.replaceCode "B" 0 [0])).2 = run empty subclassOfA := by
  have hbefore : ((run empty subclassOfA).class? 1).map
      (fun c => c.methods.map Method.bound) = some [none] := by cbv
  have hafter : ((run empty (subclassOfA ++ reloadAndBind)).class? 1).map
      (fun c => c.methods.map Method.bound) = some [some 1] := by cbv
  have hsub : (run empty subclassOfA).isSubclassOf 1 "demo/A" = true := by cbv
  have hreply : ((run empty subclassOfA).step (.replaceCode "B" 0 [0])).1 =
      .error (.refused (.malformedAttribute "Code"
        (.unexpectedCode ⟨"demo/B", "f", "()V"⟩))) := by cbv
  obtain ⟨c, hc, hbound⟩ := Option.map_eq_some_iff.1 hbefore
  obtain ⟨c', hc', hbound'⟩ := Option.map_eq_some_iff.1 hafter
  obtain ⟨hframe, hconstant⟩ := classes_constant_but_cells subclassOfA
  obtain ⟨hfixed, hanswers⟩ := hconstant reloadAndBind 1 c c' hc hc'
  refine ⟨⟨c, c', hc, hc', ?_, hfixed, (hanswers "demo/A").trans hsub⟩, ?_⟩
  · rintro rfl
    rw [hbound] at hbound'
    cases hbound'
  · have hfailed := hframe (.replaceCode "B" 0 [0])
    rw [hreply] at hfailed
    exact hfailed.eq_of_error rfl

end Area

end MethodArea
