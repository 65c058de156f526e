/-
# `Proofs.Area.Order` — identities in the order of loading

Classes are listed newest first and get their identities by counting, so
along the list identities go down, and all of them are below the next one
(`Ordered`).  Dropping references takes classes out of the list and changing
a method leaves the identity of its class alone; neither disturbs the order.

Four of the operations may fail half-way.  What each of them can leave
behind is said once (`load_eq_cases`, `hold_eq_cases`, `replaceCode_cases`,
`resolve_cases`), and what any operation can leave behind after that
(`Leaves`).  What an invariant of areas has to be proved for are the cases
of `Leaves`, and not the operations.

What it is for: an identity names one class at most (`class?_eq_some_iff`),
so "the class of this identity" and "this class of the list" are the same
thing, before an operation and after it.
-/
import MethodArea.Area.Run
import MethodArea.Proofs.Outcome

namespace MethodArea

/-! ## Lists of classes -/

namespace Hierarchy

theorem class?_eq_some_iff {classes : List Class} {id : ClassId} {c : Class}
    (h : classes.Pairwise (fun c d => d.id < c.id)) :
    class? classes id = some c ↔ c ∈ classes ∧ c.id = id := by
  refine ⟨?_, ?_⟩
  · intro hfind
    exact ⟨List.mem_of_find?_eq_some hfind, by simpa using List.find?_some hfind⟩
  · rintro ⟨hc, rfl⟩
    induction classes with
    | nil => exact absurd hc List.not_mem_nil
    | cons d older ih =>
        rcases List.mem_cons.1 hc with rfl | hc
        · exact List.find?_cons_of_pos (by simp)
        · have hlt : c.id < d.id := List.rel_of_pairwise_cons h hc
          have hne : ¬ d.id = c.id := fun e => absurd hlt (by rw [e]; exact Nat.lt_irrefl _)
          have hskip : class? (d :: older) c.id = class? older c.id :=
            List.find?_cons_of_neg (by simpa using hne)
          rw [hskip]
          exact ih h.of_cons hc

end Hierarchy

namespace Class

theorem Header.ofFile_eq_ok {file : ClassFile} {header : Header}
    (h : ofFile file = .ok header) :
    ConstantPool.ofRaw file.constants = .ok header.pool ∧
      header.pool.className file.thisClass = .ok header.name ∧
      ∃ fields, file.fields.mapM (Field.ofInfo header.pool header.name) = .ok fields ∧
        header.assigned = Field.assignSlots 0 0 fields := by
  obtain ⟨pool, hpool, h⟩ := Except.bind_eq_ok_iff.1 h
  obtain ⟨name, hname, h⟩ := Except.bind_eq_ok_iff.1 h
  obtain ⟨fields, hfields, h⟩ := Except.bind_eq_ok_iff.1 h
  cases h
  exact ⟨hpool, hname, fields, hfields, rfl⟩

/-- All that a class is made of, if its file loads: the header, the methods
and what it is given. -/
theorem exists_header_of_load {id : ClassId} {file : ClassFile} {superClass : Option ClassId}
    {interfaces : List ClassId} {s s' : Interner} {c : Class}
    (h : load id file superClass interfaces s = (.ok c, s')) :
    ∃ header methods, Header.ofFile file = .ok header ∧
      Method.loadAll header.pool header.name file.methods s = (.ok methods, s') ∧
      c = ⟨id, header.name, file.flags, superClass, interfaces, header.pool,
        header.assigned.fields.map (Field.pointBack id), methods.map (Method.pointBack id),
        header.assigned.instanceSlots, header.assigned.staticSlots⟩ := by
  simp only [load] at h
  split at h
  · cases h
  · next header hheader =>
      split at h
      · cases h
      · next methods _ hmethods =>
          cases h
          exact ⟨header, methods, hheader, hmethods, rfl⟩

/-- The methods of a class are what loading makes of the entries, pointing
back at the class. -/
theorem load_eq_ok {id : ClassId} {file : ClassFile} {superClass : Option ClassId}
    {interfaces : List ClassId} {s s' : Interner} {c : Class}
    (h : load id file superClass interfaces s = (.ok c, s')) :
    c.id = id ∧ ∃ methods, Method.loadAll c.pool c.name file.methods s = (.ok methods, s') ∧
      c.methods = methods.map (Method.pointBack id) := by
  obtain ⟨_, methods, -, hmethods, rfl⟩ := exists_header_of_load h
  exact ⟨rfl, methods, hmethods, rfl⟩

/-- Neither the identity nor the links of a class tell whether a method of it
was replaced. -/
theorem id_setMethod_if (c : Class) (id : ClassId) (position : Nat) (m : Method) :
    (if c.id = id then c.setMethod position m else c).id = c.id := by
  split
  · rfl
  · rfl

theorem links_setMethod_if (c : Class) (id : ClassId) (position : Nat) (m : Method) :
    (if c.id = id then c.setMethod position m else c).links = c.links := by
  split
  · rfl
  · rfl

end Class

namespace Area

/-! ## What operations leave behind -/

/-- A load answers a new class and adds it, or fails and leaves nothing but
descriptors. -/
theorem load_eq_cases (a : Area) (handle : String) (file : ClassFile)
    (superClass : Option String) (interfaces : List String) :
    (∃ failure descriptors,
      a.load handle file superClass interfaces = (.error failure, { a with descriptors })) ∨
    ∃ superId interfaceIds descriptors c,
      a.linksOf superClass interfaces = .ok (superId, interfaceIds) ∧
      Class.load a.nextClass file superId interfaceIds a.descriptors = (.ok c, descriptors) ∧
      a.load handle file superClass interfaces = (.ok c, add { a with descriptors } handle c) := by
  simp only [Area.load]
  split
  · next failure _ => exact .inl ⟨failure, a.descriptors, rfl⟩
  · next superId interfaceIds hlinks =>
      split
      · next e descriptors _ => exact .inl ⟨.refused e, descriptors, rfl⟩
      · next c descriptors hload =>
          exact .inr ⟨superId, interfaceIds, descriptors, c, hlinks, hload, rfl⟩

/-- A load leaves a new class, or nothing but descriptors. -/
theorem load_cases (a : Area) (handle : String) (file : ClassFile) (superClass : Option String)
    (interfaces : List String) :
    (∃ descriptors, (a.load handle file superClass interfaces).2 = { a with descriptors }) ∨
    ∃ superId interfaceIds descriptors c,
      Class.load a.nextClass file superId interfaceIds a.descriptors = (.ok c, descriptors) ∧
      (a.load handle file superClass interfaces).2 = add { a with descriptors } handle c := by
  rcases a.load_eq_cases handle file superClass interfaces with
    ⟨_, descriptors, heq⟩ | ⟨superId, interfaceIds, descriptors, c, -, hload, heq⟩
  · exact .inl ⟨descriptors, congrArg Prod.snd heq⟩
  · exact .inr ⟨superId, interfaceIds, descriptors, c, hload, congrArg Prod.snd heq⟩

theorem class?_id {a : Area} {id : ClassId} {c : Class} (h : a.class? id = some c) :
    c.id = id := by
  simpa using List.find?_some h

/-- A weak reference leads to a class that is strongly referred to. -/
theorem upgrade_eq_some_iff {a : Area} {id : ClassId} {c : Class} :
    a.upgrade (some id) = some c ↔ 0 < a.strong.of id ∧ a.class? id = some c := by
  simp only [upgrade, Option.bind_some, Nat.pos_iff_ne_zero]
  split
  · next hzero => simp [hzero]
  · next hne => simp [hne]

/-- What is left of the classes once a reference is dropped. -/
theorem classes_drop_sublist (a : Area) (id : ClassId) :
    (a.drop id).classes.Sublist a.classes :=
  List.filter_sublist

/-- To assign a handle changes where it leads, and may drop classes. -/
theorem assign_eq (a : Area) (handle : String) (id : ClassId) :
    ∃ classes strong, classes.Sublist a.classes ∧
      a.assign handle id =
        { a with classes, strong, handles := a.handles.insert handle id } := by
  rw [assign]
  cases a.handles.get? handle with
  | none => exact ⟨a.classes, a.strong, List.Sublist.refl _, rfl⟩
  | some previous => exact ⟨_, _, List.filter_sublist, rfl⟩

/-- To add a class makes it the newest, under its handle. -/
theorem add_eq (a : Area) (handle : String) (c : Class) :
    ∃ classes strong, classes.Sublist (c :: a.classes) ∧
      a.add handle c =
        { a with
          classes
          strong
          handles := a.handles.insert handle c.id
          nextClass := a.nextClass + 1 } :=
  assign_eq { a with
    classes := c :: a.classes
    strong := (c.links.foldl StrongCounts.increment a.strong).increment c.id
    nextClass := a.nextClass + 1 } handle c.id

/-- A handle is put on a class that a weak reference leads to, and on no
other. -/
theorem hold_eq_cases (a : Area) (handle : String) (id : ClassId) :
    (a.upgrade (some id) = none ∧ a.hold handle id = (false, a)) ∨
    ∃ c, a.upgrade (some id) = some c ∧
      a.hold handle id = (true, assign { a with strong := a.strong.increment id } handle id) := by
  rw [Area.hold]
  cases hc : a.upgrade (some id) with
  | none => exact .inl ⟨rfl, rfl⟩
  | some c =>
      obtain rfl := class?_id (upgrade_eq_some_iff.1 hc).2
      exact .inr ⟨c, rfl, rfl⟩

/-- Dropping a handle drops the reference that it has. -/
theorem unload_eq_cases (a : Area) (handle : String) :
    (a.handles.get? handle = none ∧ a.unload handle = (false, a)) ∨
    ∃ id, a.handles.get? handle = some id ∧
      a.unload handle = (true, drop { a with handles := a.handles.erase handle } id) := by
  rw [Area.unload]
  cases a.handles.get? handle with
  | none => exact .inl ⟨rfl, rfl⟩
  | some id => exact .inr ⟨id, rfl, rfl⟩

theorem classes_hold_sublist (a : Area) (handle : String) (id : ClassId) :
    (a.hold handle id).2.classes.Sublist a.classes := by
  rcases a.hold_eq_cases handle id with ⟨-, heq⟩ | ⟨_, -, heq⟩
  · rw [heq]
  · obtain ⟨_, _, hsub, hassign⟩ := assign_eq { a with strong := a.strong.increment id } handle id
    rw [heq, hassign]
    exact hsub

theorem classes_unload_sublist (a : Area) (handle : String) :
    (a.unload handle).2.classes.Sublist a.classes := by
  rcases a.unload_eq_cases handle with ⟨-, heq⟩ | ⟨_, -, heq⟩
  · rw [heq]
  · rw [heq]
    exact classes_drop_sublist _ _

/-- A replacement leaves another method in some place, or nothing. -/
theorem replaceCode_cases (a : Area) (handle : String) (position : Nat) (bytes : List UInt8) :
    (a.replaceCode handle position bytes).2 = a ∨
    ∃ id m, (a.replaceCode handle position bytes).2 = a.setMethod id position m := by
  simp only [Area.replaceCode]
  split
  · exact .inl rfl
  · split
    · exact .inl rfl
    · exact .inr ⟨_, _, rfl⟩

/-- So does a resolution. -/
theorem resolve_cases (a : Area) (handle : String) (position : Nat) (name : RegistryName) :
    (a.resolve handle position name).2 = a ∨
    ∃ id m, (a.resolve handle position name).2 = a.setMethod id position m := by
  simp only [Area.resolve]
  split
  · exact .inl rfl
  · exact .inr ⟨_, _, rfl⟩

/-- What an operation can leave behind. -/
inductive Leaves (a : Area) : Area → Prop
  | unchanged : Leaves a a
  | interned (descriptor : String) :
      Leaves a { a with descriptors := (a.descriptors.intern descriptor).2 }
  | refused {file : ClassFile} {superId : Option ClassId} {interfaceIds : List ClassId}
      {e : Error} {descriptors : Interner} :
      Class.load a.nextClass file superId interfaceIds a.descriptors = (.error e, descriptors) →
      Leaves a { a with descriptors }
  | added {handle : String} {file : ClassFile} {superClass : Option String}
      {interfaces : List String} {superId : Option ClassId} {interfaceIds : List ClassId}
      {descriptors : Interner} {c : Class} :
      a.linksOf superClass interfaces = .ok (superId, interfaceIds) →
      Class.load a.nextClass file superId interfaceIds a.descriptors = (.ok c, descriptors) →
      Leaves a (add { a with descriptors } handle c)
  | held {handle : String} {id : ClassId} {c : Class} : a.upgrade (some id) = some c →
      Leaves a (assign { a with strong := a.strong.increment id } handle id)
  | unloaded {handle : String} {id : ClassId} : a.handles.get? handle = some id →
      Leaves a (drop { a with handles := a.handles.erase handle } id)
  | changed (id : ClassId) (position : Nat) (m : Method) : Leaves a (a.setMethod id position m)
  | registered (registries : Table RegistryName Registry) (natives : List Native) :
      Leaves a { a with registries, natives }

theorem leaves_load (a : Area) (handle : String) (file : ClassFile) (superClass : Option String)
    (interfaces : List String) : a.Leaves (a.load handle file superClass interfaces).2 := by
  simp only [Area.load]
  split
  · exact .unchanged
  · next hlinks =>
      split
      · next hload => exact .refused hload
      · next hload => exact .added hlinks hload

theorem leaves_hold (a : Area) (handle : String) (id : ClassId) :
    a.Leaves (a.hold handle id).2 := by
  rcases a.hold_eq_cases handle id with ⟨-, heq⟩ | ⟨c, hc, heq⟩
  · rw [heq]
    exact .unchanged
  · rw [heq]
    exact .held hc

theorem leaves_unload (a : Area) (handle : String) : a.Leaves (a.unload handle).2 := by
  rcases a.unload_eq_cases handle with ⟨-, heq⟩ | ⟨id, hid, heq⟩
  · rw [heq]
    exact .unchanged
  · rw [heq]
    exact .unloaded hid

theorem leaves_replaceCode (a : Area) (handle : String) (position : Nat) (bytes : List UInt8) :
    a.Leaves (a.replaceCode handle position bytes).2 := by
  rcases a.replaceCode_cases handle position bytes with heq | ⟨id, m, heq⟩
  · rw [heq]
    exact .unchanged
  · rw [heq]
    exact .changed id position m

theorem leaves_resolve (a : Area) (handle : String) (position : Nat) (name : RegistryName) :
    a.Leaves (a.resolve handle position name).2 := by
  rcases a.resolve_cases handle position name with heq | ⟨id, m, heq⟩
  · rw [heq]
    exact .unchanged
  · rw [heq]
    exact .changed id position m

theorem leaves_step (a : Area) (op : Operation) : a.Leaves (a.step op).2 := by
  cases op with
  | load handle file superClass interfaces => exact a.leaves_load handle file superClass interfaces
  | hold handle id => exact a.leaves_hold handle id
  | unload handle => exact a.leaves_unload handle
  | intern descriptor => exact .interned descriptor
  | replaceCode handle position bytes => exact a.leaves_replaceCode handle position bytes
  | resolve handle position name => exact a.leaves_resolve handle position name
  | register _ _ _ | unregister _ _ | registerNatives => exact .registered _ _

/-! ## The order of identities -/

/-- The classes stand in the order of their identities, newest first. -/
structure Ordered (a : Area) : Prop where
  below : ∀ c ∈ a.classes, c.id < a.nextClass
  descending : a.classes.Pairwise (fun c d => d.id < c.id)

theorem Ordered.class?_eq_some_iff {a : Area} (h : a.Ordered) {id : ClassId} {c : Class} :
    a.class? id = some c ↔ c ∈ a.classes ∧ c.id = id :=
  Hierarchy.class?_eq_some_iff h.descending

/-! ## Operations keep the order -/

theorem ordered_empty : empty.Ordered :=
  ⟨fun _ h => absurd h List.not_mem_nil, .nil⟩

/-- The order only looks at the classes and at the next identity, and
fewer classes are in order as well. -/
theorem Ordered.of_sublist {a b : Area} (h : a.Ordered) (hsub : b.classes.Sublist a.classes)
    (hnext : b.nextClass = a.nextClass) : b.Ordered := by
  refine ⟨?_, h.descending.sublist hsub⟩
  intro c hc
  rw [hnext]
  exact h.below c (hsub.subset hc)

theorem Ordered.of_eq {a b : Area} (h : a.Ordered) (hclasses : b.classes = a.classes)
    (hnext : b.nextClass = a.nextClass) : b.Ordered :=
  h.of_sublist (hclasses ▸ List.Sublist.refl _) hnext

theorem Ordered.drop {a : Area} (h : a.Ordered) (id : ClassId) : (a.drop id).Ordered :=
  h.of_sublist (a.classes_drop_sublist id) rfl

theorem Ordered.assign {a : Area} (h : a.Ordered) (handle : String) (id : ClassId) :
    (a.assign handle id).Ordered := by
  obtain ⟨classes, strong, hsub, heq⟩ := a.assign_eq handle id
  rw [heq]
  exact h.of_sublist hsub rfl

theorem Ordered.setMethod {a : Area} (h : a.Ordered) (id : ClassId) (position : Nat)
    (m : Method) : (a.setMethod id position m).Ordered := by
  refine ⟨?_, ?_⟩
  · intro c' hc'
    obtain ⟨c, hc, rfl⟩ := List.mem_map.1 hc'
    rw [Class.id_setMethod_if]
    exact h.below c hc
  · refine List.pairwise_map.2 (h.descending.imp ?_)
    intro c d hlt
    rwa [Class.id_setMethod_if, Class.id_setMethod_if]

theorem Ordered.add {a : Area} (h : a.Ordered) {handle : String} {c : Class}
    (hc : c.id = a.nextClass) : (a.add handle c).Ordered := by
  refine Ordered.assign ⟨?_, List.pairwise_cons.2 ⟨?_, h.descending⟩⟩ handle c.id
  · intro d hd
    rcases List.mem_cons.1 hd with rfl | hd
    · exact hc ▸ Nat.lt_succ_self _
    · exact Nat.lt_succ_of_lt (h.below d hd)
  · intro d hd
    rw [hc]
    exact h.below d hd

theorem Leaves.ordered {a b : Area} (hb : a.Leaves b) (h : a.Ordered) : b.Ordered := by
  cases hb with
  | unchanged => exact h
  | interned _ | refused _ | registered _ _ => exact h.of_eq rfl rfl
  | @added _ _ _ _ _ _ descriptors _ _ hload =>
      have hdescriptors : Ordered { a with descriptors } := h.of_eq rfl rfl
      exact hdescriptors.add (Class.load_eq_ok hload).1
  | @held handle id _ _ =>
      have hcloned : Ordered { a with strong := a.strong.increment id } := h.of_eq rfl rfl
      exact hcloned.assign handle id
  | @unloaded handle id _ =>
      have herased : Ordered { a with handles := a.handles.erase handle } := h.of_eq rfl rfl
      exact herased.drop id
  | changed id position m => exact h.setMethod id position m

theorem Ordered.step {a : Area} (h : a.Ordered) (op : Operation) : (a.step op).2.Ordered :=
  (a.leaves_step op).ordered h

/-! ## Runs -/

/-- No identity is taken back. -/
theorem Leaves.nextClass_le {a b : Area} (hb : a.Leaves b) : a.nextClass ≤ b.nextClass := by
  cases hb with
  | added _ _ =>
      obtain ⟨_, _, -, heq⟩ := add_eq _ _ _
      rw [heq]
      exact Nat.le_succ _
  | held _ =>
      obtain ⟨_, _, -, heq⟩ := assign_eq _ _ _
      refine Nat.le_of_eq ?_
      rw [heq]
  | unchanged | interned _ | refused _ | unloaded _ | changed _ _ _ | registered _ _ =>
      exact Nat.le_refl _

theorem nextClass_le_step (a : Area) (op : Operation) : a.nextClass ≤ (a.step op).2.nextClass :=
  (a.leaves_step op).nextClass_le

theorem nextClass_le_run (a : Area) (ops : List Operation) :
    a.nextClass ≤ (run a ops).nextClass := by
  induction ops generalizing a with
  | nil => exact Nat.le_refl _
  | cons op ops ih => exact Nat.le_trans (nextClass_le_step a op) (ih (a.step op).2)

theorem run_append (a : Area) (ops ops' : List Operation) :
    run a (ops ++ ops') = run (run a ops) ops' :=
  List.foldl_append

theorem run_concat (a : Area) (ops : List Operation) (op : Operation) :
    run a (ops ++ [op]) = ((run a ops).step op).2 :=
  run_append a ops [op]

theorem reachable_run {a : Area} (h : Reachable a) (ops : List Operation) :
    Reachable (run a ops) := by
  obtain ⟨before, rfl⟩ := h
  exact ⟨before ++ ops, (run_append empty before ops).symm⟩

theorem Reachable.step {a : Area} (h : Reachable a) (op : Operation) : Reachable (a.step op).2 :=
  reachable_run h [op]

/-- What each operation keeps, a run keeps. -/
theorem run_keeps {P : Area → Prop} (hstep : ∀ a op, P a → P (a.step op).2)
    (ops : List Operation) {a : Area} (h : P a) : P (run a ops) := by
  induction ops generalizing a with
  | nil => exact h
  | cons op ops ih => exact ih (hstep a op h)

theorem Ordered.run {a : Area} (h : a.Ordered) (ops : List Operation) : (run a ops).Ordered :=
  run_keeps (fun _ op h => h.step op) ops h

theorem Reachable.ordered {a : Area} (h : Reachable a) : a.Ordered := by
  obtain ⟨ops, rfl⟩ := h
  exact ordered_empty.run ops

end Area

end MethodArea
