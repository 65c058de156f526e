/-
# `Proofs.Area.Lifetime` — how long classes exist

Handles come and go, are put on other classes and are taken by new ones,
and what exists follows them.  After any run:

* a class that was loaded exists if some path leads to it from a class that
  a handle is on, and only then;
* the fields and methods of a class that exists point back at that class,
  and at no other of its name;
* no reference counts but those of handles and those of classes that exist
  to what they link to, so that pointing back keeps no class;
* the members of a class that is gone point at nothing, now and later: a
  class does not come back.

Which class a handle is on is what was done to the handle last
(`holding`), and the paths are those among all classes ever loaded
(`loads`); so the first point does not mention the area at all.  What is
behind it is that counting references comes to reachability
(`Reachable.exists_iff`).
-/
import Mathlib
import MethodArea.Proofs.Area.Loads

namespace MethodArea

open Hierarchy

/-! ## Members and their class -/

namespace Class

/-- The fields and the methods of a class. -/
def members (c : Class) : List Member :=
  c.fields.map Field.toMember ++ c.methods.map Method.toMember

theorem members_eq_of_fixed {c d : Class} (h : d.fixed = c.fixed) : d.members = c.members := by
  have hmembers : ∀ c : Class, c.fixed.members = c.members := by
    intro c
    rw [members, fixed_methods, List.map_map]
    rfl
  rw [← hmembers d, h, hmembers]

/-- All members of a class point back at it. -/
theorem owner_of_mem_members {id : ClassId} {file : ClassFile} {superClass : Option ClassId}
    {interfaces : List ClassId} {s s' : Interner} {c : Class}
    (h : load id file superClass interfaces s = (.ok c, s')) {m : Member}
    (hm : m ∈ c.members) : m.owner = some id := by
  obtain ⟨_, _, -, -, rfl⟩ := exists_header_of_load h
  rcases List.mem_append.1 hm with hm | hm
  · obtain ⟨f, hf, rfl⟩ := List.mem_map.1 hm
    obtain ⟨_, -, rfl⟩ := List.mem_map.1 hf
    rfl
  · obtain ⟨pointing, hpointing, rfl⟩ := List.mem_map.1 hm
    obtain ⟨_, -, rfl⟩ := List.mem_map.1 hpointing
    rfl

end Class

namespace Area

/-- The class that a member points back at, if it still exists. -/
def classOfMember (a : Area) (m : Member) : Option Class := a.upgrade m.owner

theorem owner_eq_of_mem_loads {ops : List Operation} {c : Class} (hc : c ∈ loads ops)
    {m : Member} (hm : m ∈ c.members) : m.owner = some c.id := by
  obtain ⟨⟨a, op⟩, -, hloaded⟩ := List.mem_filterMap.1 (List.mem_reverse.1 hc)
  obtain ⟨_, _, _, _, _, _, _, -, -, hload, -⟩ := exists_load_of_loaded? hloaded
  rw [Class.owner_of_mem_members hload hm, (Class.load_eq_ok hload).1]

/-- A member of a class that was loaded leads to the class of that identity,
whatever else has happened. -/
theorem Reachable.classOfMember_eq {a : Area} (h : Reachable a) {ops : List Operation} {c : Class}
    (hc : c ∈ loads ops) {m : Member} (hm : m ∈ c.members) :
    a.classOfMember m = a.class? c.id := by
  rw [classOfMember, owner_eq_of_mem_loads hc hm, h.upgrade_eq]

/-! ## What was done to a handle -/

/-- What an operation makes of a handle, if it does something to it: the
handle is put on a class, or taken away. -/
def named? (handle : String) : Area × Operation → Option (Option ClassId)
  | (a, .load handle' file superClass interfaces) =>
    if handle = handle' then
      (loaded? (a, .load handle' file superClass interfaces)).map (fun c => some c.id)
    else none
  | (a, .hold handle' id) =>
    if handle = handle' ∧ (a.hold handle' id).1 = true then some (some id) else none
  | (_, .unload handle') => if handle = handle' then some none else none
  | _ => none

/-- The class that a handle was put on last and not taken from since. -/
def holding (handle : String) (ops : List Operation) : Option ClassId :=
  ((trace empty ops).filterMap (named? handle)).getLast?.join

theorem handles_get?_step (a : Area) (op : Operation) (handle : String) :
    (a.step op).2.handles.get? handle =
      (named? handle (a, op)).getD (a.handles.get? handle) := by
  cases op with
  | load handle' file superClass interfaces =>
      have hreply : (a.step (.load handle' file superClass interfaces)).1 =
          Reply.loaded <$> (a.load handle' file superClass interfaces).1 := rfl
      show (a.load handle' file superClass interfaces).2.handles.get? handle = _
      rcases a.load_eq_cases handle' file superClass interfaces with
        ⟨failure, descriptors, heq⟩ | ⟨_, _, descriptors, c, -, -, heq⟩
      · rw [heq] at hreply
        simp only [named?, loaded?, hreply, heq]
        split
        · rfl
        · rfl
      · rw [heq] at hreply
        obtain ⟨_, _, -, hadd⟩ := add_eq { a with descriptors } handle' c
        simp only [named?, loaded?, hreply, heq, hadd]
        rw [Table.get?_insert]
        split
        · rfl
        · rfl
  | hold handle' id =>
      show (a.hold handle' id).2.handles.get? handle = _
      rcases a.hold_eq_cases handle' id with ⟨-, heq⟩ | ⟨c, -, heq⟩
      · simp [named?, heq]
      · obtain ⟨_, _, -, hassign⟩ :=
          assign_eq { a with strong := a.strong.increment id } handle' id
        simp only [named?, heq, hassign, and_true]
        rw [Table.get?_insert]
        split
        · rfl
        · rfl
  | unload handle' =>
      show (a.unload handle').2.handles.get? handle = _
      rcases a.unload_eq_cases handle' with ⟨hnone, heq⟩ | ⟨id, -, heq⟩
      · rw [heq, named?]
        split
        · next hsame => exact hsame ▸ hnone
        · rfl
      · rw [heq, named?]
        show (a.handles.erase handle').get? handle = _
        rw [Table.get?_erase]
        split
        · rfl
        · rfl
  | replaceCode handle' position bytes =>
      show (a.replaceCode handle' position bytes).2.handles.get? handle = _
      rcases a.replaceCode_cases handle' position bytes with heq | ⟨_, _, heq⟩
      · rw [heq]
        rfl
      · rw [heq]
        rfl
  | resolve handle' position name =>
      show (a.resolve handle' position name).2.handles.get? handle = _
      rcases a.resolve_cases handle' position name with heq | ⟨_, _, heq⟩
      · rw [heq]
        rfl
      · rw [heq]
        rfl
  | intern _ | register _ _ _ | unregister _ _ | registerNatives => rfl

/-- The handles of an area are on the classes that they hold. -/
theorem handles_get?_run (ops : List Operation) (handle : String) :
    (run empty ops).handles.get? handle = holding handle ops := by
  have hlast := last_written (fun a => a.handles.get? handle) (named? handle)
    (fun a op (_ : op ∈ ops) => handles_get?_step a op handle) empty
  rw [holding]
  refine hlast.trans ?_
  cases ((trace empty ops).filterMap (named? handle)).getLast? with
  | none => rfl
  | some entry => rfl

/-! ## Existing, and being gone -/

/-- What has existed and does not is not there later either. -/
theorem Ordered.class?_run_eq_none {a : Area} (h : a.Ordered) {id : ClassId}
    (hid : id < a.nextClass) (hgone : a.class? id = none) (later : List Operation) :
    (Area.run a later).class? id = none := by
  refine (run_keeps (P := fun a => a.Ordered ∧ id < a.nextClass ∧ a.class? id = none) ?_ later
    ⟨h, hid, hgone⟩).2.2
  intro a op hkept
  obtain ⟨hordered, hlt, hnone⟩ := hkept
  refine ⟨hordered.step op, Nat.lt_of_lt_of_le hlt (nextClass_le_step a op), ?_⟩
  cases hc' : (a.step op).2.class? id with
  | none => rfl
  | some c' =>
      rcases hordered.class?_step hc' with ⟨hnext, -⟩ | ⟨c, hc, -⟩
      · exact absurd hlt (hnext ▸ Nat.lt_irrefl _)
      · rw [hnone] at hc
        cases hc

/-- A class exists exactly if a path leads to it from a class that a handle
is on. -/
theorem exists_iff_reaches (ops : List Operation) (target : ClassId) :
    ((run empty ops).class? target).isSome = true ↔
      ∃ handle id, holding handle ops = some id ∧ Reaches (loads ops) id target := by
  have hreach : Reachable (run empty ops) := ⟨ops, rfl⟩
  have hpaths : ∀ {a b : ClassId}, (∃ d ∈ (run empty ops).classes, d.id = a) →
      (Reaches (run empty ops).classes a b ↔ Reaches (loads ops) a b) := by
    intro a b ha
    have h := reaches_loads_iff [] (b := b) (exists_class?_iff.2 ha)
    rwa [List.append_nil] at h
  rw [Option.isSome_iff_exists]
  refine exists_class?_iff.trans ((hreach.exists_iff target).trans ?_)
  simp only [← handles_get?_run]
  refine exists_congr fun handle => exists_congr fun id => and_congr_right fun hhandle => ?_
  exact hpaths (hreach.counted.exists_of_handle hhandle)

/-- How long classes exist, what keeps them, and what their members point
back at. -/
theorem class_lifetime (ops : List Operation) :
    ((loads ops).map Class.id).Nodup ∧
    (∀ c ∈ loads ops, ((run empty ops).class? c.id).isSome = true ↔
      ∃ handle id, holding handle ops = some id ∧ Reaches (loads ops) id c.id) ∧
    (∀ id, (run empty ops).strong.of id =
        (run empty ops).handles.values.count id +
          (allLinks (run empty ops).classes).count id ∧
      (((run empty ops).class? id).isSome = true ↔ 0 < (run empty ops).strong.of id)) ∧
    (∀ c ∈ (run empty ops).classes, (∃ d ∈ loads ops, d.fixed = c.fixed) ∧
      ∀ m ∈ c.members, m.owner = some c.id ∧ (run empty ops).classOfMember m = some c) ∧
    (∀ c ∈ loads ops, (run empty ops).class? c.id = none → ∀ later,
      (run empty (ops ++ later)).class? c.id = none ∧
      ∀ m ∈ c.members, (run empty (ops ++ later)).classOfMember m = none) := by
  have hreach : Reachable (run empty ops) := ⟨ops, rfl⟩
  refine ⟨?_, fun c _ => exists_iff_reaches ops c.id, fun id => ⟨?_, ?_⟩, ?_, ?_⟩
  · refine List.pairwise_map.2 ((recorded ops).inOrder.descending.imp ?_)
    exact fun hlt => Nat.ne_of_gt hlt
  · exact hreach.counted.counts id
  · rw [Option.isSome_iff_exists]
    refine exists_class?_iff.trans ⟨?_, hreach.counted.present id⟩
    rintro ⟨c, hc, rfl⟩
    exact hreach.counted.alive c hc
  · intro c hc
    have hclass : (run empty ops).class? c.id = some c :=
      hreach.ordered.class?_eq_some_iff.2 ⟨hc, rfl⟩
    obtain ⟨d, hd, hid, hfixed⟩ := (recorded ops).asLoaded c.id c hclass
    refine ⟨⟨d, hd, hfixed⟩, ?_⟩
    intro m hm
    rw [← Class.members_eq_of_fixed hfixed] at hm
    have howner := owner_eq_of_mem_loads hd hm
    have hleads := hreach.classOfMember_eq hd hm
    rw [hid] at howner hleads
    exact ⟨howner, hleads.trans hclass⟩
  · intro c hc hgone later
    have hnone : (run empty (ops ++ later)).class? c.id = none := by
      rw [run_append]
      exact hreach.ordered.class?_run_eq_none ((recorded ops).below c hc) hgone later
    have hlater : Reachable (run empty (ops ++ later)) := ⟨ops ++ later, rfl⟩
    exact ⟨hnone, fun m hm => (hlater.classOfMember_eq hc hm).trans hnone⟩

/-- A class of a given name with a field and a method. -/
def classWithMembers (name : String) : ClassFile where
  constants := [.ofText name, .classRef 1, .ofText "x", .ofText "I", .ofText "f", .ofText "()V"]
  flags := ⟨1⟩
  thisClass := 2
  fields := [⟨⟨2⟩, 3, 4, []⟩]
  methods := [⟨⟨0x0101⟩, 5, 6, []⟩]

/-- A class is loaded over its own super class, of the same name, and a
third class has it as an interface; then its handle is dropped as well. -/
def shadowedSuper : List Operation :=
  [.load "A" (classWithMembers "demo/A") none [],
    .load "A" (classWithMembers "demo/A") (some "A") [],
    .load "B" (classWithMembers "demo/B") none ["A"],
    .unload "A"]

/-- The two classes of one name hang on the third one, each with its own
members, and what keeps the older one is the link of the newer one alone;
without the third class they are gone for good. -/
theorem class_lifetime_shadowed_super :
    (∃ older newer, older ∈ (run empty shadowedSuper).classes ∧
      newer ∈ (run empty shadowedSuper).classes ∧ older.id = 0 ∧ newer.id = 1 ∧
      older.name = newer.name ∧
      (∃ m ∈ older.members, (run empty shadowedSuper).classOfMember m = some older) ∧
      ∃ m ∈ newer.members, (run empty shadowedSuper).classOfMember m = some newer) ∧
    (run empty shadowedSuper).handles.values.count 0 = 0 ∧
    (allLinks (run empty shadowedSuper).classes).count 0 = 1 ∧
    (∃ handle id, holding handle shadowedSuper = some id ∧ Reaches (loads shadowedSuper) id 0) ∧
    ∃ c ∈ loads (shadowedSuper ++ [.unload "B"]), c.id = 0 ∧ ∃ m ∈ c.members, ∀ later,
      (run empty (shadowedSuper ++ [.unload "B"] ++ later)).classOfMember m = none := by
  have hclasses : (run empty shadowedSuper).classes.map
      (fun c => (c.id, c.name, c.members.length)) =
      [(2, "demo/B", 2), (1, "demo/A", 2), (0, "demo/A", 2)] := by cbv
  have hloads : (loads shadowedSuper).map Class.id = [2, 1, 0] := by cbv
  have hlater : (loads (shadowedSuper ++ [.unload "B"])).map
      (fun c => (c.id, c.members.length)) = [(2, 2), (1, 2), (0, 2)] := by cbv
  have hgone : ((run empty (shadowedSuper ++ [.unload "B"])).class? 0).isSome = false := by cbv
  have hstrong : (run empty shadowedSuper).strong.of 0 = 1 := by cbv
  have hnone : (run empty shadowedSuper).handles.values.count 0 = 0 := by cbv
  obtain ⟨-, hexists, hcounts, hmembers, -⟩ := class_lifetime shadowedSuper
  obtain ⟨-, -, -, -, hforGood⟩ := class_lifetime (shadowedSuper ++ [.unload "B"])
  refine ⟨?_, hnone, ?_, ?_, ?_⟩
  · have hfound : ∀ id name, (id, name, 2) ∈ (run empty shadowedSuper).classes.map
        (fun c => (c.id, c.name, c.members.length)) → ∃ c ∈ (run empty shadowedSuper).classes,
          c.id = id ∧ c.name = name ∧
          ∃ m ∈ c.members, (run empty shadowedSuper).classOfMember m = some c := by
      intro id name hmem
      obtain ⟨c, hc, heq⟩ := List.mem_map.1 hmem
      simp only [Prod.mk.injEq] at heq
      obtain ⟨hid, hname, hlength⟩ := heq
      obtain ⟨m, hm⟩ := List.exists_mem_of_length_pos (hlength.symm ▸ Nat.zero_lt_two)
      exact ⟨c, hc, hid, hname, m, hm, ((hmembers c hc).2 m hm).2⟩
    obtain ⟨older, holder, hid, hname, hback⟩ := hfound 0 "demo/A" (by simp [hclasses])
    obtain ⟨newer, hnewer, hid', hname', hback'⟩ := hfound 1 "demo/A" (by simp [hclasses])
    exact ⟨older, newer, holder, hnewer, hid, hid', hname.trans hname'.symm, hback, hback'⟩
  · have hcount := (hcounts 0).1
    rw [hstrong, hnone, Nat.zero_add] at hcount
    exact hcount.symm
  · have hmem : 0 ∈ (loads shadowedSuper).map Class.id := by simp [hloads]
    obtain ⟨c, hc, hid⟩ := List.mem_map.1 hmem
    have hsome : ((run empty shadowedSuper).class? 0).isSome = true := by cbv
    rw [← hid] at hsome ⊢
    exact (hexists c hc).1 hsome
  · have hmem : (0, 2) ∈ (loads (shadowedSuper ++ [.unload "B"])).map
        (fun c => (c.id, c.members.length)) := by simp [hlater]
    obtain ⟨c, hc, heq⟩ := List.mem_map.1 hmem
    obtain ⟨hid, hlength⟩ := Prod.mk.inj heq
    obtain ⟨m, hm⟩ := List.exists_mem_of_length_pos (hlength.symm ▸ Nat.zero_lt_two)
    have hnone : (run empty (shadowedSuper ++ [.unload "B"])).class? c.id = none := by
      rw [hid]
      exact Option.isNone_iff_eq_none.1 (Option.isSome_eq_false_iff.1 hgone)
    exact ⟨c, hc, hid, m, hm, fun later => (hforGood c hc hnone later).2 m hm⟩

end Area

end MethodArea
