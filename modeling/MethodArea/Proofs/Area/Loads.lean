/-
# `Proofs.Area.Loads` — all classes that a run has loaded

Classes come and go, and what a run has loaded is more than what exists at
its end.  `loads` lists it, newest first, each class as its load answered
it.  The list is a graph of its own: identities are told apart, and links
lead to older classes.

A class that exists is one of the list, but its methods may have got other
code or a binding since.  Without these two cells it is what was loaded
(`Class.fixed`, `Recorded.asLoaded`).  In particular it has the links that
it was loaded with, and since the classes that exist are closed under
links, their paths are those of the list (`reaches_loads_iff`): what leads
where does not depend on when one asks.
-/
import Mathlib.Data.List.Induction
import MethodArea.Proofs.Area.History
import MethodArea.Proofs.Area.References

namespace MethodArea

/-! ## What never changes -/

/-- A method without the two cells that can change. -/
def Method.fixed (m : Method) : Method := { m with code := none, bound := none }

/-- A class without the cells of its methods. -/
def Class.fixed (c : Class) : Class := { c with methods := c.methods.map Method.fixed }

/-- What does not look at the cells is the same for two methods that differ
in them only. -/
theorem Method.congr_of_fixed {β : Type} {f : Method → β} (hf : ∀ m, f m.fixed = f m)
    {m m' : Method} (h : m'.fixed = m.fixed) : f m' = f m := by
  rw [← hf m', h, hf m]

theorem Method.Change.fixed_eq {m m' : Method} (h : m.Change m') : m'.fixed = m.fixed := by
  cases h with
  | replaceCode h =>
      obtain ⟨-, -, rfl⟩ := Method.replaceCode_eq_ok_iff.1 h
      rfl
  | bind _ _ => rfl

namespace Class

@[simp] theorem fixed_id (c : Class) : c.fixed.id = c.id := rfl
@[simp] theorem fixed_name (c : Class) : c.fixed.name = c.name := rfl
@[simp] theorem fixed_pool (c : Class) : c.fixed.pool = c.pool := rfl
@[simp] theorem fixed_links (c : Class) : c.fixed.links = c.links := rfl
@[simp] theorem fixed_methods (c : Class) : c.fixed.methods = c.methods.map Method.fixed := rfl

theorem name_eq_of_fixed {c d : Class} (h : d.fixed = c.fixed) : d.name = c.name := by
  rw [← fixed_name, h, fixed_name]

theorem pool_eq_of_fixed {c d : Class} (h : d.fixed = c.fixed) : d.pool = c.pool := by
  rw [← fixed_pool, h, fixed_pool]

theorem links_eq_of_fixed {c d : Class} (h : d.fixed = c.fixed) : d.links = c.links := by
  rw [← fixed_links, h, fixed_links]

/-- A method in a place of one class stands in the same place of another one
with other cells. -/
theorem exists_method_of_fixed {c d : Class} (h : d.fixed = c.fixed) {i : Nat} {m : Method}
    (hm : c.methods[i]? = some m) : ∃ m', d.methods[i]? = some m' ∧ m'.fixed = m.fixed := by
  have hmethods : d.methods.map Method.fixed = c.methods.map Method.fixed := by
    rw [← fixed_methods, h, fixed_methods]
  have hi := congrArg (·[i]?) hmethods
  simp only [List.getElem?_map, hm, Option.map_some] at hi
  exact Option.map_eq_some_iff.1 hi

end Class

namespace Area

open Hierarchy

theorem effectOn_fixed (a : Area) (op : Operation) (c : Class) :
    (a.effectOn op c).fixed = c.fixed := by
  have hmethods : (c.methods.mapIdx (fun i m => a.effect ⟨c.id, i⟩ m op)).map Method.fixed =
      c.methods.map Method.fixed := by
    refine List.ext_getElem? ?_
    intro i
    rw [List.getElem?_map, List.getElem?_map, List.getElem?_mapIdx]
    cases c.methods[i]? with
    | none => rfl
    | some m =>
        refine congrArg some ?_
        show (a.effect ⟨c.id, i⟩ m op).fixed = m.fixed
        rcases effect_eq_or_change a ⟨c.id, i⟩ m op with heq | hchange
        · rw [heq]
        · exact hchange.fixed_eq
  simp only [Class.fixed, effectOn, hmethods]

/-! ## What is loaded -/

/-- The class that an operation loads, if it does. -/
def loaded? : Area × Operation → Option Class
  | (a, op) =>
    match (a.step op).1 with
    | .ok (.loaded c) => some c
    | _ => none

theorem loaded?_eq_some_iff {a : Area} {op : Operation} {c : Class} :
    loaded? (a, op) = some c ↔ (a.step op).1 = .ok (.loaded c) := by
  rw [loaded?]
  constructor
  · intro h
    split at h
    · next heq =>
        cases h
        exact heq
    · cases h
  · intro h
    rw [h]

/-- The classes that a run has loaded, newest first. -/
def loads (ops : List Operation) : List Class := ((trace empty ops).filterMap loaded?).reverse

theorem loads_concat (ops : List Operation) (op : Operation) :
    loads (ops ++ [op]) = (loaded? (run empty ops, op)).toList ++ loads ops := by
  rw [loads, trace_concat, List.filterMap_append, List.reverse_append, List.filterMap_cons]
  cases loaded? (run empty ops, op) with
  | none => rfl
  | some c => rfl

theorem exists_loads_append (ops later : List Operation) :
    ∃ newer, loads (ops ++ later) = newer ++ loads ops := by
  refine ⟨((trace (run empty ops) later).filterMap loaded?).reverse, ?_⟩
  rw [loads, trace_append, List.filterMap_append, List.reverse_append]
  rfl

/-- An operation that loads a class is a load, and the class is what loading
its file gives. -/
theorem exists_load_of_loaded? {a : Area} {op : Operation} {c : Class}
    (h : loaded? (a, op) = some c) :
    ∃ handle file superClass interfaces superId interfaceIds descriptors,
      op = .load handle file superClass interfaces ∧
      a.linksOf superClass interfaces = .ok (superId, interfaceIds) ∧
      Class.load a.nextClass file superId interfaceIds a.descriptors = (.ok c, descriptors) ∧
      (a.step op).2 = add { a with descriptors } handle c := by
  have hreply := loaded?_eq_some_iff.1 h
  cases op with
  | load handle file superClass interfaces =>
      simp only [step] at hreply ⊢
      rcases a.load_eq_cases handle file superClass interfaces with
        ⟨failure, descriptors, heq⟩ | ⟨superId, interfaceIds, descriptors, d, hlinks, hload, heq⟩
      · rw [heq] at hreply
        cases hreply
      · rw [heq] at hreply ⊢
        cases hreply
        exact ⟨handle, file, superClass, interfaces, superId, interfaceIds, descriptors, rfl,
          hlinks, hload, rfl⟩
  | intern descriptor =>
      obtain ⟨_, -, h⟩ := Except.map_eq_ok_iff.1 hreply
      cases h
  | replaceCode handle position bytes =>
      obtain ⟨_, -, h⟩ := Except.map_eq_ok_iff.1 hreply
      cases h
  | resolve handle position registry =>
      obtain ⟨_, -, h⟩ := Except.bind_eq_ok_iff.1 hreply
      obtain ⟨_, -, h⟩ := Except.map_eq_ok_iff.1 h
      cases h
  | hold _ _ | unload _ | register _ _ _ | unregister _ _ | registerNatives => cases hreply

/-- What a class is after an operation: the one that is loaded, or one that
was there, with other cells. -/
theorem Ordered.loaded_or_fixed {a : Area} (h : a.Ordered) {op : Operation} {id : ClassId}
    {c' : Class} (hc' : (a.step op).2.class? id = some c') :
    loaded? (a, op) = some c' ∨ ∃ c, a.class? id = some c ∧ c'.fixed = c.fixed := by
  rcases h.class?_step hc' with ⟨hid, file, _, _, _, hfile, -⟩ | ⟨c, hc, rfl⟩
  · cases op with
    | load handle file superClass interfaces =>
        have hc' : (a.load handle file superClass interfaces).2.class? id = some c' := hc'
        rcases a.load_eq_cases handle file superClass interfaces with
          ⟨failure, descriptors, heq⟩ | ⟨_, _, descriptors, d, _, hload, heq⟩
        · rw [heq] at hc'
          exact .inr ⟨c', hc', rfl⟩
        · rw [heq] at hc'
          have hordered : Ordered { a with descriptors } := h.of_eq rfl rfl
          rcases hordered.class?_add (Class.load_eq_ok hload).1 hc' with rfl | hold
          · have hreply : (a.step (.load handle file superClass interfaces)).1 =
                .ok (.loaded c') := by
              show Reply.loaded <$> (a.load handle file superClass interfaces).1 = _
              rw [heq]
              rfl
            refine .inl ?_
            simp only [loaded?, hreply]
          · exact .inr ⟨c', hold, rfl⟩
    | _ => cases hfile
  · exact .inr ⟨c, hc, effectOn_fixed a op c⟩

/-! ## What exists is what was loaded -/

/-- The list of what a run has loaded, and what exists of it. -/
structure Recorded (ops : List Operation) : Prop where
  inOrder : InOrder (loads ops)
  below : ∀ c ∈ loads ops, c.id < (run empty ops).nextClass
  asLoaded : ∀ id c, (run empty ops).class? id = some c →
    ∃ d ∈ loads ops, d.id = id ∧ d.fixed = c.fixed

theorem recorded_nil : Recorded [] where
  inOrder := ⟨.nil, fun _ h => absurd h List.not_mem_nil⟩
  below := fun _ h => absurd h List.not_mem_nil
  asLoaded := fun _ _ h => by cases h

theorem Recorded.concat {ops : List Operation} (h : Recorded ops) (op : Operation) :
    Recorded (ops ++ [op]) := by
  have hreach : Reachable (run empty ops) := ⟨ops, rfl⟩
  have hexists : ∀ id c', (run empty (ops ++ [op])).class? id = some c' →
      loaded? (run empty ops, op) = some c' ∨ ∃ d ∈ loads ops, d.id = id ∧ d.fixed = c'.fixed := by
    intro id c' hc'
    rw [run_concat] at hc'
    rcases hreach.ordered.loaded_or_fixed hc' with hloaded | ⟨c, hc, hfixed⟩
    · exact .inl hloaded
    · obtain ⟨d, hd, hid, hsame⟩ := h.asLoaded id c hc
      exact .inr ⟨d, hd, hid, hsame.trans hfixed.symm⟩
  cases hloaded : loaded? (run empty ops, op) with
  | none =>
      have hloads : loads (ops ++ [op]) = loads ops := by
        rw [loads_concat, hloaded]
        rfl
      refine ⟨hloads ▸ h.inOrder, ?_, ?_⟩
      · intro c hc
        rw [run_concat]
        exact Nat.lt_of_lt_of_le (h.below c (hloads ▸ hc)) (nextClass_le_step _ op)
      · intro id c' hc'
        rw [hloads]
        rcases hexists id c' hc' with hnew | hold
        · rw [hloaded] at hnew
          cases hnew
        · exact hold
  | some c =>
      have hloads : loads (ops ++ [op]) = c :: loads ops := by
        rw [loads_concat, hloaded]
        rfl
      obtain ⟨handle, file, superClass, interfaces, superId, interfaceIds, descriptors, -, hlinks,
        hload, hstep⟩ := exists_load_of_loaded? hloaded
      have hid : c.id = (run empty ops).nextClass := (Class.load_eq_ok hload).1
      refine ⟨?_, ?_, ?_⟩
      · rw [hloads]
        refine h.inOrder.cons ?_ ?_
        · intro d hd
          rw [hid]
          exact h.below d hd
        · intro link hlink
          rw [Class.load_links hload] at hlink
          obtain ⟨d, hd, rfl⟩ := exists_of_mem_linksOf hlinks link hlink
          rw [hid]
          exact hreach.ordered.below d hd
      · intro d hd
        have hnext : (run empty (ops ++ [op])).nextClass = (run empty ops).nextClass + 1 := by
          obtain ⟨_, _, -, hadd⟩ := add_eq { run empty ops with descriptors } handle c
          rw [run_concat, hstep, hadd]
        rw [hloads] at hd
        rw [hnext]
        rcases List.mem_cons.1 hd with rfl | hd
        · rw [hid]
          exact Nat.lt_succ_self _
        · exact Nat.lt_succ_of_lt (h.below d hd)
      · intro id c' hc'
        rw [hloads]
        rcases hexists id c' hc' with hnew | ⟨d, hd, hsame⟩
        · rw [hloaded] at hnew
          cases hnew
          exact ⟨c, List.mem_cons_self, class?_id hc', rfl⟩
        · exact ⟨d, List.mem_cons_of_mem _ hd, hsame⟩

theorem recorded (ops : List Operation) : Recorded ops := by
  induction ops using List.reverseRecOn with
  | nil => exact recorded_nil
  | append_singleton ops op ih => exact ih.concat op

theorem class?_loads_iff {ops : List Operation} {id : ClassId} {c : Class} :
    Hierarchy.class? (loads ops) id = some c ↔ c ∈ loads ops ∧ c.id = id :=
  Hierarchy.class?_eq_some_iff (recorded ops).inOrder.descending

/-- What exists at one time is on the list of any later time. -/
theorem exists_class?_loads {ops : List Operation} (later : List Operation) {id : ClassId}
    {c : Class} (hc : (run empty ops).class? id = some c) :
    ∃ d, Hierarchy.class? (loads (ops ++ later)) id = some d ∧ d.fixed = c.fixed := by
  obtain ⟨d, hd, hid, hfixed⟩ := (recorded ops).asLoaded id c hc
  obtain ⟨newer, hloads⟩ := exists_loads_append ops later
  refine ⟨d, class?_loads_iff.2 ⟨?_, hid⟩, hfixed⟩
  rw [hloads]
  exact List.mem_append_right _ hd

/-- A class of one identity is the same at any two times, cells apart. -/
theorem fixed_eq_of_later {ops later : List Operation} {id : ClassId} {c c' : Class}
    (hc : (run empty ops).class? id = some c)
    (hc' : (run empty (ops ++ later)).class? id = some c') : c'.fixed = c.fixed := by
  obtain ⟨d, hd, hfixed⟩ := exists_class?_loads later hc
  obtain ⟨d', hd', hfixed'⟩ := exists_class?_loads [] hc'
  rw [List.append_nil, hd] at hd'
  cases hd'
  exact hfixed'.symm.trans hfixed

/-- The paths from a class that exists are those of the list, at any later
time as well. -/
theorem reaches_loads_iff {ops : List Operation} (later : List Operation) {a b : ClassId}
    (ha : ∃ c, (run empty ops).class? a = some c) :
    Reaches (run empty ops).classes a b ↔ Reaches (loads (ops ++ later)) a b := by
  have hreach : Reachable (run empty ops) := ⟨ops, rfl⟩
  refine hreach.closed.reaches_iff ?_ ha
  intro id c hc
  obtain ⟨d, hd, hfixed⟩ := exists_class?_loads later hc
  exact ⟨d, hd, Class.links_eq_of_fixed hfixed⟩

end Area

end MethodArea
