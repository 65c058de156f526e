/-
# `Proofs.Area.Links` — the graph of the classes that exist

A class links to older classes only, since it can only name what is there
when it is loaded.  So in every area that can be reached the classes stand
in order (`Reachable.inOrder`), whatever is dropped.

Where every link of a class in a list leads to a class in the list
(`Closed`), a path that starts at a class ends at one
(`Closed.exists_of_reaches`), and it is a path in every other list that has
these classes with the same links, and the other way round
(`Closed.reaches_iff`): it makes no difference which other classes there
are.
-/
import MethodArea.Proofs.Area.Order
import MethodArea.Proofs.Hierarchy

namespace MethodArea

namespace Hierarchy

/-- Every link of a class in the list leads to a class in the list. -/
def Closed (classes : List Class) : Prop :=
  ∀ c ∈ classes, ∀ id ∈ c.links, ∃ d ∈ classes, d.id = id

theorem InOrder.sublist {classes classes' : List Class} (h : InOrder classes)
    (hsub : classes'.Sublist classes) : InOrder classes' :=
  ⟨h.descending.sublist hsub, fun c hc => h.older c (hsub.subset hc)⟩

theorem InOrder.cons {c : Class} {older : List Class} (h : InOrder older)
    (hbelow : ∀ d ∈ older, d.id < c.id) (hlinks : ∀ id ∈ c.links, id < c.id) :
    InOrder (c :: older) :=
  ⟨List.pairwise_cons.2 ⟨hbelow, h.descending⟩, List.forall_mem_cons.2 ⟨hlinks, h.older⟩⟩

/-- A path from a class in the list ends at one. -/
theorem Closed.exists_of_reaches {classes : List Class} (h : Closed classes) {a b : ClassId}
    (hpath : Reaches classes a b) (ha : ∃ c ∈ classes, c.id = a) :
    ∃ d ∈ classes, d.id = b := by
  induction hpath with
  | refl a => exact ha
  | step hlinks _ ih =>
      obtain ⟨c, hc, hlink⟩ := hlinks
      exact ih (h c (mem_of_class? hc) _ hlink)

/-! ## Graphs that agree -/

/-- A graph has every class of another one, with the same links. -/
def Agrees (small big : List Class) : Prop :=
  ∀ a c, class? small a = some c → ∃ d, class? big a = some d ∧ d.links = c.links

theorem Agrees.links_iff {small big : List Class} (h : Agrees small big) {a b : ClassId}
    (ha : ∃ c, class? small a = some c) : Links small a b ↔ Links big a b := by
  obtain ⟨c, hc⟩ := ha
  obtain ⟨d, hd, hlinks⟩ := h a c hc
  simp only [Links, hc, hd, Option.some.injEq, exists_eq_left', hlinks]

theorem exists_class?_iff {classes : List Class} {id : ClassId} :
    (∃ c, class? classes id = some c) ↔ ∃ c ∈ classes, c.id = id := by
  rw [← Option.isSome_iff_exists, class?, List.find?_isSome]
  simp only [decide_eq_true_eq]

theorem agrees_of_sublist {small big : List Class} (h : InOrder big)
    (hsub : small.Sublist big) : Agrees small big := by
  intro a c hc
  obtain ⟨hmem, hid⟩ := (class?_eq_some_iff (h.descending.sublist hsub)).1 hc
  exact ⟨c, (class?_eq_some_iff h.descending).2 ⟨hsub.subset hmem, hid⟩, rfl⟩

/-- From a class of a closed graph, the paths of that graph are those of any
graph that agrees with it. -/
theorem Closed.reaches_iff {small big : List Class} (hclosed : Closed small)
    (h : Agrees small big) {a b : ClassId} (ha : ∃ c, class? small a = some c) :
    Reaches small a b ↔ Reaches big a b := by
  have hnext : ∀ {a b : ClassId}, Links small a b → ∃ c, class? small b = some c := by
    rintro a b ⟨c, hc, hb⟩
    exact exists_class?_iff.2 (hclosed c (mem_of_class? hc) b hb)
  constructor
  · intro hpath
    induction hpath with
    | refl a => exact .refl a
    | step hlinks _ ih => exact .step ((h.links_iff ha).1 hlinks) (ih (hnext hlinks))
  · intro hpath
    induction hpath with
    | refl a => exact .refl a
    | step hlinks _ ih =>
        have hlinks := (h.links_iff ha).2 hlinks
        exact .step hlinks (ih (hnext hlinks))

end Hierarchy

open Hierarchy

theorem Class.load_links {id : ClassId} {file : ClassFile} {superClass : Option ClassId}
    {interfaces : List ClassId} {s s' : Interner} {c : Class}
    (h : load id file superClass interfaces s = (.ok c, s')) :
    c.links = superClass.toList ++ interfaces := by
  obtain ⟨_, _, -, -, rfl⟩ := exists_header_of_load h
  rfl

namespace Area

theorem exists_of_mem_idsOf {a : Area} {handles : List String} {ids : List ClassId}
    (h : a.idsOf handles = .ok ids) : ∀ id ∈ ids, ∃ d ∈ a.classes, d.id = id := by
  intro id hid
  obtain ⟨handle, -, hhandle⟩ := Except.exists_of_mem_mapM h id hid
  obtain ⟨d, hd, rfl⟩ := Except.map_eq_ok_iff.1 hhandle
  rw [classOf] at hd
  split at hd
  · next c hc =>
      cases hd
      obtain ⟨_, -, hclass⟩ := Option.bind_eq_some_iff.1 hc
      exact ⟨_, mem_of_class? hclass, rfl⟩
  · cases hd

theorem exists_of_mem_linksOf {a : Area} {superClass : Option String} {interfaces : List String}
    {superId : Option ClassId} {interfaceIds : List ClassId}
    (h : a.linksOf superClass interfaces = .ok (superId, interfaceIds)) :
    ∀ id ∈ superId.toList ++ interfaceIds, ∃ d ∈ a.classes, d.id = id := by
  obtain ⟨superIds, hsuper, h⟩ := Except.bind_eq_ok_iff.1 h
  obtain ⟨interfaceIds', hinterfaces, h⟩ := Except.bind_eq_ok_iff.1 h
  cases h
  intro id hid
  rcases List.mem_append.1 hid with hid | hid
  · exact exists_of_mem_idsOf hsuper id (List.mem_of_mem_head? (Option.mem_toList.1 hid))
  · exact exists_of_mem_idsOf hinterfaces id hid

/-! ## Operations keep the order of links -/

theorem inOrder_setMethod {a : Area} (h : InOrder a.classes) (hordered : a.Ordered)
    (id : ClassId) (position : Nat) (m : Method) :
    InOrder (a.setMethod id position m).classes := by
  refine ⟨(hordered.setMethod id position m).descending, ?_⟩
  intro c' hc' link hlink
  obtain ⟨c, hc, rfl⟩ := List.mem_map.1 hc'
  rw [Class.links_setMethod_if] at hlink
  rw [Class.id_setMethod_if]
  exact h.older c hc link hlink

/-- One class more, which links to some of those that exist. -/
theorem inOrder_cons {a : Area} (h : InOrder a.classes) (hordered : a.Ordered) {c : Class}
    (hc : c.id = a.nextClass) (hlinks : ∀ id ∈ c.links, ∃ d ∈ a.classes, d.id = id) :
    InOrder (c :: a.classes) := by
  have hbelow : ∀ d ∈ a.classes, d.id < c.id := fun d hd => hc ▸ hordered.below d hd
  refine h.cons hbelow fun id hid => ?_
  obtain ⟨d, hd, rfl⟩ := hlinks id hid
  exact hbelow d hd

theorem Leaves.inOrder {a b : Area} (hb : a.Leaves b) (h : InOrder a.classes)
    (hordered : a.Ordered) : InOrder b.classes := by
  cases hb with
  | unchanged | interned _ | refused _ | registered _ _ => exact h
  | added hlinks hload =>
      obtain ⟨_, _, hsub, heq⟩ := add_eq _ _ _
      rw [heq]
      refine (inOrder_cons h hordered (Class.load_eq_ok hload).1 ?_).sublist hsub
      rw [Class.load_links hload]
      exact exists_of_mem_linksOf hlinks
  | held _ =>
      obtain ⟨_, _, hsub, heq⟩ := assign_eq _ _ _
      rw [heq]
      exact h.sublist hsub
  | unloaded _ => exact h.sublist (classes_drop_sublist _ _)
  | changed id position m => exact inOrder_setMethod h hordered id position m

theorem Reachable.inOrder {a : Area} (h : Reachable a) : InOrder a.classes := by
  obtain ⟨ops, rfl⟩ := h
  have hrun : (run empty ops).Ordered ∧ InOrder (run empty ops).classes :=
    run_keeps (P := fun a => a.Ordered ∧ InOrder a.classes)
      (fun a op h => ⟨h.1.step op, (a.leaves_step op).inOrder h.2 h.1⟩) ops
      ⟨ordered_empty, .nil, fun _ h => absurd h List.not_mem_nil⟩
  exact hrun.2

end Area

end MethodArea
