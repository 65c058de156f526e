/-
# `Proofs.Area.References` — strong counts come to reachability

Classes exist for as long as they are strongly referred to, and the counts
say how often (`Counted`):

    count of a class  =  handles on it
                         + links to it of the classes that exist
                         + references to it that are in hand

While an operation is under way it may have references in hand that are in
no place yet, or in none any more; between operations there are none.  The
references that fields and methods have to their class are not on the list.

Dropping a reference may set off a cascade.  What it comes to is said for a
list of classes of which some are referred to, and for any number of
references from outside the list (`Balanced`): afterwards there is
one fewer from outside, and the counts are right for the classes that are
still referred to (`Balanced.drop`).  The
induction is along the list.  It goes through since a class that is dropped
only drops older ones, which are what is left of the list.

Between operations a class therefore exists exactly if a path of links
leads to it from a class that a handle is on (`Reachable.exists_iff`): a
count that is not zero is owed to a handle or to a class that exists, and
such a class is newer, so that the search for a handle comes to an end.
-/
import MethodArea.Proofs.Area.Links

namespace MethodArea

/-! ## Links of the classes that are referred to -/

namespace Hierarchy

/-- What classes link to, once for each link. -/
def allLinks (classes : List Class) : List ClassId := classes.flatMap Class.links

/-- The classes that there are strong references to. -/
def referred (strong : StrongCounts) (classes : List Class) : List Class :=
  classes.filter (fun c => 0 < strong.of c.id)

theorem referred_congr {strong strong' : StrongCounts} {classes : List Class}
    (h : ∀ c ∈ classes, strong'.of c.id = strong.of c.id) :
    referred strong' classes = referred strong classes :=
  List.filter_congr fun c hc => by rw [h c hc]

theorem allLinks_cons (c : Class) (older : List Class) :
    allLinks (c :: older) = c.links ++ allLinks older :=
  List.flatMap_cons

theorem referred_cons_of_pos {strong : StrongCounts} {c : Class} (older : List Class)
    (h : 0 < strong.of c.id) : referred strong (c :: older) = c :: referred strong older :=
  List.filter_cons_of_pos (by simpa using h)

theorem referred_cons_of_zero {strong : StrongCounts} {c : Class} (older : List Class)
    (h : strong.of c.id = 0) : referred strong (c :: older) = referred strong older :=
  List.filter_cons_of_neg (by simp [h])

/-- No class in order links to the newest one. -/
theorem InOrder.not_mem_allLinks {c : Class} {older : List Class} (h : InOrder (c :: older)) :
    c.id ∉ allLinks (c :: older) := by
  intro hmem
  obtain ⟨d, hd, hlink⟩ := List.mem_flatMap.1 hmem
  have hlt := h.older d hd c.id hlink
  rcases List.mem_cons.1 hd with rfl | hd
  · exact Nat.lt_irrefl _ hlt
  · exact Nat.lt_asymm (h.lt_of_mem hd) hlt

end Hierarchy

open Hierarchy

/-! ## Counts -/

theorem count_cons_eq_add (id other : ClassId) (ids : List ClassId) :
    (id :: ids).count other = [id].count other + ids.count other := by
  rw [← List.count_append, List.singleton_append]

namespace StrongCounts

theorem of_increment (strong : StrongCounts) (id other : ClassId) :
    (strong.increment id).of other = strong.of other + [id].count other := by
  rw [increment, of, Table.get?_insert, List.count_singleton]
  by_cases h : other = id
  · simp [h]
  · simp [h, of, Ne.symm h]

theorem of_decrement (strong : StrongCounts) (id other : ClassId) :
    (strong.decrement id).of other = strong.of other - [id].count other := by
  rw [decrement, of, Table.get?_insert, List.count_singleton]
  by_cases h : other = id
  · simp [h]
  · simp [h, of, Ne.symm h]

theorem of_decrement_of_ne (strong : StrongCounts) {id other : ClassId} (h : other ≠ id) :
    (strong.decrement id).of other = strong.of other := by
  rw [of_decrement, List.count_eq_zero.2 (by simpa using h), Nat.sub_zero]

theorem of_foldl_increment (ids : List ClassId) (strong : StrongCounts) (id : ClassId) :
    (ids.foldl increment strong).of id = strong.of id + ids.count id := by
  induction ids generalizing strong with
  | nil => rfl
  | cons first ids ih =>
      rw [List.foldl_cons, ih, of_increment, count_cons_eq_add first id ids, Nat.add_assoc]

/-- Dropping one reference after another. -/
theorem foldl_drop_keeps {P : StrongCounts → Prop} {classes : List Class} {ids : List ClassId}
    (hdrop : ∀ id ∈ ids, ∀ strong, P strong → P (strong.drop classes id))
    {strong : StrongCounts} (h : P strong) :
    P (ids.foldl (fun strong id => drop classes id strong) strong) := by
  induction ids generalizing strong with
  | nil => exact h
  | cons id ids ih =>
      obtain ⟨hid, hids⟩ := List.forall_mem_cons.1 hdrop
      exact ih hids (hid strong h)

/-- A cascade leaves alone what nothing links to. -/
theorem of_drop_of_not_mem {classes : List Class} {id other : ClassId} (hne : other ≠ id)
    (hlinks : other ∉ allLinks classes) (strong : StrongCounts) :
    (strong.drop classes id).of other = strong.of other := by
  induction classes generalizing id strong with
  | nil => exact of_decrement_of_ne strong hne
  | cons c older ih =>
      rw [allLinks_cons, List.mem_append, not_or] at hlinks
      have hfirst : (strong.decrement id).of other = strong.of other :=
        of_decrement_of_ne strong hne
      rw [drop]
      split
      · dsimp only
        split
        · refine foldl_drop_keeps (P := fun s => s.of other = strong.of other) ?_ hfirst
          intro link hlink s hs
          have hother : other ≠ link := fun heq => hlinks.1 (heq ▸ hlink)
          exact (ih hother hlinks.2 s).trans hs
        · exact hfirst
      · exact ih hne hlinks.2 strong

/-- A cascade only takes references away. -/
theorem of_drop_le (classes : List Class) (id other : ClassId) (strong : StrongCounts) :
    (strong.drop classes id).of other ≤ strong.of other := by
  have hfirst : ∀ (id : ClassId) (strong : StrongCounts),
      (strong.decrement id).of other ≤ strong.of other := by
    intro id strong
    rw [of_decrement]
    exact Nat.sub_le _ _
  induction classes generalizing id strong with
  | nil => exact hfirst id strong
  | cons c older ih =>
      rw [drop]
      split
      · dsimp only
        split
        · exact foldl_drop_keeps (P := fun s => s.of other ≤ strong.of other)
            (fun link _ s hs => Nat.le_trans (ih link s) hs) (hfirst id strong)
        · exact hfirst id strong
      · exact ih id strong

/-! ## The cascade -/

/-- Each count is the number of references from outside and of the links of
those classes that are referred to. -/
def Balanced (strong : StrongCounts) (outside : ClassId → Nat) (classes : List Class) : Prop :=
  ∀ id, strong.of id = outside id + (allLinks (referred strong classes)).count id

section Balance
variable {strong : StrongCounts} {outside outside' : ClassId → Nat} {c : Class}
  {classes older : List Class}

theorem Balanced.congr (h : strong.Balanced outside classes)
    (hsame : ∀ id, outside id = outside' id) : strong.Balanced outside' classes :=
  fun id => hsame id ▸ h id

/-- The links of a class that is referred to are references from outside to
the classes behind it. -/
theorem balanced_cons_of_pos (hpos : 0 < strong.of c.id) :
    strong.Balanced outside (c :: older) ↔
      strong.Balanced (fun id => outside id + c.links.count id) older := by
  simp only [Balanced, referred_cons_of_pos older hpos, allLinks_cons, List.count_append,
    Nat.add_assoc]

theorem balanced_cons_of_zero (hzero : strong.of c.id = 0) :
    strong.Balanced outside (c :: older) ↔ strong.Balanced outside older := by
  simp only [Balanced, referred_cons_of_zero older hzero]

theorem Balanced.decrement {id : ClassId} (hnew : ∀ c ∈ classes, c.id ≠ id)
    (h : strong.Balanced (fun x => outside x + [id].count x) classes) :
    (strong.decrement id).Balanced outside classes := by
  intro x
  have hsame : referred (strong.decrement id) classes = referred strong classes :=
    referred_congr fun c hc => of_decrement_of_ne strong (hnew c hc)
  have hx := h x
  dsimp only at hx
  rw [of_decrement, hsame, hx]
  omega

theorem Balanced.foldl_drop
    (hdrop : ∀ {strong : StrongCounts} {outside : ClassId → Nat} {id : ClassId},
      strong.Balanced (fun x => outside x + [id].count x) classes →
      (strong.drop classes id).Balanced outside classes)
    {ids : List ClassId} (h : strong.Balanced (fun x => outside x + ids.count x) classes) :
    Balanced (ids.foldl (fun strong id => drop classes id strong) strong) outside classes := by
  induction ids generalizing strong with
  | nil => exact h
  | cons id ids ih =>
      refine ih (hdrop (h.congr fun x => ?_))
      rw [count_cons_eq_add id x ids]
      omega

/-- Dropping a reference from outside leaves one fewer of them, and the
counts right. -/
theorem Balanced.drop (hin : InOrder classes) {id : ClassId}
    (h : strong.Balanced (fun x => outside x + [id].count x) classes) :
    (strong.drop classes id).Balanced outside classes := by
  induction classes generalizing strong outside id with
  | nil => exact h.decrement fun _ hc => absurd hc List.not_mem_nil
  | cons c older ih =>
      have hnone := hin.not_mem_allLinks
      rw [allLinks_cons, List.mem_append, not_or] at hnone
      obtain ⟨hown, holder⟩ := hnone
      rw [StrongCounts.drop]
      split
      · next hid =>
          subst hid
          have hpos : 0 < strong.of c.id := by
            have hself := h c.id
            simp only [List.count_singleton_self] at hself
            omega
          have hdown : (strong.decrement c.id).Balanced
              (fun x => outside x + c.links.count x) older := by
            refine Balanced.decrement (fun d hd => Nat.ne_of_lt (hin.lt_of_mem hd)) ?_
            exact ((balanced_cons_of_pos hpos).1 h).congr fun x => Nat.add_right_comm _ _ _
          dsimp only
          split
          · next hzero =>
              -- the links of the class go as well, and leave it without count
              refine (balanced_cons_of_zero ?_).2 (hdown.foldl_drop (ih hin.tail))
              refine foldl_drop_keeps (P := fun s => s.of c.id = 0) ?_ hzero
              intro link hlink s hs
              have hne : c.id ≠ link := fun heq => hown (heq ▸ hlink)
              exact (of_drop_of_not_mem hne holder s).trans hs
          · next hleft => exact (balanced_cons_of_pos (Nat.pos_of_ne_zero hleft)).2 hdown
      · next hid =>
          have hkept : (strong.drop older id).of c.id = strong.of c.id :=
            of_drop_of_not_mem hid holder strong
          rcases Nat.eq_zero_or_pos (strong.of c.id) with hzero | hpos
          · exact (balanced_cons_of_zero (hkept.trans hzero)).2
              (ih hin.tail ((balanced_cons_of_zero hzero).1 h))
          · refine (balanced_cons_of_pos (hkept ▸ hpos)).2 (ih hin.tail ?_)
            exact ((balanced_cons_of_pos hpos).1 h).congr fun x => Nat.add_right_comm _ _ _

end Balance

end StrongCounts

namespace Area

/-! ## The counts of an area -/

/-- The counts are right, and what exists is what has a count; some
references are in hand. -/
structure Counted (a : Area) (inHand : List ClassId) : Prop where
  counts : ∀ id, a.strong.of id =
    a.handles.values.count id + inHand.count id + (allLinks a.classes).count id
  alive : ∀ c ∈ a.classes, 0 < a.strong.of c.id
  present : ∀ id, 0 < a.strong.of id → ∃ c ∈ a.classes, c.id = id

section Counting
variable {a : Area} {inHand : List ClassId}

theorem Counted.of_eq {b : Area} (h : a.Counted inHand) (hclasses : b.classes = a.classes)
    (hhandles : b.handles = a.handles) (hstrong : b.strong = a.strong) : b.Counted inHand := by
  refine ⟨?_, ?_, ?_⟩
  · rw [hclasses, hhandles, hstrong]
    exact h.counts
  · rw [hclasses, hstrong]
    exact h.alive
  · rw [hclasses, hstrong]
    exact h.present

/-- A clone of a reference is one in hand. -/
theorem Counted.clone (h : a.Counted inHand) {id : ClassId} (hid : 0 < a.strong.of id) :
    Counted { a with strong := a.strong.increment id } (id :: inHand) := by
  refine ⟨?_, ?_, ?_⟩
  · intro x
    have hx := h.counts x
    have hcount := count_cons_eq_add id x inHand
    rw [StrongCounts.of_increment]
    dsimp only
    omega
  · intro c hc
    rw [StrongCounts.of_increment]
    exact Nat.lt_of_lt_of_le (h.alive c hc) (Nat.le_add_right _ _)
  · intro x hx
    rw [StrongCounts.of_increment] at hx
    by_cases hne : x = id
    · exact h.present x (hne ▸ hid)
    · rw [List.count_eq_zero.2 (by simpa using hne), Nat.add_zero] at hx
      exact h.present x hx

/-- A reference in hand can be dropped. -/
theorem Counted.drop {id : ClassId} (h : a.Counted (id :: inHand)) (hin : InOrder a.classes) :
    (a.drop id).Counted inHand := by
  have hall : referred a.strong a.classes = a.classes :=
    List.filter_eq_self.2 fun c hc => decide_eq_true (h.alive c hc)
  have hbalanced : a.strong.Balanced
      (fun x => a.handles.values.count x + inHand.count x + [id].count x) a.classes := by
    intro x
    have hx := h.counts x
    have hcount := count_cons_eq_add id x inHand
    rw [hall]
    dsimp only
    omega
  refine ⟨hbalanced.drop hin, ?_, ?_⟩
  · exact fun c hc => of_decide_eq_true (List.mem_filter.1 hc).2
  · intro x hx
    have hle := StrongCounts.of_drop_le a.classes id x a.strong
    obtain ⟨c, hc, rfl⟩ := h.present x (Nat.lt_of_lt_of_le hx hle)
    exact ⟨c, List.mem_filter.2 ⟨hc, decide_eq_true hx⟩, rfl⟩

/-- A reference in hand can be put into a handle. -/
theorem Counted.assign {id : ClassId} (h : a.Counted (id :: inHand)) (hin : InOrder a.classes)
    (handle : String) : (a.assign handle id).Counted inHand := by
  have hassigned : Counted { a with handles := a.handles.insert handle id }
      ((a.handles.get? handle).toList ++ inHand) := by
    refine ⟨?_, h.alive, h.present⟩
    intro x
    have hx := h.counts x
    have hcount := count_cons_eq_add id x inHand
    have hbefore := a.handles.count_values_erase handle x
    have hafter := a.handles.count_values_insert handle id x
    rw [List.count_append]
    dsimp only
    omega
  rw [Area.assign]
  cases hprevious : a.handles.get? handle with
  | none =>
      rw [hprevious] at hassigned
      exact hassigned
  | some previous =>
      rw [hprevious] at hassigned
      exact hassigned.drop hin

/-- What a handle refers to is in hand once the handle is gone. -/
theorem Counted.erase (h : a.Counted inHand) {handle : String} {id : ClassId}
    (hid : a.handles.get? handle = some id) :
    Counted { a with handles := a.handles.erase handle } (id :: inHand) := by
  refine ⟨?_, h.alive, h.present⟩
  intro x
  have hx := h.counts x
  have hcount := count_cons_eq_add id x inHand
  have hbefore := a.handles.count_values_erase handle x
  rw [hid, Option.toList_some] at hbefore
  dsimp only
  omega

/-- A new class has clones of the references to what it links to, and is
referred to by its handle. -/
theorem Counted.add (h : a.Counted []) {c : Class} (hin : InOrder (c :: a.classes))
    (hlinks : ∀ id ∈ c.links, ∃ d ∈ a.classes, d.id = id) (handle : String) :
    (a.add handle c).Counted [] := by
  have hcounts : ∀ x, ((c.links.foldl StrongCounts.increment a.strong).increment c.id).of x =
      a.strong.of x + c.links.count x + [c.id].count x := by
    intro x
    rw [StrongCounts.of_increment, StrongCounts.of_foldl_increment]
  have hnew : Counted { a with
      classes := c :: a.classes
      strong := (c.links.foldl StrongCounts.increment a.strong).increment c.id
      nextClass := a.nextClass + 1 } [c.id] := by
    refine ⟨?_, ?_, ?_⟩
    · intro x
      have hx := h.counts x
      rw [List.count_nil] at hx
      rw [hcounts, allLinks_cons, List.count_append]
      dsimp only
      omega
    · intro d hd
      rw [hcounts]
      rcases List.mem_cons.1 hd with rfl | hd
      · rw [List.count_singleton_self]
        exact Nat.succ_pos _
      · have hpos := h.alive d hd
        omega
    · intro x hx
      rw [hcounts] at hx
      have hmore : (∃ d ∈ a.classes, d.id = x) → ∃ d ∈ c :: a.classes, d.id = x :=
        fun h => h.imp fun _ hd => ⟨List.mem_cons_of_mem _ hd.1, hd.2⟩
      by_cases hself : x = c.id
      · exact ⟨c, List.mem_cons_self, hself.symm⟩
      by_cases hlink : x ∈ c.links
      · exact hmore (hlinks x hlink)
      · rw [List.count_eq_zero.2 hlink, List.count_eq_zero.2 (by simpa using hself)] at hx
        exact hmore (h.present x hx)
  exact hnew.assign hin handle

theorem Counted.setMethod (h : a.Counted inHand) (id : ClassId) (position : Nat) (m : Method) :
    (a.setMethod id position m).Counted inHand := by
  have hlinks : allLinks (a.setMethod id position m).classes = allLinks a.classes := by
    simp only [allLinks, Area.setMethod, List.flatMap_map, Class.links_setMethod_if]
  refine ⟨?_, ?_, ?_⟩
  · intro x
    rw [hlinks]
    exact h.counts x
  · intro c' hc'
    obtain ⟨c, hc, rfl⟩ := List.mem_map.1 hc'
    rw [Class.id_setMethod_if]
    exact h.alive c hc
  · intro x hx
    obtain ⟨c, hc, rfl⟩ := h.present x hx
    exact ⟨_, List.mem_map_of_mem hc, Class.id_setMethod_if c id position m⟩

end Counting

theorem Leaves.counted {a b : Area} (hb : a.Leaves b) (h : a.Counted []) (hordered : a.Ordered)
    (hin : InOrder a.classes) : b.Counted [] := by
  cases hb with
  | unchanged => exact h
  | interned _ | refused _ | registered _ _ => exact h.of_eq rfl rfl rfl
  | @added _ _ _ _ _ _ descriptors c hlinks hload =>
      have hlinked : ∀ id ∈ c.links, ∃ d ∈ a.classes, d.id = id := by
        rw [Class.load_links hload]
        exact exists_of_mem_linksOf hlinks
      have hcounted : Counted { a with descriptors } [] := h.of_eq rfl rfl rfl
      exact hcounted.add (inOrder_cons hin hordered (Class.load_eq_ok hload).1 hlinked) hlinked _
  | held hc => exact (h.clone (upgrade_eq_some_iff.1 hc).1).assign hin _
  | unloaded hid => exact (h.erase hid).drop hin
  | changed id position m => exact h.setMethod id position m

theorem counted_empty : empty.Counted [] where
  counts := fun _ => rfl
  alive := fun _ h => absurd h List.not_mem_nil
  present := fun _ h => absurd h (Nat.lt_irrefl 0)

theorem Reachable.counted {a : Area} (h : Reachable a) : a.Counted [] := by
  obtain ⟨ops, rfl⟩ := h
  have hrun : Reachable (run empty ops) ∧ (run empty ops).Counted [] :=
    run_keeps (P := fun a => Reachable a ∧ a.Counted [])
      (fun a op h => ⟨h.1.step op, (a.leaves_step op).counted h.2 h.1.ordered h.1.inOrder⟩) ops
      ⟨⟨[], rfl⟩, counted_empty⟩
  exact hrun.2

/-! ## Existing is being reachable from a handle -/

theorem Counted.exists_of_handle {a : Area} {inHand : List ClassId} (h : a.Counted inHand)
    {handle : String} {id : ClassId} (hid : a.handles.get? handle = some id) :
    ∃ c ∈ a.classes, c.id = id := by
  have hmem : id ∈ a.handles.values := Table.mem_values_iff.2 ⟨handle, hid⟩
  have hcount := List.count_pos_iff.2 hmem
  have hx := h.counts id
  exact h.present id (by omega)

/-- A class that exists has references to what it links to. -/
theorem Counted.closed {a : Area} {inHand : List ClassId} (h : a.Counted inHand) :
    Closed a.classes := by
  intro c hc id hlink
  have hmem : id ∈ allLinks a.classes := List.mem_flatMap.2 ⟨c, hc, hlink⟩
  have hcount := List.count_pos_iff.2 hmem
  have hx := h.counts id
  exact h.present id (by omega)

theorem Reachable.closed {a : Area} (h : Reachable a) : Closed a.classes := h.counted.closed

/-- A weak reference leads to the class as long as it exists. -/
theorem Reachable.upgrade_eq {a : Area} (h : Reachable a) (id : ClassId) :
    a.upgrade (some id) = a.class? id := by
  rw [upgrade, Option.bind_some]
  split
  · next hzero =>
      refine (Option.eq_none_iff_forall_ne_some.2 fun c hc => ?_).symm
      obtain ⟨hmem, rfl⟩ := h.ordered.class?_eq_some_iff.1 hc
      exact absurd hzero (Nat.ne_of_gt (h.counted.alive c hmem))
  · rfl

/-- A class that exists can be reached from a handle: what it is referred to
by is a handle or a newer class. -/
theorem Reachable.exists_handle {a : Area} (h : Reachable a) {c : Class} (hc : c ∈ a.classes) :
    ∃ handle id, a.handles.get? handle = some id ∧ Reaches a.classes id c.id := by
  induction hgap : a.nextClass - c.id using Nat.strongRecOn generalizing c with
  | ind gap ih =>
    have hpos := h.counted.alive c hc
    rw [h.counted.counts c.id, List.count_nil, Nat.add_zero, Nat.add_pos_iff_pos_or_pos] at hpos
    rcases hpos with hheld | hlinked
    · obtain ⟨handle, hhandle⟩ := Table.mem_values_iff.1 (List.count_pos_iff.1 hheld)
      exact ⟨handle, c.id, hhandle, .refl _⟩
    · obtain ⟨d, hd, hlink⟩ := List.mem_flatMap.1 (List.count_pos_iff.1 hlinked)
      have holder := h.inOrder.older d hd c.id hlink
      have hbelow := h.ordered.below d hd
      have hcloser : a.nextClass - d.id < gap :=
        hgap ▸ Nat.sub_lt_sub_left (Nat.lt_trans holder hbelow) holder
      obtain ⟨handle, id, hhandle, hpath⟩ := ih _ hcloser hd rfl
      have hstep : Links a.classes d.id c.id :=
        ⟨d, h.ordered.class?_eq_some_iff.2 ⟨hd, rfl⟩, hlink⟩
      exact ⟨handle, id, hhandle, hpath.trans (.step hstep (.refl _))⟩

/-- A class exists exactly if a path leads to it from a class that a handle
is on. -/
theorem Reachable.exists_iff {a : Area} (h : Reachable a) (target : ClassId) :
    (∃ c ∈ a.classes, c.id = target) ↔
      ∃ handle id, a.handles.get? handle = some id ∧ Reaches a.classes id target := by
  constructor
  · rintro ⟨c, hc, rfl⟩
    exact h.exists_handle hc
  · rintro ⟨handle, id, hhandle, hpath⟩
    exact h.closed.exists_of_reaches hpath (h.counted.exists_of_handle hhandle)

end Area

end MethodArea
