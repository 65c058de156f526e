/-
# `Proofs.Hierarchy` — the walk along super classes and interfaces

`isSubclassOf` recurses on the list of classes and so looks at a class
among the older ones only.  That misses nothing if the list is in order
(`InOrder`): identities go down along it, and every link leads to an older
class.  The paths of the newest class are then its links followed by paths
among the older ones (`reaches_cons_self`), and no path from elsewhere ever
comes to it (`reaches_cons_of_ne`), which is what the induction needs.
-/
import MethodArea.Hierarchy

namespace MethodArea.Hierarchy

/-- Identities go down along the list, and links go down as well. -/
structure InOrder (classes : List Class) : Prop where
  descending : classes.Pairwise (fun c d => d.id < c.id)
  older : ∀ c ∈ classes, ∀ id ∈ c.links, id < c.id

theorem InOrder.tail {c : Class} {older : List Class} (h : InOrder (c :: older)) :
    InOrder older :=
  ⟨(List.pairwise_cons.1 h.descending).2, fun d hd => h.older d (List.mem_cons_of_mem _ hd)⟩

theorem InOrder.lt_of_mem {c : Class} {older : List Class} (h : InOrder (c :: older)) {d : Class}
    (hd : d ∈ older) : d.id < c.id :=
  (List.pairwise_cons.1 h.descending).1 d hd

theorem class?_cons_self (c : Class) (older : List Class) : class? (c :: older) c.id = some c :=
  List.find?_cons_of_pos (decide_eq_true rfl)

theorem class?_cons_of_ne {c : Class} {older : List Class} {id : ClassId} (h : id ≠ c.id) :
    class? (c :: older) id = class? older id :=
  List.find?_cons_of_neg (by simpa using h.symm)

theorem mem_of_class? {classes : List Class} {id : ClassId} {c : Class}
    (h : class? classes id = some c) : c ∈ classes :=
  List.mem_of_find?_eq_some h

/-- Paths can be joined. -/
theorem Reaches.trans {classes : List Class} {a b d : ClassId} (hfirst : Reaches classes a b)
    (hrest : Reaches classes b d) : Reaches classes a d := by
  induction hfirst with
  | refl a => exact hrest
  | step hlinks _ ih => exact .step hlinks (ih hrest)

/-! ## Paths in a longer list -/

/-- The links of a class among the older ones do not lead to the newest
one. -/
theorem InOrder.ne_of_links {c : Class} {older : List Class} (h : InOrder (c :: older))
    {a b : ClassId} (hlinks : Links older a b) : b ≠ c.id := by
  obtain ⟨d, hd, hb⟩ := hlinks
  have hmem := mem_of_class? hd
  have hbd : b < d.id := h.tail.older d hmem b hb
  exact Nat.ne_of_lt (Nat.lt_trans hbd (h.lt_of_mem hmem))

theorem links_cons_of_ne {c : Class} {older : List Class} {a b : ClassId} (ha : a ≠ c.id) :
    Links (c :: older) a b ↔ Links older a b := by
  simp only [Links, class?_cons_of_ne ha]

theorem reaches_cons_of_ne {c : Class} {older : List Class} (h : InOrder (c :: older))
    {a b : ClassId} (ha : a ≠ c.id) : Reaches (c :: older) a b ↔ Reaches older a b := by
  constructor
  · intro hpath
    induction hpath with
    | refl a => exact .refl a
    | step hlinks _ ih =>
        have hlinks := (links_cons_of_ne ha).1 hlinks
        exact .step hlinks (ih (h.ne_of_links hlinks))
  · intro hpath
    induction hpath with
    | refl a => exact .refl a
    | step hlinks _ ih =>
        exact .step ((links_cons_of_ne ha).2 hlinks) (ih (h.ne_of_links hlinks))

/-- A path among the older classes does not end at the newest one. -/
theorem InOrder.ne_of_reaches {c : Class} {older : List Class} (h : InOrder (c :: older))
    {a b : ClassId} (ha : a ≠ c.id) (hpath : Reaches older a b) : b ≠ c.id := by
  induction hpath with
  | refl a => exact ha
  | step hlinks _ ih => exact ih (h.ne_of_links hlinks)

/-- The paths of the newest class. -/
theorem reaches_cons_self {c : Class} {older : List Class} (h : InOrder (c :: older))
    {b : ClassId} :
    Reaches (c :: older) c.id b ↔ b = c.id ∨ ∃ a ∈ c.links, Reaches older a b := by
  have hne : ∀ a ∈ c.links, a ≠ c.id :=
    fun a ha => Nat.ne_of_lt (h.older c List.mem_cons_self a ha)
  constructor
  · intro hpath
    cases hpath with
    | refl => exact .inl rfl
    | @step _ a _ hlinks hrest =>
        obtain ⟨d, hd, ha⟩ := hlinks
        rw [class?_cons_self] at hd
        cases hd
        exact .inr ⟨a, ha, (reaches_cons_of_ne h (hne a ha)).1 hrest⟩
  · rintro (rfl | ⟨a, ha, hrest⟩)
    · exact .refl _
    · exact .step ⟨c, class?_cons_self c older, ha⟩ ((reaches_cons_of_ne h (hne a ha)).2 hrest)

/-! ## The walk -/

theorem isSubclassOf_cons_self {target : String} {c : Class} {older : List Class} :
    isSubclassOf target (c :: older) c.id = true ↔
      c.name = target ∨ ∃ a ∈ c.links, isSubclassOf target older a = true := by
  have hlinks : (∃ a ∈ c.links, isSubclassOf target older a = true) ↔
      c.superClass.any (isSubclassOf target older) = true ∨
        c.interfaces.any (isSubclassOf target older) = true := by
    cases hsuper : c.superClass with
    | none => simp [Class.links, hsuper]
    | some id => simp [Class.links, hsuper]
  rw [hlinks, isSubclassOf, if_pos rfl, Bool.or_eq_true, Bool.or_eq_true, beq_iff_eq]
  exact or_right_comm.trans or_assoc

theorem isSubclassOf_cons_of_ne {target : String} {c : Class} {older : List Class}
    {id : ClassId} (h : id ≠ c.id) :
    isSubclassOf target (c :: older) id = isSubclassOf target older id := by
  rw [isSubclassOf, if_neg h.symm]

/-- The walk finds a class of the given name exactly if one can be
reached. -/
theorem isSubclassOf_iff {classes : List Class} (h : InOrder classes) {target : String}
    {id : ClassId} :
    isSubclassOf target classes id = true ↔
      ∃ d ∈ classes, Reaches classes id d.id ∧ d.name = target := by
  induction classes generalizing id with
  | nil => simp [isSubclassOf]
  | cons c older ih =>
      have hwalk : ∀ a, isSubclassOf target older a = true ↔
          ∃ d ∈ older, Reaches older a d.id ∧ d.name = target := fun _ => ih h.tail
      have hne : ∀ d ∈ older, d.id ≠ c.id := fun d hd => Nat.ne_of_lt (h.lt_of_mem hd)
      by_cases hid : id = c.id
      · subst hid
        simp only [isSubclassOf_cons_self, hwalk, reaches_cons_self h]
        constructor
        · rintro (hname | ⟨a, ha, d, hd, hpath, hname⟩)
          · exact ⟨c, List.mem_cons_self, .inl rfl, hname⟩
          · exact ⟨d, List.mem_cons_of_mem _ hd, .inr ⟨a, ha, hpath⟩, hname⟩
        · rintro ⟨d, hd, hpath, hname⟩
          rcases List.mem_cons.1 hd with rfl | hd
          · exact .inl hname
          · rcases hpath with heq | ⟨a, ha, hpath⟩
            · exact absurd heq (hne d hd)
            · exact .inr ⟨a, ha, d, hd, hpath, hname⟩
      · simp only [isSubclassOf_cons_of_ne hid, hwalk, reaches_cons_of_ne h hid]
        constructor
        · rintro ⟨d, hd, hpath, hname⟩
          exact ⟨d, List.mem_cons_of_mem _ hd, hpath, hname⟩
        · rintro ⟨d, hd, hpath, hname⟩
          rcases List.mem_cons.1 hd with rfl | hd
          · exact absurd rfl (h.ne_of_reaches hid hpath)
          · exact ⟨d, hd, hpath, hname⟩

end MethodArea.Hierarchy
