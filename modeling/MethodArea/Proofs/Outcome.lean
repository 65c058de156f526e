/-
# `Proofs.Outcome` — computations that may fail, taken apart

A chain of steps in `Except` succeeds exactly if every step does, each on
what the one before it gave.  The equivalences below take such a chain
apart one step at a time, from a hypothesis or towards a goal; those for a
step done for each element of a list follow by induction on the list.

`toOption` forgets what was wrong: two computations agree under it if both
fail, or both succeed and with the same value.
-/
import Mathlib.Data.List.Forall2

namespace Except

variable {ε α β : Type}

theorem ok_bind (a : α) (f : α → Except ε β) : (Except.ok a >>= f) = f a := rfl

/-- A chain succeeds if its first step does and the rest does on what that
gave. -/
theorem bind_eq_ok_iff {x : Except ε α} {f : α → Except ε β} {b : β} :
    x >>= f = .ok b ↔ ∃ a, x = .ok a ∧ f a = .ok b := by
  cases x with
  | error e =>
      constructor
      · intro h
        cases h
      · rintro ⟨a, ha, -⟩
        cases ha
  | ok a =>
      constructor
      · intro h
        exact ⟨a, rfl, h⟩
      · rintro ⟨_, ha, h⟩
        cases ha
        exact h

theorem map_eq_ok_iff {x : Except ε α} {f : α → β} {b : β} :
    f <$> x = .ok b ↔ ∃ a, x = .ok a ∧ f a = b := by
  cases x with
  | error e =>
      constructor
      · intro h
        cases h
      · rintro ⟨a, ha, -⟩
        cases ha
  | ok a =>
      constructor
      · intro h
        cases h
        exact ⟨a, rfl, rfl⟩
      · rintro ⟨_, ha, rfl⟩
        cases ha
        rfl

theorem map_eq_error_iff {x : Except ε α} {f : α → β} {e : ε} :
    f <$> x = .error e ↔ x = .error e := by
  cases x with
  | error e' =>
      constructor
      · intro h
        cases h
        rfl
      · intro h
        cases h
        rfl
  | ok a =>
      constructor
      · intro h
        cases h
      · intro h
        cases h

/-- Two outcomes look the same if they fail alike or give what looks the
same. -/
theorem map_eq_map_iff {x y : Except ε α} {f : α → β} :
    f <$> x = f <$> y ↔
      (∃ e, x = .error e ∧ y = .error e) ∨ ∃ a b, x = .ok a ∧ y = .ok b ∧ f a = f b := by
  cases y with
  | error e =>
      have hmap : f <$> (.error e : Except ε α) = .error e := rfl
      rw [hmap, map_eq_error_iff]
      constructor
      · intro h
        exact .inl ⟨e, h, rfl⟩
      · rintro (⟨e', hx, hy⟩ | ⟨a, b, -, hy, -⟩)
        · exact hx.trans hy.symm
        · cases hy
  | ok b =>
      have hmap : f <$> (.ok b : Except ε α) = .ok (f b) := rfl
      rw [hmap, map_eq_ok_iff]
      constructor
      · rintro ⟨a, ha, hab⟩
        exact .inr ⟨a, b, ha, rfl, hab⟩
      · rintro (⟨e, -, hy⟩ | ⟨a, b', ha, hb, hab⟩)
        · cases hy
        · cases hb
          exact ⟨a, ha, hab⟩

/-- The same for outcomes that come with a state each. -/
theorem cases_of_map_fst_eq {σ : Type} {x y : Except ε α × σ} {f : α → β}
    (h : f <$> x.1 = f <$> y.1) :
    (∃ e s t, x = (.error e, s) ∧ y = (.error e, t)) ∨
      ∃ a b s t, x = (.ok a, s) ∧ y = (.ok b, t) ∧ f a = f b := by
  obtain ⟨outcome, s⟩ := x
  obtain ⟨outcome', t⟩ := y
  rcases map_eq_map_iff.1 h with ⟨e, rfl, rfl⟩ | ⟨a, b, rfl, rfl, hab⟩
  · exact .inl ⟨e, s, t, rfl, rfl⟩
  · exact .inr ⟨a, b, s, t, rfl, rfl, hab⟩

/-- A chain fails where its first step does, or where the rest does on what
that gave. -/
theorem bind_eq_error_iff {x : Except ε α} {f : α → Except ε β} {e : ε} :
    x >>= f = .error e ↔ x = .error e ∨ ∃ a, x = .ok a ∧ f a = .error e := by
  cases x with
  | error e' =>
      constructor
      · intro h
        cases h
        exact .inl rfl
      · rintro (h | ⟨a, ha, -⟩)
        · cases h
          rfl
        · cases ha
  | ok a =>
      constructor
      · intro h
        exact .inr ⟨a, rfl, h⟩
      · rintro (h | ⟨_, ha, h⟩)
        · cases h
        · cases ha
          exact h

/-! ## A step for each element of a list -/

/-- A list of steps succeeds with a list if each of them does with the
element in its place. -/
theorem mapM_eq_ok_iff {f : α → Except ε β} {xs : List α} {ys : List β} :
    xs.mapM f = .ok ys ↔ xs.map f = ys.map .ok := by
  induction xs generalizing ys with
  | nil =>
      rw [List.mapM_nil]
      cases ys with
      | nil => exact ⟨fun _ => rfl, fun _ => rfl⟩
      | cons y ys =>
          constructor
          · intro h
            cases h
          · intro h
            cases h
  | cons x xs ih =>
      rw [List.mapM_cons, bind_eq_ok_iff, List.map_cons]
      constructor
      · rintro ⟨y, hy, h⟩
        obtain ⟨ys', hys, h⟩ := bind_eq_ok_iff.1 h
        cases h
        rw [hy, ih.1 hys, List.map_cons]
      · intro h
        cases ys with
        | nil => cases h
        | cons y ys =>
            rw [List.map_cons, List.cons.injEq] at h
            exact ⟨y, h.1, bind_eq_ok_iff.2 ⟨ys, ih.2 h.2, rfl⟩⟩

theorem mapM_eq_ok_iff_forall₂ {f : α → Except ε β} {xs : List α} {ys : List β} :
    xs.mapM f = .ok ys ↔ List.Forall₂ (fun x y => f x = .ok y) xs ys := by
  rw [mapM_eq_ok_iff, ← List.forall₂_eq_eq_eq]
  exact List.forall₂_map_left_iff.trans List.forall₂_map_right_iff

/-- A list of steps fails where the first of them does that fails. -/
theorem mapM_eq_error_iff {f : α → Except ε β} {xs : List α} {e : ε} :
    xs.mapM f = .error e ↔
      ∃ before x after, xs = before ++ x :: after ∧ (∀ y ∈ before, ∃ b, f y = .ok b) ∧
        f x = .error e := by
  induction xs with
  | nil =>
      constructor
      · intro h
        rw [List.mapM_nil] at h
        cases h
      · rintro ⟨before, x, after, h, -⟩
        exact absurd h.symm (List.append_ne_nil_of_right_ne_nil _ (List.cons_ne_nil _ _))
  | cons x xs ih =>
      rw [List.mapM_cons, bind_eq_error_iff]
      constructor
      · rintro (hx | ⟨y, hy, h⟩)
        · exact ⟨[], x, xs, rfl, fun _ h => absurd h List.not_mem_nil, hx⟩
        · rcases bind_eq_error_iff.1 h with h | ⟨_, -, h⟩
          · obtain ⟨before, x', after, rfl, hbefore, hx'⟩ := ih.1 h
            exact ⟨x :: before, x', after, rfl, List.forall_mem_cons.2 ⟨⟨y, hy⟩, hbefore⟩, hx'⟩
          · cases h
      · rintro ⟨before, x', after, h, hbefore, hx'⟩
        cases before with
        | nil =>
            obtain ⟨rfl, -⟩ := List.cons.inj h
            exact .inl hx'
        | cons z before =>
            obtain ⟨rfl, rfl⟩ := List.cons.inj h
            obtain ⟨⟨b, hb⟩, hbefore⟩ := List.forall_mem_cons.1 hbefore
            refine .inr ⟨b, hb, bind_eq_error_iff.2 (.inl (ih.2 ?_))⟩
            exact ⟨before, x', after, rfl, hbefore, hx'⟩

/-- A list of steps succeeds if each of them does. -/
theorem exists_mapM_iff {f : α → Except ε β} {xs : List α} :
    (∃ ys, xs.mapM f = .ok ys) ↔ ∀ x ∈ xs, ∃ y, f x = .ok y := by
  constructor
  · intro h x hx
    obtain ⟨ys, hys⟩ := h
    have hmem : f x ∈ ys.map .ok := mapM_eq_ok_iff.1 hys ▸ List.mem_map_of_mem hx
    obtain ⟨y, -, hy⟩ := List.mem_map.1 hmem
    exact ⟨y, hy.symm⟩
  · intro h
    cases hxs : xs.mapM f with
    | ok ys => exact ⟨ys, rfl⟩
    | error e =>
        obtain ⟨before, x, after, rfl, -, hx⟩ := mapM_eq_error_iff.1 hxs
        obtain ⟨y, hy⟩ := h x (List.mem_append_right _ List.mem_cons_self)
        rw [hx] at hy
        cases hy

/-- Steps for two lists, one after the other. -/
theorem mapM_append_eq_ok_iff {f : α → Except ε β} {xs xs' : List α} {zs : List β} :
    (xs ++ xs').mapM f = .ok zs ↔
      ∃ ys ys', xs.mapM f = .ok ys ∧ xs'.mapM f = .ok ys' ∧ zs = ys ++ ys' := by
  rw [List.mapM_append]
  constructor
  · intro h
    obtain ⟨ys, hys, h⟩ := bind_eq_ok_iff.1 h
    obtain ⟨ys', hys', h⟩ := bind_eq_ok_iff.1 h
    cases h
    exact ⟨ys, ys', hys, hys', rfl⟩
  · intro h
    obtain ⟨ys, ys', hys, hys', rfl⟩ := h
    exact bind_eq_ok_iff.2 ⟨ys, hys, bind_eq_ok_iff.2 ⟨ys', hys', rfl⟩⟩

theorem mapM_singleton_eq_ok_iff {f : α → Except ε β} {x : α} {zs : List β} :
    [x].mapM f = .ok zs ↔ ∃ y, f x = .ok y ∧ zs = [y] := by
  rw [List.mapM_cons, List.mapM_nil]
  constructor
  · intro h
    obtain ⟨y, hy, h⟩ := bind_eq_ok_iff.1 h
    cases h
    exact ⟨y, hy, rfl⟩
  · intro h
    obtain ⟨y, hy, rfl⟩ := h
    exact bind_eq_ok_iff.2 ⟨y, hy, rfl⟩

theorem mapM_singleton_eq_error_iff {f : α → Except ε β} {x : α} {e : ε} :
    [x].mapM f = .error e ↔ f x = .error e := by
  rw [List.mapM_cons, List.mapM_nil, bind_eq_error_iff]
  refine or_iff_left fun h => ?_
  obtain ⟨y, -, h⟩ := h
  cases h

/-- Where all elements of a list are right, so are those of a shorter list. -/
theorem exists_mapM_of_sublist {f : α → Except ε β} {xs xs' : List α} (hsublist : xs'.Sublist xs)
    {ys : List β} (h : xs.mapM f = .ok ys) : ∃ ys', xs'.mapM f = .ok ys' ∧ ys'.Sublist ys := by
  have hmap : (xs'.map f).Sublist (ys.map .ok) := mapM_eq_ok_iff.1 h ▸ hsublist.map f
  obtain ⟨ys', hys', heq⟩ := List.sublist_map_iff.1 hmap
  exact ⟨ys', mapM_eq_ok_iff.2 heq, hys'⟩

/-- What is gathered along a list comes from its elements. -/
theorem exists_of_mem_mapM {f : α → Except ε β} {xs : List α} {ys : List β}
    (h : xs.mapM f = .ok ys) : ∀ y ∈ ys, ∃ x ∈ xs, f x = .ok y := by
  intro y hy
  have hmem : Except.ok y ∈ xs.map f := mapM_eq_ok_iff.1 h ▸ List.mem_map_of_mem hy
  exact List.mem_map.1 hmem

/-- Where a step keeps what is looked at, gathering keeps it too. -/
theorem filterMap_eq_of_mapM {γ : Type} {f : α → Except ε β} {look : α → Option γ}
    {look' : β → Option γ} (hkeeps : ∀ x y, f x = .ok y → look' y = look x) {xs : List α}
    {ys : List β} (h : xs.mapM f = .ok ys) : ys.filterMap look' = xs.filterMap look := by
  induction xs generalizing ys with
  | nil =>
      rw [List.mapM_nil] at h
      cases h
      rfl
  | cons x xs ih =>
      rw [List.mapM_cons] at h
      obtain ⟨y, hy, h⟩ := bind_eq_ok_iff.1 h
      obtain ⟨ys', hys', h⟩ := bind_eq_ok_iff.1 h
      cases h
      rw [List.filterMap_cons, List.filterMap_cons, hkeeps x y hy, ih hys']

theorem forM_cons_eq_bind {f : α → Except ε Unit} {x : α} {xs : List α} :
    (x :: xs).forM f = f x >>= fun _ => xs.forM f := List.forM_cons

/-- A check of each element of a list succeeds if all of them pass. -/
theorem forM_eq_ok_iff {f : α → Except ε Unit} {xs : List α} :
    xs.forM f = .ok () ↔ ∀ x ∈ xs, f x = .ok () := by
  induction xs with
  | nil => exact ⟨fun _ x hx => absurd hx List.not_mem_nil, fun _ => rfl⟩
  | cons x xs ih =>
      rw [forM_cons_eq_bind, bind_eq_ok_iff, List.forall_mem_cons]
      refine ⟨?_, ?_⟩
      · rintro ⟨_, hx, hxs⟩
        exact ⟨hx, ih.1 hxs⟩
      · rintro ⟨hx, hxs⟩
        exact ⟨(), hx, ih.2 hxs⟩

/-- What every step along a list keeps, the whole list keeps. -/
theorem foldlM_induction {f : β → α → Except ε β} {P : β → Prop}
    (hstep : ∀ b a b', P b → f b a = .ok b' → P b') {xs : List α} {b b' : β} (hb : P b)
    (h : xs.foldlM f b = .ok b') : P b' := by
  induction xs generalizing b with
  | nil =>
      rw [List.foldlM_nil] at h
      cases h
      exact hb
  | cons x xs ih =>
      rw [List.foldlM_cons] at h
      obtain ⟨b₁, h₁, h⟩ := bind_eq_ok_iff.1 h
      exact ih (hstep b x b₁ hb h₁) h

/-! ## Up to what was wrong -/

theorem toOption_eq_some_iff {x : Except ε α} {a : α} : x.toOption = some a ↔ x = .ok a := by
  cases x with
  | error e => simp [Except.toOption]
  | ok a' => simp [Except.toOption]

theorem toOption_eq_iff {x y : Except ε α} :
    x.toOption = y.toOption ↔ ∀ a, x = .ok a ↔ y = .ok a := by
  rw [Option.ext_iff]
  exact forall_congr' fun a => iff_congr toOption_eq_some_iff toOption_eq_some_iff

/-- Chains agree if their first steps do, and the rests on what these
gave. -/
theorem toOption_bind_congr {x y : Except ε α} {f g : α → Except ε β}
    (hfirst : x.toOption = y.toOption)
    (hrest : ∀ a, x = .ok a → (f a).toOption = (g a).toOption) :
    (x >>= f).toOption = (y >>= g).toOption := by
  rw [toOption_eq_iff]
  intro b
  rw [bind_eq_ok_iff, bind_eq_ok_iff]
  refine exists_congr fun a => ?_
  rw [← toOption_eq_iff.1 hfirst a]
  exact and_congr_right fun ha => toOption_eq_iff.1 (hrest a ha) b

end Except
