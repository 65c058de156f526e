/-
# `Proofs.Checklist` — conditions in order, and the first that does not hold

Loading asks one thing after another and stops at the first that is not as
it should be.  A `Condition` is one such thing together with the error that
reports it; `FirstViolation` says which error a list of conditions comes
to.  A computation `Decides` a list of conditions if it succeeds where all
of them hold and otherwise fails with that error.

A list says more than the set of its conditions: a later condition is only
ever asked for where the earlier ones hold.  So `Decides.bind` lets the
second part of a computation use what the first one gave, and a condition
need not make sense where an earlier one fails.
-/
import MethodArea.Error
import MethodArea.Proofs.Outcome

namespace MethodArea

/-- A condition, and the error that reports that it does not hold. -/
structure Condition where
  Holds : Prop
  error : Error

/-- Every condition of a list holds. -/
def AllHold (conditions : List Condition) : Prop := ∀ c ∈ conditions, c.Holds

/-- The error of the first condition of a list that does not hold. -/
inductive FirstViolation : List Condition → Error → Prop
  | here {c : Condition} {rest : List Condition} : ¬ c.Holds →
      FirstViolation (c :: rest) c.error
  | later {c : Condition} {rest : List Condition} {e : Error} : c.Holds →
      FirstViolation rest e → FirstViolation (c :: rest) e

/-- A computation succeeds where all conditions of a list hold, and fails
with the error of the first one that does not. -/
structure Decides {α : Type} (x : Except Error α) (conditions : List Condition) : Prop where
  of_ok : ∀ a, x = .ok a → AllHold conditions
  of_error : ∀ e, x = .error e → FirstViolation conditions e

/-! ## Lists of conditions -/

section Lists
variable {c : Condition} {cs ds : List Condition} {e : Error}

@[simp] theorem allHold_nil : AllHold [] := fun _ h => absurd h List.not_mem_nil

@[simp] theorem allHold_cons : AllHold (c :: cs) ↔ c.Holds ∧ AllHold cs := List.forall_mem_cons

@[simp] theorem allHold_append : AllHold (cs ++ ds) ↔ AllHold cs ∧ AllHold ds :=
  List.forall_mem_append

@[simp] theorem allHold_map {β : Type} {f : β → Condition} {xs : List β} :
    AllHold (xs.map f) ↔ ∀ x ∈ xs, (f x).Holds :=
  List.forall_mem_map

@[simp] theorem allHold_flatMap {β : Type} {f : β → List Condition} {xs : List β} :
    AllHold (xs.flatMap f) ↔ ∀ x ∈ xs, AllHold (f x) := by
  induction xs with
  | nil => simp
  | cons x xs ih => simp [ih]

theorem FirstViolation.not_allHold (h : FirstViolation cs e) : ¬ AllHold cs := by
  induction h with
  | here hc => exact fun hall => hc (allHold_cons.1 hall).1
  | later _ _ ih => exact fun hall => ih (allHold_cons.1 hall).2

/-- A list of conditions comes to one error at most. -/
theorem FirstViolation.unique {e' : Error} (h : FirstViolation cs e)
    (h' : FirstViolation cs e') : e = e' := by
  induction h with
  | here hc =>
      cases h' with
      | here _ => rfl
      | later hc' _ => exact absurd hc' hc
  | later hc _ ih =>
      cases h' with
      | here hc' => exact absurd hc hc'
      | later _ h' => exact ih h'

theorem FirstViolation.append_right (h : FirstViolation cs e) : FirstViolation (cs ++ ds) e := by
  induction h with
  | here hc => exact .here hc
  | later hc _ ih => exact .later hc ih

theorem FirstViolation.append_left (hall : AllHold cs) (h : FirstViolation ds e) :
    FirstViolation (cs ++ ds) e := by
  induction cs with
  | nil => exact h
  | cons c cs ih =>
      obtain ⟨hc, hall⟩ := allHold_cons.1 hall
      exact .later hc (ih hall)

theorem firstViolation_append_iff :
    FirstViolation (cs ++ ds) e ↔ FirstViolation cs e ∨ AllHold cs ∧ FirstViolation ds e := by
  constructor
  · intro h
    induction cs with
    | nil => exact .inr ⟨allHold_nil, h⟩
    | cons c cs ih =>
        cases h with
        | here hc => exact .inl (.here hc)
        | later hc h =>
            rcases ih h with h | ⟨hall, h⟩
            · exact .inl (.later hc h)
            · exact .inr ⟨allHold_cons.2 ⟨hc, hall⟩, h⟩
  · rintro (h | ⟨hall, h⟩)
    · exact h.append_right
    · exact h.append_left hall

theorem firstViolation_singleton_iff : FirstViolation [c] e ↔ ¬ c.Holds ∧ e = c.error := by
  constructor
  · intro h
    cases h with
    | here hc => exact ⟨hc, rfl⟩
    | later _ h => cases h
  · rintro ⟨hc, rfl⟩
    exact .here hc

/-- Where conditions are asked of each element of a list, the first violation
is in the conditions of the first element that does not meet its own. -/
theorem firstViolation_flatMap_iff {β : Type} {f : β → List Condition} {xs : List β} :
    FirstViolation (xs.flatMap f) e ↔
      ∃ (i : Nat) (x : β), xs[i]? = some x ∧ FirstViolation (f x) e ∧
        ∀ j < i, ∀ y, xs[j]? = some y → AllHold (f y) := by
  induction xs with
  | nil =>
      constructor
      · intro h
        cases h
      · rintro ⟨i, x, hx, -⟩
        cases hx
  | cons x xs ih =>
      rw [List.flatMap_cons, firstViolation_append_iff, ih]
      constructor
      · rintro (h | ⟨hall, i, y, hy, h, hbefore⟩)
        · exact ⟨0, x, rfl, h, fun j hj => absurd hj (Nat.not_lt_zero j)⟩
        · refine ⟨i + 1, y, hy, h, fun j hj z hz => ?_⟩
          cases j with
          | zero =>
              cases hz
              exact hall
          | succ j => exact hbefore j (Nat.lt_of_succ_lt_succ hj) z hz
      · rintro ⟨i, y, hy, h, hbefore⟩
        cases i with
        | zero =>
            cases hy
            exact .inl h
        | succ i =>
            refine .inr ⟨hbefore 0 (Nat.succ_pos i) x rfl, i, y, hy, h, fun j hj z hz => ?_⟩
            exact hbefore (j + 1) (Nat.succ_lt_succ hj) z hz

/-- The error of a violation is that of a condition of the list. -/
theorem FirstViolation.exists_mem (h : FirstViolation cs e) :
    ∃ c ∈ cs, ¬ c.Holds ∧ e = c.error := by
  induction h with
  | here hc => exact ⟨_, List.mem_cons_self, hc, rfl⟩
  | later _ _ ih =>
      obtain ⟨c, hmem, hc⟩ := ih
      exact ⟨c, List.mem_cons_of_mem _ hmem, hc⟩

end Lists

/-! ## Computations that decide a list -/

namespace Decides

variable {α β : Type} {x : Except Error α} {c : Condition} {cs ds : List Condition}

/-- A computation that decides a list succeeds exactly if all conditions
hold. -/
theorem ok_iff (h : Decides x cs) : (∃ a, x = .ok a) ↔ AllHold cs := by
  constructor
  · rintro ⟨a, ha⟩
    exact h.of_ok a ha
  · intro hall
    cases hx : x with
    | ok a => exact ⟨a, rfl⟩
    | error e => exact absurd hall (h.of_error e hx).not_allHold

/-- It fails exactly with the error of the first condition that does not
hold. -/
theorem error_iff (h : Decides x cs) {e : Error} : x = .error e ↔ FirstViolation cs e := by
  constructor
  · exact h.of_error e
  · intro hfirst
    cases hx : x with
    | ok a => exact absurd (h.of_ok a hx) hfirst.not_allHold
    | error e' => rw [hfirst.unique (h.of_error e' hx)]

theorem ok (a : α) (h : AllHold cs) : Decides (.ok a) cs :=
  ⟨fun _ _ => h, fun _ he => by cases he⟩

theorem error {e : Error} (h : FirstViolation cs e) : Decides (.error e : Except Error α) cs :=
  ⟨fun _ ha => (by cases ha), fun _ he => by cases he; exact h⟩

/-- A single check. -/
theorem one (hok : (∃ a, x = .ok a) ↔ c.Holds) (herror : ∀ e, x = .error e → e = c.error) :
    Decides x [c] := by
  refine ⟨fun a ha => allHold_cons.2 ⟨hok.1 ⟨a, ha⟩, allHold_nil⟩, fun e he => ?_⟩
  obtain rfl := herror e he
  refine .here fun hc => ?_
  obtain ⟨a, ha⟩ := hok.2 hc
  rw [he] at ha
  cases ha

/-- A condition that is known to hold may stand in front. -/
theorem cons (hc : c.Holds) (h : Decides x cs) : Decides x (c :: cs) :=
  ⟨fun a ha => allHold_cons.2 ⟨hc, h.of_ok a ha⟩, fun e he => .later hc (h.of_error e he)⟩

theorem bind (h : Decides x cs) {f : α → Except Error β}
    (hf : ∀ a, x = .ok a → Decides (f a) ds) : Decides (x >>= f) (cs ++ ds) := by
  refine ⟨fun b hb => ?_, fun e he => ?_⟩
  · obtain ⟨a, ha, hb⟩ := Except.bind_eq_ok_iff.1 hb
    exact allHold_append.2 ⟨h.of_ok a ha, (hf a ha).of_ok b hb⟩
  · rcases Except.bind_eq_error_iff.1 he with he | ⟨a, ha, he⟩
    · exact (h.of_error e he).append_right
    · exact ((hf a ha).of_error e he).append_left (h.of_ok a ha)

/-- A single check, followed by more. -/
theorem bind_one (h : Decides x [c]) {f : α → Except Error β}
    (hf : ∀ a, x = .ok a → Decides (f a) ds) : Decides (x >>= f) (c :: ds) :=
  h.bind hf

theorem map (h : Decides x cs) (f : α → β) : Decides (f <$> x) cs := by
  refine ⟨fun b hb => ?_, fun e he => h.of_error e (Except.map_eq_error_iff.1 he)⟩
  obtain ⟨a, ha, -⟩ := Except.map_eq_ok_iff.1 hb
  exact h.of_ok a ha

/-- A computation followed by one that cannot fail. -/
theorem then_ok (h : Decides x cs) (f : α → β) : Decides (x >>= fun a => .ok (f a)) cs :=
  bind_pure_comp f x ▸ h.map f

theorem mapM {f : α → Except Error β} {conditions : α → List Condition} {xs : List α}
    (h : ∀ x ∈ xs, Decides (f x) (conditions x)) :
    Decides (xs.mapM f) (xs.flatMap conditions) := by
  induction xs with
  | nil =>
      rw [List.mapM_nil]
      exact ok [] allHold_nil
  | cons x xs ih =>
      obtain ⟨hx, hxs⟩ := List.forall_mem_cons.1 h
      rw [List.mapM_cons, List.flatMap_cons]
      exact hx.bind fun y _ => (ih hxs).then_ok (y :: ·)

end Decides

end MethodArea
