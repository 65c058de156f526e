/-
# `Proofs.Descriptor.FieldTypes` — what the readers of types accept

For each reader of `Descriptor.Reader` there is one equivalence, with the
text that is left after the type as a variable:

    readFieldType text = .ok (t, rest)  ↔  t.WellFormed ∧ text = t.chars ++ rest

Read from right to left it says that a well-formed type is read back from
in front of any text at all; from left to right, that nothing else is ever
read.  As the left-hand side is the answer of a function, the two together
make the written forms of types a prefix code: a text can be split into a
type and a rest in one way only.

Elements come first, then arrays of them, then the alternative of the two,
as in the reader.  That an array has one level at least and that an
element never starts with `[` is what keeps the alternatives apart.
-/
import MethodArea.Descriptor.Reader

namespace MethodArea

/-! ## Types as arrays of an element -/

namespace FieldType

theorem chars_arrayOf (n : Nat) (t : FieldType) :
    (arrayOf n t).chars = List.replicate n '[' ++ t.chars := by
  induction n with
  | zero => rfl
  | succ n ih =>
      show '[' :: (arrayOf n t).chars = List.replicate (n + 1) '[' ++ t.chars
      rw [ih, List.replicate_succ, List.cons_append]

theorem dimensions_arrayOf (n : Nat) (t : FieldType) :
    (arrayOf n t).dimensions = t.dimensions + n := by
  induction n with
  | zero => rfl
  | succ n ih =>
      show (arrayOf n t).dimensions + 1 = t.dimensions + (n + 1)
      rw [ih, Nat.add_assoc]

theorem innermost_arrayOf (n : Nat) (t : FieldType) :
    (arrayOf n t).innermost = t.innermost := by
  induction n with
  | zero => rfl
  | succ n ih => exact ih

/-- A type is as many array levels as it has over what is below them. -/
theorem arrayOf_dimensions_innermost : ∀ t : FieldType, arrayOf t.dimensions t.innermost = t
  | .base _ => rfl
  | .object _ => rfl
  | .array t => congrArg FieldType.array (arrayOf_dimensions_innermost t)

theorem IsElement.dimensions_eq_zero {t : FieldType} (h : t.IsElement) : t.dimensions = 0 := by
  cases t with
  | base _ => rfl
  | object _ => rfl
  | array _ => exact h.elim

theorem IsElement.innermost_eq {t : FieldType} (h : t.IsElement) : t.innermost = t := by
  cases t with
  | base _ => rfl
  | object _ => rfl
  | array _ => exact h.elim

/-- The well-formed types are the arrays of at most 255 levels over an
element, with no level for the element itself. -/
theorem wellFormed_iff_arrayOf {t : FieldType} :
    t.WellFormed ↔ ∃ n e, n ≤ maxDimensions ∧ IsElement e ∧ t = arrayOf n e := by
  constructor
  · rintro ⟨he, hn⟩
    exact ⟨t.dimensions, t.innermost, hn, he, (arrayOf_dimensions_innermost t).symm⟩
  · rintro ⟨n, e, hn, he, rfl⟩
    refine ⟨?_, ?_⟩
    · rw [innermost_arrayOf, he.innermost_eq]
      exact he
    · rw [dimensions_arrayOf, he.dimensions_eq_zero, Nat.zero_add]
      exact hn

/-- Types are told apart by their characters, whether they can be read back or
not. -/
theorem chars_injective {t u : FieldType} (h : t.chars = u.chars) : t = u := by
  induction t generalizing u with
  | base b =>
      cases u with
      | base c =>
          have hcode : BaseType.ofCode? b.code = BaseType.ofCode? c.code :=
            congrArg BaseType.ofCode? (List.cons.inj h).1
          rw [BaseType.ofCode?_code, BaseType.ofCode?_code] at hcode
          rw [Option.some.inj hcode]
      | object _ => cases b <;> cases h
      | array _ => cases b <;> cases h
  | object name =>
      cases u with
      | base c => cases c <;> cases h
      | object name' =>
          have hname := List.append_cancel_right (List.cons.inj h).2
          rw [String.toList_injective hname]
      | array _ => cases h
  | array t ih =>
      cases u with
      | base c => cases c <;> cases h
      | object _ => cases h
      | array u => rw [ih (List.cons.inj h).2]

theorem IsElement.wellFormed {t : FieldType} (h : t.IsElement) : t.WellFormed :=
  wellFormed_iff_arrayOf.2 ⟨0, t, Nat.zero_le _, h, rfl⟩

end FieldType

namespace Descriptor

open FieldType

/-! ## A text at its first mark -/

section Mark
variable {p : Char → Bool} {xs text rest : List Char} {c : Char}

theorem takeWhile_append_mark (hx : ∀ a ∈ xs, p a) (hc : p c = false) :
    (xs ++ c :: rest).takeWhile p = xs := by
  rw [List.takeWhile_append_of_pos hx, List.takeWhile_cons_of_neg (by simp [hc]), List.append_nil]

theorem dropWhile_append_mark (hx : ∀ a ∈ xs, p a) (hc : p c = false) :
    (xs ++ c :: rest).dropWhile p = c :: rest := by
  rw [List.dropWhile_append_of_pos hx, List.dropWhile_cons_of_neg (by simp [hc])]

theorem mem_takeWhile_imp {a : Char} (h : a ∈ text.takeWhile p) : p a :=
  List.all_eq_true.1 List.all_takeWhile a h

/-- What is left at a mark starts with a mark. -/
theorem not_of_dropWhile_eq_cons (h : text.dropWhile p = c :: rest) : p c = false := by
  have hd := List.head?_dropWhile_not p text
  rw [h] at hd
  exact hd

theorem eq_append_of_dropWhile_eq (h : text.dropWhile p = rest) :
    text = text.takeWhile p ++ rest := by
  rw [← h, List.takeWhile_append_dropWhile]

end Mark

/-! ## Elements -/

theorem readBase?_eq_some_iff {text rest : List Char} {b : BaseType} :
    readBase? text = some (b, rest) ↔ text = b.code :: rest := by
  cases text with
  | nil => simp [readBase?]
  | cons c tail =>
      simp only [readBase?, Option.map_eq_some_iff, Prod.mk.injEq, List.cons.injEq,
        BaseType.ofCode?_eq_some_iff]
      constructor
      · rintro ⟨_, h, rfl, rfl⟩
        exact ⟨h, rfl⟩
      · rintro ⟨h, rfl⟩
        exact ⟨b, h, rfl, rfl⟩

/-- No base type has the letter of an object type. -/
theorem readBase?_object (text : List Char) : readBase? ('L' :: text) = none := rfl

/-- The written form of an object type, in front of a text. -/
theorem chars_object_append (name : String) (rest : List Char) :
    (FieldType.object name).chars ++ rest = 'L' :: (name.toList ++ ';' :: rest) := by
  simp only [FieldType.chars, List.cons_append, List.append_assoc, List.nil_append]

theorem readObject_eq_ok_iff {text rest : List Char} {t : FieldType} :
    readObject text = .ok (t, rest) ↔
      ∃ name, t = .object name ∧ IsElement t ∧ text = t.chars ++ rest := by
  constructor
  · intro h
    unfold readObject at h
    split at h
    · next tail =>
        dsimp only at h
        split at h
        · cases h
        · next hname =>
            split at h
            · next c tail' hdrop =>
                cases h
                have hmark : c = ';' := by
                  simpa using not_of_dropWhile_eq_cons hdrop
                have htext := eq_append_of_dropWhile_eq hdrop
                rw [hmark] at htext
                refine ⟨_, rfl, ⟨?_, ?_⟩, ?_⟩
                · intro hempty
                  exact hname (by simpa using congrArg String.toList hempty)
                · rw [String.toList_ofList]
                  intro hmem
                  simpa using mem_takeWhile_imp hmem
                · rw [chars_object_append, String.toList_ofList, ← htext]
            · cases h
    · cases h
  · rintro ⟨name, rfl, ⟨hne, hmark⟩, rfl⟩
    have hall : ∀ a ∈ name.toList, decide (a ≠ ';') = true := by
      intro a ha
      exact decide_eq_true (fun e => hmark (e ▸ ha))
    have hname : name.toList ≠ [] := fun e => hne (String.toList_eq_nil_iff.1 e)
    have hstop : decide (';' ≠ ';') = false := rfl
    rw [chars_object_append]
    simp only [readObject]
    rw [takeWhile_append_mark hall hstop, dropWhile_append_mark hall hstop, if_neg hname,
      String.ofList_toList]

theorem readElement_eq_ok_iff {text rest : List Char} {t : FieldType} :
    readElement text = .ok (t, rest) ↔ t.IsElement ∧ text = t.chars ++ rest := by
  constructor
  · intro h
    rw [readElement] at h
    split at h
    · next b rest' hb =>
        cases h
        exact ⟨trivial, readBase?_eq_some_iff.1 hb⟩
    · obtain ⟨_, _, he, htext⟩ := readObject_eq_ok_iff.1 h
      exact ⟨he, htext⟩
  · rintro ⟨he, rfl⟩
    cases t with
    | base b =>
        have hb : readBase? ((FieldType.base b).chars ++ rest) = some (b, rest) :=
          readBase?_eq_some_iff.2 rfl
        simp only [readElement, hb]
    | object name =>
        have ho := readObject_eq_ok_iff.2
          ⟨name, rfl, he, Eq.refl ((FieldType.object name).chars ++ rest)⟩
        have hb : readBase? ((FieldType.object name).chars ++ rest) = none := readBase?_object _
        simp only [readElement, hb, ho]
    | array _ => exact he.elim

/-- No element starts with an array mark. -/
theorem readElement_arrayMark (text : List Char) :
    readElement ('[' :: text) = .error (.missing (.mark 'L') ('[' :: text)) := rfl

/-! ## Arrays -/

/-- The array marks that a text starts with. -/
theorem takeWhile_arrayMarks (text : List Char) :
    text.takeWhile (· = '[') = List.replicate (text.takeWhile (· = '[')).length '[' :=
  List.eq_replicate_of_mem (fun a ha => by simpa using mem_takeWhile_imp ha)

/-- An element in front of a text starts with something else than an array
mark, so the run of marks before it ends where it starts. -/
theorem exists_chars_append_eq_cons {e : FieldType} (he : e.IsElement) (rest : List Char) :
    ∃ c tail, e.chars ++ rest = c :: tail ∧ decide (c = '[') = false := by
  cases e with
  | base b => exact ⟨b.code, rest, rfl, by cases b <;> rfl⟩
  | object name => exact ⟨'L', _, rfl, rfl⟩
  | array _ => exact he.elim

theorem readArray_eq_ok_iff {text rest : List Char} {t : FieldType} :
    readArray text = .ok (t, rest) ↔
      ∃ n e, 0 < n ∧ n ≤ maxDimensions ∧ IsElement e ∧ t = arrayOf n e ∧
        text = t.chars ++ rest := by
  constructor
  · intro h
    unfold readArray at h
    dsimp only at h
    split at h
    · cases h
    · next hpos =>
        split at h
        · cases h
        · next hmax =>
            split at h
            · next e rest' he =>
                cases h
                obtain ⟨helem, hdrop⟩ := readElement_eq_ok_iff.1 he
                refine ⟨_, e, Nat.pos_of_ne_zero hpos, Nat.le_of_not_lt hmax, helem, rfl, ?_⟩
                rw [chars_arrayOf, ← takeWhile_arrayMarks, List.append_assoc]
                exact eq_append_of_dropWhile_eq hdrop
            · cases h
  · rintro ⟨n, e, hpos, hmax, he, rfl, rfl⟩
    obtain ⟨c, tail, htail, hc⟩ := exists_chars_append_eq_cons he rest
    have hall : ∀ a ∈ List.replicate n '[', decide (a = '[') = true := by
      intro a ha
      exact decide_eq_true (List.eq_of_mem_replicate ha)
    have htext : (arrayOf n e).chars ++ rest = List.replicate n '[' ++ c :: tail := by
      rw [chars_arrayOf, List.append_assoc, htail]
    have hread : readElement (c :: tail) = .ok (e, rest) :=
      readElement_eq_ok_iff.2 ⟨he, htail.symm⟩
    simp only [readArray, htext]
    rw [takeWhile_append_mark hall hc, dropWhile_append_mark hall hc, List.length_replicate,
      if_neg (Nat.ne_of_gt hpos), if_neg (Nat.not_lt.2 hmax), hread]

/-! ## All field types -/

/-- The reader of field types and the written form of well-formed types are
inverse to each other, whatever follows. -/
theorem readFieldType_eq_ok_iff {text rest : List Char} {t : FieldType} :
    readFieldType text = .ok (t, rest) ↔ t.WellFormed ∧ text = t.chars ++ rest := by
  constructor
  · intro h
    rw [readFieldType] at h
    split at h
    · next read he =>
        cases h
        obtain ⟨helem, htext⟩ := readElement_eq_ok_iff.1 he
        exact ⟨helem.wellFormed, htext⟩
    · obtain ⟨n, e, _, hmax, he, ht, htext⟩ := readArray_eq_ok_iff.1 h
      exact ⟨wellFormed_iff_arrayOf.2 ⟨n, e, hmax, he, ht⟩, htext⟩
  · rintro ⟨hwf, htext⟩
    obtain ⟨n, e, hmax, he, ht⟩ := wellFormed_iff_arrayOf.1 hwf
    cases n with
    | zero =>
        have hread : readElement text = .ok (t, rest) :=
          readElement_eq_ok_iff.2 ⟨ht ▸ he, htext⟩
        simp only [readFieldType, hread]
    | succ n =>
        have hread : readArray text = .ok (t, rest) :=
          readArray_eq_ok_iff.2 ⟨n + 1, e, Nat.succ_pos n, hmax, he, ht, htext⟩
        have hmark : ∃ tail, text = '[' :: tail := by
          rw [htext, ht]
          exact ⟨_, rfl⟩
        obtain ⟨tail, rfl⟩ := hmark
        simp only [readFieldType, readElement_arrayMark, hread]

/-- The written form of a field type or of no type, read back. -/
theorem readReturnType_eq_ok_iff {text rest : List Char} {r : Option FieldType} :
    readReturnType text = .ok (r, rest) ↔
      (∀ t ∈ r, FieldType.WellFormed t) ∧ text = MethodDescriptor.returnChars r ++ rest := by
  constructor
  · intro h
    unfold readReturnType at h
    split at h
    · next t rest' ht =>
        cases h
        obtain ⟨hwf, htext⟩ := readFieldType_eq_ok_iff.1 ht
        refine ⟨?_, htext⟩
        rintro t' ⟨⟩
        exact hwf
    · cases h
    · split at h
      · cases h
        refine ⟨?_, rfl⟩
        rintro t' ⟨⟩
      · cases h
  · rintro ⟨hwf, rfl⟩
    cases r with
    | none => rfl
    | some t =>
        have hread : readFieldType (t.chars ++ rest) = .ok (t, rest) :=
          readFieldType_eq_ok_iff.2 ⟨hwf t rfl, rfl⟩
        simp only [MethodDescriptor.returnChars, readReturnType, hread]

end Descriptor

end MethodArea
