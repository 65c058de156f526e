/-
# `Proofs.Descriptor.Grammar` — method descriptors and the texts they have

The grammar of method descriptors, as texts:

    method  ::=  '(' type* ')' result
    result  ::=  type  |  'V'
    type    ::=  element  |  '[' … '[' element        (1 to 255 marks)
    element ::=  base letter  |  'L' name ';'         (a name is not empty
                                                       and has no ';')

`parse_text_grammar` says that reading and writing are inverse to each
other on the well-formed descriptors, and that a text is read exactly if it
is one of the grammar; every other text is answered by an error that
carries it.

The list of parameters is read greedily and its end is found by failing to
read one more, so the induction carries what the reader of types answers
at the place where the list ends (`EndsTypes`).  A closing parenthesis
starts no type, whence the list never runs past it, and a type inside the
list is read off whole, whence the list never stops before it.
-/
import Mathlib
import MethodArea.Proofs.Descriptor.FieldTypes
import MethodArea.Proofs.Outcome

namespace MethodArea

namespace Descriptor

/-! ## The grammar -/

/-- The text of a type below all array levels. -/
inductive ElementText : List Char → Prop
  | base (b : BaseType) : ElementText [b.code]
  | object {name : List Char} : name ≠ [] → ';' ∉ name →
      ElementText ('L' :: (name ++ [';']))

/-- The text of a field type. -/
inductive TypeText : List Char → Prop
  | element {e : List Char} : ElementText e → TypeText e
  | array {n : Nat} {e : List Char} : 1 ≤ n → n ≤ 255 → ElementText e →
      TypeText (List.replicate n '[' ++ e)

/-- The text of a result type. -/
inductive ResultText : List Char → Prop
  | type {t : List Char} : TypeText t → ResultText t
  | void : ResultText ['V']

/-- The text of a method descriptor. -/
inductive MethodText : List Char → Prop
  | mk {types : List (List Char)} {result : List Char} :
      (∀ t ∈ types, TypeText t) → ResultText result →
      MethodText ('(' :: (types.flatten ++ ')' :: result))

/-! ## The texts of the grammar are those of the well-formed types -/

theorem elementText_iff {text : List Char} :
    ElementText text ↔ ∃ e : FieldType, e.IsElement ∧ text = e.chars := by
  constructor
  · intro h
    cases h with
    | base b => exact ⟨.base b, trivial, rfl⟩
    | @object name hne hmark =>
        refine ⟨.object (String.ofList name), ⟨?_, ?_⟩, ?_⟩
        · intro e
          exact hne (by simpa using congrArg String.toList e)
        · rw [String.toList_ofList]
          exact hmark
        · rw [FieldType.chars, String.toList_ofList]
  · rintro ⟨e, he, rfl⟩
    cases e with
    | base b => exact .base b
    | object name =>
        refine .object ?_ he.2
        exact fun e => he.1 (String.toList_eq_nil_iff.1 e)
    | array _ => exact he.elim

theorem typeText_iff {text : List Char} :
    TypeText text ↔ ∃ t : FieldType, t.WellFormed ∧ text = t.chars := by
  constructor
  · intro h
    cases h with
    | element htext =>
        obtain ⟨e, he, rfl⟩ := elementText_iff.1 htext
        exact ⟨e, he.wellFormed, rfl⟩
    | @array n _ _ hn htext =>
        obtain ⟨e, he, rfl⟩ := elementText_iff.1 htext
        refine ⟨.arrayOf n e, FieldType.wellFormed_iff_arrayOf.2 ⟨n, e, hn, he, rfl⟩, ?_⟩
        exact (FieldType.chars_arrayOf n e).symm
  · rintro ⟨t, ht, rfl⟩
    obtain ⟨n, e, hn, he, rfl⟩ := FieldType.wellFormed_iff_arrayOf.1 ht
    have hetext : ElementText e.chars := elementText_iff.2 ⟨e, he, rfl⟩
    cases n with
    | zero => exact .element hetext
    | succ n =>
        rw [FieldType.chars_arrayOf]
        exact .array (Nat.succ_pos n) hn hetext

theorem resultText_iff {text : List Char} :
    ResultText text ↔ ∃ r : Option FieldType,
      (∀ t ∈ r, t.WellFormed) ∧ text = MethodDescriptor.returnChars r := by
  constructor
  · intro h
    cases h with
    | type htext =>
        obtain ⟨t, ht, rfl⟩ := typeText_iff.1 htext
        refine ⟨some t, ?_, rfl⟩
        rintro t' ⟨⟩
        exact ht
    | void =>
        refine ⟨none, ?_, rfl⟩
        rintro t' ⟨⟩
  · rintro ⟨r, hr, rfl⟩
    cases r with
    | none => exact .void
    | some t => exact .type (typeText_iff.2 ⟨t, hr t rfl, rfl⟩)

/-- A list of texts of types is the list of the texts of some types. -/
theorem exists_types_of_texts : ∀ {texts : List (List Char)}, (∀ t ∈ texts, TypeText t) →
    ∃ ts : List FieldType, (∀ t ∈ ts, t.WellFormed) ∧ texts.flatten = ts.flatMap FieldType.chars
  | [], _ => ⟨[], fun _ h => absurd h List.not_mem_nil, rfl⟩
  | text :: texts, h => by
      obtain ⟨t, ht, rfl⟩ := typeText_iff.1 (h text List.mem_cons_self)
      obtain ⟨ts, hts, htexts⟩ :=
        exists_types_of_texts (fun t ht => h t (List.mem_cons_of_mem _ ht))
      refine ⟨t :: ts, ?_, ?_⟩
      · intro t' ht'
        rcases List.mem_cons.1 ht' with rfl | ht'
        · exact ht
        · exact hts t' ht'
      · rw [List.flatten_cons, List.flatMap_cons, htexts]

/-- The texts of the grammar are those of the well-formed descriptors. -/
theorem methodText_iff {text : List Char} :
    MethodText text ↔ ∃ d : MethodDescriptor, d.WellFormed ∧ text = d.chars := by
  constructor
  · rintro ⟨htypes, hresult⟩
    obtain ⟨ts, hts, htexts⟩ := exists_types_of_texts htypes
    obtain ⟨r, hr, rfl⟩ := resultText_iff.1 hresult
    exact ⟨⟨ts, r⟩, ⟨hts, hr⟩, by rw [htexts]; rfl⟩
  · rintro ⟨⟨ts, r⟩, ⟨hts, hr⟩, rfl⟩
    have htexts : ts.flatMap FieldType.chars = (ts.map FieldType.chars).flatten :=
      List.flatMap_def
    simp only [MethodDescriptor.chars, htexts]
    refine .mk ?_ (resultText_iff.2 ⟨r, hr, rfl⟩)
    intro text htext
    obtain ⟨t, ht, rfl⟩ := List.mem_map.1 htext
    exact typeText_iff.2 ⟨t, hts t ht, rfl⟩

/-! ## The list of parameters -/

/-- No type starts at a text, and so a list of types may end there. -/
def EndsTypes (text : List Char) : Prop :=
  ∃ what place, readFieldType text = .error (.missing what place)

theorem endsTypes_close (text : List Char) : EndsTypes (')' :: text) :=
  ⟨.arrayMark, ')' :: text, rfl⟩

/-- What reading one type more comes to. -/
theorem readTypesFrom_eq (done : List FieldType) (text : List Char) :
    readTypesFrom done text =
      match readFieldType text with
      | .ok (t, rest) => readTypesFrom (t :: done) rest
      | .error (.missing _ _) => .ok (done.reverse, text)
      | .error (.tooManyDimensions place) => .error (.tooManyDimensions place) := by
  rw [readTypesFrom]
  split
  · next h => rw [h]
  · next h => rw [h]
  · next h => rw [h]

theorem readTypesFrom_of_ok {done : List FieldType} {text rest : List Char} {t : FieldType}
    (h : readFieldType text = .ok (t, rest)) :
    readTypesFrom done text = readTypesFrom (t :: done) rest := by
  rw [readTypesFrom_eq, h]

theorem readTypesFrom_of_endsTypes {done : List FieldType} {text : List Char}
    (h : EndsTypes text) : readTypesFrom done text = .ok (done.reverse, text) := by
  obtain ⟨what, place, h⟩ := h
  rw [readTypesFrom_eq, h]

theorem readTypesFrom_of_tooManyDimensions {done : List FieldType} {text place : List Char}
    (h : readFieldType text = .error (.tooManyDimensions place)) :
    readTypesFrom done text = .error (.tooManyDimensions place) := by
  rw [readTypesFrom_eq, h]

/-- Well-formed types are read off the front of any text. -/
theorem readTypesFrom_flatMap {rest : List Char} :
    ∀ {ts done : List FieldType}, (∀ t ∈ ts, t.WellFormed) →
      readTypesFrom done (ts.flatMap FieldType.chars ++ rest) =
        readTypesFrom (ts.reverse ++ done) rest
  | [], done, _ => rfl
  | t :: ts, done, h => by
      have hread : readFieldType (t.chars ++ (ts.flatMap FieldType.chars ++ rest)) =
          .ok (t, ts.flatMap FieldType.chars ++ rest) :=
        readFieldType_eq_ok_iff.2 ⟨h t List.mem_cons_self, rfl⟩
      rw [List.flatMap_cons, List.append_assoc, readTypesFrom_of_ok hread,
        readTypesFrom_flatMap (fun t' ht' => h t' (List.mem_cons_of_mem _ ht')),
        List.reverse_cons, List.append_assoc, List.singleton_append]

/-- A list of well-formed types is read back where no type follows it. -/
theorem readTypesFrom_append {rest : List Char} (hend : EndsTypes rest) {ts done : List FieldType}
    (h : ∀ t ∈ ts, t.WellFormed) :
    readTypesFrom done (ts.flatMap FieldType.chars ++ rest) = .ok (done.reverse ++ ts, rest) := by
  rw [readTypesFrom_flatMap h, readTypesFrom_of_endsTypes hend, List.reverse_append,
    List.reverse_reverse]

/-- What the reader of lists of types takes off a text is the text of
well-formed types, and it stops where none follows. -/
theorem eq_append_of_readTypesFrom {done ts : List FieldType} {text rest : List Char}
    (h : readTypesFrom done text = .ok (ts, rest)) :
    ∃ more, ts = done.reverse ++ more ∧ (∀ t ∈ more, t.WellFormed) ∧
      text = more.flatMap FieldType.chars ++ rest ∧ EndsTypes rest := by
  induction done, text using readTypesFrom.induct with
  | case1 done text t tail hread ih =>
      rw [readTypesFrom_of_ok hread] at h
      obtain ⟨ht, htext⟩ := readFieldType_eq_ok_iff.1 hread
      obtain ⟨more, rfl, hmore, htail, hend⟩ := ih h
      refine ⟨t :: more, ?_, ?_, ?_, hend⟩
      · rw [List.reverse_cons, List.append_assoc, List.singleton_append]
      · intro t' ht'
        rcases List.mem_cons.1 ht' with rfl | ht'
        · exact ht
        · exact hmore t' ht'
      · rw [htext, htail, List.flatMap_cons, List.append_assoc]
  | case2 done text what place hread =>
      have hend : EndsTypes text := ⟨what, place, hread⟩
      rw [readTypesFrom_of_endsTypes hend] at h
      cases h
      exact ⟨[], (List.append_nil _).symm, fun _ h => absurd h List.not_mem_nil, rfl, hend⟩
  | case3 done text place hread =>
      rw [readTypesFrom_of_tooManyDimensions hread] at h
      cases h

/-- The reader of lists of types takes well-formed types off the front of
the text, up to the first place where none starts. -/
theorem readTypes_eq_ok_iff {ts : List FieldType} {text rest : List Char} :
    readTypes text = .ok (ts, rest) ↔
      (∀ t ∈ ts, t.WellFormed) ∧ text = ts.flatMap FieldType.chars ++ rest ∧ EndsTypes rest := by
  rw [readTypes]
  constructor
  · intro h
    obtain ⟨more, rfl, hmore⟩ := eq_append_of_readTypesFrom h
    exact hmore
  · rintro ⟨hts, rfl, hend⟩
    exact readTypesFrom_append hend hts

/-! ## Whole descriptors -/

theorem readMark_eq_ok_iff {c : Char} {text rest : List Char} {u : Unit} :
    readMark c text = .ok (u, rest) ↔ text = c :: rest := by
  cases text with
  | nil => simp [readMark]
  | cons d tail =>
      by_cases hd : d = c
      · simp [readMark, hd]
      · simp [readMark, hd]

theorem atEnd_eq_ok_iff {α : Type} {a b : α} {text rest : List Char} :
    atEnd (a, text) = .ok (b, rest) ↔ a = b ∧ text = [] ∧ rest = [] := by
  cases text with
  | nil => simp [atEnd, eq_comm]
  | cons c tail => simp [atEnd]

/-- The reader of method descriptors and the written form of the
well-formed ones are inverse to each other. -/
theorem readMethod_eq_ok_iff {text rest : List Char} {d : MethodDescriptor} :
    readMethod text = .ok (d, rest) ↔ d.WellFormed ∧ text = d.chars ∧ rest = [] := by
  rw [readMethod]
  simp only [Except.bind_eq_ok_iff, Prod.exists, readMark_eq_ok_iff, readTypes_eq_ok_iff,
    readReturnType_eq_ok_iff, atEnd_eq_ok_iff]
  constructor
  · rintro ⟨⟨⟩, _, rfl, ts, _, ⟨hts, rfl, _⟩, ⟨⟩, _, rfl, r, _, ⟨hr, rfl⟩, rfl, rfl, rfl⟩
    refine ⟨⟨hts, hr⟩, ?_, rfl⟩
    rw [List.append_nil]
    rfl
  · rintro ⟨⟨hts, hr⟩, rfl, rfl⟩
    refine ⟨(), _, rfl, d.parameters, _, ⟨hts, rfl, endsTypes_close _⟩, (), _, rfl,
      d.returnType, [], ⟨hr, (List.append_nil _).symm⟩, rfl, rfl, rfl⟩

theorem readField_eq_ok_iff {text rest : List Char} {t : FieldType} :
    readField text = .ok (t, rest) ↔ t.WellFormed ∧ text = t.chars ∧ rest = [] := by
  rw [readField]
  simp only [Except.bind_eq_ok_iff, Prod.exists, readFieldType_eq_ok_iff, atEnd_eq_ok_iff]
  constructor
  · rintro ⟨_, _, ⟨hwf, rfl⟩, rfl, rfl, rfl⟩
    exact ⟨hwf, List.append_nil _, rfl⟩
  · rintro ⟨hwf, rfl, rfl⟩
    exact ⟨t, [], ⟨hwf, (List.append_nil _).symm⟩, rfl, rfl, rfl⟩

end Descriptor

namespace FieldType

open Descriptor

/-- What is read as a field type is what is written so. -/
theorem parse_eq_ok_iff {s : String} {t : FieldType} :
    parse s = .ok t ↔ t.WellFormed ∧ t.text = s := by
  rw [parse]
  split
  · next t' rest hread =>
      obtain ⟨hwf, htext, -⟩ := readField_eq_ok_iff.1 hread
      constructor
      · intro h
        cases h
        exact ⟨hwf, by rw [text, ← htext, String.ofList_toList]⟩
      · rintro ⟨hwf', rfl⟩
        rw [text, String.toList_ofList] at hread
        rw [readField_eq_ok_iff.2 ⟨hwf', rfl, rfl⟩] at hread
        cases hread
        rfl
  · next hread =>
      refine ⟨fun h => (by cases h), ?_⟩
      rintro ⟨hwf, rfl⟩
      rw [text, String.toList_ofList, readField_eq_ok_iff.2 ⟨hwf, rfl, rfl⟩] at hread
      cases hread

/-- The texts that are read as field types are those of the grammar. -/
theorem exists_parse_iff {s : String} : (∃ t, parse s = .ok t) ↔ TypeText s.toList := by
  rw [typeText_iff]
  constructor
  · rintro ⟨t, h⟩
    obtain ⟨hwf, rfl⟩ := parse_eq_ok_iff.1 h
    exact ⟨t, hwf, by rw [text, String.toList_ofList]⟩
  · rintro ⟨t, hwf, htext⟩
    exact ⟨t, parse_eq_ok_iff.2 ⟨hwf, by rw [text, ← htext, String.ofList_toList]⟩⟩

/-- A text that is not read is answered by an error that carries it. -/
theorem parse_eq_error {s : String} {e : Error} (h : parse s = .error e) :
    e = .malformedDescriptor s := by
  rw [parse] at h
  split at h
  · cases h
  · cases h
    rfl

/-- The written form of a type is read back as this type or not at all. -/
theorem parse_text_eq_ok_iff {t u : FieldType} : parse t.text = .ok u ↔ t.WellFormed ∧ u = t := by
  rw [parse_eq_ok_iff]
  constructor
  · rintro ⟨hwf, htext⟩
    obtain rfl : u = t := chars_injective (String.ofList_injective htext)
    exact ⟨hwf, rfl⟩
  · rintro ⟨hwf, rfl⟩
    exact ⟨hwf, rfl⟩

/-- Any type at all can be written.  If it is well-formed it is read back as it
was; if its class name is empty or has a `;` in it, or if it has more than
255 levels, it is read back as no type, and the error carries what was
written.  What is read as a type is written as it was. -/
theorem parse_text_same_or_error :
    (∀ t : FieldType, t.WellFormed → parse t.text = .ok t) ∧
    (∀ t : FieldType, ¬ t.WellFormed → parse t.text = .error (.malformedDescriptor t.text)) ∧
    (∀ s t, parse s = .ok t → t.text = s) := by
  refine ⟨fun t hwf => parse_text_eq_ok_iff.2 ⟨hwf, rfl⟩, ?_, fun s t h => (parse_eq_ok_iff.1 h).2⟩
  intro t hwf
  cases hparse : parse t.text with
  | ok u => exact absurd (parse_text_eq_ok_iff.1 hparse).1 hwf
  | error e => rw [parse_eq_error hparse]

/-- A name may hold the marks of other types, and 255 levels are not too
many.  One level more is, and so is a `;` behind which a type follows. -/
theorem parse_text_same_or_error_at_bounds :
    (arrayOf 255 (.object "[I)V")).WellFormed ∧
    parse (arrayOf 255 (.object "[I)V")).text = .ok (arrayOf 255 (.object "[I)V")) ∧
    ¬ (arrayOf 256 (.base .int)).WellFormed ∧
    parse (arrayOf 256 (.base .int)).text =
      .error (.malformedDescriptor (arrayOf 256 (.base .int)).text) ∧
    ¬ (object "A;LB").WellFormed ∧
    parse "LA;LB;" = .error (.malformedDescriptor "LA;LB;") ∧
    parse "[J" = .ok (.array (.base .long)) ∧ (array (.base .long)).text = "[J" := by
  obtain ⟨hsame, herror, hwritten⟩ := parse_text_same_or_error
  have hfits : (arrayOf 255 (.object "[I)V")).WellFormed :=
    wellFormed_iff_arrayOf.2 ⟨255, _, Nat.le_refl _, by decide, rfl⟩
  have hdeep : ¬ (arrayOf 256 (.base .int)).WellFormed := by
    rintro ⟨-, hlevels⟩
    rw [dimensions_arrayOf] at hlevels
    exact absurd hlevels (by decide)
  have hname : ¬ (object "A;LB").WellFormed := by decide
  have hread : parse "[J" = .ok (.array (.base .long)) := by cbv
  exact ⟨hfits, hsame _ hfits, hdeep, herror _ hdeep, hname, herror (object "A;LB") hname, hread,
    hwritten _ _ hread⟩

end FieldType

namespace MethodDescriptor

open Descriptor

theorem parse_eq_ok_iff {s : String} {d : MethodDescriptor} :
    parse s = .ok d ↔ d.WellFormed ∧ d.text = s := by
  rw [parse]
  split
  · next d' rest hread =>
      obtain ⟨hwf, htext, -⟩ := readMethod_eq_ok_iff.1 hread
      constructor
      · intro h
        cases h
        exact ⟨hwf, by rw [text, ← htext, String.ofList_toList]⟩
      · rintro ⟨hwf', rfl⟩
        rw [text, String.toList_ofList] at hread
        rw [readMethod_eq_ok_iff.2 ⟨hwf', rfl, rfl⟩] at hread
        cases hread
        rfl
  · next fault hread =>
      constructor
      · intro h
        cases h
      · rintro ⟨hwf, rfl⟩
        rw [text, String.toList_ofList, readMethod_eq_ok_iff.2 ⟨hwf, rfl, rfl⟩] at hread
        cases hread

/-- A text that is not read is answered by an error that carries it. -/
theorem parse_eq_error {s : String} {e : Error} (h : parse s = .error e) :
    e = .malformedDescriptor s := by
  rw [parse] at h
  split at h
  · cases h
  · cases h
    rfl

/-- The texts that are read as method descriptors are those of the
grammar. -/
theorem exists_parse_iff {s : String} : (∃ d, parse s = .ok d) ↔ MethodText s.toList := by
  rw [methodText_iff]
  constructor
  · rintro ⟨d, h⟩
    obtain ⟨hwf, rfl⟩ := parse_eq_ok_iff.1 h
    exact ⟨d, hwf, String.toList_ofList⟩
  · rintro ⟨d, hwf, htext⟩
    exact ⟨d, parse_eq_ok_iff.2 ⟨hwf, by rw [text, ← htext, String.ofList_toList]⟩⟩

/-- Reading a method descriptor and writing it are inverse to each other on
the well-formed descriptors, and exactly the texts of the grammar are
read. -/
theorem parse_text_grammar :
    (∀ s d, parse s = .ok d →
      (∀ t ∈ d.parameters, t.WellFormed) ∧ (∀ t ∈ d.returnType, t.WellFormed) ∧ d.text = s) ∧
    (∀ d : MethodDescriptor, (∀ t ∈ d.parameters, t.WellFormed) →
      (∀ t ∈ d.returnType, t.WellFormed) → parse d.text = .ok d) ∧
    (∀ s : String, MethodText s.toList → ∃ d, parse s = .ok d) ∧
    (∀ s : String, ¬ MethodText s.toList → parse s = .error (.malformedDescriptor s)) := by
  refine ⟨?_, ?_, ?_, ?_⟩
  · intro s d h
    obtain ⟨⟨hts, hr⟩, htext⟩ := parse_eq_ok_iff.1 h
    exact ⟨hts, hr, htext⟩
  · intro d hts hr
    exact parse_eq_ok_iff.2 ⟨⟨hts, hr⟩, rfl⟩
  · intro s h
    obtain ⟨d, hwf, htext⟩ := methodText_iff.1 h
    exact ⟨d, parse_eq_ok_iff.2 ⟨hwf, by rw [text, ← htext, String.ofList_toList]⟩⟩
  · intro s h
    cases hparse : parse s with
    | error e => rw [parse_eq_error hparse]
    | ok d =>
        obtain ⟨hwf, rfl⟩ := parse_eq_ok_iff.1 hparse
        refine absurd (methodText_iff.2 ⟨d, hwf, ?_⟩) h
        rw [text, String.toList_ofList]

/-- A class name may hold the marks of the grammar; it may not be empty. -/
theorem parse_text_grammar_marks_in_name :
    (∀ t ∈ [FieldType.array (.object ")V("), .base .long], t.WellFormed) ∧
    parse "([L)V(;J)V" = .ok ⟨[.array (.object ")V("), .base .long], none⟩ ∧
    ¬ MethodText "(L;)V".toList ∧
    parse "(L;)V" = .error (.malformedDescriptor "(L;)V") := by
  have hwf : ∀ t ∈ [FieldType.array (.object ")V("), .base .long], t.WellFormed := by decide
  have hno : ¬ MethodText "(L;)V".toList := by
    intro h
    obtain ⟨d, hd⟩ := parse_text_grammar.2.2.1 _ h
    have he : parse "(L;)V" = .error (.malformedDescriptor "(L;)V") := by cbv
    rw [he] at hd
    cases hd
  refine ⟨hwf, ?_, hno, parse_text_grammar.2.2.2 _ hno⟩
  exact parse_text_grammar.2.1 ⟨[.array (.object ")V("), .base .long], none⟩ hwf
    (fun _ h => by cases h)

end MethodDescriptor

end MethodArea
