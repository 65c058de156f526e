/-
# `Proofs.Descriptor.PrefixCode` — a text is split into types in one way only

The written forms of the well-formed types are a prefix code, and so are
those of results, with `V` for no type:

    a ++ rest = b ++ rest'  →  a and b are written forms of the same thing,
                               and rest = rest'

for any texts `rest` and `rest'` at all.  It is the readers that show this:
what is read off a text is a function of the text, and each reader is
inverse to writing whatever follows (`prefixCode_of_reads`).

For a list of types it matters how it ends.  Reading goes on for as long as
it can, so the list is read back exactly if what follows it neither starts
with a type nor with more array marks than a type may have; the first would
be taken into the list, and the second fails it (`endsTypes_iff`).
-/
import MethodArea.Proofs.Descriptor.Faults

namespace MethodArea.Descriptor

open FieldType

/-! ## Prefix codes -/

/-- What is written, with anything behind it, can be told from the front. -/
def PrefixCode {α : Type} (valid : α → Prop) (write : α → List Char) : Prop :=
  ∀ a b rest rest', valid a → valid b → write a ++ rest = write b ++ rest' → a = b ∧ rest = rest'

section PrefixCode

variable {α : Type} {valid : α → Prop} {write : α → List Char}

/-- What a reader can read back from in front of any text is a prefix
code. -/
theorem prefixCode_of_reads {read : List Char → Result α}
    (h : ∀ {text rest : List Char} {a : α},
      read text = .ok (a, rest) ↔ valid a ∧ text = write a ++ rest) :
    PrefixCode valid write := by
  intro a b rest rest' ha hb htext
  have hread : read (write a ++ rest) = .ok (a, rest) := h.2 ⟨ha, rfl⟩
  have hread' : read (write b ++ rest') = .ok (b, rest') := h.2 ⟨hb, rfl⟩
  rw [htext, hread'] at hread
  cases hread
  exact ⟨rfl, rfl⟩

/-- No written form goes on as another one. -/
theorem PrefixCode.eq_of_prefix (h : PrefixCode valid write) {a b : α} (ha : valid a)
    (hb : valid b) (hfront : write a <+: write b) : a = b := by
  obtain ⟨rest, hrest⟩ := hfront
  have hsame : write a ++ rest = write b ++ [] := by rw [hrest, List.append_nil]
  exact (h a b rest [] ha hb hsame).1

end PrefixCode

theorem prefixCode_types : PrefixCode WellFormed chars :=
  prefixCode_of_reads readFieldType_eq_ok_iff

theorem prefixCode_results :
    PrefixCode (fun r => ∀ t ∈ r, WellFormed t) MethodDescriptor.returnChars :=
  prefixCode_of_reads readReturnType_eq_ok_iff

/-! ## Where a list of types ends -/

/-- A text starts with a type that can be read. -/
def StartsType (text : List Char) : Prop := ∃ t : FieldType, t.WellFormed ∧ t.chars <+: text

/-- A list of types ends where no type starts and where there are not too
many array marks either. -/
theorem endsTypes_iff {text : List Char} :
    EndsTypes text ↔ ¬ StartsType text ∧ ¬ TooDeep text := by
  constructor
  · rintro ⟨what, place, hread⟩
    constructor
    · rintro ⟨t, ht, rest, rfl⟩
      rw [readFieldType_eq_ok_iff.2 ⟨ht, rfl⟩] at hread
      cases hread
    · intro hdeep
      rw [readFieldType_of_tooDeep hdeep] at hread
      cases hread
  · rintro ⟨hstarts, hdeep⟩
    cases hread : readFieldType text with
    | ok read =>
        obtain ⟨t, rest⟩ := read
        obtain ⟨ht, htext⟩ := readFieldType_eq_ok_iff.1 hread
        exact absurd ⟨t, ht, rest, htext.symm⟩ hstarts
    | error fault =>
        cases typeFault_of_readFieldType hread with
        | overrun h => exact absurd h.1 hdeep
        | missing h =>
            obtain ⟨-⟩ := h
            exact ⟨_, _, hread⟩

/-! ## Splitting a text -/

/-- A well-formed type is read back from in front of any text.  A text has at
most one split into the written form of a result and a rest, and the reader
of results answers that one.  The reader of lists answers the types that a
text starts with, all of them, and what is left is what no type starts. -/
theorem types_split_uniquely :
    (∀ (t : FieldType) (rest : List Char), t.WellFormed →
      readFieldType (t.chars ++ rest) = .ok (t, rest)) ∧
    (∀ (text : List Char) (r : Option FieldType) (rest : List Char),
      readReturnType text = .ok (r, rest) ↔
        (∀ t ∈ r, t.WellFormed) ∧ text = MethodDescriptor.returnChars r ++ rest) ∧
    PrefixCode WellFormed chars ∧
    PrefixCode (fun r => ∀ t ∈ r, WellFormed t) MethodDescriptor.returnChars ∧
    (∀ t u : FieldType, t.WellFormed → u.WellFormed → t.chars <+: u.chars → t = u) ∧
    (∀ (types : List FieldType) (text rest : List Char),
      readTypes text = .ok (types, rest) ↔
        (∀ t ∈ types, t.WellFormed) ∧ text = types.flatMap chars ++ rest ∧
          ¬ StartsType rest ∧ ¬ TooDeep rest) := by
  refine ⟨?_, ?_, prefixCode_types, prefixCode_results, ?_, ?_⟩
  · intro t rest ht
    exact readFieldType_eq_ok_iff.2 ⟨ht, rfl⟩
  · intro text r rest
    exact readReturnType_eq_ok_iff
  · intro t u ht hu hfront
    exact prefixCode_types.eq_of_prefix ht hu hfront
  · intro types text rest
    rw [readTypes_eq_ok_iff, endsTypes_iff]

/-- A class name with marks of all kinds in it is read whole, a `V` ends the
parameters and is a result, and a mark with nothing to stand before is
neither. -/
theorem types_split_uniquely_marks_in_name :
    (∀ t ∈ [FieldType.array (.base .long), .object "[J)V"], t.WellFormed) ∧
    readTypes "[JL[J)V;V[".toList =
      .ok ([.array (.base .long), .object "[J)V"], "V[".toList) ∧
    readFieldType "L[J)V;V[".toList = .ok (.object "[J)V", "V[".toList) ∧
    readReturnType "V[".toList = .ok (none, "[".toList) ∧
    ¬ StartsType "V[".toList ∧ ¬ TooDeep "V[".toList := by
  have htypes : ∀ t ∈ [FieldType.array (.base .long), .object "[J)V"], t.WellFormed := by decide
  obtain ⟨hread, hresult, -, -, -, hlist⟩ := types_split_uniquely
  have hends : ¬ StartsType "V[".toList ∧ ¬ TooDeep "V[".toList :=
    endsTypes_iff.1 ⟨.arrayMark, "V[".toList, rfl⟩
  refine ⟨htypes, ?_, ?_, ?_, hends⟩
  · exact (hlist _ _ _).2 ⟨htypes, rfl, hends⟩
  · exact hread (.object "[J)V") _ (htypes _ (by simp))
  · refine (hresult _ none _).2 ⟨?_, rfl⟩
    rintro t ⟨⟩

end MethodArea.Descriptor
