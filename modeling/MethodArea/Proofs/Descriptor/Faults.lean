/-
# `Proofs.Descriptor.Faults` — what stops a reader, and where

A reader that misses something says what and where, and the one that asked
for it may go on with something else: the next alternative is tried, a list
of types ends.  The one fault that nothing goes on after is a run of more
than 255 array marks where a type is read.  It comes out of a descriptor
exactly if such a run stands where a type may stand:

    field, result   at the start of the text
    method          '(' types run …
                    '(' types ')' run …

with well-formed types before it, and the place it names is the run with
all that follows.  It is the one failure, and the one fault of the kind
`tooLarge`.  Every other fault is an error: it says that something is
missing, and names an end of the text (`hard_fault_iff_overrun`).

The list of parameters is what has to be seen through.  Well-formed types in
front of any text are read off whole (`readTypesFrom_flatMap`), so a reader
comes to the run with the list still open, and there it stops as the reader
of one type does.
-/
import MethodArea.Proofs.Descriptor.Grammar

namespace MethodArea.Descriptor

open FieldType

/-! ## Runs of array marks -/

/-- More array marks than a type may have, at the start of a text. -/
def TooDeep (text : List Char) : Prop := List.replicate 256 '[' <+: text

/-- A text has a run of too many array marks where a method descriptor has a
type.  The second text is what there is from the run on. -/
inductive Overrun : List Char → List Char → Prop
  | parameter {types : List FieldType} {place : List Char} :
      (∀ t ∈ types, t.WellFormed) → TooDeep place →
      Overrun ('(' :: (types.flatMap FieldType.chars ++ place)) place
  | result {types : List FieldType} {place : List Char} :
      (∀ t ∈ types, t.WellFormed) → TooDeep place →
      Overrun ('(' :: (types.flatMap FieldType.chars ++ ')' :: place)) place

theorem tooDeep_iff {text : List Char} :
    TooDeep text ↔ maxDimensions < (text.takeWhile (· = '[')).length := by
  constructor
  · rintro ⟨rest, rfl⟩
    have hall : ∀ a ∈ List.replicate 256 '[', decide (a = '[') = true :=
      fun a ha => decide_eq_true (List.eq_of_mem_replicate ha)
    rw [List.takeWhile_append_of_pos hall, List.length_append, List.length_replicate]
    exact Nat.le_add_right _ _
  · intro h
    refine List.IsPrefix.trans ?_ (List.takeWhile_prefix (· = '['))
    rw [takeWhile_arrayMarks, List.prefix_replicate_iff, List.length_replicate]
    exact ⟨h, rfl⟩

/-! ## Failures and errors -/

namespace Fault

/-- A reader that may not go on has met too many array marks. -/
theorem severity_eq_failure_iff {fault : Fault} :
    fault.severity = .failure ↔ fault = .tooManyDimensions fault.place := by
  cases fault with
  | missing what place => simp [severity]
  | tooManyDimensions place => simp [severity, Fault.place]

/-- The failures are the faults of one kind. -/
theorem severity_eq_failure_iff_kind {fault : Fault} :
    fault.severity = .failure ↔ fault.kind = .tooLarge := by
  cases fault with
  | missing what place => cases what <;> simp [kind, severity]
  | tooManyDimensions place => simp [kind, severity]

end Fault

/-! ## What is missing at a type -/

/-- Something is missing, and the place is an end of the text. -/
inductive MissingIn (text : List Char) : Fault → Prop
  | intro {what : Expectation} {place : List Char} : place <:+ text →
      MissingIn text (.missing what place)

theorem MissingIn.mono {text longer : List Char} {fault : Fault} (h : MissingIn text fault)
    (hsuffix : text <:+ longer) : MissingIn longer fault := by
  cases h with
  | intro hplace => exact .intro (hplace.trans hsuffix)

/-- A reader may go on where something is missing. -/
theorem MissingIn.severity_eq {text : List Char} {fault : Fault} (h : MissingIn text fault) :
    fault.severity = .error := by
  cases h with
  | intro _ => rfl

theorem missingIn_of_readObject {text : List Char} {fault : Fault}
    (h : readObject text = .error fault) : MissingIn text fault := by
  unfold readObject at h
  split at h
  · next tail =>
      dsimp only at h
      split at h
      · cases h
        exact .intro (List.suffix_cons 'L' tail)
      · split at h
        · cases h
        · cases h
          exact .intro List.nil_suffix
  · cases h
    exact .intro List.suffix_rfl

theorem missingIn_of_readElement {text : List Char} {fault : Fault}
    (h : readElement text = .error fault) : MissingIn text fault := by
  unfold readElement at h
  split at h
  · cases h
  · exact missingIn_of_readObject h

/-- A reader of a text stops at one of its overruns, or because something is
missing. -/
inductive StopsAt (overruns : List Char → Prop) (text : List Char) : Fault → Prop
  | overrun {place : List Char} : overruns place →
      StopsAt overruns text (.tooManyDimensions place)
  | missing {fault : Fault} : MissingIn text fault → StopsAt overruns text fault

namespace StopsAt

variable {overruns : List Char → Prop} {text : List Char}

theorem of_tooManyDimensions {place : List Char}
    (h : StopsAt overruns text (.tooManyDimensions place)) : overruns place := by
  cases h with
  | overrun hplace => exact hplace
  | missing hmissing => cases hmissing

theorem hard_or_missing {fault : Fault} (h : StopsAt overruns text fault) :
    (∃ place, fault = .tooManyDimensions place) ∨ MissingIn text fault := by
  cases h with
  | @overrun place _ => exact .inl ⟨place, rfl⟩
  | missing hmissing => exact .inr hmissing

end StopsAt

/-- Why no type is read off a text. -/
def TypeFault (text : List Char) : Fault → Prop :=
  StopsAt (fun place => TooDeep text ∧ place = text) text

theorem typeFault_of_readArray {text : List Char} {fault : Fault}
    (h : readArray text = .error fault) : TypeFault text fault := by
  unfold readArray at h
  dsimp only at h
  split at h
  · cases h
    exact .missing (.intro List.suffix_rfl)
  · split at h
    · next hdeep =>
        cases h
        exact .overrun ⟨tooDeep_iff.2 hdeep, rfl⟩
    · split at h
      · cases h
      · next helement =>
          cases h
          exact .missing ((missingIn_of_readElement helement).mono (List.dropWhile_suffix _))

theorem typeFault_of_readFieldType {text : List Char} {fault : Fault}
    (h : readFieldType text = .error fault) : TypeFault text fault := by
  unfold readFieldType at h
  split at h
  · cases h
  · exact typeFault_of_readArray h

theorem typeFault_of_readReturnType {text : List Char} {fault : Fault}
    (h : readReturnType text = .error fault) : TypeFault text fault := by
  unfold readReturnType at h
  split at h
  · cases h
  · next htype =>
      cases h
      exact typeFault_of_readFieldType htype
  · split at h
    · cases h
    · cases h
      exact .missing (.intro List.suffix_rfl)

/-- Too many array marks are no element, and as an array they are too many. -/
theorem readFieldType_of_tooDeep {text : List Char} (h : TooDeep text) :
    readFieldType text = .error (.tooManyDimensions text) := by
  have hmarks := tooDeep_iff.1 h
  obtain ⟨rest, rfl⟩ := h
  rw [readFieldType, List.replicate_succ, List.cons_append, readElement_arrayMark]
  rw [List.replicate_succ, List.cons_append] at hmarks
  simp only [readArray]
  rw [if_neg (Nat.ne_of_gt (Nat.zero_lt_of_lt hmarks)), if_pos hmarks]

theorem readReturnType_of_tooDeep {text : List Char} (h : TooDeep text) :
    readReturnType text = .error (.tooManyDimensions text) := by
  simp only [readReturnType, readFieldType_of_tooDeep h]

/-! ## Lists of types -/

/-- A list of types is not read only if it comes to too many array marks. -/
theorem readTypesFrom_eq_error_iff {done : List FieldType} {text : List Char} {fault : Fault} :
    readTypesFrom done text = .error fault ↔
      ∃ (types : List FieldType) (place : List Char), (∀ t ∈ types, t.WellFormed) ∧ TooDeep place ∧
        text = types.flatMap FieldType.chars ++ place ∧ fault = .tooManyDimensions place := by
  constructor
  · intro h
    induction done, text using readTypesFrom.induct with
    | case1 done text t tail hread ih =>
        rw [readTypesFrom_of_ok hread] at h
        obtain ⟨ht, rfl⟩ := readFieldType_eq_ok_iff.1 hread
        obtain ⟨types, place, htypes, hdeep, rfl, hfault⟩ := ih h
        refine ⟨t :: types, place, List.forall_mem_cons.2 ⟨ht, htypes⟩, hdeep, ?_, hfault⟩
        rw [List.flatMap_cons, List.append_assoc]
    | case2 done text what place hread =>
        rw [readTypesFrom_of_endsTypes ⟨what, place, hread⟩] at h
        cases h
    | case3 done text place hread =>
        rw [readTypesFrom_of_tooManyDimensions hread] at h
        cases h
        obtain ⟨hdeep, rfl⟩ := (typeFault_of_readFieldType hread).of_tooManyDimensions
        exact ⟨[], _, fun _ h => absurd h List.not_mem_nil, hdeep, rfl, rfl⟩
  · rintro ⟨types, place, htypes, hdeep, rfl, rfl⟩
    rw [readTypesFrom_flatMap htypes]
    exact readTypesFrom_of_tooManyDimensions (readFieldType_of_tooDeep hdeep)

/-! ## Whole descriptors -/

theorem missingIn_of_readMark {c : Char} {text : List Char} {fault : Fault}
    (h : readMark c text = .error fault) : MissingIn text fault := by
  cases text with
  | nil =>
      cases h
      exact .intro List.suffix_rfl
  | cons d rest =>
      rw [readMark] at h
      split at h
      · cases h
      · cases h
        exact .intro List.suffix_rfl

theorem missingIn_of_atEnd {α : Type} {a : α} {text : List Char} {fault : Fault}
    (h : atEnd (a, text) = .error fault) : MissingIn text fault := by
  cases text with
  | nil => cases h
  | cons _ _ =>
      cases h
      exact .intro List.suffix_rfl

/-- Why a text is not read as a method descriptor. -/
def MethodFault (text : List Char) : Fault → Prop := StopsAt (Overrun text) text

theorem methodFault_of_readMethod {text : List Char} {fault : Fault}
    (h : readMethod text = .error fault) : MethodFault text fault := by
  rcases Except.bind_eq_error_iff.1 h with hmark | ⟨⟨_, afterOpen⟩, hopen, htypes⟩
  · exact .missing (missingIn_of_readMark hmark)
  obtain rfl := readMark_eq_ok_iff.1 hopen
  rcases Except.bind_eq_error_iff.1 htypes with hfault | ⟨⟨types, afterTypes⟩, hread, hclose⟩
  · obtain ⟨types, place, hwf, hdeep, rfl, rfl⟩ := readTypesFrom_eq_error_iff.1 hfault
    exact .overrun (.parameter hwf hdeep)
  obtain ⟨hwf, rfl, -⟩ := readTypes_eq_ok_iff.1 hread
  have hopened : afterTypes <:+ '(' :: (types.flatMap FieldType.chars ++ afterTypes) :=
    List.suffix_cons_append
  rcases Except.bind_eq_error_iff.1 hclose with hmark | ⟨⟨_, afterClose⟩, hclosed, hresult⟩
  · exact .missing ((missingIn_of_readMark hmark).mono hopened)
  obtain rfl := readMark_eq_ok_iff.1 hclosed
  have hbehind := (List.suffix_cons ')' afterClose).trans hopened
  rcases Except.bind_eq_error_iff.1 hresult with hfault | ⟨⟨result, afterResult⟩, hread', hend⟩
  · cases typeFault_of_readReturnType hfault with
    | overrun hdeep =>
        obtain ⟨hdeep, rfl⟩ := hdeep
        exact .overrun (.result hwf hdeep)
    | missing hmissing => exact .missing (hmissing.mono hbehind)
  obtain ⟨-, rfl⟩ := readReturnType_eq_ok_iff.1 hread'
  exact .missing ((missingIn_of_atEnd hend).mono ((List.suffix_append _ _).trans hbehind))

theorem readMark_self (c : Char) (rest : List Char) : readMark c (c :: rest) = .ok ((), rest) :=
  readMark_eq_ok_iff.2 rfl

theorem readMethod_of_overrun {text place : List Char} (h : Overrun text place) :
    readMethod text = .error (.tooManyDimensions place) := by
  cases h with
  | @parameter types place hwf hdeep =>
      have htypes : readTypes (types.flatMap FieldType.chars ++ place) =
          .error (.tooManyDimensions place) :=
        readTypesFrom_eq_error_iff.2 ⟨types, place, hwf, hdeep, rfl, rfl⟩
      simp only [readMethod, readMark_self, Except.ok_bind, htypes]
      rfl
  | @result types place hwf hdeep =>
      have htypes : readTypes (types.flatMap FieldType.chars ++ ')' :: place) =
          .ok (types, ')' :: place) :=
        readTypes_eq_ok_iff.2 ⟨hwf, rfl, endsTypes_close place⟩
      simp only [readMethod, readMark_self, Except.ok_bind, htypes,
        readReturnType_of_tooDeep hdeep]
      rfl

theorem readField_of_tooDeep {text : List Char} (h : TooDeep text) :
    readField text = .error (.tooManyDimensions text) :=
  Except.bind_eq_error_iff.2 (.inl (readFieldType_of_tooDeep h))

theorem typeFault_of_readField {text : List Char} {fault : Fault}
    (h : readField text = .error fault) : TypeFault text fault := by
  rcases Except.bind_eq_error_iff.1 h with hfault | ⟨⟨t, rest⟩, hread, hend⟩
  · exact typeFault_of_readFieldType hfault
  · obtain ⟨-, rfl⟩ := readFieldType_eq_ok_iff.1 hread
    exact .missing ((missingIn_of_atEnd hend).mono (List.suffix_append _ _))

/-- A fault of any of the three readers of whole texts. -/
def FaultOf (text : List Char) (fault : Fault) : Prop :=
  readField text = .error fault ∨ readReturnType text = .error fault ∨
    readMethod text = .error fault

theorem FaultOf.hard_or_missing {text : List Char} {fault : Fault} (h : FaultOf text fault) :
    (∃ place, fault = .tooManyDimensions place) ∨ MissingIn text fault := by
  rcases h with h | h | h
  · exact (typeFault_of_readField h).hard_or_missing
  · exact (typeFault_of_readReturnType h).hard_or_missing
  · exact (methodFault_of_readMethod h).hard_or_missing

/-- Too many array marks where a type may stand are the one fault that nothing
goes on after: they are reported where they start, whatever is before them
or behind them, and nothing else is reported so.  Every other fault is
something that is missing at an end of the text.  So the failures are the
faults of the kind `tooLarge`, and all others are errors. -/
theorem hard_fault_iff_overrun (text : List Char) :
    (∀ place, readField text = .error (.tooManyDimensions place) ↔
      TooDeep text ∧ place = text) ∧
    (∀ place, readReturnType text = .error (.tooManyDimensions place) ↔
      TooDeep text ∧ place = text) ∧
    (∀ place, readMethod text = .error (.tooManyDimensions place) ↔ Overrun text place) ∧
    (∀ fault, FaultOf text fault →
      (∃ place, fault = .tooManyDimensions place) ∨ MissingIn text fault) ∧
    (∀ fault, FaultOf text fault →
      (fault.severity = .failure ↔ fault = .tooManyDimensions fault.place) ∧
      (fault.severity = .failure ↔ fault.kind = .tooLarge) ∧
      (fault.severity = .error ↔ MissingIn text fault)) := by
  refine ⟨fun place => ⟨?_, ?_⟩, fun place => ⟨?_, ?_⟩, fun place => ⟨?_, ?_⟩, ?_, ?_⟩
  · exact fun h => (typeFault_of_readField h).of_tooManyDimensions
  · rintro ⟨hdeep, rfl⟩
    exact readField_of_tooDeep hdeep
  · exact fun h => (typeFault_of_readReturnType h).of_tooManyDimensions
  · rintro ⟨hdeep, rfl⟩
    exact readReturnType_of_tooDeep hdeep
  · exact fun h => (methodFault_of_readMethod h).of_tooManyDimensions
  · exact readMethod_of_overrun
  · exact fun fault h => h.hard_or_missing
  · intro fault h
    refine ⟨Fault.severity_eq_failure_iff, Fault.severity_eq_failure_iff_kind, ?_,
      MissingIn.severity_eq⟩
    intro herror
    rcases h.hard_or_missing with ⟨place, rfl⟩ | hmissing
    · cases herror
    · exact hmissing

/-- The third parameter has 300 levels; the text is right up to there, and it
does not help that it is right again after that.  Where nothing follows the
parameters, a parenthesis is missing at the end of the text. -/
theorem hard_fault_iff_overrun_third_parameter :
    readMethod ("(J[LA;".toList ++ (List.replicate 300 '[' ++ "I)V".toList)) =
      .error (.tooManyDimensions (List.replicate 300 '[' ++ "I)V".toList)) ∧
    readMethod "(J".toList = .error (.missing (.mark ')') []) ∧
    MissingIn "(J".toList (.missing (.mark ')') []) := by
  have htypes : ∀ t ∈ [FieldType.base .long, .array (.object "A")], t.WellFormed := by decide
  have hdeep : TooDeep (List.replicate 300 '[' ++ "I)V".toList) :=
    ⟨List.replicate 44 '[' ++ "I)V".toList, by
      rw [← List.append_assoc, List.replicate_append_replicate]⟩
  have hclose : readMethod "(J".toList = .error (.missing (.mark ')') []) := by cbv
  obtain ⟨-, -, -, -, hnames⟩ := hard_fault_iff_overrun "(J".toList
  have hmissing := (hnames _ (.inr (.inr hclose))).2.2.1 rfl
  exact ⟨((hard_fault_iff_overrun _).2.2.1 _).2 (.parameter htypes hdeep), hclose, hmissing⟩

end MethodArea.Descriptor
