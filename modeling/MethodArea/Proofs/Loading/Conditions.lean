/-
# `Proofs.Loading.Conditions` — which class files are valid

What is asked of a class file, in the order in which it is asked:

    pool        text entries are text, then name indices lead to text
    class       `thisClass` is a class entry
    field       its attributes, one after the other;
                its name and its descriptor are text entries;
                the descriptor is the text of a field type
    method      the same, with the text of a method descriptor;
                then attribute by attribute once more:
                  the rows of code apply to it, the exceptions are classes;
                then it has code unless it is bodiless, and none if it is
    attribute   its name is a text entry, its payload has the layout that
                goes with the name; then what the payload holds: the
                attributes inside code, the text of a signature

Fields come before methods, each list in order, and everything about one
entry comes before the next one.

`ClassFile.conditions` is this list, each condition with the error that
reports it.  `ClassFile.Valid` says that all of them hold, without the
order and in the words of the layouts and the grammar of descriptors;
`valid_iff` is the equivalence.
-/
import Mathlib
import MethodArea.Method.Loading
import MethodArea.Proofs.Attribute.Decoding
import MethodArea.Proofs.ConstantPool.Acceptance
import MethodArea.Proofs.Descriptor.Grammar

namespace MethodArea

open Attribute ConstantPool Descriptor

section Conditions
variable (raw : List RawConstant)

/-- The text at an index; the empty one where there is none. -/
def textOf (index : UInt16) : String := (text? raw index).getD ""

/-! ## Attributes -/

namespace AttributeInfo

/-- The text entry that an attribute names is a given one. -/
def Named (a : AttributeInfo) (name : String) : Prop := text? raw a.nameIndex = some name

/-- The recognised name of an attribute. -/
def known? (a : AttributeInfo) : Option AttributeName :=
  (text? raw a.nameIndex).bind AttributeName.ofText?

/-- A payload has to have a layout. -/
def layoutRequired {α : Type} (layout : Layout α) (name : AttributeName) (info : List UInt8) :
    Condition :=
  ⟨∃ value, layout value info, .malformedAttribute name.text .layout⟩

/-- What is asked of an attribute. -/
def conditions (a : AttributeInfo) : List Condition :=
  textRequired raw a.nameIndex ::
    match a.known? raw with
    | some .code =>
      layoutRequired Layout.Code .code a.info ::
        match _ : codeFrame? a.info with
        | none => []
        | some frame => frame.attributes.attach.flatMap (fun ⟨b, _⟩ => b.conditions)
    | some .lineNumberTable =>
      [layoutRequired (Layout.Listed Layout.Line) .lineNumberTable a.info]
    | some .exceptions => [layoutRequired (Layout.Listed Layout.U2) .exceptions a.info]
    | some .signature =>
      layoutRequired Layout.U2 .signature a.info ::
        (whole? readU2 a.info).toList.map (textRequired raw)
    | some .constantValue => [layoutRequired Layout.U2 .constantValue a.info]
    | _ => []
termination_by a.info.length
decreasing_by exact info_length_lt_of_codeFrame? ‹_› _ ‹_›

/-- What is asked of a row of code in a given position: what it catches is
a class, and it applies to the code. -/
def rowConditions (method : MethodRef) (codeLength position : Nat) (row : HandlerRow) :
    List Condition :=
  let because : HandlerDefect → Error := .malformedExceptionTable method position
  [⟨row.catchType = 0 ∨ IsClass raw row.catchType, because (.catchTypeNotClass row.catchType)⟩,
    ⟨row.startPc < row.endPc, because (.emptyRange row.startPc row.endPc)⟩,
    ⟨row.endPc.toNat ≤ codeLength, because (.endBeyondCode row.endPc codeLength)⟩,
    ⟨row.handlerPc.toNat < codeLength, because (.handlerBeyondCode row.handlerPc codeLength)⟩]

/-- What is asked of an attribute when it takes effect on a method. -/
def effectConditions (method : MethodRef) (a : AttributeInfo) : List Condition :=
  match a.known? raw with
  | some .code =>
    (codeFrame? a.info).toList.flatMap (fun frame => frame.handlers.zipIdx.flatMap
      (fun (row, i) => rowConditions raw method frame.code.length i row))
  | some .exceptions =>
    (whole? (readList readU2) a.info).toList.flatMap (fun indices =>
      indices.map (classRequired raw))
  | _ => []

/-- An attribute that decodes. -/
inductive Valid : AttributeInfo → Prop
  | code {a : AttributeInfo} {frame : CodeFrame} : a.Named raw "Code" →
      Layout.Code frame a.info → (∀ b ∈ frame.attributes, Valid b) → Valid a
  | lineNumberTable {a : AttributeInfo} {rows : List LineRow} : a.Named raw "LineNumberTable" →
      Layout.Listed Layout.Line rows a.info → Valid a
  | exceptions {a : AttributeInfo} {indices : List UInt16} : a.Named raw "Exceptions" →
      Layout.Listed Layout.U2 indices a.info → Valid a
  | signature {a : AttributeInfo} {index : UInt16} : a.Named raw "Signature" →
      Layout.U2 index a.info → IsText raw index → Valid a
  | constantValue {a : AttributeInfo} {index : UInt16} : a.Named raw "ConstantValue" →
      Layout.U2 index a.info → Valid a
  | other {a : AttributeInfo} {name : String} : a.Named raw name →
      name ∉ ["Code", "LineNumberTable", "Exceptions", "Signature", "ConstantValue"] → Valid a

end AttributeInfo

/-! ## Fields and methods -/

namespace MemberInfo

/-- What is asked of a field and of a method: of its attributes, its name
and its descriptor, which is a text of some grammar. -/
def conditions (grammar : List Char → Prop) (info : MemberInfo) : List Condition :=
  info.attributes.flatMap (AttributeInfo.conditions raw) ++
    [textRequired raw info.nameIndex, textRequired raw info.descriptorIndex,
      ⟨grammar (textOf raw info.descriptorIndex).toList,
        .malformedDescriptor (textOf raw info.descriptorIndex)⟩]

/-- A method that goes without code. -/
def Bodiless (info : MemberInfo) : Prop :=
  (info.flags.has AccessFlags.accNative ∨ info.flags.has AccessFlags.accAbstract) ∧
    textOf raw info.nameIndex ≠ "<clinit>"

/-- A method that has code. -/
def HasCode (info : MemberInfo) : Prop := ∃ a ∈ info.attributes, a.Named raw "Code"

/-- A method by name, in a class that is an entry of the pool. -/
def methodRef (thisClass : UInt16) (info : MemberInfo) : MethodRef where
  className := (className? raw thisClass).getD ""
  name := textOf raw info.nameIndex
  descriptor := textOf raw info.descriptorIndex

/-- Code is there exactly where it should be. -/
def codeConditions (method : MethodRef) (info : MemberInfo) : List Condition :=
  [⟨info.Bodiless raw → ¬ info.HasCode raw,
      .malformedAttribute "Code" (.unexpectedCode method)⟩,
    ⟨¬ info.Bodiless raw → info.HasCode raw,
      .malformedAttribute "Code" (.missingCode method)⟩]

/-- What is asked of a method of a class. -/
def methodConditions (thisClass : UInt16) (info : MemberInfo) : List Condition :=
  info.conditions raw MethodText ++
    (info.attributes.flatMap
        (AttributeInfo.effectConditions raw (info.methodRef raw thisClass)) ++
      info.codeConditions raw (info.methodRef raw thisClass))

/-- A field or method with attributes, name and descriptor as they should
be. -/
structure Valid (grammar : List Char → Prop) (info : MemberInfo) : Prop where
  attributes : ∀ a ∈ info.attributes, a.Valid raw
  name : IsText raw info.nameIndex
  descriptor : ∃ text, text? raw info.descriptorIndex = some text ∧ grammar text.toList

/-- A row that applies to code of a given length. -/
structure RowFits (codeLength : Nat) (row : HandlerRow) : Prop where
  catchType : row.catchType = 0 ∨ IsClass raw row.catchType
  range : row.startPc < row.endPc
  endPc : row.endPc.toNat ≤ codeLength
  handlerPc : row.handlerPc.toNat < codeLength

/-- A method that is as it should be. -/
structure ValidMethod (info : MemberInfo) : Prop extends Valid raw MethodText info where
  rows : ∀ a ∈ info.attributes, a.Named raw "Code" → ∀ frame, Layout.Code frame a.info →
    ∀ row ∈ frame.handlers, RowFits raw frame.code.length row
  exceptions : ∀ a ∈ info.attributes, a.Named raw "Exceptions" →
    ∀ indices, Layout.Listed Layout.U2 indices a.info → ∀ index ∈ indices, IsClass raw index
  code : info.HasCode raw ↔ ¬ info.Bodiless raw

end MemberInfo

end Conditions

/-! ## Class files -/

namespace ClassFile

/-- What is asked of a class file. -/
def conditions (file : ClassFile) : List Condition :=
  ConstantPool.conditions file.constants ++
    (classRequired file.constants file.thisClass ::
      (file.fields.flatMap (MemberInfo.conditions file.constants TypeText) ++
        file.methods.flatMap (MemberInfo.methodConditions file.constants file.thisClass)))

/-- A class file that is as it should be. -/
structure Valid (file : ClassFile) : Prop where
  texts : ∀ bytes, .utf8 bytes ∈ file.constants →
    ∃ text, bytes = Text.ModifiedUtf8.encode text
  names : ∀ c ∈ file.constants, ∀ n, nameIndex? c = some n → IsText file.constants n
  thisClass : IsClass file.constants file.thisClass
  fields : ∀ info ∈ file.fields, info.Valid file.constants TypeText
  methods : ∀ info ∈ file.methods, info.ValidMethod file.constants

end ClassFile

/-! ## All conditions hold exactly for what is valid -/

section Valid
variable {raw : List RawConstant}

theorem textOf_eq {index : UInt16} {text : String} (h : text? raw index = some text) :
    textOf raw index = text := by
  rw [textOf, h, Option.getD_some]

namespace AttributeInfo

theorem known?_eq_some_iff {a : AttributeInfo} (name : AttributeName) :
    a.known? raw = some name ↔ a.Named raw name.text := by
  rw [known?, Named, Option.bind_eq_some_iff]
  constructor
  · rintro ⟨text, htext, hname⟩
    rw [htext, AttributeName.ofText?_eq_some_iff.1 hname]
  · intro h
    exact ⟨name.text, h, AttributeName.ofText?_text name⟩

/-- The conditions of code, without the bound that the recursion needs. -/
theorem conditions_code {a : AttributeInfo} (h : a.known? raw = some .code) :
    a.conditions raw =
      textRequired raw a.nameIndex :: layoutRequired Layout.Code .code a.info ::
        (codeFrame? a.info).toList.flatMap
          (fun frame => frame.attributes.flatMap (conditions raw)) := by
  rw [conditions, h]
  dsimp only
  split
  · next hframe =>
      rw [hframe]
      rfl
  · next frame hframe =>
      rw [hframe, Option.toList_some, List.flatMap_singleton,
        List.flatMap_subtype (g := conditions raw) (fun _ _ => rfl), List.unattach_attach]

/-- Attributes whose conditions hold decode; inside code the induction is on
the length of the payload. -/
theorem valid_of_allHold {a : AttributeInfo} (h : AllHold (a.conditions raw)) : a.Valid raw := by
  obtain ⟨name, hname⟩ : IsText raw a.nameIndex := by
    rw [conditions] at h
    exact (allHold_cons.1 h).1
  cases hk : a.known? raw with
  | none =>
      have hnone : AttributeName.ofText? name = none := by
        rwa [known?, hname, Option.bind_some] at hk
      have hne : ∀ known : AttributeName, name ≠ known.text := by
        rintro known rfl
        rw [AttributeName.ofText?_text] at hnone
        cases hnone
      refine .other hname fun hmem => ?_
      simp only [List.mem_cons, List.not_mem_nil, or_false] at hmem
      rcases hmem with h | h | h | h | h
      · exact hne .code h
      · exact hne .lineNumberTable h
      · exact hne .exceptions h
      · exact hne .signature h
      · exact hne .constantValue h
  | some known =>
      have hnamed := (known?_eq_some_iff known).1 hk
      cases known with
      | code =>
          rw [conditions_code hk, allHold_cons, allHold_cons, allHold_flatMap] at h
          obtain ⟨-, ⟨frame, hframe⟩, hnested⟩ := h
          have hread := codeFrame?_eq_some_iff.2 hframe
          have hnested := allHold_flatMap.1 (hnested frame (Option.mem_toList.2 hread))
          exact .code hnamed hframe fun b hb => valid_of_allHold (hnested b hb)
      | lineNumberTable =>
          rw [conditions, hk, allHold_cons, allHold_cons] at h
          obtain ⟨-, ⟨rows, hrows⟩, -⟩ := h
          exact .lineNumberTable hnamed hrows
      | exceptions =>
          rw [conditions, hk, allHold_cons, allHold_cons] at h
          obtain ⟨-, ⟨indices, hindices⟩, -⟩ := h
          exact .exceptions hnamed hindices
      | signature =>
          rw [conditions, hk, allHold_cons, allHold_cons, allHold_map] at h
          obtain ⟨-, ⟨index, hindex⟩, htext⟩ := h
          have htext := htext index (Option.mem_toList.2 (reads_u2.whole.2 hindex))
          exact .signature hnamed hindex htext
      | constantValue =>
          rw [conditions, hk, allHold_cons, allHold_cons] at h
          obtain ⟨-, ⟨index, hindex⟩, -⟩ := h
          exact .constantValue hnamed hindex
      | annotations | parameterAnnotations | annotationDefault =>
          exact .other hnamed (by decide)
termination_by a.info.length
decreasing_by exact info_length_lt_of_codeFrame? hread _ hb

theorem Valid.allHold {a : AttributeInfo} (h : a.Valid raw) : AllHold (a.conditions raw) := by
  induction h with
  | @code a frame hname hframe _ ih =>
      have hread := codeFrame?_eq_some_iff.2 hframe
      rw [conditions_code ((known?_eq_some_iff .code).2 hname), allHold_cons, allHold_cons, hread,
        Option.toList_some, List.flatMap_singleton, allHold_flatMap]
      exact ⟨⟨"Code", hname⟩, ⟨frame, hframe⟩, ih⟩
  | @lineNumberTable a rows hname hrows =>
      rw [conditions, (known?_eq_some_iff .lineNumberTable).2 hname]
      simp only [allHold_cons, allHold_nil, and_true]
      exact ⟨⟨_, hname⟩, rows, hrows⟩
  | @exceptions a indices hname hindices =>
      rw [conditions, (known?_eq_some_iff .exceptions).2 hname]
      simp only [allHold_cons, allHold_nil, and_true]
      exact ⟨⟨_, hname⟩, indices, hindices⟩
  | @signature a index hname hindex htext =>
      rw [conditions, (known?_eq_some_iff .signature).2 hname, reads_u2.whole.2 hindex]
      simp only [allHold_cons, Option.toList_some, List.map_cons, List.map_nil, allHold_nil,
        and_true]
      exact ⟨⟨_, hname⟩, ⟨index, hindex⟩, htext⟩
  | @constantValue a index hname hindex =>
      rw [conditions, (known?_eq_some_iff .constantValue).2 hname]
      simp only [allHold_cons, allHold_nil, and_true]
      exact ⟨⟨_, hname⟩, index, hindex⟩
  | @other a name hname hother =>
      rw [conditions, allHold_cons]
      refine ⟨⟨name, hname⟩, ?_⟩
      cases hk : a.known? raw with
      | none => exact allHold_nil
      | some known =>
          obtain rfl : name = known.text :=
            Option.some.inj (hname.symm.trans ((known?_eq_some_iff _).1 hk))
          cases known with
          | annotations | parameterAnnotations | annotationDefault => exact allHold_nil
          | code | lineNumberTable | exceptions | signature | constantValue =>
              exact absurd (by decide) hother

theorem allHold_conditions_iff {a : AttributeInfo} :
    AllHold (a.conditions raw) ↔ a.Valid raw :=
  ⟨valid_of_allHold, Valid.allHold⟩

/-- The rows of code apply to it. -/
theorem allHold_rowConditions_iff {method : MethodRef} {codeLength position : Nat}
    {row : HandlerRow} :
    AllHold (rowConditions raw method codeLength position row) ↔
      MemberInfo.RowFits raw codeLength row := by
  simp only [rowConditions, allHold_cons, allHold_nil, and_true]
  constructor
  · rintro ⟨h₁, h₂, h₃, h₄⟩
    exact ⟨h₁, h₂, h₃, h₄⟩
  · rintro ⟨h₁, h₂, h₃, h₄⟩
    exact ⟨h₁, h₂, h₃, h₄⟩

/-- An attribute takes effect if the rows of its code apply to it, or if
the exceptions that it lists are classes. -/
theorem allHold_effectConditions_iff {method : MethodRef} {a : AttributeInfo} :
    AllHold (effectConditions raw method a) ↔
      (a.Named raw "Code" → ∀ frame, Layout.Code frame a.info →
        ∀ row ∈ frame.handlers, MemberInfo.RowFits raw frame.code.length row) ∧
      (a.Named raw "Exceptions" → ∀ indices, Layout.Listed Layout.U2 indices a.info →
        ∀ index ∈ indices, IsClass raw index) := by
  have hcode : a.Named raw "Code" ↔ a.known? raw = some .code :=
    (known?_eq_some_iff .code).symm
  have hexceptions : a.Named raw "Exceptions" ↔ a.known? raw = some .exceptions :=
    (known?_eq_some_iff .exceptions).symm
  rw [hcode, hexceptions, effectConditions]
  have hrows : ∀ frame : CodeFrame,
      AllHold (frame.handlers.zipIdx.flatMap
        (fun (row, i) => rowConditions raw method frame.code.length i row)) ↔
      ∀ row ∈ frame.handlers, MemberInfo.RowFits raw frame.code.length row := by
    intro frame
    rw [allHold_flatMap]
    constructor
    · intro h row hmem
      obtain ⟨i, hi⟩ := List.mem_iff_getElem?.1 hmem
      exact allHold_rowConditions_iff.1 (h (row, i) (List.mk_mem_zipIdx_iff_getElem?.2 hi))
    · rintro h ⟨row, i⟩ hmem
      exact allHold_rowConditions_iff.2 (h row (List.fst_mem_of_mem_zipIdx hmem))
  split
  · next hk =>
      rw [allHold_flatMap]
      simp only [hrows, Option.mem_toList, codeFrame?_eq_some_iff]
      have hother : a.known? raw ≠ some .exceptions := by simp [hk]
      exact ⟨fun h => ⟨fun _ => h, fun h' => absurd h' hother⟩, fun h => h.1 hk⟩
  · next hk =>
      rw [allHold_flatMap]
      simp only [allHold_map, Option.mem_toList, (reads_listed reads_u2).whole]
      have hother : a.known? raw ≠ some .code := by simp [hk]
      exact ⟨fun h => ⟨fun h' => absurd h' hother, fun _ => h⟩, fun h => h.2 hk⟩
  · next hk₁ hk₂ =>
      exact ⟨fun _ => ⟨fun h => absurd h hk₁, fun h => absurd h hk₂⟩, fun _ => allHold_nil⟩

end AttributeInfo

namespace MemberInfo

theorem allHold_conditions_iff {grammar : List Char → Prop} {info : MemberInfo} :
    AllHold (info.conditions raw grammar) ↔ info.Valid raw grammar := by
  simp only [conditions, allHold_append, allHold_flatMap, allHold_cons, allHold_nil, and_true,
    AttributeInfo.allHold_conditions_iff]
  constructor
  · rintro ⟨hattributes, hname, ⟨descriptor, hdescriptor⟩, hgrammar⟩
    rw [textOf_eq hdescriptor] at hgrammar
    exact ⟨hattributes, hname, descriptor, hdescriptor, hgrammar⟩
  · rintro ⟨hattributes, hname, descriptor, hdescriptor, hgrammar⟩
    refine ⟨hattributes, hname, ⟨descriptor, hdescriptor⟩, ?_⟩
    rwa [textOf_eq hdescriptor]

theorem allHold_methodConditions_iff {thisClass : UInt16} {info : MemberInfo} :
    AllHold (info.methodConditions raw thisClass) ↔ info.ValidMethod raw := by
  simp only [methodConditions, codeConditions, allHold_append, allHold_flatMap, allHold_cons,
    allHold_nil, and_true, allHold_conditions_iff, AttributeInfo.allHold_effectConditions_iff]
  constructor
  · rintro ⟨hvalid, heffects, hnone, hsome⟩
    refine ⟨hvalid, fun a ha => (heffects a ha).1, fun a ha => (heffects a ha).2, ?_⟩
    exact ⟨fun hcode hbodiless => hnone hbodiless hcode, hsome⟩
  · rintro ⟨hvalid, hrows, hexceptions, hcode⟩
    refine ⟨hvalid, fun a ha => ⟨hrows a ha, hexceptions a ha⟩, ?_, hcode.2⟩
    exact fun hbodiless hhas => hcode.1 hhas hbodiless

end MemberInfo

end Valid

/-- A class file is valid if all of its conditions hold. -/
theorem ClassFile.valid_iff {file : ClassFile} : file.Valid ↔ AllHold file.conditions := by
  simp only [conditions, ConstantPool.conditions, allHold_append, allHold_cons, allHold_flatMap,
    allHold_allTextConditions_iff, allHold_allNameConditions_iff,
    MemberInfo.allHold_conditions_iff, MemberInfo.allHold_methodConditions_iff]
  constructor
  · rintro ⟨htexts, hnames, hclass, hfields, hmethods⟩
    exact ⟨⟨htexts, hnames⟩, hclass, hfields, hmethods⟩
  · rintro ⟨⟨htexts, hnames⟩, hclass, hfields, hmethods⟩
    exact ⟨htexts, hnames, hclass, hfields, hmethods⟩

end MethodArea
