/-
# `Proofs.Attribute.Decoding` — decoding inverts the layout of attributes

What is asked of the payload of an attribute depends on its name:

    Code                                 the frame of a code array
    LineNumberTable                      listed rows of two u2
    Exceptions                           listed u2
    Signature, ConstantValue             one u2
    the three kinds of annotations       nothing, it is kept as it is
    any other name                       nothing, it is not looked at

`decode_inverts_layout` says so for every pool, every attribute whose name
is a text entry and every payload.  A payload that is laid out as asked is
decoded to the value that it is written from, and any other one is answered
by an error that names the attribute; there is no third case.  The
attributes inside a frame are decoded in order by the same rules, and the
first that fails is the answer.
-/
import Mathlib
import MethodArea.Attribute.Decoding
import MethodArea.Proofs.Attribute.Layout
import MethodArea.Proofs.Outcome

namespace MethodArea

/-! ## Names -/

theorem AttributeName.ofText?_text (name : AttributeName) : ofText? name.text = some name := by
  cases name with
  | code | lineNumberTable | exceptions | signature | constantValue | annotations
  | parameterAnnotations | annotationDefault => rfl

theorem AttributeName.ofText?_eq_some_iff {text : String} {name : AttributeName} :
    ofText? text = some name ↔ text = name.text := by
  constructor
  · intro h
    have hfound := List.find?_some h
    exact (of_decide_eq_true hfound).symm
  · rintro rfl
    exact ofText?_text name

/-- A text that is none of the recognised names. -/
theorem AttributeName.ofText?_eq_none {text : String}
    (h : ∀ name : AttributeName, text ≠ name.text) : ofText? text = none := by
  refine Option.eq_none_iff_forall_ne_some.2 fun name hname => ?_
  exact h name (ofText?_eq_some_iff.1 hname)

namespace Attribute

/-! ## Attributes in order -/

theorem decodeAll_eq_ok_iff {pool : ConstantPool} {infos : List AttributeInfo}
    {attributes : List Attribute} :
    decodeAll pool infos = .ok attributes ↔ infos.map (decode pool) = attributes.map .ok :=
  Except.mapM_eq_ok_iff

theorem decodeAll_eq_error_iff {pool : ConstantPool} {infos : List AttributeInfo} {e : Error} :
    decodeAll pool infos = .error e ↔
      ∃ before a after, infos = before ++ a :: after ∧
        (∀ b ∈ before, ∃ d, decode pool b = .ok d) ∧ decode pool a = .error e :=
  Except.mapM_eq_error_iff

/-! ## A payload of one layout -/

/-- An answer inverts a layout: the payload that a value is written as is
answered by what `make` makes of that value, and any other one by an error
with the name of the attribute. -/
structure Inverts {α : Type} (layout : Layout α) (write : α → List UInt8) (fits : α → Prop)
    (name : String) (info : List UInt8) (make : α → Except Error Attribute)
    (answer : Except Error Attribute) : Prop where
  written : ∀ value, layout value info ↔ fits value ∧ info = write value
  laidOut : ∀ value, layout value info → answer = make value
  other : (∀ value, ¬ layout value info) → answer = .error (.malformedAttribute name .layout)

theorem inverts_of_reads {α : Type} {read : ByteReader α} {layout : Layout α}
    {write : α → List UInt8} {fits : α → Prop} (hread : Reads read layout)
    (hwrite : Writes write fits layout) {name : String} {info : List UInt8}
    {make : α → Except Error Attribute} {answer : Except Error Attribute}
    (h : answer = orMalformed name (whole? read info) >>= make) :
    Inverts layout write fits name info make answer where
  written value := hwrite value info
  laidOut value hvalue := by
    rw [h, hread.whole.2 hvalue]
    rfl
  other hnone := by
    have hwhole : whole? read info = none := by
      refine Option.eq_none_iff_forall_ne_some.2 fun value hvalue => ?_
      exact hnone value (hread.whole.1 hvalue)
    rw [h, hwhole]
    rfl

/-- Two bytes, whatever they are, are one 16-bit number. -/
theorem exists_u2_iff {bytes : List UInt8} : (∃ n, Layout.U2 n bytes) ↔ bytes.length = 2 := by
  constructor
  · rintro ⟨n, ⟨_⟩⟩
    rfl
  · intro h
    obtain ⟨a, b, rfl⟩ := List.length_eq_two.1 h
    obtain ⟨front, hfront, heq⟩ := (reads_u2 [a, b] (.ofNat (a.toNat * 0x100 + b.toNat)) []).1 rfl
    rw [heq, List.append_nil]
    exact ⟨_, hfront⟩

/-- The attribute of a frame, once the attributes inside it are decoded. -/
def ofFrame (f : CodeFrame) (nested : List Attribute) : Attribute :=
  .code ⟨f.maxStack, f.maxLocals, f.code, f.handlers, nested⟩

/-- Decoding inverts the layout that goes with the name of an attribute. -/
theorem decode_inverts_layout {pool : ConstantPool} {a : AttributeInfo} {name : String}
    (hname : pool.utf8 a.nameIndex = .ok name) :
    (name = "Code" →
      Inverts Layout.Code writeCodeFrame CodeFrame.Fits name a.info
        (fun frame => ofFrame frame <$> decodeAll pool frame.attributes) (decode pool a)) ∧
    (∀ infos attributes, decodeAll pool infos = .ok attributes ↔
      infos.map (decode pool) = attributes.map .ok) ∧
    (∀ infos e, decodeAll pool infos = .error e ↔
      ∃ before b after, infos = before ++ b :: after ∧
        (∀ c ∈ before, ∃ d, decode pool c = .ok d) ∧ decode pool b = .error e) ∧
    (name = "LineNumberTable" →
      Inverts (Layout.Listed Layout.Line) (writeList writeLineRow) (·.length < 0x10000) name a.info
        (fun rows => .ok (.lineNumberTable rows)) (decode pool a)) ∧
    (name = "Exceptions" →
      Inverts (Layout.Listed Layout.U2) (writeList writeU2) (·.length < 0x10000) name a.info
        (fun indices => .ok (.exceptions indices)) (decode pool a)) ∧
    (name = "Signature" →
      Inverts Layout.U2 writeU2 Always name a.info
        (fun index => .signature <$> pool.utf8 index) (decode pool a)) ∧
    (name = "ConstantValue" →
      Inverts Layout.U2 writeU2 Always name a.info
        (fun index => .ok (.constantValue index)) (decode pool a)) ∧
    ((∃ index, Layout.U2 index a.info) ↔ a.info.length = 2) ∧
    (name = "RuntimeVisibleAnnotations" → decode pool a = .ok (.annotations a.info)) ∧
    (name = "RuntimeVisibleParameterAnnotations" →
      decode pool a = .ok (.parameterAnnotations a.info)) ∧
    (name = "AnnotationDefault" → decode pool a = .ok (.annotationDefault a.info)) ∧
    ((∀ known : AttributeName, name ≠ known.text) → decode pool a = .ok .unknown) := by
  have hknown : ∀ known : AttributeName, name = known.text →
      AttributeName.ofText? name = some known := by
    rintro known rfl
    exact AttributeName.ofText?_text known
  refine ⟨?_, fun _ _ => decodeAll_eq_ok_iff, fun _ _ => decodeAll_eq_error_iff, ?_, ?_, ?_, ?_,
    exists_u2_iff, ?_, ?_, ?_, ?_⟩
  · intro h
    refine inverts_of_reads reads_code writes_code ?_
    rw [decode_code hname (hknown .code h)]
    rfl
  · intro h
    refine inverts_of_reads (reads_listed reads_line) (writes_listed_always writes_line) ?_
    rw [decode, hname, Except.ok_bind, hknown .lineNumberTable h]
    rfl
  · intro h
    refine inverts_of_reads (reads_listed reads_u2) (writes_listed_always writes_u2) ?_
    rw [decode, hname, Except.ok_bind, hknown .exceptions h]
    rfl
  · intro h
    refine inverts_of_reads reads_u2 writes_u2 ?_
    rw [decode, hname, Except.ok_bind, hknown .signature h]
  · intro h
    refine inverts_of_reads reads_u2 writes_u2 ?_
    rw [decode, hname, Except.ok_bind, hknown .constantValue h]
    rfl
  · intro h
    rw [decode, hname, Except.ok_bind, hknown .annotations h]
    rfl
  · intro h
    rw [decode, hname, Except.ok_bind, hknown .parameterAnnotations h]
    rfl
  · intro h
    rw [decode, hname, Except.ok_bind, hknown .annotationDefault h]
    rfl
  · intro h
    rw [decode, hname, Except.ok_bind, AttributeName.ofText?_eq_none h]
    rfl

/-- A pool of two attribute names. -/
def codeAndTable : ConstantPool := ⟨#[.utf8 "Code", .utf8 "LineNumberTable"]⟩

/-- A line number table that says a line for the start of the code. -/
def tableOfLine (line : UInt16) : AttributeInfo := ⟨2, writeList writeLineRow [⟨0, line⟩]⟩

/-- The frame of two bytes of code, the first of them protected by a handler
at the second, with two tables inside. -/
def frameWithTables : CodeFrame :=
  ⟨2, 3, [0x03, 0xac], [⟨0, 1, 1, 0⟩], [tableOfLine 7, tableOfLine 5]⟩

/-- The frame is decoded with the tables inside it, in order; without its
last byte it is not. -/
theorem decode_inverts_layout_nested :
    codeAndTable.utf8 1 = .ok "Code" ∧
    decode codeAndTable ⟨1, writeCodeFrame frameWithTables⟩ =
      .ok (.code ⟨2, 3, [0x03, 0xac], [⟨0, 1, 1, 0⟩],
        [.lineNumberTable [⟨0, 7⟩], .lineNumberTable [⟨0, 5⟩]]⟩) ∧
    decode codeAndTable ⟨1, (writeCodeFrame frameWithTables).dropLast⟩ =
      .error (.malformedAttribute "Code" .layout) := by
  have hcode : codeAndTable.utf8 1 = .ok "Code" := rfl
  have hfits : frameWithTables.Fits := ⟨by decide, by decide, by decide, by decide⟩
  have hcut : codeFrame? (writeCodeFrame frameWithTables).dropLast = none := by decide
  obtain ⟨hframe, hall, -⟩ :=
    decode_inverts_layout (a := ⟨1, writeCodeFrame frameWithTables⟩) hcode
  obtain ⟨hrest, -⟩ :=
    decode_inverts_layout (a := ⟨1, (writeCodeFrame frameWithTables).dropLast⟩) hcode
  have htable : ∀ line,
      decode codeAndTable (tableOfLine line) = .ok (.lineNumberTable [⟨0, line⟩]) := by
    intro line
    have hname : codeAndTable.utf8 (tableOfLine line).nameIndex = .ok "LineNumberTable" := rfl
    obtain ⟨-, -, -, hlines, -⟩ := decode_inverts_layout hname
    have hone : [(⟨0, line⟩ : LineRow)].length < 0x10000 := Nat.succ_lt_succ (Nat.zero_lt_succ _)
    have hrows := ((hlines rfl).written [⟨0, line⟩]).2 ⟨hone, rfl⟩
    exact (hlines rfl).laidOut _ hrows
  refine ⟨hcode, ?_, ?_⟩
  · have hnested : decodeAll codeAndTable [tableOfLine 7, tableOfLine 5] =
        .ok [.lineNumberTable [⟨0, 7⟩], .lineNumberTable [⟨0, 5⟩]] :=
      (hall _ _).2 (congrArg₂ (fun d e => [d, e]) (htable 7) (htable 5))
    have hlaidOut := ((hframe rfl).written frameWithTables).2 ⟨hfits, rfl⟩
    have hanswer := (hframe rfl).laidOut _ hlaidOut
    dsimp only [frameWithTables] at hanswer hnested
    rw [hnested] at hanswer
    exact hanswer
  · refine (hrest rfl).other fun frame hlaidOut => ?_
    rw [codeFrame?_eq_some_iff.2 hlaidOut] at hcut
    cases hcut

end Attribute

end MethodArea
