/-
# `Proofs.Attribute.Decoded` — what an attribute is decoded to

Decoding goes by the recognised name of an attribute, and what it gives has
that name too:

    Code                    the frame, with the attributes in it decoded
    LineNumberTable         the rows
    Exceptions              the indices
    Signature               the text at the index
    ConstantValue           the index
    the kinds of annotation the payload
    any other text          nothing

`Decoded` has one rule for each line, and `decoded_of_decode` takes a
decoding that succeeds apart.  What decoding gives does not depend on which
index the name is at (`decode_congr`).
-/
import MethodArea.Proofs.Attribute.Decoding

namespace MethodArea

open Attribute

namespace AttributeInfo

/-- The recognised name that an attribute has in a pool. -/
def recognised? (pool : ConstantPool) (a : AttributeInfo) : Option AttributeName :=
  match pool.utf8 a.nameIndex with
  | .ok name => AttributeName.ofText? name
  | .error _ => none

theorem recognised?_of_utf8 {pool : ConstantPool} {a : AttributeInfo} {name : String}
    (h : pool.utf8 a.nameIndex = .ok name) : a.recognised? pool = AttributeName.ofText? name := by
  rw [recognised?, h]

theorem utf8_of_recognised? {pool : ConstantPool} {a : AttributeInfo} {name : AttributeName}
    (h : a.recognised? pool = some name) : pool.utf8 a.nameIndex = .ok name.text := by
  rw [recognised?] at h
  split at h
  · next text htext => rw [htext, AttributeName.ofText?_eq_some_iff.1 h]
  · cases h

end AttributeInfo

namespace Attribute

/-- The recognised name of an attribute. -/
def name? : Attribute → Option AttributeName
  | .code _ => some .code
  | .lineNumberTable _ => some .lineNumberTable
  | .exceptions _ => some .exceptions
  | .signature _ => some .signature
  | .constantValue _ => some .constantValue
  | .annotations _ => some .annotations
  | .parameterAnnotations _ => some .parameterAnnotations
  | .annotationDefault _ => some .annotationDefault
  | .unknown => none

/-- What an attribute is decoded to. -/
inductive Decoded (pool : ConstantPool) (a : AttributeInfo) : Attribute → Prop
  | code {frame : CodeFrame} {nested : List Attribute} : a.recognised? pool = some .code →
      codeFrame? a.info = some frame → decodeAll pool frame.attributes = .ok nested →
      Decoded pool a (ofFrame frame nested)
  | lineNumberTable {rows : List LineRow} : a.recognised? pool = some .lineNumberTable →
      whole? (readList readLineRow) a.info = some rows → Decoded pool a (.lineNumberTable rows)
  | exceptions {indices : List UInt16} : a.recognised? pool = some .exceptions →
      whole? (readList readU2) a.info = some indices → Decoded pool a (.exceptions indices)
  | signature {index : UInt16} {text : String} : a.recognised? pool = some .signature →
      whole? readU2 a.info = some index → pool.utf8 index = .ok text →
      Decoded pool a (.signature text)
  | constantValue {index : UInt16} : a.recognised? pool = some .constantValue →
      whole? readU2 a.info = some index → Decoded pool a (.constantValue index)
  | annotations : a.recognised? pool = some .annotations → Decoded pool a (.annotations a.info)
  | parameterAnnotations : a.recognised? pool = some .parameterAnnotations →
      Decoded pool a (.parameterAnnotations a.info)
  | annotationDefault : a.recognised? pool = some .annotationDefault →
      Decoded pool a (.annotationDefault a.info)
  | unknown : a.recognised? pool = none → Decoded pool a .unknown

theorem orMalformed_eq_ok_iff {α : Type} {name : String} {t : Option α} {value : α} :
    orMalformed name t = .ok value ↔ t = some value := by
  cases t with
  | none => simp [orMalformed]
  | some value' => simp [orMalformed]

theorem decoded_of_decode {pool : ConstantPool} {a : AttributeInfo} {d : Attribute}
    (h : decode pool a = .ok d) : Decoded pool a d := by
  cases hname : pool.utf8 a.nameIndex with
  | error e =>
      rw [decode, hname] at h
      cases h
  | ok name =>
      have hrecognised := AttributeInfo.recognised?_of_utf8 hname
      cases hk : AttributeName.ofText? name with
      | none =>
          rw [decode, hname, Except.ok_bind, hk] at h
          cases h
          exact .unknown (hrecognised.trans hk)
      | some known =>
          rw [hk] at hrecognised
          cases known with
          | code =>
              rw [decode_code hname hk] at h
              obtain ⟨frame, hframe, h⟩ := Except.bind_eq_ok_iff.1 h
              obtain ⟨nested, hnested, h⟩ := Except.bind_eq_ok_iff.1 h
              cases h
              exact .code hrecognised (orMalformed_eq_ok_iff.1 hframe) hnested
          | lineNumberTable =>
              rw [decode, hname, Except.ok_bind, hk] at h
              obtain ⟨rows, hrows, rfl⟩ := Except.map_eq_ok_iff.1 h
              exact .lineNumberTable hrecognised (orMalformed_eq_ok_iff.1 hrows)
          | exceptions =>
              rw [decode, hname, Except.ok_bind, hk] at h
              obtain ⟨indices, hindices, rfl⟩ := Except.map_eq_ok_iff.1 h
              exact .exceptions hrecognised (orMalformed_eq_ok_iff.1 hindices)
          | signature =>
              rw [decode, hname, Except.ok_bind, hk] at h
              obtain ⟨index, hindex, h⟩ := Except.bind_eq_ok_iff.1 h
              obtain ⟨text, htext, rfl⟩ := Except.map_eq_ok_iff.1 h
              exact .signature hrecognised (orMalformed_eq_ok_iff.1 hindex) htext
          | constantValue =>
              rw [decode, hname, Except.ok_bind, hk] at h
              obtain ⟨index, hindex, rfl⟩ := Except.map_eq_ok_iff.1 h
              exact .constantValue hrecognised (orMalformed_eq_ok_iff.1 hindex)
          | annotations =>
              rw [decode, hname, Except.ok_bind, hk] at h
              cases h
              exact .annotations hrecognised
          | parameterAnnotations =>
              rw [decode, hname, Except.ok_bind, hk] at h
              cases h
              exact .parameterAnnotations hrecognised
          | annotationDefault =>
              rw [decode, hname, Except.ok_bind, hk] at h
              cases h
              exact .annotationDefault hrecognised

/-- Code is decoded as its frame, around what the attributes in it come to. -/
theorem decode_of_codeFrame? {pool : ConstantPool} {a : AttributeInfo} {frame : CodeFrame}
    (hcode : a.recognised? pool = some .code) (hframe : codeFrame? a.info = some frame) :
    decode pool a = ofFrame frame <$> decodeAll pool frame.attributes := by
  rw [decode_code (AttributeInfo.utf8_of_recognised? hcode) (AttributeName.ofText?_text .code),
    hframe]
  rfl

/-- An attribute keeps its name when it is decoded. -/
theorem Decoded.name?_eq {pool : ConstantPool} {a : AttributeInfo} {d : Attribute}
    (h : Decoded pool a d) : d.name? = a.recognised? pool := by
  cases h with
  | code hname _ _ => exact hname.symm
  | lineNumberTable hname _ | exceptions hname _ | constantValue hname _ => exact hname.symm
  | signature hname _ _ => exact hname.symm
  | annotations hname | parameterAnnotations hname | annotationDefault hname
  | unknown hname => exact hname.symm

/-- Two attributes with names that are the same text and with the same
payload are decoded alike. -/
theorem decode_congr {pool : ConstantPool} {a b : AttributeInfo}
    (hname : pool.utf8 a.nameIndex = pool.utf8 b.nameIndex) (hinfo : a.info = b.info) :
    decode pool a = decode pool b := by
  obtain ⟨i, info⟩ := a
  obtain ⟨j, _⟩ := b
  cases hinfo
  dsimp only at hname
  rw [decode, decode, hname]

end Attribute

end MethodArea
