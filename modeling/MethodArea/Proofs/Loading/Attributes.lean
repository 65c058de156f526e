/-
# `Proofs.Loading.Attributes` — decoding and effect of attributes, decided

An attribute is looked at twice.  Decoding it decides its conditions
(`decides_decode`); once all attributes of a method are decoded, its effect
on the method decides those that are left (`decides_addAttribute`).

The second look is at decoded attributes, the conditions are about bytes.
`Gives` is the link: what decoding an attribute gives, as far as the effect
on a method goes.
-/
import MethodArea.Proofs.Attribute.Decoded
import MethodArea.Proofs.Loading.Conditions
import MethodArea.Proofs.Method.Effect
import MethodArea.Proofs.Method.Installed

namespace MethodArea

open Attribute ConstantPool

variable {raw : List RawConstant} {pool : ConstantPool}

namespace AttributeInfo

/-! ## Decoding -/

/-- The recognised name of an attribute, looked up in the resolved pool or in
the constants. -/
theorem recognised?_eq (hpool : ofRaw raw = .ok pool) (a : AttributeInfo) :
    a.recognised? pool = a.known? raw := by
  rw [recognised?, known?, utf8_eq hpool]
  cases text? raw a.nameIndex with
  | none => rfl
  | some name => rfl

theorem known?_of_utf8 (hpool : ofRaw raw = .ok pool) {a : AttributeInfo} {name : String}
    (h : pool.utf8 a.nameIndex = .ok name) : a.known? raw = AttributeName.ofText? name := by
  rw [← recognised?_eq hpool, recognised?_of_utf8 h]

theorem decides_orMalformed {α : Type} {read : ByteReader α} {layout : Layout α}
    (hread : Reads read layout) (name : AttributeName) (info : List UInt8) :
    Decides (orMalformed name.text (whole? read info)) [layoutRequired layout name info] := by
  refine .one ?_ fun e he => ?_
  · simp only [orMalformed_eq_ok_iff, hread.whole]
    rfl
  · cases hwhole : whole? read info with
    | none =>
        rw [hwhole] at he
        cases he
        rfl
    | some value =>
        rw [hwhole] at he
        cases he

/-- Decoding an attribute decides its conditions; inside code the induction
is on the length of the payload. -/
theorem decides_decode (hpool : ofRaw raw = .ok pool) (a : AttributeInfo) :
    Decides (decode pool a) (a.conditions raw) := by
  cases hname : pool.utf8 a.nameIndex with
  | error e =>
      have hdecode : decode pool a = .error e := by
        rw [decode, hname]
        rfl
      have hfirst := (decides_utf8 hpool a.nameIndex).of_error e hname
      rw [hdecode, conditions]
      exact .error hfirst.append_right
  | ok name =>
      have htext := (allHold_cons.1 ((decides_utf8 hpool a.nameIndex).of_ok name hname)).1
      have hknown := known?_of_utf8 hpool hname
      cases hk : AttributeName.ofText? name with
      | none =>
          rw [conditions, hknown, hk, decode, hname, Except.ok_bind, hk]
          exact .cons htext (.ok _ allHold_nil)
      | some known =>
          obtain rfl := AttributeName.ofText?_eq_some_iff.1 hk
          cases known with
          | code =>
              rw [conditions_code (hknown.trans hk), decode_code hname hk]
              refine .cons htext ((decides_orMalformed reads_code .code a.info).bind_one ?_)
              intro frame hframe
              have hread : codeFrame? a.info = some frame := orMalformed_eq_ok_iff.1 hframe
              rw [hread, Option.toList_some, List.flatMap_singleton]
              refine Decides.then_ok (.mapM fun b hb => ?_) _
              exact decides_decode hpool b
          | lineNumberTable =>
              rw [conditions, hknown, hk, decode, hname, Except.ok_bind, hk]
              exact .cons htext ((decides_orMalformed (reads_listed reads_line) _ _).map _)
          | exceptions =>
              rw [conditions, hknown, hk, decode, hname, Except.ok_bind, hk]
              exact .cons htext ((decides_orMalformed (reads_listed reads_u2) _ _).map _)
          | signature =>
              rw [conditions, hknown, hk, decode, hname, Except.ok_bind, hk]
              refine .cons htext ((decides_orMalformed reads_u2 .signature a.info).bind_one ?_)
              intro index hindex
              rw [orMalformed_eq_ok_iff.1 hindex]
              exact (decides_utf8 hpool index).map _
          | constantValue =>
              rw [conditions, hknown, hk, decode, hname, Except.ok_bind, hk]
              exact .cons htext ((decides_orMalformed reads_u2 _ _).map _)
          | annotations | parameterAnnotations | annotationDefault =>
              rw [conditions, hknown, hk, decode, hname, Except.ok_bind, hk]
              exact .cons htext (.ok _ allHold_nil)
termination_by a.info.length
decreasing_by exact info_length_lt_of_codeFrame? hread _ hb

/-! ## What decoding gives -/

/-- The frame of an attribute that is code. -/
def frame? (raw : List RawConstant) (a : AttributeInfo) : Option CodeFrame :=
  if a.known? raw = some .code then codeFrame? a.info else none

/-- What an attribute is decoded to, as far as its effect goes. -/
inductive Gives (raw : List RawConstant) (a : AttributeInfo) : Attribute → Prop
  | code {frame : CodeFrame} {nested : List Attribute} : a.known? raw = some .code →
      codeFrame? a.info = some frame → Gives raw a (ofFrame frame nested)
  | exceptions {indices : List UInt16} : a.known? raw = some .exceptions →
      whole? (readList readU2) a.info = some indices → Gives raw a (.exceptions indices)
  | other {d : Attribute} : a.known? raw ≠ some .code → a.known? raw ≠ some .exceptions →
      (∀ c, d ≠ .code c) → (∀ indices, d ≠ .exceptions indices) → Gives raw a d

theorem gives_of_decode (hpool : ofRaw raw = .ok pool) {a : AttributeInfo} {d : Attribute}
    (h : decode pool a = .ok d) : Gives raw a d := by
  have hknown := recognised?_eq hpool a
  cases decoded_of_decode h with
  | code hname hframe _ => exact .code (hknown.symm.trans hname) hframe
  | exceptions hname hindices => exact .exceptions (hknown.symm.trans hname) hindices
  | lineNumberTable hname _ | constantValue hname _ | annotations hname
  | parameterAnnotations hname | annotationDefault hname | unknown hname =>
      rw [hknown] at hname
      exact .other (by simp [hname]) (by simp [hname]) (fun _ h => by cases h)
        (fun _ h => by cases h)
  | signature hname _ _ =>
      rw [hknown] at hname
      exact .other (by simp [hname]) (by simp [hname]) (fun _ h => by cases h)
        (fun _ h => by cases h)

/-! ## Effect -/

theorem blame_bind {α β : Type} {method : MethodRef} {position : Nat}
    (x : Except HandlerDefect α) (f : α → Except HandlerDefect β) :
    ExceptionTable.blame method position (x >>= f) =
      ExceptionTable.blame method position x >>= fun a =>
        ExceptionTable.blame method position (f a) := by
  cases x with
  | ok a => rfl
  | error defect => rfl

theorem decides_catchType (hpool : ofRaw raw = .ok pool) (method : MethodRef) (position : Nat)
    (index : UInt16) :
    Decides (ExceptionTable.blame method position (ExceptionTable.catchType pool index))
      [⟨index = 0 ∨ IsClass raw index,
        .malformedExceptionTable method position (.catchTypeNotClass index)⟩] := by
  by_cases h0 : index = 0
  · rw [ExceptionTable.catchType, if_pos h0]
    exact .ok _ (allHold_cons.2 ⟨.inl h0, allHold_nil⟩)
  · rw [ExceptionTable.catchType, if_neg h0, className_eq hpool]
    cases hclass : className? raw index with
    | some name => exact .ok _ (allHold_cons.2 ⟨.inr ⟨name, hclass⟩, allHold_nil⟩)
    | none =>
        refine .error (.here ?_)
        rintro (h | ⟨name, hname⟩)
        · exact h0 h
        · rw [hclass] at hname
          cases hname

theorem decides_checked (method : MethodRef) (position codeLength : Nat) (e : HandlerEntry) :
    Decides (ExceptionTable.blame method position (ExceptionTable.checked codeLength e))
      [⟨e.startPc < e.endPc,
        .malformedExceptionTable method position (.emptyRange e.startPc e.endPc)⟩,
      ⟨e.endPc.toNat ≤ codeLength,
        .malformedExceptionTable method position (.endBeyondCode e.endPc codeLength)⟩,
      ⟨e.handlerPc.toNat < codeLength,
        .malformedExceptionTable method position (.handlerBeyondCode e.handlerPc codeLength)⟩] := by
  rw [ExceptionTable.checked, HandlerEntry.defect?]
  by_cases h₁ : e.startPc < e.endPc
  · rw [if_neg (UInt16.not_le.2 h₁)]
    refine .cons h₁ ?_
    by_cases h₂ : e.endPc.toNat ≤ codeLength
    · rw [if_neg (Nat.not_lt.2 h₂)]
      refine .cons h₂ ?_
      by_cases h₃ : e.handlerPc.toNat < codeLength
      · rw [if_neg (Nat.not_le.2 h₃)]
        exact .cons h₃ (.ok _ allHold_nil)
      · rw [if_pos (Nat.not_lt.1 h₃)]
        exact .error (.here h₃)
    · rw [if_pos (Nat.not_le.1 h₂)]
      exact .error (.here h₂)
  · rw [if_pos (UInt16.not_lt.1 h₁)]
    exact .error (.here h₁)

theorem decides_ofRows (hpool : ofRaw raw = .ok pool) (method : MethodRef) (codeLength : Nat)
    (rows : List HandlerRow) :
    Decides (ExceptionTable.ofRows method pool codeLength rows)
      (rows.zipIdx.flatMap (fun (row, i) => rowConditions raw method codeLength i row)) := by
  refine Decides.then_ok (.mapM fun (row, i) _ => ?_) _
  dsimp only
  rw [ExceptionTable.entryOfRow, blame_bind]
  refine (decides_catchType hpool method i row.catchType).bind_one fun caught _ => ?_
  exact decides_checked method i codeLength ⟨row.startPc, row.endPc, row.handlerPc, caught⟩

/-- The effect of an attribute on a method decides what is asked of it. -/
theorem decides_addAttribute (hpool : ofRaw raw = .ok pool) (m : Method) {a : AttributeInfo}
    {d : Attribute} (h : Gives raw a d) :
    Decides (m.addAttribute pool d) (a.effectConditions raw m.ref) := by
  cases h with
  | @code frame nested hk hframe =>
      rw [effectConditions, hk]
      simp only [hframe, Option.toList_some, List.flatMap_singleton]
      exact (decides_ofRows hpool m.ref frame.code.length frame.handlers).then_ok _
  | @exceptions indices hk hindices =>
      rw [effectConditions, hk]
      simp only [hindices, Option.toList_some, List.flatMap_singleton, List.map_eq_flatMap]
      exact Decides.then_ok (.mapM fun index _ => decides_className hpool index) _
  | other hcode hexceptions hd hd' =>
      have hnone : a.effectConditions raw m.ref = [] := by
        rw [effectConditions]
        split
        · next hk => exact absurd hk hcode
        · next hk => exact absurd hk hexceptions
        · rfl
      rw [hnone]
      cases d with
      | code c => exact absurd rfl (hd c)
      | exceptions indices => exact absurd rfl (hd' indices)
      | _ => exact .ok _ allHold_nil

/-- Attributes that take effect one after the other. -/
theorem decides_foldlM (hpool : ofRaw raw = .ok pool) {infos : List AttributeInfo}
    {attributes : List Attribute} (h : decodeAll pool infos = .ok attributes) (m : Method) :
    Decides (attributes.foldlM (Method.addAttribute pool) m)
      (infos.flatMap (effectConditions raw m.ref)) := by
  rw [decodeAll_eq_ok_iff] at h
  induction infos generalizing attributes m with
  | nil =>
      obtain rfl := List.map_eq_nil_iff.1 h.symm
      exact .ok m allHold_nil
  | cons a infos ih =>
      cases attributes with
      | nil => cases h
      | cons d attributes =>
          obtain ⟨hd, hrest⟩ := List.cons.inj h
          rw [List.foldlM_cons, List.flatMap_cons]
          refine (decides_addAttribute hpool m (gives_of_decode hpool hd)).bind fun m' hm' => ?_
          have href : m'.ref = m.ref := congrArg Member.ref (Method.addAttribute_keeps hm').1
          rw [← href]
          exact ih hrest m'

end AttributeInfo

end MethodArea
