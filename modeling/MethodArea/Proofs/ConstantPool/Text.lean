/-
# `Proofs.ConstantPool.Text` — text entries and their bytes

The text of an entry and its bytes say the same:

* an entry made for a text resolves to that very text;
* an entry resolves exactly if its bytes are those of some text, and then
  to the text that they are the bytes of;
* so texts are equal exactly where bytes are, and looking something up by
  its text is looking it up by its bytes.

The bytes of a text are told by the forms of modified UTF-8 (`TextForm`),
which leave no choice: a writer that keeps to the forms is `encode`, and a
reader that accepts them and nothing else is `decode?`.

`text_bijection` is about whole pools.  An entry of a pool may only be
refused because of its own bytes, and at any index of a pool that resolves
the text is found that the bytes there stand for.
-/
import Mathlib
import MethodArea.Proofs.ConstantPool.Acceptance

namespace MethodArea.ConstantPool

open Text.ModifiedUtf8

theorem ofRaw_ofText (text : String) : ofRaw [.ofText text] = .ok ⟨#[.utf8 text]⟩ := by
  have hread : decode? (encode text) = some text := decode?_eq_some_iff.2 rfl
  have htexts : decodeTexts [.ofText text] = .ok [some text] := by
    refine Except.mapM_eq_ok_iff.2 ?_
    simp only [RawConstant.ofText, List.zipIdx_cons, List.zipIdx_nil, List.map_cons, List.map_nil,
      decodeText, hread]
  rw [ofRaw, htexts]
  rfl

/-- What a resolved pool has for bytes is the text that they stand for. -/
theorem exists_text_of_constant? {raw : List RawConstant} {pool : ConstantPool}
    (h : ofRaw raw = .ok pool) {index : UInt16} {bytes : List UInt8}
    (hentry : constant? raw index = some (.utf8 bytes)) :
    ∃ text, pool.get? index = some (.utf8 text) ∧ pool.utf8 index = .ok text ∧
      encode text = bytes := by
  have hrel := related_get? h index
  rw [hentry] at hrel
  generalize hget : pool.get? index = c' at hrel
  cases hrel with
  | some hrel =>
      cases hrel with
      | @utf8 _ text htext =>
          refine ⟨text, rfl, ?_, ?_⟩
          · rw [utf8_eq h, htext]
            rfl
          · rw [text?, hentry, Option.bind_some] at htext
            exact (decode?_eq_some_iff.1 htext).symm

/-- Text and bytes of the entries of a pool determine each other, and the
bytes are those of the forms. -/
theorem text_bijection :
    (∀ text : String, ofRaw [.ofText text] = .ok ⟨#[.utf8 text]⟩) ∧
    (∀ bytes, (∃ pool, ofRaw [.utf8 bytes] = .ok pool) ↔ ∃ text, bytes = encode text) ∧
    (∀ raw, (∃ i, ofRaw raw = .error (.invalidModifiedUtf8 i)) ↔
      ∃ bytes, .utf8 bytes ∈ raw ∧ ∀ text, bytes ≠ encode text) ∧
    (∀ raw pool index bytes, ofRaw raw = .ok pool → constant? raw index = some (.utf8 bytes) →
      ∃ text, pool.get? index = some (.utf8 text) ∧ pool.utf8 index = .ok text ∧
        encode text = bytes) ∧
    (∀ raw pool index bytes raw' pool' index' bytes', ofRaw raw = .ok pool →
      constant? raw index = some (.utf8 bytes) → ofRaw raw' = .ok pool' →
      constant? raw' index' = some (.utf8 bytes') →
      (pool.utf8 index = pool'.utf8 index' ↔ bytes = bytes')) ∧
    (∀ text bytes, bytes = encode text ↔ TextForm text.toList bytes) ∧
    (∀ write, (∀ text : String, TextForm text.toList (write text)) → write = encode) ∧
    (∀ read, (∀ bytes (text : String), read bytes = some text ↔ TextForm text.toList bytes) →
      read = decode?) ∧
    (∀ text, 0 ∉ encode text) := by
  refine ⟨ofRaw_ofText, ?_, fun _ => exists_invalidModifiedUtf8_iff,
    fun _ _ _ _ h hentry => exists_text_of_constant? h hentry, ?_,
    fun _ _ => textForm_toList_iff.symm, fun _ => eq_encode_of_textForm,
    fun _ => eq_decode?_of_textForm, zero_notMem_encode⟩
  · intro bytes
    constructor
    · rintro ⟨pool, hpool⟩
      have hentry : constant? [.utf8 bytes] 1 = some (.utf8 bytes) := rfl
      obtain ⟨text, -, -, htext⟩ := exists_text_of_constant? hpool hentry
      exact ⟨text, htext.symm⟩
    · rintro ⟨text, rfl⟩
      exact ⟨_, ofRaw_ofText text⟩
  · intro raw pool index bytes raw' pool' index' bytes' h hentry h' hentry'
    obtain ⟨text, -, htext, rfl⟩ := exists_text_of_constant? h hentry
    obtain ⟨text', -, htext', rfl⟩ := exists_text_of_constant? h' hentry'
    rw [htext, htext']
    constructor
    · intro heq
      cases heq
      rfl
    · intro heq
      have hread := decode?_eq_some_iff.2 heq
      rw [decode?_eq_some_iff.2 rfl] at hread
      rw [Option.some.inj hread]

/-- The bytes of U+0000 and U+1F600: two bytes for the one, six for the
other. -/
def zeroAndPair : List UInt8 := [0xc0, 0x80, 0xed, 0xa0, 0xbd, 0xed, 0xb8, 0x80]

/-- These bytes are read at their index, and other text is found at another
one; a raw zero byte, a high surrogate that stands alone, an overlong form
and a form of four bytes are refused.  Some writer and some reader do keep
to the forms. -/
theorem text_bijection_zero_and_pair :
    (∃ pool, ofRaw [.utf8 zeroAndPair, .ofText "A"] = .ok pool ∧
      pool.utf8 1 = .ok (String.ofList ['\x00', '😀']) ∧ pool.utf8 1 ≠ pool.utf8 2) ∧
    (∀ bytes ∈ [[0x00], [0xed, 0xa0, 0xbd], [0xc1, 0x81], [0xf0, 0x9f, 0x98, 0x80]],
      ∃ i, ofRaw [.ofText "A", .utf8 bytes] = .error (.invalidModifiedUtf8 i)) ∧
    (∃ write read, (∀ text : String, TextForm text.toList (write text)) ∧
      (∀ bytes (text : String), read bytes = some text ↔ TextForm text.toList bytes) ∧
      write = encode ∧ read = decode?) := by
  obtain ⟨-, -, hrefused, hfound, hequal, hform, hwrite, hread, -⟩ := text_bijection
  have hpool : ofRaw [.utf8 zeroAndPair, .ofText "A"] =
      .ok ⟨#[.utf8 (String.ofList ['\x00', '😀']), .utf8 "A"]⟩ := by
    cbv
  have hkept : ∀ text : String, TextForm text.toList (encode text) :=
    fun text => (hform text _).1 rfl
  have haccepted : ∀ bytes (text : String), decode? bytes = some text ↔
      TextForm text.toList bytes :=
    fun bytes text => decode?_eq_some_iff.trans (hform text bytes)
  refine ⟨⟨_, hpool, ?_, ?_⟩, ?_,
    encode, decode?, hkept, haccepted, hwrite encode hkept, hread decode? haccepted⟩
  · obtain ⟨text, hget, htext, -⟩ := hfound _ _ 1 zeroAndPair hpool rfl
    cases hget
    exact htext
  · intro h
    have hbytes := (hequal _ _ 1 zeroAndPair _ _ 2 (encode "A") hpool rfl hpool rfl).1 h
    exact absurd hbytes (by decide)
  · intro bytes hbytes
    have hnone : ∀ bytes ∈ [[0x00], [0xed, 0xa0, 0xbd], [0xc1, 0x81], [0xf0, 0x9f, 0x98, 0x80]],
        decode? bytes = none := by decide
    refine (hrefused _).2 ⟨bytes, List.mem_cons_of_mem _ List.mem_cons_self, fun text h => ?_⟩
    have hsome := (haccepted bytes text).2 ((hform text bytes).1 h)
    rw [hnone bytes hbytes] at hsome
    cases hsome

end MethodArea.ConstantPool
