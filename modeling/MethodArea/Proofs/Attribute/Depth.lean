/-
# `Proofs.Attribute.Depth` — how deep attributes are decoded

Decoding an attribute goes on to the attributes in it, one after the other
up to the first that fails (`Enters`), and from there to those inside them.
The attribute itself is decoded at depth one, and what is in it one deeper
(`DecodedAt`):

    depth 1     a                       n bytes
    depth 2     an attribute in a       at most n - 18 bytes
    depth 3     an attribute in that    at most n - 36 bytes
    …

so no depth is more than `n / 18 + 1`, however many attributes a payload
says it has and however long it says they are.

That decoding ends is not to be read off its being a function, so the same
steps are also taken without a reason to end: `decodeWith` is one step, with
the decoding of what is inside left open, and `decodeTo` takes it up to a
limit of depth.  It has no answer exactly if something lies deeper than the
limit, and else the answer is that of `decode` (`decodeTo_eq`); from the
limit `n / 18 + 1` on there always is one.
-/
import Mathlib
import MethodArea.Proofs.Attribute.Decoded
import MethodArea.Proofs.Attribute.Slices

namespace MethodArea.Attribute

variable {α β : Type}

/-! ## Answers up to a limit -/

/-- An outcome, or none where the limit of depth is reached. -/
abbrev Limited (α : Type) : Type := ExceptT Error Option α

/-- No outcome: the limit is reached. -/
def tooDeep : Limited α := ExceptT.mk none

/-- An outcome within the limit. -/
def within (x : Except Error α) : Limited α := ExceptT.mk (some x)

theorem within_ok_bind (a : α) (f : α → Limited β) : within (.ok a) >>= f = f a := rfl

theorem tooDeep_bind (f : α → Limited β) : tooDeep >>= f = tooDeep := rfl

theorem map_within (f : α → β) (x : Except Error α) : f <$> within x = within (f <$> x) := by
  cases x with
  | error e => rfl
  | ok a => rfl

/-- A list is answered like its elements are: only those up to the first that
fails have a say. -/
theorem mapM_eq_within {inner : α → Limited β} {f : α → Except Error β} {xs : List α}
    (h : ∀ before x after, xs = before ++ x :: after → (∀ y ∈ before, ∃ b, f y = .ok b) →
      inner x = within (f x)) :
    xs.mapM inner = within (xs.mapM f) := by
  induction xs with
  | nil => rfl
  | cons x xs ih =>
      have hx : inner x = within (f x) := h [] x xs rfl (fun _ hy => absurd hy List.not_mem_nil)
      rw [List.mapM_cons, List.mapM_cons, hx]
      cases hfx : f x with
      | error e => rfl
      | ok b =>
          have hxs : xs.mapM inner = within (xs.mapM f) := by
            refine ih fun before y after hsplit hbefore => ?_
            refine h (x :: before) y after (by rw [hsplit, List.cons_append]) ?_
            exact List.forall_mem_cons.2 ⟨⟨b, hfx⟩, hbefore⟩
          rw [hxs, within_ok_bind]
          cases xs.mapM f with
          | error e => rfl
          | ok bs => rfl

/-- One element without an outcome leaves the list without one, if none before
it fails. -/
theorem mapM_eq_tooDeep {inner : α → Limited β} {before after : List α} {x : α}
    (hbefore : ∀ y ∈ before, inner y = tooDeep ∨ ∃ b, inner y = within (.ok b))
    (hx : inner x = tooDeep) : (before ++ x :: after).mapM inner = tooDeep := by
  induction before with
  | nil => rw [List.nil_append, List.mapM_cons, hx, tooDeep_bind]
  | cons y before ih =>
      obtain ⟨hy, hbefore⟩ := List.forall_mem_cons.1 hbefore
      rw [List.cons_append, List.mapM_cons]
      rcases hy with hy | ⟨b, hy⟩
      · rw [hy, tooDeep_bind]
      · rw [hy, within_ok_bind, ih hbefore, tooDeep_bind]

/-! ## One step of decoding -/

/-- One step of decoding, with the decoding of what is inside left open. -/
def decodeWith (pool : ConstantPool) (inner : AttributeInfo → Limited Attribute)
    (a : AttributeInfo) : Limited Attribute := do
  let name ← within (pool.utf8 a.nameIndex)
  match AttributeName.ofText? name with
  | some .code => do
    let frame ← within (orMalformed name (codeFrame? a.info))
    ofFrame frame <$> frame.attributes.mapM inner
  | some .lineNumberTable =>
    within (.lineNumberTable <$> orMalformed name (whole? (readList readLineRow) a.info))
  | some .exceptions => within (.exceptions <$> orMalformed name (whole? (readList readU2) a.info))
  | some .signature => do
    let index ← within (orMalformed name (whole? readU2 a.info))
    within (.signature <$> pool.utf8 index)
  | some .constantValue => within (.constantValue <$> orMalformed name (whole? readU2 a.info))
  | some .annotations => pure (.annotations a.info)
  | some .parameterAnnotations => pure (.parameterAnnotations a.info)
  | some .annotationDefault => pure (.annotationDefault a.info)
  | none => pure .unknown

/-- Decoding with a limit of depth: at the limit there is no outcome. -/
def decodeTo (pool : ConstantPool) : Nat → AttributeInfo → Limited Attribute
  | 0, _ => tooDeep
  | limit + 1, a => decodeWith pool (decodeTo pool limit) a

variable {pool : ConstantPool} {a b : AttributeInfo}

/-- The frame of an attribute that is code. -/
def frameIn? (pool : ConstantPool) (a : AttributeInfo) : Option CodeFrame :=
  if a.recognised? pool = some .code then codeFrame? a.info else none

theorem frameIn?_eq_some_iff {frame : CodeFrame} :
    frameIn? pool a = some frame ↔
      a.recognised? pool = some .code ∧ codeFrame? a.info = some frame := by
  rw [frameIn?]
  split
  · next hcode => exact (and_iff_right hcode).symm
  · next hcode => simp [hcode]

theorem decode_of_frame {frame : CodeFrame} (h : frameIn? pool a = some frame) :
    decode pool a = ofFrame frame <$> decodeAll pool frame.attributes := by
  obtain ⟨hcode, hframe⟩ := frameIn?_eq_some_iff.1 h
  exact decode_of_codeFrame? hcode hframe

theorem decodeWith_of_frame {frame : CodeFrame} (h : frameIn? pool a = some frame)
    (inner : AttributeInfo → Limited Attribute) :
    decodeWith pool inner a = ofFrame frame <$> frame.attributes.mapM inner := by
  obtain ⟨hcode, hframe⟩ := frameIn?_eq_some_iff.1 h
  rw [decodeWith, AttributeInfo.utf8_of_recognised? hcode, within_ok_bind,
    AttributeName.ofText?_text]
  dsimp only
  rw [hframe]
  rfl

/-- Without a frame there is nothing inside to decode. -/
theorem decodeWith_of_no_frame (h : frameIn? pool a = none)
    (inner : AttributeInfo → Limited Attribute) :
    decodeWith pool inner a = within (decode pool a) := by
  cases hname : pool.utf8 a.nameIndex with
  | error e =>
      rw [decodeWith, decode, hname]
      rfl
  | ok name =>
      cases hk : AttributeName.ofText? name with
      | none =>
          rw [decodeWith, decode, hname, within_ok_bind, Except.ok_bind, hk]
          rfl
      | some known =>
          cases known with
          | code =>
              have hframe : codeFrame? a.info = none := by
                rwa [frameIn?, AttributeInfo.recognised?_of_utf8 hname, if_pos hk] at h
              rw [decode_code hname hk, decodeWith, hname, within_ok_bind, hk, hframe]
              rfl
          | signature =>
              rw [decodeWith, decode, hname, within_ok_bind, Except.ok_bind, hk]
              dsimp only
              cases orMalformed name (whole? readU2 a.info) with
              | error e => rfl
              | ok index => rfl
          | lineNumberTable | exceptions | constantValue =>
              rw [decodeWith, decode, hname, within_ok_bind, Except.ok_bind, hk]
          | annotations | parameterAnnotations | annotationDefault =>
              rw [decodeWith, decode, hname, within_ok_bind, Except.ok_bind, hk]
              rfl

/-- Decoding is what this step makes of itself. -/
theorem decodeWith_decode (pool : ConstantPool) (a : AttributeInfo) :
    decodeWith pool (fun b => within (decode pool b)) a = within (decode pool a) := by
  cases h : frameIn? pool a with
  | none => exact decodeWith_of_no_frame h _
  | some frame =>
      have hall : frame.attributes.mapM (fun b => within (decode pool b)) =
          within (decodeAll pool frame.attributes) := mapM_eq_within fun _ _ _ _ _ => rfl
      rw [decodeWith_of_frame h, hall, map_within, decode_of_frame h]

/-! ## What is decoded, and how deep -/

/-- Decoding one attribute goes on to another: one in its frame, with none
before it that fails. -/
inductive Enters (pool : ConstantPool) (a b : AttributeInfo) : Prop
  | mk {frame : CodeFrame} {before after : List AttributeInfo} : frameIn? pool a = some frame →
      frame.attributes = before ++ b :: after → (∀ c ∈ before, ∃ d, decode pool c = .ok d) →
      Enters pool a b

/-- The first attribute in a frame is gone on to in any case. -/
theorem enters_first {frame : CodeFrame} {after : List AttributeInfo}
    (hframe : frameIn? pool a = some frame) (hfirst : frame.attributes = b :: after) :
    Enters pool a b :=
  ⟨hframe, hfirst.trans (List.nil_append _).symm, fun _ hc => absurd hc List.not_mem_nil⟩

/-- The attributes that are decoded when one is, each with its depth. -/
inductive DecodedAt (pool : ConstantPool) : AttributeInfo → Nat → AttributeInfo → Prop
  | self {a : AttributeInfo} : DecodedAt pool a 1 a
  | inside {a b c : AttributeInfo} {depth : Nat} : Enters pool a b → DecodedAt pool b depth c →
      DecodedAt pool a (depth + 1) c

/-- Nothing is decoded deeper than a limit. -/
def Shallow (pool : ConstantPool) (limit : Nat) (a : AttributeInfo) : Prop :=
  ∀ depth b, DecodedAt pool a depth b → depth ≤ limit

theorem not_shallow_zero : ¬ Shallow pool 0 a := fun h => absurd (h 1 a .self) (by decide)

theorem shallow_succ_iff {limit : Nat} :
    Shallow pool (limit + 1) a ↔ ∀ b, Enters pool a b → Shallow pool limit b := by
  constructor
  · intro h b hab depth c hc
    exact Nat.le_of_succ_le_succ (h (depth + 1) c (.inside hab hc))
  · intro h depth c hc
    cases hc with
    | self => exact Nat.succ_le_succ (Nat.zero_le limit)
    | inside hab hbc => exact Nat.succ_le_succ (h _ hab _ _ hbc)

theorem Shallow.mono {limit limit' : Nat} (h : Shallow pool limit a) (hle : limit ≤ limit') :
    Shallow pool limit' a := fun depth b hb => Nat.le_trans (h depth b hb) hle

theorem shallow_succ_of_no_frame (h : frameIn? pool a = none) (limit : Nat) :
    Shallow pool (limit + 1) a := by
  refine shallow_succ_iff.2 fun b hab => ?_
  obtain ⟨hframe, -, -⟩ := hab
  rw [h] at hframe
  cases hframe

/-- Decoding with a limit has no outcome exactly if something lies deeper, and
else the one that decoding has. -/
theorem decodeTo_eq (pool : ConstantPool) (limit : Nat) (a : AttributeInfo) :
    (Shallow pool limit a → decodeTo pool limit a = within (decode pool a)) ∧
    (¬ Shallow pool limit a → decodeTo pool limit a = tooDeep) := by
  induction limit generalizing a with
  | zero => exact ⟨fun h => absurd h not_shallow_zero, fun _ => rfl⟩
  | succ limit ih =>
      rw [decodeTo]
      cases hframe : frameIn? pool a with
      | none =>
          refine ⟨fun _ => decodeWith_of_no_frame hframe _, fun h => ?_⟩
          exact absurd (shallow_succ_of_no_frame hframe limit) h
      | some frame =>
          rw [decodeWith_of_frame hframe, decode_of_frame hframe, ← map_within]
          constructor
          · intro hshallow
            -- each attribute with a say is entered, so it is as shallow as the limit asks
            refine congrArg (ofFrame frame <$> ·) (mapM_eq_within ?_)
            intro before b after hsplit hok
            exact (ih b).1 (shallow_succ_iff.1 hshallow b ⟨hframe, hsplit, hok⟩)
          · intro hdeep
            obtain ⟨b, hab, hb⟩ : ∃ b, Enters pool a b ∧ ¬ Shallow pool limit b := by
              simpa only [shallow_succ_iff, not_forall, exists_prop] using hdeep
            obtain ⟨hframe', hsplit, hok⟩ := hab
            obtain rfl := Option.some.inj (hframe.symm.trans hframe')
            have hnone : frame.attributes.mapM (decodeTo pool limit) = tooDeep := by
              rw [hsplit]
              -- those before it may be too deep as well, but none of them fails
              refine mapM_eq_tooDeep (fun c hc => ?_) ((ih b).2 hb)
              obtain ⟨d, hd⟩ := hok c hc
              by_cases hc : Shallow pool limit c
              · exact .inr ⟨d, by rw [(ih c).1 hc, hd]⟩
              · exact .inl ((ih c).2 hc)
            rw [hnone]
            rfl

/-! ## The limit -/

theorem Enters.info_length_le (h : Enters pool a b) : b.info.length + 18 ≤ a.info.length := by
  obtain ⟨hframe, hsplit, -⟩ := h
  have hlayout := codeFrame?_eq_some_iff.1 (frameIn?_eq_some_iff.1 hframe).2
  exact (CodeFrame.accounts_of_layout hlayout).info_length_le (hsplit ▸ List.mem_append_cons_self)

/-- Each step inwards costs eighteen bytes. -/
theorem DecodedAt.info_length_le {depth : Nat} (h : DecodedAt pool a depth b) :
    b.info.length + 18 * depth ≤ a.info.length + 18 := by
  induction h with
  | self => exact Nat.le_refl _
  | inside hab _ ih =>
      have hle := hab.info_length_le
      omega

theorem shallow_of_length (pool : ConstantPool) (a : AttributeInfo) :
    Shallow pool (a.info.length / 18 + 1) a := by
  intro depth b hb
  have hle := hb.info_length_le
  omega

/-- The frame of code with nothing in it but one attribute. -/
def frameAround (a : AttributeInfo) : CodeFrame := ⟨0, 0, [], [], [a]⟩

theorem codeFrame?_frameAround (h : a.info.length < 0x100000000) :
    codeFrame? (writeCodeFrame (frameAround a)) = some (frameAround a) := by
  refine codeFrame?_eq_some_iff.2 (writes_code.layout_write ?_)
  constructor
  case code | handlers => exact Nat.zero_lt_succ _
  case attributes => exact Nat.succ_lt_succ (Nat.zero_lt_succ _)
  case infos => exact List.forall_mem_singleton.2 h

/-- Code inside code, each around the next, with some bytes inside all of
it. -/
def codeAround (nameIndex : UInt16) (bytes : List UInt8) : Nat → AttributeInfo
  | 0 => ⟨nameIndex, bytes⟩
  | depth + 1 => ⟨nameIndex, writeCodeFrame (frameAround (codeAround nameIndex bytes depth))⟩

theorem length_codeAround (nameIndex : UInt16) (bytes : List UInt8) (depth : Nat) :
    (codeAround nameIndex bytes depth).info.length = 18 * depth + bytes.length := by
  induction depth with
  | zero => exact (Nat.zero_add _).symm
  | succ depth ih =>
      simp only [codeAround, frameAround, writeCodeFrame, writeList, writeBlock, writeAttributeInfo,
        writeU2, writeU4, List.flatMap_cons, List.flatMap_nil, List.length_append,
        List.length_cons, List.length_nil, ih]
      omega

theorem decodedAt_codeAround {nameIndex : UInt16} (hcode : pool.utf8 nameIndex = .ok "Code")
    (bytes : List UInt8) {depth : Nat} (hfits : 18 * depth + bytes.length < 0x100000000) :
    DecodedAt pool (codeAround nameIndex bytes depth) (depth + 1) ⟨nameIndex, bytes⟩ := by
  induction depth with
  | zero => exact .self
  | succ depth ih =>
      have hinner : (codeAround nameIndex bytes depth).info.length < 0x100000000 := by
        rw [length_codeAround]
        omega
      have hname : (codeAround nameIndex bytes (depth + 1)).recognised? pool = some .code := by
        rw [codeAround, AttributeInfo.recognised?_of_utf8 hcode]
        rfl
      have hframe := frameIn?_eq_some_iff.2 ⟨hname, codeFrame?_frameAround hinner⟩
      exact .inside (enters_first hframe rfl) (ih (by omega))

/-- The limit is reached for every number of bytes that can be nested. -/
theorem exists_decodedAt_limit {nameIndex : UInt16} (hcode : pool.utf8 nameIndex = .ok "Code")
    {n : Nat} (hn : n < 0x100000000) :
    ∃ a b, a.info.length = n ∧ DecodedAt pool a (n / 18 + 1) b := by
  have hbytes : 18 * (n / 18) + (List.replicate (n % 18) (0 : UInt8)).length = n := by
    rw [List.length_replicate]
    exact Nat.div_add_mod n 18
  refine ⟨_, _, ?_, decodedAt_codeAround hcode (List.replicate (n % 18) 0) (hbytes.symm ▸ hn)⟩
  rw [length_codeAround, hbytes]

/-- A frame accounts for every byte of its payload, and each payload in it is
shorter by eighteen.  Nothing is decoded deeper than that allows, and so the
steps of decoding end, with the answer that decoding gives. -/
theorem decoding_ends (pool : ConstantPool) (a : AttributeInfo) :
    (∀ frame, codeFrame? a.info = some frame →
      frame.Accounts a.info ∧ ∀ b ∈ frame.attributes, b.info.length + 18 ≤ a.info.length) ∧
    (∀ depth b, DecodedAt pool a depth b → depth ≤ a.info.length / 18 + 1) ∧
    decodeWith pool (fun b => within (decode pool b)) a = within (decode pool a) ∧
    (∀ limit, Shallow pool limit a → decodeTo pool limit a = within (decode pool a)) ∧
    (∀ limit, ¬ Shallow pool limit a → decodeTo pool limit a = tooDeep) ∧
    (∀ limit, a.info.length / 18 + 1 ≤ limit → decodeTo pool limit a = within (decode pool a)) ∧
    (∀ infos limit, (∀ b ∈ infos, b.info.length / 18 + 1 ≤ limit) →
      infos.mapM (decodeTo pool limit) = within (decodeAll pool infos)) := by
  have hlimit : ∀ (b : AttributeInfo) (limit : Nat), b.info.length / 18 + 1 ≤ limit →
      decodeTo pool limit b = within (decode pool b) := by
    intro b limit hle
    exact (decodeTo_eq pool limit b).1 ((shallow_of_length pool b).mono hle)
  refine ⟨?_, shallow_of_length pool a, decodeWith_decode pool a,
    fun limit => (decodeTo_eq pool limit a).1, fun limit => (decodeTo_eq pool limit a).2,
    hlimit a, ?_⟩
  · intro frame hframe
    have haccounts := CodeFrame.accounts_of_layout (codeFrame?_eq_some_iff.1 hframe)
    exact ⟨haccounts, fun b hb => haccounts.info_length_le hb⟩
  · intro infos limit hle
    refine mapM_eq_within fun before b after hsplit _ => hlimit b limit (hle b ?_)
    exact hsplit ▸ List.mem_append_cons_self

/-- A pool of two attribute names, one of them not recognised. -/
def codeAndDeprecated : ConstantPool := ⟨#[.utf8 "Code", .utf8 "Deprecated"]⟩

/-- An attribute without a payload. -/
def deprecated : AttributeInfo := ⟨2, []⟩

/-- One byte of code and a handler, and two attributes, the second with one
more inside. -/
def nestingFrame : CodeFrame :=
  ⟨1, 1, [0xb1], [⟨0, 1, 0, 0⟩], [deprecated, ⟨1, writeCodeFrame (frameAround deprecated)⟩]⟩

/-- Its 51 bytes allow a depth of three, which is reached; a limit of two is
too low. -/
theorem decoding_ends_code_in_code :
    codeFrame? (writeCodeFrame nestingFrame) = some nestingFrame ∧
    nestingFrame.slices = [⟨27, 0⟩, ⟨33, 18⟩] ∧
    nestingFrame.Accounts (writeCodeFrame nestingFrame) ∧
    (writeCodeFrame nestingFrame).length / 18 + 1 = 3 ∧
    DecodedAt codeAndDeprecated ⟨1, writeCodeFrame nestingFrame⟩ 3 deprecated ∧
    Shallow codeAndDeprecated 3 ⟨1, writeCodeFrame nestingFrame⟩ ∧
    decodeTo codeAndDeprecated 2 ⟨1, writeCodeFrame nestingFrame⟩ = tooDeep ∧
    decodeTo codeAndDeprecated 3 ⟨1, writeCodeFrame nestingFrame⟩ =
      within (decode codeAndDeprecated ⟨1, writeCodeFrame nestingFrame⟩) ∧
    nestingFrame.attributes.mapM (decodeTo codeAndDeprecated 2) =
      within (decodeAll codeAndDeprecated nestingFrame.attributes) := by
  have houter : codeFrame? (writeCodeFrame nestingFrame) = some nestingFrame := by decide
  have hinner : codeFrame? (writeCodeFrame (frameAround deprecated)) =
      some (frameAround deprecated) := codeFrame?_frameAround (by decide)
  have hcode : ∀ info, (⟨1, info⟩ : AttributeInfo).recognised? codeAndDeprecated = some .code :=
    fun _ => rfl
  have hdeprecated : decode codeAndDeprecated deprecated = .ok .unknown := by
    rw [decode]
    rfl
  have hfirst : Enters codeAndDeprecated ⟨1, writeCodeFrame (frameAround deprecated)⟩ deprecated :=
    enters_first (frameIn?_eq_some_iff.2 ⟨hcode _, hinner⟩) rfl
  have hsecond : Enters codeAndDeprecated ⟨1, writeCodeFrame nestingFrame⟩
      ⟨1, writeCodeFrame (frameAround deprecated)⟩ :=
    ⟨frameIn?_eq_some_iff.2 ⟨hcode _, houter⟩, rfl,
      List.forall_mem_singleton.2 ⟨.unknown, hdeprecated⟩⟩
  have hdepth := DecodedAt.inside hsecond (.inside hfirst .self)
  have hlimit : (writeCodeFrame nestingFrame).length / 18 + 1 = 3 := by decide
  obtain ⟨hframe, hbound, -, hshallow, hdeep, -, hall⟩ :=
    decoding_ends codeAndDeprecated ⟨1, writeCodeFrame nestingFrame⟩
  have hthree : Shallow codeAndDeprecated 3 ⟨1, writeCodeFrame nestingFrame⟩ := by
    intro depth b hb
    exact hlimit ▸ hbound depth b hb
  refine ⟨houter, rfl, (hframe _ houter).1, hlimit, hdepth, hthree, ?_, hshallow 3 hthree, ?_⟩
  · exact hdeep 2 fun htwo => absurd (htwo _ _ hdepth) (by decide)
  · exact hall _ 2 (by decide)

end MethodArea.Attribute
