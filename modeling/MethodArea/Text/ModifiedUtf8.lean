/-
# `Text.ModifiedUtf8` — the byte form of constant pool text

Class files write text one 16-bit unit at a time.  A unit takes one byte
from 1 to 0x7F, two bytes up to 0x7FF, three bytes above that, and always
the fewest that hold it; the one exception is unit 0, which takes the two
bytes `C0 80`, so that no written text contains a zero byte.  A character
above U+FFFF is two units and hence six bytes, and the four-byte forms of
ordinary UTF-8 do not occur.

`encode` writes and `decode?` reads, and `decode?` accepts nothing but
what `encode` writes: overlong forms, a raw zero byte, lone surrogates and
cut-off text are all refused.
-/
import MethodArea.Text.Units

namespace MethodArea.Text.ModifiedUtf8

/-! ## Writing -/

/-- The bytes of a 16-bit unit. -/
def encodeUnit (u : Nat) : List UInt8 :=
  if 1 ≤ u ∧ u < 0x80 then [.ofNat u]
  else if u < 0x800 then [.ofNat (0xC0 + u / 0x40), .ofNat (0x80 + u % 0x40)]
  else [.ofNat (0xE0 + u / 0x1000), .ofNat (0x80 + u / 0x40 % 0x40), .ofNat (0x80 + u % 0x40)]

/-- The bytes of a character. -/
def encodeChar (c : Char) : List UInt8 := (Units.ofChar c).flatMap encodeUnit

/-- The bytes of a text. -/
def encode (text : String) : List UInt8 := text.toList.flatMap encodeChar

/-! ## Reading -/

/-- A byte that follows another one. -/
def IsTail (b : UInt8) : Prop := 0x80 ≤ b ∧ b ≤ 0xBF

instance (b : UInt8) : Decidable (IsTail b) := inferInstanceAs (Decidable (_ ∧ _))

/-- The unit of a one-byte form. -/
def single? (a : UInt8) : Option Nat :=
  if 1 ≤ a ∧ a ≤ 0x7F then some a.toNat else none

/-- The unit of a two-byte form: zero, or a unit too large for one
byte. -/
def double? (a b : UInt8) : Option Nat :=
  if (a = 0xC0 ∧ b = 0x80) ∨ (0xC2 ≤ a ∧ a ≤ 0xDF ∧ IsTail b) then
    some ((a.toNat - 0xC0) * 0x40 + (b.toNat - 0x80))
  else none

/-- The unit of a three-byte form: a unit too large for two bytes. -/
def triple? (a b c : UInt8) : Option Nat :=
  if ((a = 0xE0 ∧ 0xA0 ≤ b ∧ b ≤ 0xBF) ∨ (0xE1 ≤ a ∧ a ≤ 0xEF ∧ IsTail b)) ∧ IsTail c then
    some ((a.toNat - 0xE0) * 0x1000 + (b.toNat - 0x80) * 0x40 + (c.toNat - 0x80))
  else none

/-- The units of a list of bytes, after those in `done` (last one
first). -/
def unitsFrom (done : List Nat) : List UInt8 → Option (List Nat)
  | [] => some done.reverse
  | a :: rest =>
    match single? a with
    | some u => unitsFrom (u :: done) rest
    | none =>
      match rest with
      | [] => none
      | b :: rest =>
        match double? a b with
        | some u => unitsFrom (u :: done) rest
        | none =>
          match rest with
          | [] => none
          | c :: rest =>
            match triple? a b c with
            | some u => unitsFrom (u :: done) rest
            | none => none

/-- The units of a list of bytes. -/
def units? (bytes : List UInt8) : Option (List Nat) := unitsFrom [] bytes

/-- The text that a list of bytes stands for; none where it is not the
form of any text. -/
def decode? (bytes : List UInt8) : Option String :=
  ((units? bytes).bind Units.toChars?).map String.ofList

end MethodArea.Text.ModifiedUtf8
