/-
# `Text.Units` — characters as 16-bit units

A character below U+10000 is one unit; a character above it is two, a
high surrogate followed by a low one.  No character is a surrogate, so a
surrogate unit that is not part of such a pair stands for nothing:
`toChars?` refuses a list of units that holds one.
-/
namespace MethodArea.Text.Units

/-- The units of a character. -/
def ofChar (c : Char) : List Nat :=
  if c.toNat < 0x10000 then [c.toNat]
  else [0xD800 + (c.toNat - 0x10000) / 0x400, 0xDC00 + (c.toNat - 0x10000) % 0x400]

/-- A unit that opens a pair. -/
def IsHigh (u : Nat) : Prop := 0xD800 ≤ u ∧ u < 0xDC00

instance (u : Nat) : Decidable (IsHigh u) := inferInstanceAs (Decidable (_ ∧ _))

/-- A unit that closes a pair. -/
def IsLow (u : Nat) : Prop := 0xDC00 ≤ u ∧ u < 0xE000

instance (u : Nat) : Decidable (IsLow u) := inferInstanceAs (Decidable (_ ∧ _))

/-- The character of a pair of units. -/
def pair (high low : Nat) : Char :=
  Char.ofNat (0x10000 + (high - 0xD800) * 0x400 + (low - 0xDC00))

/-- The characters of a list of units, after those in `done` (last one
first). -/
def toCharsFrom (done : List Char) : List Nat → Option (List Char)
  | [] => some done.reverse
  | u :: rest =>
    if IsHigh u then
      match rest with
      | [] => none
      | v :: rest => if IsLow v then toCharsFrom (pair u v :: done) rest else none
    else if IsLow u then none
    else toCharsFrom (Char.ofNat u :: done) rest

/-- The characters of a list of units; none where a surrogate stands
alone. -/
def toChars? (units : List Nat) : Option (List Char) := toCharsFrom [] units

end MethodArea.Text.Units
