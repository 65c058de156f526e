/-
# `Decimal.Binary` — floating-point bit patterns as numbers

A pattern has a sign bit, an exponent field and a fraction field.  Read
as a number it is not a number, an infinity, a zero, or `m · 2^q` with a
positive `m`.  The reals that round to `m · 2^q` reach half a unit of `m`
to either side, except that the step below the least `m` of a binade is
half as wide: `narrowBelow` marks those patterns.
-/
namespace MethodArea.Decimal

/-- The widths of the two fields below the sign bit. -/
structure BinaryFormat where
  exponentBits : Nat
  fractionBits : Nat

/-- The 32-bit format. -/
def BinaryFormat.single : BinaryFormat := ⟨8, 23⟩

/-- The 64-bit format. -/
def BinaryFormat.double : BinaryFormat := ⟨11, 52⟩

/-- The positive number `mantissa · 2^exponent` of a format. -/
structure Magnitude where
  mantissa : Nat
  exponent : Int
  narrowBelow : Bool
deriving DecidableEq

/-- What a bit pattern stands for. -/
inductive Reading where
  | nan
  | infinite (negative : Bool)
  | zero (negative : Bool)
  | finite (negative : Bool) (magnitude : Magnitude)
deriving DecidableEq

namespace BinaryFormat

/-- The exponent of the last place of the fraction in the lowest
binade. -/
def leastExponent (f : BinaryFormat) : Int :=
  2 - Nat.pow 2 (f.exponentBits - 1) - f.fractionBits

/-- The reading of a bit pattern. -/
def read (f : BinaryFormat) (bits : Nat) : Reading :=
  let fraction := bits % Nat.pow 2 f.fractionBits
  let exponent := bits / Nat.pow 2 f.fractionBits % Nat.pow 2 f.exponentBits
  let negative := bits / Nat.pow 2 (f.fractionBits + f.exponentBits) % 2 == 1
  if exponent = Nat.pow 2 f.exponentBits - 1 then
    if fraction = 0 then .infinite negative else .nan
  else if exponent = 0 then
    if fraction = 0 then .zero negative else .finite negative ⟨fraction, f.leastExponent, false⟩
  else
    .finite negative
      ⟨Nat.pow 2 f.fractionBits + fraction, f.leastExponent + (exponent - 1),
        fraction = 0 && exponent ≠ 1⟩

end BinaryFormat

end MethodArea.Decimal
