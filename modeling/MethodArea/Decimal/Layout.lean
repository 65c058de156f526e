/-
# `Decimal.Layout` — decimals as text

A decimal is written positionally, with a digit on either side of the
point, when the exponent of its first digit lies in the range that the
layout gives; outside of it one digit stands before the point, the point
is left out when nothing follows it, and `e` and the exponent close the
text.
-/
import MethodArea.Decimal.Shortest

namespace MethodArea.Decimal

/-- The exponents of the first digit that are written positionally. -/
structure Layout where
  plainFrom : Int
  plainBelow : Int

/-- The positional form of the digits `ds` with the point after the first
`before` of them. -/
def positional (ds : List Char) (before : Int) : List Char :=
  if before ≤ 0 then
    '0' :: '.' :: (List.replicate (-before).toNat '0' ++ ds)
  else
    let whole := ds.take before.toNat
    let zeros := List.replicate (before.toNat - ds.length) '0'
    let fraction := ds.drop before.toNat
    whole ++ zeros ++ '.' :: (if fraction.isEmpty then ['0'] else fraction)

/-- The exponent form of the digits `ds` with one digit before the
point. -/
def scientific (ds : List Char) (exponent : Int) : List Char :=
  let fraction := ds.drop 1
  ds.take 1 ++ (if fraction.isEmpty then [] else '.' :: fraction) ++ 'e' :: (toString exponent).toList

/-- The text of a decimal. -/
def write (l : Layout) (d : Decimal) : List Char :=
  let ds := Nat.toDigits 10 d.digits
  let first := d.exponent + ds.length - 1
  if l.plainFrom ≤ first ∧ first < l.plainBelow then positional ds (first + 1)
  else scientific ds first

/-- The text of a bit pattern.  A zero keeps its sign, and all patterns
that are not numbers have one text. -/
def text (l : Layout) (f : BinaryFormat) (bits : Nat) : String :=
  let sign (negative : Bool) : List Char := if negative then ['-'] else []
  String.ofList <| match f.read bits with
    | .nan => "NaN".toList
    | .infinite negative => sign negative ++ "inf".toList
    | .zero negative => sign negative ++ "0.0".toList
    | .finite negative x => sign negative ++ write l x.shortest

end MethodArea.Decimal
