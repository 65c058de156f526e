/-
# `Decimal.Shortest` — the fewest digits that read back

Among the decimals that round to a given binary number, the one chosen
has the fewest digits, and of two with as few the nearer one is taken; an
exact tie goes up.  The search walks down the grids of multiples of
`10^k`.  A grid that holds a decimal of the number's interval holds one
right beside the number, so only its two neighbours are tried, and the
first grid with a hit is the coarsest one that has any.

All comparisons are exact.  On the grid of `10^k` the number
`m · 2^q` and the grid point `d · 10^k` are both multiplied up to
integers: `4m · left` and `d · right`, where the factor 4 makes room for
the ends of the interval.
-/
import MethodArea.Decimal.Binary

namespace MethodArea

/-- The number `digits · 10^exponent`. -/
structure Decimal where
  digits : Nat
  exponent : Int
deriving DecidableEq

namespace Decimal

/-- The multiples of `10^k` beside a number: a quarter of its unit is
`left` and a step of the grid is `right`, on a common scale. -/
structure Grid where
  left : Nat
  right : Nat

/-- The grid of `10^k` beside `m · 2^q`. -/
def Grid.ofExponents (q k : Int) : Grid where
  left := Nat.pow 2 (q - 2).toNat * Nat.pow 10 (-k).toNat
  right := Nat.pow 10 k.toNat * Nat.pow 2 (2 - q).toNat

/-- Whether the grid point `d` rounds to the number: it lies between the
ends of the interval, or on an end where the mantissa is even. -/
def Magnitude.reads (x : Magnitude) (g : Grid) (d : Nat) : Bool :=
  let low := (4 * x.mantissa - if x.narrowBelow then 1 else 2) * g.left
  let high := (4 * x.mantissa + 2) * g.left
  let point := d * g.right
  if x.mantissa % 2 = 0 then low ≤ point && point ≤ high else low < point && point < high

/-- The grid point of `10^k` that stands for the number, if one does. -/
def Magnitude.onGrid? (x : Magnitude) (k : Int) : Option Decimal :=
  let g := Grid.ofExponents x.exponent k
  let value := 4 * x.mantissa * g.left
  let below := value / g.right
  match x.reads g below, x.reads g (below + 1) with
  | true, true => some ⟨if 2 * (value % g.right) < g.right then below else below + 1, k⟩
  | true, false => some ⟨below, k⟩
  | false, true => some ⟨below + 1, k⟩
  | false, false => none

/-- The decimal that equals the number, however long. -/
def Magnitude.exactly (x : Magnitude) : Decimal :=
  if 0 ≤ x.exponent then ⟨x.mantissa * Nat.pow 2 x.exponent.toNat, 0⟩
  else ⟨x.mantissa * Nat.pow 5 (-x.exponent).toNat, x.exponent⟩

/-- An exponent `k` for which `10^k` exceeds every number that rounds to
this one: a number below `2^n` is below `10^(n · 0.30103 + 1)`. -/
def Magnitude.topExponent (x : Magnitude) : Int :=
  ((Nat.log2 x.mantissa : Int) + 2 + x.exponent) * 30103 / 100000 + 2

/-- The grids that are searched, coarsest first.  Seventeen digits read
back in either format, and the top exponent is at most four places above
the first digit. -/
def Magnitude.gridExponents (x : Magnitude) : List Int :=
  (List.range 24).map (fun (n : Nat) => x.topExponent - n)

/-- The decimal with the fewest digits that rounds to the number. -/
def Magnitude.shortest (x : Magnitude) : Decimal :=
  (x.gridExponents.findSome? x.onGrid?).getD x.exactly

end Decimal

end MethodArea
