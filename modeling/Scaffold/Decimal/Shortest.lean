/-! # The shortest decimal that reads back

A finite double stands for the reals that round to it: an interval around its
exact value, ends included when its significand is even. The decimal shown for a
double is the point of that interval on the coarsest grid of powers of ten that
meets it at all. Where two points of that grid lie in the interval the nearer one
is shown, and of two equally near ones the even one.

Everything is exact arithmetic on natural numbers. Bounds are kept in quarters of
the last place of the significand, since the interval is narrower below a power of
two.
-/

namespace Scaffold.Decimal

/-- A positive double: the value `significand * 2 ^ exponent`, and whether the
next smaller double is only half as far away as the next larger one. -/
structure Positive where
  significand : Nat
  exponent : Int
  narrowBelow : Bool
deriving Repr, DecidableEq

/-- Takes a double apart; the sign is dropped. -/
def Positive.ofBits (bits : Nat) : Positive :=
  let biased : Nat := bits / Nat.pow 2 52 % Nat.pow 2 11
  let fraction : Nat := bits % Nat.pow 2 52
  if biased = 0 then ⟨fraction, -1074, false⟩
  else ⟨Nat.pow 2 52 + fraction, (biased : Int) - 1075, fraction == 0 && biased > 1⟩

/-- A decimal: `digits * 10 ^ exponent`. -/
structure Scientific where
  digits : Nat
  exponent : Int
deriving Repr, DecidableEq

/-- The length of one step of the grid `10 ^ k`, over a common denominator. -/
def gridStep (x : Positive) (k : Int) : Nat :=
  4 * Nat.pow 10 k.toNat * Nat.pow 2 (-x.exponent).toNat

/-- The length of a quarter of the last place, over the same denominator. -/
def quarterPlace (x : Positive) (k : Int) : Nat :=
  Nat.pow 2 x.exponent.toNat * Nat.pow 10 (-k).toNat

/-- Whether a grid point lies among the reals that round to `x`. -/
def Positive.covers (x : Positive) (k : Int) (point : Nat) : Bool :=
  let low := (4 * x.significand - if x.narrowBelow then 1 else 2) * quarterPlace x k
  let high := (4 * x.significand + 2) * quarterPlace x k
  let here := point * gridStep x k
  if x.significand % 2 = 0 then low ≤ here && here ≤ high else low < here && here < high

/-- The point of the grid `10 ^ k` to show for `x`, if the grid meets its interval. -/
def Positive.onGrid (x : Positive) (k : Int) : Option Nat :=
  let exact := 4 * x.significand * quarterPlace x k
  let below := exact / gridStep x k
  let twiceRest := 2 * (exact % gridStep x k)
  let above := below + 1
  match x.covers k below, x.covers k above with
  | true, false => some below
  | false, true => some above
  | false, false => none
  | true, true =>
    if twiceRest < gridStep x k then some below
    else if gridStep x k < twiceRest then some above
    else if below % 2 = 0 then some below else some above

/-- Tries the grids from `10 ^ k` downwards. -/
def Positive.coarsest (x : Positive) (k : Int) : Nat → Scientific
  | 0 => ⟨x.significand, k⟩
  | more + 1 =>
    match x.onGrid k with
    | some point => ⟨point, k⟩
    | none => x.coarsest (k - 1) more

/-- The shortest decimal of a positive double. No double reaches `10 ^ 309`, and
the finest grid that any of them needs is `10 ^ (-324)`. -/
def Positive.shortest (x : Positive) : Scientific :=
  x.coarsest 308 700

end Scaffold.Decimal
