import RuleBuild.Decimal.Binary64

/-!
The shortest decimal that reads back as a given double, and its text. Among the decimals of fewest
digits that round to the number, the one nearest to it is taken.
-/
namespace RuleBuild.Decimal

/-- The decimal `digits · 10 ^ exponent`. -/
structure Digits where
  digits : Nat
  exponent : Int
  deriving Repr, DecidableEq

/-- The numbers that round to `m · 2 ^ e`, over the common denominator `den`: the number itself,
the two ends, and whether the ends belong to it. -/
structure Interval where
  low : Nat
  value : Nat
  high : Nat
  den : Nat
  closed : Bool

/-- The gap below a power of two is half the gap above it. -/
def Interval.of (x : Binary64) : Interval :=
  let unit := if 0 ≤ x.exponent then Nat.pow 2 x.exponent.toNat else 1
  let den := if 0 ≤ x.exponent then 1 else Nat.pow 2 (-x.exponent).toNat
  let below :=
    if x.mantissa = Binary64.leastNormal && x.exponent ≠ Binary64.leastExponent then 1 else 2
  ⟨(4 * x.mantissa - below) * unit, 4 * x.mantissa * unit, (4 * x.mantissa + 2) * unit, 4 * den,
    x.mantissa % 2 = 0⟩

/-- Whether `n / d` rounds to the number. -/
def Interval.contains (i : Interval) (n d : Nat) : Bool :=
  if i.closed then i.low * d ≤ n * i.den && n * i.den ≤ i.high * d
  else i.low * d < n * i.den && n * i.den < i.high * d

/-- The distance of `n / d` from the number, times `d` and the common denominator. -/
def Interval.distance (i : Interval) (n d : Nat) : Nat :=
  (n * i.den - i.value * d) + (i.value * d - n * i.den)

/-- The point on the grid of step `10 ^ step` that rounds to the number, the nearer of its two
neighbours there if both do. -/
def Interval.onGrid? (i : Interval) (step : Int) : Option Nat :=
  let up := if 0 ≤ step then Nat.pow 10 step.toNat else 1
  let down := if 0 ≤ step then 1 else Nat.pow 10 (-step).toNat
  let low := i.value * down / (i.den * up)
  let hits := [low, low + 1].filter fun k => i.contains (k * up) down
  match hits with
  | [a, b] =>
    let da := i.distance (a * up) down
    let db := i.distance (b * up) down
    if da < db || (da = db && a % 2 = 0) then some a else some b
  | [a] => some a
  | _ => none

/-- The least `k`, counted from `guess` upwards, with the number below `10 ^ k`. -/
def Interval.magnitude (i : Interval) : Nat → Int → Int
  | 0, k => k
  | fuel + 1, k =>
    let up := if 0 ≤ k then Nat.pow 10 k.toNat else 1
    let down := if 0 ≤ k then 1 else Nat.pow 10 (-k).toNat
    if i.value * down < i.den * up then k else i.magnitude fuel (k + 1)

/-- The first grid, of `count`, `count + 1`, … digits, that has a point in the interval. -/
def Interval.search (i : Interval) (magnitude : Int) : Nat → Nat → Digits
  | 0, count => ⟨0, magnitude - count⟩
  | fuel + 1, count =>
    match i.onGrid? (magnitude - count) with
    | some k => ⟨k, magnitude - count⟩
    | none => i.search magnitude fuel (count + 1)

/-- The shortest decimal that rounds to `x`. Seventeen digits always suffice; the logarithm of the
number is within one of the guess, its binary exponent times the logarithm of two. -/
def shortest (x : Binary64) : Digits :=
  let i := Interval.of x
  let bits : Int := (x.mantissa.log2 : Int) + x.exponent
  i.search (i.magnitude 4 (bits * 30103 / 100000)) 18 1

/-- How numbers are written: positional notation for decimal exponents from `leastPositional` up to
`beyondPositional`, with a fraction of at least one digit, and `d.dddde±x` outside. -/
structure Style where
  leastPositional : Int
  beyondPositional : Int

/-- Numbers from `0.00001` up to `1e16` are written positionally. -/
def numberStyle : Style := ⟨-5, 16⟩

/-- `ds` and the zeros that fill it up to `n` digits. -/
def padded (ds : List Char) (n : Nat) : List Char :=
  ds ++ List.replicate (n - ds.length) '0'

/-- The digits without the zeros at their end. -/
def significant (ds : List Char) : List Char :=
  (ds.reverse.dropWhile (· = '0')).reverse

/-- The text of a nonzero decimal in the given style. -/
def Digits.text (style : Style) (d : Digits) : List Char :=
  let all := (toString d.digits).toList
  let ds := significant all
  let x : Int := d.exponent + all.length - 1
  if x < style.leastPositional || style.beyondPositional ≤ x then
    let fraction := if ds.length ≤ 1 then [] else '.' :: ds.drop 1
    let sign := if x < 0 then '-' else '+'
    ds.take 1 ++ fraction ++ ['e', sign] ++ (toString x.natAbs).toList
  else if x < 0 then
    ['0', '.'] ++ List.replicate ((-x).toNat - 1) '0' ++ ds
  else
    let whole := x.toNat + 1
    let fraction := ds.drop whole
    (padded ds whole).take whole ++ ['.'] ++ (if fraction.isEmpty then ['0'] else fraction)

end RuleBuild.Decimal

namespace RuleBuild

/-- The shortest text that reads back as `x`. -/
def Binary64.text (x : Binary64) : String :=
  let body := if x.mantissa = 0 then ['0', '.', '0']
    else (Decimal.shortest x).text Decimal.numberStyle
  String.ofList (if x.negative then '-' :: body else body)

end RuleBuild
