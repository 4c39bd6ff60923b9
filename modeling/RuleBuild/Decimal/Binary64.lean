/-!
Finite numbers of 53 significant bits, kept exactly as `mantissa · 2 ^ exponent`, and the way a
decimal literal is rounded to one: to the nearest number, or quickly, its leading digits first, then
one multiplication or division by a rounded power of ten.
-/
namespace RuleBuild

/-- A finite double-precision number. Zero keeps its sign. -/
structure Binary64 where
  negative : Bool
  mantissa : Nat
  exponent : Int
  deriving Repr, DecidableEq

namespace Binary64

/-- The exponent of the smallest subnormal number. -/
def leastExponent : Int := -1074

/-- The greatest exponent of a finite number. -/
def greatestExponent : Int := 971

/-- The least mantissa of a number that is not subnormal. -/
def leastNormal : Nat := 0x10000000000000

/-- The bound of all mantissas. -/
def mantissaBound : Nat := 0x20000000000000

/-- `num / (den · 2 ^ e)` as a fraction of natural numbers. -/
def scaled (num den : Nat) (e : Int) : Nat × Nat :=
  if 0 ≤ e then (num, den * Nat.pow 2 e.toNat) else (num * Nat.pow 2 (-e).toNat, den)

/-- The quotient rounded to the nearest whole number, a half to the even one. -/
def roundedQuotient (num den : Nat) : Nat :=
  let q := num / den
  let r := 2 * (num % den)
  if r > den || (r = den && q % 2 = 1) then q + 1 else q

/-- The number nearest to `num / den`, none when that is beyond every finite number. -/
def ofRatio (negative : Bool) (num den : Nat) : Option Binary64 :=
  if num = 0 then some ⟨negative, 0, leastExponent⟩
  else
    let guess := max leastExponent ((num.log2 : Int) - (den.log2 : Int) - 53)
    let (n, d) := scaled num den guess
    let e := if n / d < mantissaBound then guess else guess + 1
    let (n, d) := scaled num den e
    let m := roundedQuotient n d
    let (m, e) := if m = mantissaBound then (leastNormal, e + 1) else (m, e)
    if e ≤ greatestExponent then some ⟨negative, m, e⟩ else none

/-- The magnitude as a fraction. -/
def ratio (x : Binary64) : Nat × Nat :=
  if 0 ≤ x.exponent then (x.mantissa * Nat.pow 2 x.exponent.toNat, 1)
  else (x.mantissa, Nat.pow 2 (-x.exponent).toNat)

/-- The product with `10 ^ k`, the power rounded first. -/
def timesTen (x : Binary64) (k : Nat) : Option Binary64 := do
  let p ← ofRatio false (Nat.pow 10 k) 1
  let (a, b) := x.ratio
  let (c, d) := p.ratio
  ofRatio x.negative (a * c) (b * d)

/-- The quotient by `10 ^ k`, the power rounded first. -/
def overTen (x : Binary64) (k : Nat) : Option Binary64 := do
  let p ← ofRatio false (Nat.pow 10 k) 1
  let (a, b) := x.ratio
  let (c, d) := p.ratio
  ofRatio x.negative (a * d) (b * c)

/-- The greatest power of ten that is a finite number. -/
def greatestTen : Nat := 308

/-- `m · 10 ^ e`: `m` is rounded, then scaled by one power of ten, or by two where the first alone
is too small to be written. None when the result is beyond every finite number. -/
def ofDecimal (negative : Bool) (m : Nat) (e : Int) : Option Binary64 := do
  let x ← ofRatio negative m 1
  if x.mantissa = 0 then return x
  if 0 ≤ e then
    if e.toNat ≤ greatestTen then x.timesTen e.toNat else none
  else
    let k := (-e).toNat
    if k ≤ greatestTen then x.overTen k
    else if k ≤ 2 * greatestTen then (← x.overTen greatestTen).overTen (k - greatestTen)
    else return ⟨negative, 0, leastExponent⟩

/-- The number of decimal digits of `m`. -/
def decimalWidth (m : Nat) : Nat := (Nat.toDigits 10 m).length

/-- The number nearest to `m · 10 ^ e`, none when that is beyond every finite number. -/
def nearest? (negative : Bool) (m : Nat) (e : Int) : Option Binary64 :=
  let magnitude := e + decimalWidth m
  if m = 0 ∨ magnitude < -400 then some ⟨negative, 0, leastExponent⟩
  else if 400 < magnitude then none
  else if 0 ≤ e then ofRatio negative (m * Nat.pow 10 e.toNat) 1
  else ofRatio negative m (Nat.pow 10 (-e).toNat)

end Binary64
end RuleBuild
