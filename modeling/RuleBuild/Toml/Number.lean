import RuleBuild.Decimal.Binary64
import RuleBuild.Text.Digit
import RuleBuild.Text.Hex
import RuleBuild.Text.Split

/-!
Whole and floating-point numbers as TOML spells them. Between two digits there may be an underscore.
-/
namespace RuleBuild.Toml

/-- A floating-point number. -/
inductive Floating
  | finite (value : Binary64)
  | infinite (negative : Bool)
  | undefined
  deriving Repr, DecidableEq

/-- The digits of a number without the underscores between them. -/
def digits? (cs : List Char) : Option (List Char) :=
  let groups := Text.split '_' cs
  if groups.any List.isEmpty then none else some groups.flatten

/-- The digits of a decimal number, without a zero in front of others. -/
def decimalDigits? (cs : List Char) : Option (List Char) := do
  let ds ← digits? cs
  if ds.all Char.isDigit ∧ (ds = ['0'] ∨ ds.head? ≠ some '0') then return ds else none

/-- The sign of a number, minus or not, and its text after the sign. -/
def splitSign : List Char → Bool × List Char
  | '-' :: cs => (true, cs)
  | '+' :: cs => (false, cs)
  | cs => (false, cs)

/-- A whole number in a base up to sixteen. -/
def wholeInBase? (base : Nat) (cs : List Char) : Option Nat := do
  let ds ← (← digits? cs).mapM Text.hexDigit?
  if ds.all (· < base) then return ds.foldl (fun n d => n * base + d) 0 else none

/-- The whole number that a text spells, whatever its size. -/
def whole? : List Char → Option Int
  | '0' :: 'x' :: cs => (wholeInBase? 16 cs).map Int.ofNat
  | '0' :: 'o' :: cs => (wholeInBase? 8 cs).map Int.ofNat
  | '0' :: 'b' :: cs => (wholeInBase? 2 cs).map Int.ofNat
  | cs => do
    let (negative, cs) := splitSign cs
    let n ← Text.number? (← decimalDigits? cs)
    return if negative then -(n : Int) else n

/-- Whether a whole number fits into 128 bits, with or without a sign. -/
def isWide (i : Int) : Bool :=
  -0x80000000000000000000000000000000 ≤ i && i < 0x100000000000000000000000000000000

/-- The exponent of a number, zero where there is none. -/
def exponent? : Option (List Char) → Option Int
  | none => some 0
  | some cs => do
    let (negative, cs) := splitSign cs
    let n ← Text.number? (← digits? cs)
    return if negative then -(n : Int) else n

/-- A text up to a character that satisfies `p`, and what stands after that character. -/
def cutAt (p : Char → Bool) (cs : List Char) : List Char × Option (List Char) :=
  match cs.dropWhile (! p ·) with
  | [] => (cs, none)
  | _ :: rest => (cs.takeWhile (! p ·), some rest)

/-- The floating-point number that a text spells. A number beyond all finite ones is refused. -/
def floating? (cs : List Char) : Option Floating :=
  let (negative, cs) := splitSign cs
  if cs = "inf".toList then some (.infinite negative)
  else if cs = "nan".toList then some .undefined
  else do
    let (body, power) := cutAt (fun c => c = 'e' || c = 'E') cs
    let (whole, fraction) := cutAt (· = '.') body
    let wholeDigits ← decimalDigits? whole
    let fractionDigits ← fraction.elim (some []) digits?
    let power ← exponent? power
    let m ← Text.number? (wholeDigits ++ fractionDigits)
    (Binary64.nearest? negative m (power - fractionDigits.length)).map .finite

end RuleBuild.Toml
