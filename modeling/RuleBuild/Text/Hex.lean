/-!
Hexadecimal digits, and characters given by their number in them.
-/
namespace RuleBuild.Text

/-- The value of a hexadecimal digit. -/
def hexDigit? (c : Char) : Option Nat :=
  if c.isDigit then some (c.toNat - '0'.toNat)
  else if 'a' ≤ c && c ≤ 'f' then some (c.toNat - 'a'.toNat + 10)
  else if 'A' ≤ c && c ≤ 'F' then some (c.toNat - 'A'.toNat + 10)
  else none

/-- The character whose number is given by the first `n` digits. -/
def hexChar? (cs : List Char) (n : Nat) : Option Char := do
  let ds ← (cs.take n).mapM hexDigit?
  let v := ds.foldl (fun v d => v * 16 + d) 0
  if ds.length = n ∧ (v < 0xD800 ∨ (0xDFFF < v ∧ v < 0x110000)) then return Char.ofNat v else none

end RuleBuild.Text
