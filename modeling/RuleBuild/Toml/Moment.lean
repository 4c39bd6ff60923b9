import RuleBuild.Text.Digit
import RuleBuild.Toml.Text

/-!
Dates and times of day, alone or together, and the latter with an offset from universal time.
-/
namespace RuleBuild.Toml

/-- A day of the calendar. -/
structure Date where
  year : Nat
  month : Nat
  day : Nat
  deriving Repr, DecidableEq

/-- A time of day. The fraction of the second is its digits. -/
structure Time where
  hour : Nat
  minute : Nat
  second : Nat
  fraction : List Char
  deriving Repr, DecidableEq

/-- A date, a time of day, or both; then there may be an offset in minutes. -/
structure Moment where
  date : Option Date
  time : Option Time
  offset : Option Int
  deriving Repr, DecidableEq

/-- Whether a year has a 29th of February. -/
def isLeapYear (year : Nat) : Bool := year % 4 = 0 && (year % 100 ≠ 0 || year % 400 = 0)

/-- The number of days of a month. -/
def daysOfMonth (year month : Nat) : Nat :=
  if month = 2 then (if isLeapYear year then 29 else 28)
  else if month ∈ [4, 6, 9, 11] then 30
  else 31

/-- A number of exactly `n` digits and the text after it. -/
def readDigits (n : Nat) : Reader Nat := fun cs =>
  if (cs.takeWhile Char.isDigit).length = n then
    (Text.number? (cs.take n)).map (·, cs.drop n)
  else none

/-- A date and the text after it. -/
def readDate : Reader Date := fun cs => do
  let (year, cs) ← readDigits 4 cs
  let (month, cs) ← readDigits 2 (← afterMark? ['-'] cs)
  let (day, cs) ← readDigits 2 (← afterMark? ['-'] cs)
  if 1 ≤ month ∧ month ≤ 12 ∧ 1 ≤ day ∧ day ≤ daysOfMonth year month then
    return (⟨year, month, day⟩, cs)
  else none

/-- The fraction of a second, if there is one, and the text after it. -/
def readFraction : Reader (List Char) := fun cs =>
  match afterMark? ['.'] cs with
  | some cs =>
    let digits := cs.takeWhile Char.isDigit
    if digits.isEmpty then none else some (digits, cs.drop digits.length)
  | none => some ([], cs)

/-- A time of day and the text after it. Seconds may be left out, and there may be a leap second. -/
def readTime : Reader Time := fun cs => do
  let (hour, cs) ← readDigits 2 cs
  let (minute, cs) ← readDigits 2 (← afterMark? [':'] cs)
  let (second, fraction, cs) ←
    match afterMark? [':'] cs with
    | some cs => do
      let (second, cs) ← readDigits 2 cs
      let (fraction, cs) ← readFraction cs
      some (second, fraction, cs)
    | none => some (0, [], cs)
  if hour ≤ 23 ∧ minute ≤ 59 ∧ second ≤ 60 then return (⟨hour, minute, second, fraction⟩, cs)
  else none

/-- An offset in minutes. -/
def offset? : List Char → Option Int
  | ['Z'] => some 0
  | ['z'] => some 0
  | sign :: cs => do
    let (hours, cs) ← readDigits 2 cs
    let (minutes, cs) ← readDigits 2 (← afterMark? [':'] cs)
    if cs ≠ [] ∨ 23 < hours ∨ 59 < minutes then none
    else
      let total : Int := hours * 60 + minutes
      if sign = '+' then some total else if sign = '-' then some (-total) else none
  | [] => none

namespace Moment

/-- The moment that a text spells. -/
def ofChars? (cs : List Char) : Option Moment :=
  match readDate cs with
  | some (date, []) => some ⟨some date, none, none⟩
  | some (date, cs) => do
    let (time, cs) ← readTime (← afterMark? ['T', 't', ' '] cs)
    if cs = [] then return ⟨some date, some time, none⟩
    else return ⟨some date, some time, some (← offset? cs)⟩
  | none => do
    let (time, cs) ← readTime cs
    if cs = [] then return ⟨none, some time, none⟩ else none

end Moment
end RuleBuild.Toml
