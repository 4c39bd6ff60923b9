import RuleBuild.Json.Basic

/-!
Writing JSON, on one line without spaces or over lines indented by two. Characters other than the
quote, the backslash and the controls below U+0020 stand for themselves.
-/
namespace RuleBuild.Json

/-- The digit of a number below sixteen. -/
def hexDigit (n : Nat) : Char :=
  if n < 10 then Char.ofNat (n + '0'.toNat) else Char.ofNat (n - 10 + 'a'.toNat)

/-- A character as it stands in a string literal. -/
def escape (c : Char) : List Char :=
  if c = '"' then ['\\', '"']
  else if c = '\\' then ['\\', '\\']
  else if c = '\n' then ['\\', 'n']
  else if c = '\r' then ['\\', 'r']
  else if c = '\t' then ['\\', 't']
  else if c = '\x08' then ['\\', 'b']
  else if c = '\x0c' then ['\\', 'f']
  else if c.toNat < 32 then ['\\', 'u', '0', '0', hexDigit (c.toNat / 16), hexDigit (c.toNat % 16)]
  else [c]

/-- The literal of a string. -/
def quoted (s : String) : List Char :=
  '"' :: s.toList.flatMap escape ++ ['"']

/-- The text of a number. -/
def numberChars : Number → List Char
  | .whole i => (toString i).toList
  | .double x => x.text.toList

/-- The parts one after the other, with commas between them. -/
def commas : List (List Char) → List Char
  | [] => []
  | [x] => x
  | x :: y :: rest => x ++ ',' :: commas (y :: rest)

mutual

/-- The text of a value on one line. -/
def chars : Json → List Char
  | .null => ['n', 'u', 'l', 'l']
  | .bool true => ['t', 'r', 'u', 'e']
  | .bool false => ['f', 'a', 'l', 's', 'e']
  | .number n => numberChars n
  | .string s => quoted s
  | .array items => '[' :: commas (itemChars items) ++ [']']
  | .object members => '\x7b' :: commas (memberChars members) ++ ['\x7d']

/-- The texts of items. -/
def itemChars : List Json → List (List Char)
  | [] => []
  | x :: xs => chars x :: itemChars xs

/-- The texts of members. -/
def memberChars : List (String × Json) → List (List Char)
  | [] => []
  | (key, x) :: ms => (quoted key ++ ':' :: chars x) :: memberChars ms

end

/-- A line break and the indentation of a nesting level. -/
def lineBreak (level : Nat) : List Char :=
  '\n' :: List.replicate (2 * level) ' '

/-- The parts between two brackets, each on a line of its own. -/
def block (left right : Char) (level : Nat) (parts : List (List Char)) : List Char :=
  match parts with
  | [] => [left, right]
  | _ => left :: commas (parts.map (lineBreak (level + 1) ++ ·)) ++ lineBreak level ++ [right]

mutual

/-- The text of a value over several lines, for a value at the given nesting level. -/
def prettyChars (level : Nat) : Json → List Char
  | .array items => block '[' ']' level (prettyItems (level + 1) items)
  | .object members => block '\x7b' '\x7d' level (prettyMembers (level + 1) members)
  | .null => chars .null
  | .bool b => chars (.bool b)
  | .number n => chars (.number n)
  | .string s => chars (.string s)

/-- The texts of items over several lines. -/
def prettyItems (level : Nat) : List Json → List (List Char)
  | [] => []
  | x :: xs => prettyChars level x :: prettyItems level xs

/-- The texts of members over several lines. -/
def prettyMembers (level : Nat) : List (String × Json) → List (List Char)
  | [] => []
  | (key, x) :: ms => (quoted key ++ ':' :: ' ' :: prettyChars level x) :: prettyMembers level ms

end

/-- The text of a value on one line. -/
def compact (j : Json) : String := String.ofList (chars j)

/-- The text of a value over several lines. -/
def pretty (j : Json) : String := String.ofList (prettyChars 0 j)

end RuleBuild.Json
