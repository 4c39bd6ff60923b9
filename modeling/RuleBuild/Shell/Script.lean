/-!
One-line shell scripts: commands one after the other, joined by `&&` and `||`, connected by pipes,
with quoted words, variables and redirections of their streams. Anything else is no script here.
-/
namespace RuleBuild.Shell

/-- A part of a word. A quote mark keeps a word that is otherwise empty. -/
inductive Segment
  | char (c : Char) (quoted : Bool)
  | variable (name : String) (quoted : Bool)
  | quote
  deriving Repr, DecidableEq

/-- A word before its variables are replaced. -/
abbrev Word := List Segment

/-- A redirection: to or from a file, or to where another stream goes. -/
inductive Redirect
  | toFile (stream : Nat) (file : Word)
  | fromFile (file : Word)
  | toStream (stream target : Nat)
  deriving Repr, DecidableEq

/-- What a script consists of. -/
inductive Token
  | word (w : Word)
  | output (stream : Nat)
  | input
  | same (stream target : Nat)
  | next
  | both
  | either
  | pipe
  deriving Repr, DecidableEq

/-- The characters of variable names. -/
def isNameChar (c : Char) : Bool := c.isAlphanum || c = '_'

/-- A variable after its dollar sign, and the rest; a dollar sign that names nothing is itself. -/
def readVariable (quoted : Bool) : List Char → Segment × List Char
  | '\x7b' :: cs =>
    match cs.dropWhile isNameChar with
    | '\x7d' :: rest => (.variable (String.ofList (cs.takeWhile isNameChar)) quoted, rest)
    | _ => (.char '$' quoted, '\x7b' :: cs)
  | c :: cs =>
    if c = '?' || c = '#' || c = '$' || c.isDigit then (.variable (String.singleton c) quoted, cs)
    else if isNameChar c then
      (.variable (String.ofList ((c :: cs).takeWhile isNameChar)) quoted,
        cs.dropWhile isNameChar)
    else (.char '$' quoted, c :: cs)
  | [] => (.char '$' quoted, [])

/-- The inside of double quotes and the rest after them. -/
def readQuoted : Nat → Word → List Char → Option (Word × List Char)
  | 0, _, _ => none
  | _ + 1, _, [] => none
  | fuel + 1, done, c :: cs =>
    if c = '"' then some (done.reverse, cs)
    else if c = '$' then
      let (s, cs) := readVariable true cs
      readQuoted fuel (s :: done) cs
    else
      match c, cs with
      | '\\', e :: cs =>
        if e = '"' || e = '\\' || e = '$' then readQuoted fuel (.char e true :: done) cs
        else if e = '\n' then readQuoted fuel done cs
        else readQuoted fuel (.char e true :: .char '\\' true :: done) cs
      | c, cs => readQuoted fuel (.char c true :: done) cs

/-- The stream that a word before a redirection names, if it is a single digit. -/
def streamOf? : Option Word → Option Nat
  | some [.char c false] => if c.isDigit then some (c.toNat - '0'.toNat) else none
  | _ => none

/-- The token of a word that has ended, before those read earlier. -/
def endWord (word : Option Word) (done : List Token) : List Token :=
  match word with
  | none => done
  | some w => .word w :: done

/-- The tokens of a script; `word` is the one being read. -/
def tokens : Nat → Option Word → List Token → List Char → Option (List Token)
  | 0, _, _, _ => none
  | _ + 1, word, done, [] => some (endWord word done).reverse
  | fuel + 1, word, done, c :: cs =>
    let extended (w : Word) : Option Word := some (word.getD [] ++ w)
    if c = ' ' || c = '\t' then tokens fuel none (endWord word done) cs
    else if c = '\n' || c = ';' then tokens fuel none (.next :: endWord word done) cs
    else if c = '#' && word.isNone then
      tokens fuel none done (cs.dropWhile (· ≠ '\n'))
    else if c = '\'' then
      match cs.dropWhile (· ≠ '\'') with
      | _ :: rest =>
        tokens fuel (extended (.quote :: (cs.takeWhile (· ≠ '\'')).map (.char · true))) done rest
      | [] => none
    else if c = '"' then
      match readQuoted (cs.length + 1) [] cs with
      | some (w, rest) => tokens fuel (extended (.quote :: w)) done rest
      | none => none
    else if c = '$' then
      let (s, rest) := readVariable false cs
      tokens fuel (extended [s]) done rest
    else
      match c, cs with
      | '\\', e :: cs =>
        if e = '\n' then tokens fuel word done cs
        else tokens fuel (extended [.char e true]) done cs
      | '&', '&' :: cs => tokens fuel none (.both :: endWord word done) cs
      | '|', '|' :: cs => tokens fuel none (.either :: endWord word done) cs
      | '|', cs => tokens fuel none (.pipe :: endWord word done) cs
      | '>', '&' :: d :: cs =>
        let stream := streamOf? word
        let before := if stream.isSome then done else endWord word done
        if d.isDigit then
          tokens fuel none (.same (stream.getD 1) (d.toNat - '0'.toNat) :: before) cs
        else none
      | '>', cs =>
        let stream := streamOf? word
        let before := if stream.isSome then done else endWord word done
        tokens fuel none (.output (stream.getD 1) :: before) cs
      | '<', cs => tokens fuel none (.input :: endWord word done) cs
      | '&', _ => none
      | '(', _ => none
      | ')', _ => none
      | c, cs => tokens fuel (extended [.char c false]) done cs

/-- A command with its words and its redirections. -/
structure Simple where
  words : List Word
  redirects : List Redirect
  deriving Repr, DecidableEq

/-- When a pipeline runs: always, or only after the one before it has succeeded or failed. -/
inductive Condition
  | always
  | succeeded
  | failed
  deriving Repr, DecidableEq

/-- Commands connected by pipes. -/
structure Pipeline where
  condition : Condition
  commands : List Simple
  deriving Repr, DecidableEq

/-- A script: pipelines in the order in which they may run. -/
abbrev Script := List Pipeline

/-- The script of a list of tokens. `done` holds the pipelines read, `before` the commands of the
one at hand, and `command` the command at hand. -/
def ofTokens (done : List Pipeline) (condition : Condition) (before : List Simple)
    (command : Simple) : List Token → Option Script
  | .word w :: ts =>
    ofTokens done condition before { command with words := command.words ++ [w] } ts
  | .output stream :: .word w :: ts =>
    ofTokens done condition before
      { command with redirects := command.redirects ++ [.toFile stream w] } ts
  | .input :: .word w :: ts =>
    ofTokens done condition before
      { command with redirects := command.redirects ++ [.fromFile w] } ts
  | .same stream target :: ts =>
    ofTokens done condition before
      { command with redirects := command.redirects ++ [.toStream stream target] } ts
  | .pipe :: ts => ofTokens done condition (before ++ [command]) ⟨[], []⟩ ts
  | .next :: ts => ofTokens (done ++ [⟨condition, before ++ [command]⟩]) .always [] ⟨[], []⟩ ts
  | .both :: ts => ofTokens (done ++ [⟨condition, before ++ [command]⟩]) .succeeded [] ⟨[], []⟩ ts
  | .either :: ts => ofTokens (done ++ [⟨condition, before ++ [command]⟩]) .failed [] ⟨[], []⟩ ts
  | [] => some (done ++ [⟨condition, before ++ [command]⟩])
  | _ => none

/-- The script of a text. -/
def Script.ofText? (s : String) : Option Script := do
  ofTokens [] .always [] ⟨[], []⟩ (← tokens (s.toList.length + 1) none [] s.toList)

end RuleBuild.Shell
