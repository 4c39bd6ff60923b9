import RuleBuild.FileSystem
import RuleBuild.Command
import RuleBuild.Text.Split

/-!
Programs that every system has, as functions of their arguments and their input: `cat`, `echo`,
`printf`, `test`, `true` and `false`.
-/
namespace RuleBuild.Shell

/-- The end of a program with a status and nothing written. -/
def ended (status : Int) : Finished := ⟨some status, [], []⟩

/-- The end of a program that has written a text. -/
def wrote (s : String) : Finished := ⟨some 0, bytesOf s, []⟩

/-- The bytes of one operand of `cat`; a dash stands for the input. -/
def operand (fs : FileSystem) (input : Bytes) (name : String) : Except FileError Bytes :=
  if name = "-" then .ok input else fs.read (Path.ofString name)

/-- What `cat` says of an operand that cannot be read: the reason without its number. -/
def complaint (name : String) (e : FileError) : String :=
  let reason :=
    match e with
    | .isDirectory => "Is a directory"
    | .notDirectory => "Not a directory"
    | _ => "No such file or directory"
  "cat: " ++ name ++ ": " ++ reason ++ "\n"

/-- Writes operands one after the other. -/
def cat (fs : FileSystem) (args : List String) (input : Bytes) : Finished :=
  let names := if args.isEmpty then ["-"] else args
  let parts := names.map fun name => (name, operand fs input name)
  let output := parts.flatMap fun p =>
    match p.2 with
    | .ok bytes => bytes
    | .error _ => []
  let errors := parts.flatMap fun p =>
    match p.2 with
    | .ok _ => []
    | .error e => bytesOf (complaint p.1 e)
  ⟨some (if errors.isEmpty then 0 else 1), output, errors⟩

/-- Characters with backslash escapes replaced. -/
def unescape : List Char → List Char
  | '\\' :: 'n' :: cs => '\n' :: unescape cs
  | '\\' :: 't' :: cs => '\t' :: unescape cs
  | '\\' :: 'r' :: cs => '\r' :: unescape cs
  | '\\' :: '\\' :: cs => '\\' :: unescape cs
  | c :: cs => c :: unescape cs
  | [] => []

/-- Whether a word is an option of `echo`. -/
def isEchoOption (s : String) : Bool :=
  match s.toList with
  | '-' :: c :: cs => (c :: cs).all fun c => c = 'n' || c = 'e' || c = 'E'
  | _ => false

/-- Writes words with spaces between them, and a line feed if asked for. -/
def writeWords (escapes newline : Bool) (words : List String) : Finished :=
  let text := " ".intercalate words
  let text := if escapes then String.ofList (unescape text.toList) else text
  wrote (if newline then text ++ "\n" else text)

/-- The program `echo`. The letters of its options say whether there is a line feed at the end, and,
the last of the two that do, whether escapes are replaced. -/
def echo (args : List String) : Finished :=
  let letters := (args.takeWhile isEchoOption).flatMap String.toList
  let escapes := (letters.filter fun c => c = 'e' || c = 'E').getLast? = some 'e'
  writeWords escapes (! letters.contains 'n') (args.dropWhile isEchoOption)

/-- The `echo` of a shell itself. It always replaces escapes. -/
def shellEcho : List String → Finished
  | "-n" :: words => writeWords true false words
  | words => writeWords true true words

/-- One run through a format: what is written, and the arguments left. -/
def formatOnce (args : List String) : List Char → List Char × List String
  | '%' :: '%' :: cs =>
    let (out, rest) := formatOnce args cs
    ('%' :: out, rest)
  | '%' :: 's' :: cs =>
    let (out, rest) := formatOnce args.tail cs
    ((args.headD "").toList ++ out, rest)
  | '%' :: 'd' :: cs =>
    let (out, rest) := formatOnce args.tail cs
    ((toString (((args.headD "0").toInt?).getD 0)).toList ++ out, rest)
  | '\\' :: 'n' :: cs =>
    let (out, rest) := formatOnce args cs
    ('\n' :: out, rest)
  | '\\' :: 't' :: cs =>
    let (out, rest) := formatOnce args cs
    ('\t' :: out, rest)
  | '\\' :: '"' :: cs =>
    let (out, rest) := formatOnce args cs
    ('"' :: out, rest)
  | '\\' :: '\\' :: cs =>
    let (out, rest) := formatOnce args cs
    ('\\' :: out, rest)
  | c :: cs =>
    let (out, rest) := formatOnce args cs
    (c :: out, rest)
  | [] => ([], args)

/-- Runs through a format as long as it takes arguments and some are left. -/
def formatAll (format : List Char) : Nat → List String → List Char
  | 0, _ => []
  | fuel + 1, args =>
    let (out, rest) := formatOnce args format
    if rest.isEmpty || rest.length = args.length then out else out ++ formatAll format fuel rest

/-- Writes its arguments in a format. -/
def printf : List String → Finished
  | [] => ⟨some 2, [], bytesOf "printf: usage: printf format [arg ...]\n"⟩
  | format :: args => wrote (String.ofList (formatAll format.toList (args.length + 1) args))

/-- Whether a condition holds. -/
def holds (fs : FileSystem) : List String → Bool
  | [] => false
  | ["!", s] => s = ""
  | [s] => s ≠ ""
  | ["-z", s] => s = ""
  | ["-n", s] => s ≠ ""
  | ["-e", s] => fs.hasPath (Path.ofString s)
  | ["-f", s] => fs.isFile (Path.ofString s)
  | ["-d", s] => fs.isDirectory (Path.ofString s)
  | [a, "=", b] => a = b
  | [a, "!=", b] => a ≠ b
  | [a, "-eq", b] => a.toInt? = b.toInt?
  | [a, "-ne", b] => a.toInt? ≠ b.toInt?
  | "!" :: rest => ! holds fs rest
  | _ => false

/-- Ends well if a condition holds. -/
def test (fs : FileSystem) (args : List String) : Finished :=
  ended (if holds fs args then 0 else 1)

/-- The end of a program that every system has. `inShell` tells whether a shell runs it. -/
def program? (fs : FileSystem) (inShell : Bool) (name : String) (args : List String)
    (input : Bytes) : Option Finished :=
  match name with
  | "cat" => some (cat fs args input)
  | "echo" => some (if inShell then shellEcho args else echo args)
  | "printf" => some (printf args)
  | "test" => some (test fs args)
  | "[" => some (test fs args.dropLast)
  | "true" => some (ended 0)
  | ":" => some (ended 0)
  | "false" => some (ended 1)
  | _ => none

end RuleBuild.Shell
