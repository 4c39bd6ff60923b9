/-!
The command line. A command is named by one word, or by two where the first names a group; its
options follow in any order, a value after its option or after an equals sign. Words after two
dashes are no options. What is wrong is found from left to right, but an option without its value or
given twice only when the next word that is known is met.
-/
namespace RuleBuild

/-- The version of the program. -/
def programVersion : String := "0.1.0"

/-- What is asked for. -/
inductive Request
  | version
  | build (root output : Option String) (changed : List String) (all : Bool)
  | problems (root output : Option String)
  | clean (root : Option String)
  | runtimes (root output : Option String)
  | effectiveRuntime (root : Option String)
  | setDefaultRuntime (root output : Option String) (name : String)
  | jars (root : Option String) (name : String)
  deriving Repr, DecidableEq

/-- Why nothing is done. The first two are answers rather than errors. -/
inductive UsageError
  | help
  | version
  | missingCommand
  | unknownCommand (word : String)
  | unknownArgument (word : String)
  | missingArgument
  | missingValue (option : String)
  | repeated (option : String)
  | unexpectedValue (option : String)
  deriving Repr, DecidableEq

/-- The status with which the program then ends. -/
def UsageError.status : UsageError → Nat
  | .help => 0
  | .version => 0
  | _ => 2

/-- What is said of it. -/
def UsageError.message : UsageError → String
  | .help => "Usage: drlbuild version|build|problems|clean|runtime ls|default|set-default|jars"
  | .version => "drlbuild " ++ programVersion
  | .missingCommand => "a command is missing"
  | .unknownCommand word => "unknown command '" ++ word ++ "'"
  | .unknownArgument word => "unexpected argument '" ++ word ++ "'"
  | .missingArgument => "the name of a runtime is missing"
  | .missingValue option => "--" ++ option ++ " needs a value"
  | .repeated option => "--" ++ option ++ " is given twice"
  | .unexpectedValue option => "--" ++ option ++ " takes no value"

namespace CommandLine

/-- The commands. -/
inductive Verb
  | version
  | build
  | problems
  | clean
  | runtimes
  | effectiveRuntime
  | setDefaultRuntime
  | jars
  deriving Repr, DecidableEq

/-- The groups of commands, of which the top holds the other. -/
inductive Group
  | top
  | runtime
  deriving Repr, DecidableEq

/-- What a word may stand for in a group. -/
inductive Entry
  | verb (v : Verb)
  | group (g : Group)
  | help
  deriving Repr, DecidableEq

/-- The words of a group. -/
def Group.entries : Group → List (String × Entry)
  | .top => [("version", .verb .version), ("build", .verb .build), ("problems", .verb .problems),
      ("clean", .verb .clean), ("runtime", .group .runtime), ("help", .help)]
  | .runtime => [("ls", .verb .runtimes), ("default", .verb .effectiveRuntime),
      ("set-default", .verb .setDefaultRuntime), ("jars", .verb .jars), ("help", .help)]

/-- The options. All but one need a value. -/
inductive Switch
  | projectRoot
  | output
  | changed
  | all
  deriving Repr, DecidableEq

/-- The word of an option, without its dashes. -/
def Switch.name : Switch → String
  | .projectRoot => "project-root"
  | .output => "output"
  | .changed => "changed"
  | .all => "all"

namespace Verb

/-- The options of a command. -/
def switches : Verb → List Switch
  | .version => []
  | .build => [.projectRoot, .output, .changed, .all]
  | .problems => [.projectRoot, .output]
  | .clean => [.projectRoot]
  | .runtimes => [.projectRoot, .output]
  | .effectiveRuntime => [.projectRoot]
  | .setDefaultRuntime => [.projectRoot, .output]
  | .jars => [.projectRoot]

/-- Whether a command needs the name of a runtime. -/
def needsName : Verb → Bool
  | .setDefaultRuntime => true
  | .jars => true
  | _ => false

/-- The option of a command with the given word. -/
def switch? (v : Verb) (name : String) : Option Switch := v.switches.find? (·.name = name)

end Verb

/-- How a word is written. -/
inductive Word
  | dashes
  | long (name : String) (value : Option String)
  | short (letter : Char)
  | plain (s : String)
  deriving Repr, DecidableEq

/-- A word as it is written. A dash alone is a word like others. -/
def Word.ofString (s : String) : Word :=
  match s.toList with
  | ['-', '-'] => .dashes
  | '-' :: '-' :: cs =>
    let name := String.ofList (cs.takeWhile (· ≠ '='))
    match cs.dropWhile (· ≠ '=') with
    | [] => .long name none
    | _ :: value => .long name (some (String.ofList value))
  | '-' :: c :: _ => .short c
  | _ => .plain s

/-- What the words of a command have given so far. The option met last may still be open: it is
given only when the next word that is known is met, or at the end. After two dashes, words are
trailing. -/
structure Given where
  projectRoot : Option String
  output : Option String
  changed : List String
  all : Bool
  name : Option String
  opened : Option (Switch × Option String)
  trailing : Bool

namespace Given

/-- Nothing given. -/
def empty : Given := ⟨none, none, [], false, none, none, false⟩

/-- Gives an option its value. -/
def set (g : Given) (switch : Switch) (value : String) : Except UsageError Given :=
  let once (o : Option String) (g' : Given) : Except UsageError Given :=
    if o.isSome then .error (.repeated switch.name) else .ok g'
  match switch with
  | .projectRoot => once g.projectRoot { g with projectRoot := some value }
  | .output => once g.output { g with output := some value }
  | .changed => .ok { g with changed := g.changed ++ [value] }
  | .all => if g.all then .error (.repeated switch.name) else .ok { g with all := true }

/-- Gives the open option its value, which must be there. -/
def settle (g : Given) : Except UsageError Given :=
  match g.opened with
  | none => .ok g
  | some (switch, none) => .error (.missingValue switch.name)
  | some (switch, some value) => { g with opened := none }.set switch value

/-- One more word that is no option. -/
def addPlain (v : Verb) (g : Given) (s : String) : Except UsageError Given := do
  if v.needsName && g.name.isNone then
    let g ← g.settle
    return { g with name := some s }
  else .error (.unknownArgument s)

/-- One more long option. -/
def addLong (v : Verb) (g : Given) (name : String) (value : Option String) :
    Except UsageError Given := do
  if name = "help" then
    match value with
    | some _ => .error (.unexpectedValue name)
    | none =>
      let _ ← g.settle
      .error .help
  else
    match v.switch? name, value with
    | none, _ => .error (.unknownArgument ("--" ++ name))
    | some .all, some _ => .error (.unexpectedValue name)
    | some .all, none => (← g.settle).set .all ""
    | some switch, some value => (← g.settle).set switch value
    | some switch, none => return { ← g.settle with opened := some (switch, none) }

/-- One more word. -/
def add (v : Verb) (g : Given) (s : String) : Except UsageError Given := do
  if g.trailing then g.addPlain v s
  else
    match Word.ofString s with
    | .dashes => return { g with trailing := true }
    | .long name value => g.addLong v name value
    | .short c =>
      if c = 'h' then
        let _ ← g.settle
        .error .help
      else .error (.unknownArgument (String.ofList ['-', c]))
    | .plain s =>
      match g.opened with
      | some (switch, none) => return { g with opened := some (switch, some s) }
      | _ => g.addPlain v s

/-- What is asked for by all words of a command. -/
def request (v : Verb) (g : Given) : Except UsageError Request :=
  let named (f : String → Request) : Except UsageError Request :=
    g.name.elim (.error .missingArgument) fun name => .ok (f name)
  match v with
  | .version => .ok .version
  | .build => .ok (.build g.projectRoot g.output g.changed g.all)
  | .problems => .ok (.problems g.projectRoot g.output)
  | .clean => .ok (.clean g.projectRoot)
  | .runtimes => .ok (.runtimes g.projectRoot g.output)
  | .effectiveRuntime => .ok (.effectiveRuntime g.projectRoot)
  | .setDefaultRuntime => named (.setDefaultRuntime g.projectRoot g.output)
  | .jars => named (.jars g.projectRoot)

end Given

/-- What is asked for by the words after a command. -/
def readVerb (v : Verb) (words : List String) : Except UsageError Request := do
  (← (← words.foldlM (Given.add v) .empty).settle).request v

/-- What is asked for by words after the one that asks for help. They lead to a command. -/
def readHelp : Entry → List String → UsageError
  | _, [] => .help
  | .group g, word :: words =>
    match g.entries.lookup word with
    | some e => readHelp e words
    | none => .unknownCommand word
  | _, word :: _ => .unknownCommand word

/-- What is wrong with two dashes in place of a command. -/
def readDashes (g : Group) : List String → UsageError
  | [] => .missingCommand
  | word :: _ =>
    if (g.entries.lookup word).isSome then .unknownArgument word else .unknownCommand word

/-- Whether a group answers which version the program has. -/
def Group.tellsVersion (g : Group) : Bool := g = .top

/-- What a word that names no command of a group leads to. -/
def readStray (g : Group) (s : String) (words : List String) : UsageError :=
  let flag (isHelp isVersion : Bool) (e : UsageError) : UsageError :=
    if isHelp then .help else if isVersion && g.tellsVersion then .version else e
  match Word.ofString s with
  | .dashes => readDashes g words
  | .long name none =>
    flag (name = "help") (name = "version") (.unknownArgument ("--" ++ name))
  | .long name (some _) =>
    if name = "help" || (name = "version" && g.tellsVersion) then .unexpectedValue name
    else .unknownArgument ("--" ++ name)
  | .short c => flag (c = 'h') (c = 'V') (.unknownArgument (String.ofList ['-', c]))
  | .plain s => .unknownCommand s

/-- What is asked for by the words in a group. -/
def readGroup (g : Group) : List String → Except UsageError Request
  | [] => .error .missingCommand
  | word :: words =>
    match g.entries.lookup word with
    | some (.verb v) => readVerb v words
    | some (.group g) => readGroup g words
    | some .help => .error (readHelp (.group g) words)
    | none => .error (readStray g word words)

end CommandLine

/-- What is asked for by the words after the name of the program. -/
def Request.ofWords (words : List String) : Except UsageError Request :=
  CommandLine.readGroup .top words

end RuleBuild
