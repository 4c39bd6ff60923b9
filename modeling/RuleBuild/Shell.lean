import RuleBuild.Shell.Program
import RuleBuild.Shell.Script

/-!
A launcher that runs programs itself: those that every system has, and `sh` with a script. Compilers
that are such scripts need nothing outside of the tool.
-/
namespace RuleBuild.Shell

/-- A shell at work: its input that is left, what it has written, the status of the last command,
whether it has been told to stop, and whether it has been killed. -/
structure State where
  input : Bytes
  output : Bytes
  errors : Bytes
  status : Int
  stopped : Bool
  killed : Bool
  deriving Repr

/-- What a shell knows: the files, the variables, and its own arguments from its name on. -/
structure Context where
  fs : FileSystem
  bindings : List (String × String)
  args : List String

/-- The number by which a shell knows itself. -/
def ownNumber : String := "1"

/-- The value of a variable, nothing for one that is not set. -/
def Context.value (ctx : Context) (status : Int) (name : String) : String :=
  if name = "?" then toString status
  else if name = "$" then ownNumber
  else if name = "#" then toString (ctx.args.length - 1)
  else
    match name.toNat? with
    | some n => ctx.args.getD n ""
    | none => (ctx.bindings.lookup name).getD ""

/-- A blank between words. -/
def isBlank (c : Char) : Bool := c = ' ' || c = '\t' || c = '\n'

/-- Words being put together: those done, and the one at hand. -/
structure Fields where
  done : List String
  current : Option (List Char)

/-- Ends the word at hand. -/
def Fields.cut (f : Fields) : Fields :=
  match f.current with
  | none => f
  | some cs => ⟨f.done ++ [String.ofList cs], none⟩

/-- Adds a character; a blank that is not quoted ends the word. -/
def Fields.add (quoted : Bool) (f : Fields) (c : Char) : Fields :=
  if ! quoted && isBlank c then f.cut else ⟨f.done, some (f.current.getD [] ++ [c])⟩

/-- Adds a part of a word. -/
def Fields.segment (ctx : Context) (status : Int) (f : Fields) : Segment → Fields
  | .char c _ => f.add true c
  | .quote => ⟨f.done, some (f.current.getD [])⟩
  | .variable name quoted => (ctx.value status name).toList.foldl (Fields.add quoted) f

/-- The words that a word stands for. -/
def expand (ctx : Context) (status : Int) (w : Word) : List String :=
  (w.foldl (Fields.segment ctx status) ⟨[], none⟩).cut.done

/-- The word that the name of a file stands for. -/
def expandName (ctx : Context) (status : Int) (w : Word) : String :=
  " ".intercalate (expand ctx status w)

/-- Where a stream goes. -/
inductive Sink
  | output
  | errors
  | nowhere
  deriving Repr, DecidableEq

/-- Where the streams of a command go, and what it reads. -/
structure Wiring where
  output : Sink
  errors : Sink
  input : Bytes

/-- The wiring after a redirection. Files other than the empty device are not written to. -/
def Wiring.redirect (ctx : Context) (status : Int) (w : Wiring) : Redirect → Wiring
  | .toFile 2 _ => { w with errors := .nowhere }
  | .toFile _ _ => { w with output := .nowhere }
  | .fromFile file =>
    match ctx.fs.read (Path.ofString (expandName ctx status file)) with
    | .ok bytes => { w with input := bytes }
    | .error _ => { w with input := [] }
  | .toStream 1 2 => { w with output := w.errors }
  | .toStream 2 1 => { w with errors := w.output }
  | .toStream _ _ => w

/-- The bytes of a stream that go to a sink. -/
def routed (sink : Sink) (w : Wiring) (f : Finished) : Bytes :=
  (if w.output = sink then f.output else []) ++ (if w.errors = sink then f.errors else [])

/-- Whether a program reads its input to the end. -/
def readsInput (name : String) (args : List String) : Bool :=
  name = "cat" && (args.isEmpty || args.contains "-")

/-- The shell after a signal to whoever has a number. -/
def State.kill (s : State) (number : String) : State :=
  if number = ownNumber then { s with stopped := true, killed := true } else s

/-- What the shell says of a program that it does not find. -/
def notFound (name : String) : Finished :=
  ⟨some 127, [], bytesOf ("sh: 1: " ++ name ++ ": not found\n")⟩

/-- Runs one command. -/
def runSimple (ctx : Context) (s : State) (c : Simple) : State :=
  let wiring := c.redirects.foldl (Wiring.redirect ctx s.status) ⟨.output, .errors, s.input⟩
  match c.words.flatMap (expand ctx s.status) with
  | [] => s
  | "exit" :: args =>
    { s with stopped := true, status := ((args.head?.bind String.toInt?).getD s.status) % 256 }
  | ["kill", number] => s.kill number
  | ["kill", _, number] => s.kill number
  | name :: args =>
    let f := (program? ctx.fs true name args wiring.input).getD (notFound name)
    let redirected := c.redirects.any fun r =>
      match r with
      | .fromFile _ => true
      | _ => false
    { s with
      input := if readsInput name args && ! redirected then [] else s.input
      output := s.output ++ routed .output wiring f
      errors := s.errors ++ routed .errors wiring f
      status := f.status.getD 0 }

/-- Runs commands, each on the output of the one before it. -/
def runPipe (ctx : Context) (s : State) : List Simple → State
  | [] => s
  | [c] => runSimple ctx s c
  | c :: cs =>
    let first := runSimple ctx { s with output := [] } c
    let last := runPipe ctx { first with input := first.output, output := s.output } cs
    { last with stopped := last.killed }

/-- Runs a pipeline if its condition is met. -/
def runPipeline (ctx : Context) (s : State) (p : Pipeline) : State :=
  let wanted :=
    match p.condition with
    | .always => true
    | .succeeded => s.status = 0
    | .failed => s.status ≠ 0
  if s.stopped || ! wanted then s else runPipe ctx s p.commands

/-- Runs a script. -/
def run (ctx : Context) (script : Script) (input : Bytes) : Finished :=
  let s := script.foldl (runPipeline ctx) ⟨input, [], [], 0, false, false⟩
  ⟨if s.killed then none else some s.status, s.output, s.errors⟩

/-- Runs `sh` with its arguments. -/
def runShell (fs : FileSystem) (bindings : List (String × String)) (args : List String)
    (input : Bytes) : Finished :=
  match args with
  | "-c" :: text :: args =>
    match Script.ofText? text with
    | some script =>
      run ⟨fs, bindings, if args.isEmpty then ["sh"] else args⟩ script input
    | none => ⟨some 2, [], bytesOf "sh: 1: Syntax error\n"⟩
  | _ => ⟨some 127, [], bytesOf "sh: 0: Can't open script\n"⟩

/-- The directories that programs are found in. -/
def programDirectories : List String := ["/bin/", "/usr/bin/"]

/-- The name of a program that every system has, given by its name or by its path. -/
def programName? (program : String) : Option String :=
  let names := ["sh", "cat", "echo", "printf", "test", "true", "false"]
  names.find? fun name =>
    program = name || programDirectories.any fun dir => program = dir ++ name

/-- Starts programs over a file system, with variables set beside those of the call. A file that is
no such program cannot be started. -/
def launcher (fs : FileSystem) (bindings : List (String × String)) : Launcher := fun call =>
  match programName? call.program with
  | some "sh" => .ok (runShell fs (call.environment ++ bindings) call.args call.input)
  | some name => .ok ((program? fs false name call.args call.input).getD (ended 0))
  | none =>
    if call.program.toList.contains '/' then
      match fs.locate (Path.ofString call.program) with
      | .ok _ => .error .notPermitted
      | .error e => .error e
    else .error .notFound

end RuleBuild.Shell
