import RuleBuild.Record
import RuleBuild.FileSystem

/-!
Programs outside of the tool: how a project names one, how it is called, and what it leaves behind.
-/
namespace RuleBuild

/-- A program and the arguments that come first. -/
structure Command where
  program : String
  args : List String
  deriving Repr, DecidableEq

/-- A command read from data. -/
def Command.read? {α : Type} [Datum α] (x : α) : Option Command := do
  match ← (← Datum.body? x).fields? ["command", "args"] with
  | [program, args] =>
    return {
      program := ← Datum.required Datum.text? program
      args := ← Datum.defaulted (Datum.list? Datum.text?) [] args }
  | _ => none

/-- A call of a program. -/
structure Call where
  program : String
  args : List String
  environment : List (String × String)
  input : Bytes
  deriving Repr, DecidableEq

/-- What a program leaves behind when it ends. A program that was killed has no status. -/
structure Finished where
  status : Option Int
  output : Bytes
  errors : Bytes
  deriving Repr, DecidableEq

/-- Whether a program ended without complaint. -/
def Finished.success (f : Finished) : Bool := f.status = some 0

/-- Whoever starts programs. -/
abbrev Launcher := Call → Except FileError Finished

end RuleBuild
