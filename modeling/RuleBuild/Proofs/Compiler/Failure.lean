import RuleBuild.Proofs.Compiler.ParserMessage
import RuleBuild.Proofs.Text.Utf8

/-!
# A compiler that fails is never taken for a clean one

Nothing is reported only where the compiler itself said that there is nothing; output that is no
outcome is one error, with a text, and with a line just where a parser message names one.
-/
namespace RuleBuild

/-- Whether an error says nothing: it is about a rule or a function, with an empty list of
problems. -/
inductive BuilderError.IsSilent : BuilderError → Prop
  | rule (name message : String) (line : Line) : IsSilent (.rule name message line (some []))
  | function (name message : String) : IsSilent (.function name message (some []))

theorem Problem.diagnosticsAt_eq_nil_iff {line : Line} {ps : List Problem} :
    diagnosticsAt line ps = [] ↔ ps = [] := List.map_eq_nil_iff

theorem BuilderError.diagnostics_eq_nil_iff {e : BuilderError} :
    e.diagnostics = [] ↔ e.IsSilent := by
  constructor
  · intro h
    cases e with
    | global name message => cases message <;> cases h
    | rule name message line problems =>
        cases problems with
        | none => cases h
        | some ps =>
            obtain rfl := Problem.diagnosticsAt_eq_nil_iff.mp h
            exact .rule ..
    | parser | fieldTemplate | factTemplate | unknown => cases h
    | function name message problems =>
        cases problems with
        | none => cases h
        | some ps =>
            obtain rfl := Problem.diagnosticsAt_eq_nil_iff.mp h
            exact .function ..
  · rintro (_ | _) <;> rfl

theorem Outcome.diagnostics_eq_nil_iff {o : Outcome} :
    o.diagnostics = [] ↔ ∃ errors, o = .builderErrors errors ∧ ∀ e ∈ errors, e.IsSilent := by
  cases o with
  | parseFailure | unexpectedFailure => exact iff_of_false nofun nofun
  | builderErrors errors =>
      simp only [diagnostics, List.flatMap_eq_nil_iff, BuilderError.diagnostics_eq_nil_iff,
        builderErrors.injEq, exists_eq_left']

namespace Finished

theorem success_eq_false_iff {f : Finished} : f.success = false ↔ f.status ≠ some 0 := by
  simp [success]

/-- The lines of what a program wrote among its errors. -/
def errorLines (f : Finished) : List (List Char) :=
  Text.lines (Utf8.decodeLossy f.errors).toList

/-- Output that is no outcome is one error with a text. Its line is known exactly if the program
has failed and a parser message names one. -/
theorem diagnostics_of_no_outcome {f : Finished} (h : Outcome.ofBytes? f.output = none) :
    ∃ message line, f.outcome.diagnostics = [.error message line] ∧
      Text.isBlankText message = false ∧
      (line.isSome ↔ f.status ≠ some 0 ∧ ∃ l ∈ f.errorLines, ∃ n, ParserMessage.Names n l) := by
  simp only [← success_eq_false_iff, outcome, h]
  cases hsuccess : f.success with
  | true => exact ⟨_, none, rfl, isBlankText_failureText .., iff_of_false nofun (nofun ∘ And.left)⟩
  | false =>
      simp only [Bool.false_eq_true, ↓reduceIte, true_and]
      have hfound : (ParserMessage.find? (Utf8.decodeLossy f.errors)).isSome ↔
          ∃ l ∈ f.errorLines, ∃ n, ParserMessage.Names n l :=
        ParserMessage.find?_isSome_iff
      cases hfind : ParserMessage.find? (Utf8.decodeLossy f.errors) with
      | none =>
          rw [hfind] at hfound
          exact ⟨_, none, rfl, isBlankText_failureText .., iff_of_false nofun (mt hfound.mpr nofun)⟩
      | some o =>
          rw [hfind] at hfound
          obtain ⟨l, _, hl⟩ := List.exists_of_findSome?_eq_some hfind
          obtain ⟨n, hn, rfl⟩ := ParserMessage.ofLine?_eq_some_iff.mp hl
          exact ⟨_, some (.ofNat n), rfl, ParserMessage.isBlankText_of_names hn,
            iff_of_true rfl (hfound.mp rfl)⟩

/-- Whatever a program left behind, it is taken for clean only if its output is an outcome with
nothing but silent errors. If its output is no outcome at all, there is one error to show for it,
with a text, and with a line exactly if the program has failed and a parser message names one. -/
theorem failure_never_clean (f : Finished) :
    (f.outcome.diagnostics = [] ↔
      ∃ errors, Outcome.ofBytes? f.output = some (.builderErrors errors) ∧
        ∀ e ∈ errors, e.IsSilent) ∧
    (Outcome.ofBytes? f.output = none →
      ∃ message line, f.outcome.diagnostics = [.error message line] ∧
        Text.isBlankText message = false ∧
        (line.isSome ↔
          f.status ≠ some 0 ∧ ∃ l ∈ f.errorLines, ∃ n, ParserMessage.Names n l)) := by
  refine ⟨?_, diagnostics_of_no_outcome⟩
  cases h : Outcome.ofBytes? f.output with
  | none =>
      obtain ⟨message, line, hdiagnostics, -, -⟩ := diagnostics_of_no_outcome h
      rw [hdiagnostics]
      exact iff_of_false nofun nofun
  | some o =>
      simp only [outcome, h, Option.some_inj]
      exact Outcome.diagnostics_eq_nil_iff

/-- A program that has failed without output, with a parser message on the second line of its
errors. -/
def sampleFailure : Finished where
  status := some 1
  output := []
  errors := bytesOf "drlc 7.1\n[ERR 101] Line 3:4 no viable alternative\n"

/-- The failure is reported, with the line that the message names. -/
theorem sampleFailure_reported :
    Outcome.ofBytes? sampleFailure.output = none ∧
      ∃ message line, sampleFailure.outcome.diagnostics = [.error message line] ∧
        Text.isBlankText message = false ∧ line.isSome := by
  have hnone : Outcome.ofBytes? sampleFailure.output = none := by rfl
  have hlines : sampleFailure.errorLines =
      ["drlc 7.1".toList, "[ERR 101] Line 3:4 no viable alternative".toList] := by
    rw [errorLines, sampleFailure, Utf8.decodeLossy_bytesOf]
    decide
  have hnames : ParserMessage.Names 3 "[ERR 101] Line 3:4 no viable alternative".toList :=
    ⟨['3'], ParserMessage.line?_eq_some_iff.mp (by decide), by decide, by decide⟩
  obtain ⟨message, line, hdiagnostics, hmessage, hline⟩ :=
    (failure_never_clean sampleFailure).2 hnone
  exact ⟨hnone, message, line, hdiagnostics, hmessage,
    hline.mpr ⟨by decide, _, by simp [hlines], 3, hnames⟩⟩

end Finished
end RuleBuild
