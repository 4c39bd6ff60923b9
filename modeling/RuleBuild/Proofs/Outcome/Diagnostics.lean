import Mathlib.Data.List.Forall2
import RuleBuild.Proofs.Severity

/-!
# From errors to diagnostics

The errors of an outcome are reported one after the other, each on its own: as one diagnostic, or as
one for each problem embedded in it. The line is the error's own, whatever lines the embedded
problems give, and nothing else of an error with embedded problems is shown.
-/
namespace RuleBuild

namespace BuilderError

/-- The problems embedded in an error, if it has any to embed. They may be none. -/
def embedded? : BuilderError → Option (List Problem)
  | .rule _ _ _ problems => problems
  | .function _ _ problems => problems
  | .global .. | .parser .. | .fieldTemplate .. | .factTemplate .. | .unknown .. => none

/-- The line that an error gives for itself. Errors about globals and functions give none, nor do
those of an unknown kind. -/
def ownLine : BuilderError → Line
  | .rule _ _ line _ => line
  | .parser _ row => row
  | .fieldTemplate _ line => line
  | .factTemplate _ line => line
  | .global .. | .function .. | .unknown .. => none

/-- Errors that differ only in what is not shown: the lines of embedded problems, and the names and
messages of errors that have problems embedded. -/
inductive ShownAlike : BuilderError → BuilderError → Prop
  | same (e : BuilderError) : ShownAlike e e
  | rule {ps ps' : List Problem} (name name' message message' : String) (line : Line)
      (h : ps.map (·.message) = ps'.map (·.message)) :
      ShownAlike (.rule name message line (some ps)) (.rule name' message' line (some ps'))
  | function {ps ps' : List Problem} (name name' message message' : String)
      (h : ps.map (·.message) = ps'.map (·.message)) :
      ShownAlike (.function name message (some ps)) (.function name' message' (some ps'))

end BuilderError

/-- Outcomes that are the same but for what is not shown of their errors. -/
inductive Outcome.ShownAlike : Outcome → Outcome → Prop
  | same (o : Outcome) : ShownAlike o o
  | builderErrors {es es' : List BuilderError} (h : List.Forall₂ BuilderError.ShownAlike es es') :
      ShownAlike (.builderErrors es) (.builderErrors es')

/-! ## Embedded problems -/

theorem Problem.map_message_diagnosticsAt (line : Line) (ps : List Problem) :
    (diagnosticsAt line ps).map (·.message) = ps.map (·.message) := List.map_map

theorem Problem.line_of_mem_diagnosticsAt {line : Line} {ps : List Problem} {d : Diagnostic}
    (h : d ∈ diagnosticsAt line ps) : d.line = line := by
  obtain ⟨p, _, rfl⟩ := List.mem_map.mp h
  rfl

theorem Problem.diagnosticsAt_congr {ps ps' : List Problem}
    (h : ps.map (·.message) = ps'.map (·.message)) (line : Line) :
    diagnosticsAt line ps = diagnosticsAt line ps' := by
  have hmessages (qs : List Problem) :
      diagnosticsAt line qs = (qs.map (·.message)).map (Diagnostic.error · line) := by
    rw [List.map_map]
    rfl
  rw [hmessages, h, ← hmessages]

/-! ## One error -/

namespace BuilderError

/-- An error without embedded problems is one diagnostic, with the error's own line. -/
theorem diagnostics_of_embedded?_eq_none {e : BuilderError} (h : e.embedded? = none) :
    ∃ message, e.diagnostics = [.error message e.ownLine] := by
  cases e with
  | global name message =>
      cases message with
      | none => exact ⟨_, rfl⟩
      | some m => exact ⟨_, rfl⟩
  | rule name message line problems =>
      obtain rfl : problems = none := h
      exact ⟨_, rfl⟩
  | function name message problems =>
      obtain rfl : problems = none := h
      exact ⟨_, rfl⟩
  | parser | fieldTemplate | factTemplate | unknown => exact ⟨_, rfl⟩

/-- Embedded problems are the diagnostics, with the line of the error. -/
theorem diagnostics_of_embedded?_eq_some {e : BuilderError} {ps : List Problem}
    (h : e.embedded? = some ps) : e.diagnostics = Problem.diagnosticsAt e.ownLine ps := by
  cases e with
  | rule name message line problems =>
      obtain rfl : problems = some ps := h
      rfl
  | function name message problems =>
      obtain rfl : problems = some ps := h
      rfl
  | global | parser | fieldTemplate | factTemplate | unknown => cases h

theorem line_of_mem {e : BuilderError} {d : Diagnostic} (h : d ∈ e.diagnostics) :
    d.line = e.ownLine := by
  cases hembedded : e.embedded? with
  | none =>
      obtain ⟨message, hmessage⟩ := diagnostics_of_embedded?_eq_none hembedded
      rw [hmessage] at h
      rw [List.mem_singleton.mp h]
      rfl
  | some ps =>
      rw [diagnostics_of_embedded?_eq_some hembedded] at h
      exact Problem.line_of_mem_diagnosticsAt h

theorem ShownAlike.diagnostics_eq {e e' : BuilderError} (h : e.ShownAlike e') :
    e.diagnostics = e'.diagnostics := by
  cases h with
  | same => rfl
  | rule name name' message message' line h => exact Problem.diagnosticsAt_congr h line
  | function name name' message message' h => exact Problem.diagnosticsAt_congr h none

end BuilderError

/-! ## All errors of an outcome -/

namespace Outcome

theorem diagnostics_append (xs ys : List BuilderError) :
    (builderErrors (xs ++ ys)).diagnostics =
      (builderErrors xs).diagnostics ++ (builderErrors ys).diagnostics := List.flatMap_append

@[simp] theorem diagnostics_singleton (e : BuilderError) :
    (builderErrors [e]).diagnostics = e.diagnostics := List.flatMap_singleton ..

theorem ShownAlike.diagnostics_eq {o o' : Outcome} (h : o.ShownAlike o') :
    o.diagnostics = o'.diagnostics := by
  cases h with
  | same => rfl
  | builderErrors h =>
      induction h with
      | nil => rfl
      | cons he hes ih =>
          simp only [diagnostics, List.flatMap_cons] at ih ⊢
          rw [he.diagnostics_eq, ih]

/-- Errors are reported in their order, and each on its own. An error is one diagnostic, or one for
each problem embedded in it, with the message of the problem. Every diagnostic is an error, with the
line that its record gives for itself, if it gives one. What is not shown makes no difference, and
an error of an unknown kind shows its tag and its record. -/
theorem errors_reported_in_order :
    (∀ xs ys : List BuilderError, (builderErrors (xs ++ ys)).diagnostics =
      (builderErrors xs).diagnostics ++ (builderErrors ys).diagnostics) ∧
    (∀ e : BuilderError, e.embedded? = none → ∃ d, (builderErrors [e]).diagnostics = [d]) ∧
    (∀ (e : BuilderError) (ps : List Problem), e.embedded? = some ps →
      (builderErrors [e]).diagnostics.map (·.message) = ps.map (·.message)) ∧
    (∀ (o : Outcome) (d : Diagnostic), d ∈ o.diagnostics → d.severity = .error) ∧
    (∀ (e : BuilderError) (d : Diagnostic), d ∈ (builderErrors [e]).diagnostics →
      d.line = e.ownLine) ∧
    (∀ (message : String) (line : Line) (d : Diagnostic),
      d ∈ (parseFailure message line).diagnostics → d.line = line) ∧
    (∀ (kind : String) (message : Option String) (d : Diagnostic),
      d ∈ (unexpectedFailure kind message).diagnostics → d.line = none) ∧
    (∀ o o' : Outcome, o.ShownAlike o' → o.diagnostics = o'.diagnostics) ∧
    ∀ (tag : String) (detail : Json), ∃ d, (builderErrors [.unknown tag detail]).diagnostics = [d] ∧
      tag.toList <:+: d.message.toList ∧ detail.compact.toList <:+: d.message.toList := by
  refine ⟨diagnostics_append, fun e hembedded => ?_, fun e ps hembedded => ?_,
    fun _ _ => severity_of_mem, fun e d hd => ?_, fun message line d hd => ?_,
    fun kind message d hd => ?_, fun _ _ => ShownAlike.diagnostics_eq, fun tag detail => ?_⟩
  · obtain ⟨message, hmessage⟩ := BuilderError.diagnostics_of_embedded?_eq_none hembedded
    exact ⟨_, (diagnostics_singleton e).trans hmessage⟩
  · rw [diagnostics_singleton, BuilderError.diagnostics_of_embedded?_eq_some hembedded]
    exact Problem.map_message_diagnosticsAt e.ownLine ps
  · rw [diagnostics_singleton] at hd
    exact BuilderError.line_of_mem hd
  · rw [List.mem_singleton.mp hd]
    rfl
  · rw [List.mem_singleton.mp hd]
    rfl
  · refine ⟨_, diagnostics_singleton (.unknown tag detail), ?_, ?_⟩
    · exact ⟨"Unknown builder error ".toList, (": " ++ detail.compact).toList,
        by simp [Diagnostic.error]⟩
    · exact ⟨("Unknown builder error " ++ tag ++ ": ").toList, [], by simp [Diagnostic.error]⟩

/-- Two outcomes of which one names other lines for the problems of a rule, and another message. -/
theorem embedded_lines_not_shown :
    let o := builderErrors [.rule "r" "m" (some 4) (some [⟨"a", some 99⟩, ⟨"b", none⟩]),
      .parser "p" none]
    let o' := builderErrors [.rule "r" "other" (some 4) (some [⟨"a", none⟩, ⟨"b", some 1⟩]),
      .parser "p" none]
    o.ShownAlike o' ∧ o.diagnostics = o'.diagnostics ∧
      o.diagnostics = [.error "a" (some 4), .error "b" (some 4), .error "p" none] := by
  intro o o'
  have halike : o.ShownAlike o' :=
    .builderErrors (.cons (.rule "r" "r" "m" "other" (some 4) rfl) (.cons (.same _) .nil))
  obtain ⟨_, _, _, _, _, _, _, hshown, _⟩ := errors_reported_in_order
  exact ⟨halike, hshown o o' halike, by decide⟩

end Outcome

end RuleBuild
