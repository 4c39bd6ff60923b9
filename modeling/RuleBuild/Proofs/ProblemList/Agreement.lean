import Mathlib.Algebra.GroupWithZero.Nat
import Mathlib.Data.List.Sort
import RuleBuild.Listing
import RuleBuild.Proofs.ProblemList.Totals
import RuleBuild.Proofs.Record

/-!
# The views of a list agree

The artifacts that a list names, the problems of each, the number of errors and the overview of all
of them are taken from the same entries in ways of their own. Read back, the overview lists what the
other views say, in their order.
-/
namespace RuleBuild

theorem Diagnostic.read?_toJson (d : Diagnostic) : Diagnostic.read? d.toJson = some d := by
  have hbody : Datum.body? d.toJson = some (.keyed [("message", .string d.message),
      ("line", Line.toJson d.line), ("severity", .string d.severity.name)]) := rfl
  have hmessage : Datum.text? (Json.string d.message) = some d.message := rfl
  have hline : Line.readField? (some d.line.toJson) = some d.line :=
    Line.readField?_of_whole rfl rfl
  have hseverity : Severity.read? (Json.string d.severity.name) = some d.severity :=
    Severity.read?_of_text rfl
  rw [Diagnostic.read?, hbody, Option.bind_eq_bind, Option.bind_some, Body.fields?_keyed]
  · simp only [List.map_cons, List.map_nil, Option.bind_eq_bind, Option.bind_some, Datum.required,
      Datum.defaulted, hmessage, hline, hseverity]
    rfl
  · rfl
  · decide

theorem Json.list?_array_map {α β : Type} {read : Json → Option β} {write : α → Json} {f : α → β}
    (h : ∀ x, read (write x) = some (f x)) (xs : List α) :
    Datum.list? read (.array (xs.map write)) = some (xs.map f) := by
  have hitems : Datum.items? (Json.array (xs.map write)) = some (xs.map write) := rfl
  rw [Datum.list?, hitems, Option.bind_eq_bind, Option.bind_some, List.mapM_map]
  exact mapM_eq_some fun x _ => h x

namespace ProblemList

/-- An artifact with its diagnostics, read from an item of an overview. -/
def listedItem? (item : Json) : Option (String × List Diagnostic) := do
  let artifact ← (← item.get? "artifact").string?
  let diagnostics ← Datum.list? Diagnostic.read? (← item.get? "diagnostics")
  return (artifact, diagnostics)

/-- The artifacts with their diagnostics, read from an overview. -/
def listed? (overview : Json) : Option (List (String × List Diagnostic)) := do
  Datum.list? listedItem? (← overview.get? "problems")

/-- A number of the summary, read from an overview. -/
def summed? (name : String) (overview : Json) : Option Int := do
  Datum.whole? (← (← overview.get? "summary").get? name)

theorem listed?_overview (l : ProblemList) :
    listed? l.overview =
      some (l.artifacts.map fun artifact => (artifact, l.problems artifact)) := by
  refine Json.list?_array_map (fun artifact => ?_) l.artifacts
  let item : Json := .object [("artifact", .string artifact),
    ("diagnostics", .array ((l.problems artifact).map Diagnostic.toJson))]
  have hartifact : item.get? "artifact" = some (.string artifact) := rfl
  have hdiagnostics : item.get? "diagnostics" =
      some (.array ((l.problems artifact).map Diagnostic.toJson)) := rfl
  have hread := Json.list?_array_map Diagnostic.read?_toJson (l.problems artifact)
  rw [List.map_id'] at hread
  change listedItem? item = _
  rw [listedItem?, hartifact, hdiagnostics]
  simp only [Option.bind_eq_bind, Option.bind_some, Json.string?, hread]
  rfl

/-- The errors are those of the artifacts named, added up. -/
theorem errorCount_eq_sum (l : ProblemList) :
    l.errorCount = (l.artifacts.map fun artifact => countErrors (l.problems artifact)).sum := by
  rw [l.errorCount_eq l.pairwise_artifacts.nodup fun id => (l.mem_artifacts_iff id).mpr,
    countErrors, List.filter_flatMap, List.length_flatMap]
  rfl

theorem problems_of_add {l l' : ProblemList} {artifact : String} {d : Diagnostic}
    (h : l.add artifact d = .ok l') : l'.problems artifact = l.problems artifact ++ [d] := by
  have hstore : ProblemStore.add l artifact d = (.ok (), l') := by simp only [ProblemStore.add, h]
  by_cases hname : artifact = ""
  · simp [add, hname] at h
  · rw [store_add l hname] at hstore
    obtain rfl : l.push artifact d = l' := congrArg (·.2) hstore
    rw [problems_push, if_pos rfl]

/-- Whatever a list holds, the artifacts named are those that have problems, in the order of their
texts, their errors add up to the number of errors, and the overview lists these artifacts with just
their problems, and both numbers. What is recorded last is the last of the problems. -/
theorem views_agree (l : ProblemList) :
    l.artifacts.Pairwise (· < ·) ∧
    (∀ artifact, artifact ∈ l.artifacts ↔ l.problems artifact ≠ []) ∧
    l.errorCount = (l.artifacts.map fun artifact => countErrors (l.problems artifact)).sum ∧
    listed? l.overview = some (l.artifacts.map fun artifact => (artifact, l.problems artifact)) ∧
    summed? "errors" l.overview = some l.errorCount ∧
    summed? "artifacts" l.overview = some l.artifacts.length ∧
    ∀ artifact d l', l.add artifact d = .ok l' →
      l'.problems artifact = l.problems artifact ++ [d] :=
  ⟨l.pairwise_artifacts, l.mem_artifacts_iff, l.errorCount_eq_sum, l.listed?_overview, rfl, rfl,
    fun _ _ _ => problems_of_add⟩

/-- Entries without markers, with another tool's alone, and with those of both. -/
def sampleMixed : ProblemList where
  category := defaultCategory
  markers :=
    let theirs : Marker := ⟨"other", "theirs", .error, none⟩
    let mine : Marker := ⟨defaultCategory, "mine", .warning, some 3⟩
    .ofList [("c.drl", []), ("b.drl", [theirs]), ("a.drl", [theirs, mine])]

/-- A problem that is recorded follows the one already there, and nothing else shows. -/
theorem sampleMixed_agrees :
    ∃ l', sampleMixed.add "a.drl" (.error "late" none) = .ok l' ∧
      l'.problems "a.drl" = sampleMixed.problems "a.drl" ++ [.error "late" none] ∧
      listed? sampleMixed.overview = some [("a.drl", [⟨"mine", some 3, .warning⟩])] ∧
      sampleMixed.errorCount = 0 := by
  obtain ⟨_, _, _, hlisted, _, _, hadd⟩ := views_agree sampleMixed
  have hadded : sampleMixed.add "a.drl" (.error "late" none) =
      .ok (sampleMixed.push "a.drl" (.error "late" none)) := rfl
  exact ⟨_, hadded, hadd _ _ _ hadded, hlisted.trans (by decide), by decide⟩

end ProblemList
end RuleBuild
