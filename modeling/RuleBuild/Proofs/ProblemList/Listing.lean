import RuleBuild.Proofs.ProblemList.Agreement
import RuleBuild.Proofs.ProblemList.Stored
import RuleBuild.Proofs.Severity

/-!
# What the lines of a list say

The lines for a reader show the problems that the overview lists, in its order, and end with its
numbers. Each problem is labelled as an error, also where it is a warning, while the errors are
counted by their severity, so labels and numbers agree only where there is nothing but errors, as
builds leave it.
-/
namespace RuleBuild

/-- A problem as far as its line shows it: where it is and what is wrong. -/
structure Finding where
  artifact : String
  line : Line
  message : String
  deriving Repr, DecidableEq

namespace Finding

/-- A problem of an artifact, without its severity. -/
def ofProblem (artifact : String) (d : Diagnostic) : Finding := ⟨artifact, d.line, d.message⟩

/-- The line for a problem under a label. -/
def entry (style : Style) (label : String) (f : Finding) : String :=
  style.paint [.red] "✖" ++ " " ++ label ++ " "
    ++ style.paint [.bold] (location f.artifact f.line) ++ " " ++ f.message

/-- A line for a known problem shows its label. -/
theorem entry_injective (style : Style) (f : Finding) :
    Function.Injective fun label => f.entry style label := by
  intro label label' h
  simp only [entry, String.append_left_inj, String.append_right_inj] at h
  exact h

end Finding

/-- The label of an error. -/
def Style.errorLabel (style : Style) : String := style.paint [.red, .bold] "⟦error⟧"

/-- Whatever its severity, a problem is shown under the label of an error. -/
theorem problemLine_eq (style : Style) (artifact : String) (d : Diagnostic) :
    problemLine style artifact d = (Finding.ofProblem artifact d).entry style style.errorLabel := rfl

/-- What the lines for a reader say: problems with their labels, and the numbers at the end. -/
structure Listing where
  entries : List (String × Finding)
  errors : Nat
  artifacts : Nat

namespace Listing

/-- The last line. -/
def totals (s : Listing) : String :=
  "— Problems — errors=" ++ toString s.errors ++ " artifacts=" ++ toString s.artifacts

/-- The lines that say this. -/
def lines (style : Style) (s : Listing) : List String :=
  s.entries.map (fun e => e.2.entry style e.1) ++ [style.paint [.bold] s.totals]

/-- The number of problems that are labelled as errors. -/
def labelledErrors (style : Style) (s : Listing) : Nat :=
  s.entries.countP fun e => e.1 = style.errorLabel

/-- The problems that an overview lists, in its order. -/
def findings? (overview : Json) : Option (List Finding) :=
  (ProblemList.listed? overview).map fun items =>
    items.flatMap fun item => item.2.map (Finding.ofProblem item.1)

/-- All but the labels is said by an overview, too. -/
structure Restates (s : Listing) (overview : Json) : Prop where
  findings : findings? overview = some (s.entries.map (·.2))
  errors : ProblemList.summed? "errors" overview = some s.errors
  artifacts : ProblemList.summed? "artifacts" overview = some s.artifacts

/-- Entries are known from their problems and their lines. -/
theorem entries_ext {style : Style} {es es' : List (String × Finding)}
    (hfindings : es.map (·.2) = es'.map (·.2))
    (hlines : es.map (fun e => e.2.entry style e.1) = es'.map fun e => e.2.entry style e.1) :
    es = es' := by
  have hboth := congrArg₂ List.zip hfindings hlines
  rw [List.zip_map', List.zip_map'] at hboth
  have hshown : Function.Injective fun e : String × Finding => (e.2, e.2.entry style e.1) := by
    rintro ⟨label, f⟩ ⟨label', f'⟩ he
    obtain ⟨rfl, hentry⟩ := Prod.mk.inj he
    exact Prod.ext (f.entry_injective style hentry) rfl
  exact List.map_injective_iff.mpr hshown hboth

/-- Lines that restate an overview can be read in one way only. -/
theorem Restates.unique {style : Style} {overview : Json} {s s' : Listing}
    (h : s.Restates overview) (h' : s'.Restates overview) (hlines : s.lines style = s'.lines style) :
    s = s' := by
  have hfindings : s.entries.map (·.2) = s'.entries.map (·.2) :=
    Option.some.inj (h.findings.symm.trans h'.findings)
  -- The last line is one, so the others are the entries.
  have hentries : s.entries = s'.entries :=
    entries_ext hfindings (List.append_inj_left' hlines rfl)
  have herrors : (s.errors : Int) = s'.errors := Option.some.inj (h.errors.symm.trans h'.errors)
  have hartifacts : (s.artifacts : Int) = s'.artifacts :=
    Option.some.inj (h.artifacts.symm.trans h'.artifacts)
  obtain ⟨entries, errors, artifacts⟩ := s
  rw [mk.injEq]
  exact ⟨hentries, Int.ofNat.inj herrors, Int.ofNat.inj hartifacts⟩

end Listing

namespace ProblemList

/-- What the lines of a list say. -/
def listing (l : ProblemList) (style : Style) : Listing where
  entries := l.entries.map fun e => (style.errorLabel, .ofProblem e.1 e.2)
  errors := l.errorCount
  artifacts := l.artifacts.length

theorem lines_listing (l : ProblemList) (style : Style) :
    (l.listing style).lines style = l.lines style := by
  simp only [Listing.lines, lines, listing, List.map_map, Function.comp_def, problemLine_eq]
  rfl

theorem findings?_overview (l : ProblemList) :
    Listing.findings? l.overview = some (l.entries.map fun e => .ofProblem e.1 e.2) := by
  rw [Listing.findings?, listed?_overview, Option.map_some, entries, List.map_flatMap,
    List.flatMap_map]
  simp only [List.map_map]
  rfl

theorem restates_listing (l : ProblemList) (style : Style) :
    (l.listing style).Restates l.overview where
  findings := by
    rw [l.findings?_overview, listing, List.map_map]
    rfl
  errors := rfl
  artifacts := rfl

theorem labelledErrors_listing (l : ProblemList) (style : Style) :
    (l.listing style).labelledErrors style = l.entries.length := by
  rw [Listing.labelledErrors, listing, List.countP_map, List.countP_eq_length]
  intro e _
  exact decide_eq_true rfl

theorem mem_entries_iff (l : ProblemList) (artifact : String) (d : Diagnostic) :
    (artifact, d) ∈ l.entries ↔ d ∈ l.problems artifact := by
  simp only [entries, List.mem_flatMap, List.mem_map, Prod.mk.injEq]
  constructor
  · rintro ⟨_, _, _, hd, rfl, rfl⟩
    exact hd
  · intro hd
    have hartifact := (l.mem_artifacts_iff artifact).mpr (List.ne_nil_of_mem hd)
    exact ⟨artifact, hartifact, d, hd, rfl, rfl⟩

theorem errorCount_eq_entries (l : ProblemList) :
    l.errorCount = (l.entries.filter (·.2.severity = .error)).length := by
  have hproblems : l.entries.map (·.2) = l.artifacts.flatMap l.problems := by
    simp [entries, List.map_flatMap, Function.comp_def]
  rw [l.errorCount_eq l.pairwise_artifacts.nodup fun id => (l.mem_artifacts_iff id).mpr,
    ← hproblems, countErrors, List.filter_map, List.length_map]
  rfl

/-- The errors are as many as the problems shown if there is nothing else. -/
theorem length_entries_eq_errorCount_iff (l : ProblemList) :
    l.entries.length = l.errorCount ↔
      ∀ artifact, ∀ d ∈ l.problems artifact, d.severity = .error := by
  rw [errorCount_eq_entries, eq_comm, List.length_filter_eq_length_iff]
  simp only [Prod.forall, mem_entries_iff, decide_eq_true_eq]

/-- The lines say what the overview says, and label as many problems as errors as both count. -/
def LinesAgree (l : ProblemList) (style : Style) : Prop :=
  ∃ s : Listing, l.lines style = s.lines style ∧ s.Restates l.overview ∧
    s.labelledErrors style = s.errors

theorem linesAgree_iff_listing (l : ProblemList) (style : Style) :
    l.LinesAgree style ↔ (l.listing style).labelledErrors style = l.errorCount := by
  constructor
  · rintro ⟨s, hlines, hrestates, hlabelled⟩
    obtain rfl : l.listing style = s :=
      (l.restates_listing style).unique hrestates ((l.lines_listing style).trans hlines)
    exact hlabelled
  · intro hlabelled
    exact ⟨l.listing style, (l.lines_listing style).symm, l.restates_listing style, hlabelled⟩

theorem linesAgree_iff (l : ProblemList) (style : Style) :
    l.LinesAgree style ↔ ∀ artifact, ∀ d ∈ l.problems artifact, d.severity = .error := by
  rw [linesAgree_iff_listing, labelledErrors_listing, length_entries_eq_errorCount_iff]

/-- Builds keep the lines of a list in agreement with its numbers. -/
theorem LinesAgree.build {T : Type} {s : BuildSettings} {tools : Tools T} {fs : FileSystem}
    {kind : BuildKind} {l : ProblemList} {t : T} {style : Style} (h : l.LinesAgree style) :
    (build s tools fs kind l t).recorded.store.LinesAgree style :=
  (linesAgree_iff _ style).mpr (build_problems_severity ((l.linesAgree_iff style).mp h))

/-- A list that is not shown as JSON is shown as lines for just the problems of the overview, in its
order, and one more for its numbers. As many problems are labelled as errors as are counted exactly
if all problems are errors. -/
theorem lines_agree_iff (l : ProblemList) {output : String} (houtput : output ≠ "json")
    (colours : Bool) :
    let style := Style.of output colours
    l.render style = textOfLines (l.lines style) ∧
    (∃ s : Listing, l.lines style = s.lines style ∧ s.Restates l.overview) ∧
    (l.LinesAgree style ↔ ∀ artifact, ∀ d ∈ l.problems artifact, d.severity = .error) := by
  intro style
  refine ⟨?_, ⟨_, (l.lines_listing style).symm, l.restates_listing style⟩, l.linesAgree_iff style⟩
  simp only [style, Style.of, if_neg houtput]
  cases colours with
  | false => rfl
  | true => rfl

/-- Two errors, of which one has no line, beside another tool's warning. -/
def sampleBroken : ProblemList where
  category := defaultCategory
  markers :=
    let theirs : Marker := ⟨"other", "theirs", .warning, some 1⟩
    let mine (message : String) (line : Line) : Marker := ⟨defaultCategory, message, .error, line⟩
    .ofList [("b.drl", [mine "late" (some 7)]), ("a.drl", [theirs, mine "early" none])]

/-- Both errors are shown and counted, in colours as in the overview. -/
theorem errors_shown_and_counted :
    "human" ≠ "json" ∧ sampleBroken.LinesAgree (.of "human" true) ∧
      sampleBroken.render (.of "human" true) = textOfLines (sampleBroken.lines (.of "human" true)) ∧
      sampleBroken.lines (.of "human" false) =
        ["✖ ⟦error⟧ a.drl early", "✖ ⟦error⟧ b.drl:7 late",
          "— Problems — errors=2 artifacts=2"] := by
  have hhuman : "human" ≠ "json" := by decide
  obtain ⟨hrender, _, hagree⟩ := sampleBroken.lines_agree_iff hhuman true
  have herrors : ∀ e ∈ sampleBroken.entries, e.2.severity = .error := by decide
  refine ⟨hhuman, hagree.mpr fun artifact d hd => ?_, hrender, by decide⟩
  exact herrors (artifact, d) ((sampleBroken.mem_entries_iff artifact d).mpr hd)

/-- A warning of the tool's own, as a file may hold it. -/
def sampleWarned : ProblemList := (empty defaultCategory).push "a.drl" ⟨"m", some 3, .warning⟩

/-- A warning is shown under the label of an error, and is not counted. -/
theorem warning_shown_as_error :
    ∃ (fs : FileSystem) (l : ProblemList),
      fs.read sampleFile = .ok sampleWarned.toBytes ∧
      load fs sampleFile defaultCategory = .ok l ∧
      l.lines (.of "human" false) = ["✖ ⟦error⟧ a.drl:3 m", "— Problems — errors=0 artifacts=1"] ∧
      ¬ l.LinesAgree (.of "human" false) := by
  have hsave : sampleWarned.save .empty sampleFile =
      (.ok (), (sampleWarned.save .empty sampleFile).2) := rfl
  refine ⟨_, _, read_of_save hsave, load_of_save hsave defaultCategory, by decide +kernel, ?_⟩
  rw [linesAgree_iff_listing]
  decide +kernel

end ProblemList
end RuleBuild
