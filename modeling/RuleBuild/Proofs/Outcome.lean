import RuleBuild.Outcome
import RuleBuild.Proofs.Record.Grammar

/-!
# Outcomes written and read back

An outcome that has been read is read again from the record that is written for it. Errors of an
unknown kind are written as the records they came in, and known ones are read from what is written.
-/
namespace RuleBuild

@[simp] theorem Json.text?_string (s : String) : Datum.text? (Json.string s) = some s := rfl

@[simp] theorem Line.readField?_toJson (l : Line) : Line.readField? (some l.toJson) = some l :=
  Line.readField?_of_whole rfl rfl

theorem Problem.read?_toJson (p : Problem) : Problem.read? p.toJson = some p := by
  have hbody : Datum.body? p.toJson =
      some (.keyed [("message", .string p.message), ("line", p.line.toJson)]) := rfl
  rw [Problem.read?, hbody]
  simp [Body.fields?_keyed, Datum.required]

/-! ## Errors -/

namespace BuilderError

theorem readProblems?_problemsJson (problems : Option (List Problem)) :
    readProblems? (some (problemsJson problems)) = some problems := by
  cases problems with
  | none => rfl
  | some ps =>
      have hitems : Datum.list? Problem.read? (Json.array (ps.map Problem.toJson)) = some ps := by
        have hread : (ps.map Problem.toJson).mapM Problem.read? = some (ps.map id) := by
          rw [List.mapM_map]
          exact mapM_eq_some fun p _ => p.read?_toJson
        rw [List.map_id] at hread
        exact hread
      have habsent : Datum.absent? (problemsJson (some ps)) = some false := rfl
      simp only [readProblems?, Datum.optional, habsent]
      rw [problemsJson, hitems]
      rfl

theorem optional_optionalText (text : Option String) :
    Datum.optional Datum.text? (some (optionalText text)) = some text := by
  cases text with
  | none => rfl
  | some s => rfl

/-- Whether an error is of a known kind. -/
def isKnown : BuilderError → Bool
  | .unknown _ _ => false
  | _ => true

theorem known?_object {kind : String} {members : List (String × Json)}
    (h : ∀ m ∈ members, m.1 ≠ "kind") :
    known? (.object (("kind", .string kind) :: members)) = ofBody? kind (.keyed members) := by
  have hbody : Datum.body? (Json.object (("kind", .string kind) :: members)) =
      some (.keyed (("kind", .string kind) :: members)) := rfl
  rw [known?, hbody, Option.bind_eq_bind, Option.bind_some, Body.tagged?_keyed rfl h]
  rfl

theorem known?_toJson {e : BuilderError} (h : e.isKnown = true) : known? e.toJson = some e := by
  cases e with
  | global name message =>
      rw [toJson, known?_object (by simp), ofBody?]
      simp [Body.fields?_keyed, Datum.required, optional_optionalText]
  | rule name message line problems =>
      rw [toJson, known?_object (by simp), ofBody?]
      simp [Body.fields?_keyed, Datum.required, Datum.defaulted,
        readProblems?_problemsJson]
  | parser message row =>
      rw [toJson, known?_object (by simp), ofBody?]
      simp [Body.fields?_keyed, Datum.required]
  | function name message problems =>
      rw [toJson, known?_object (by simp), ofBody?]
      simp [Body.fields?_keyed, Datum.required, Datum.defaulted,
        readProblems?_problemsJson]
  | fieldTemplate message line =>
      rw [toJson, known?_object (by simp), ofBody?]
      simp [Body.fields?_keyed, Datum.required]
  | factTemplate message line =>
      rw [toJson, known?_object (by simp), ofBody?]
      simp [Body.fields?_keyed, Datum.required]
  | unknown tag detail => cases h

/-- Each kind has an error of its own. -/
theorem isKnown_of_ofBody? {kind : String} {body : Body Json} {e : BuilderError}
    (h : ofBody? kind body = some e) : e.isKnown = true := by
  unfold ofBody? at h
  split at h
  case h_7 => cases h
  all_goals
    obtain ⟨fields, _, h⟩ := Option.bind_eq_some_iff.mp h
    split at h
    · simp only [Option.bind_eq_bind, Option.bind_eq_some_iff] at h
      grind [isKnown]
    · cases h

theorem isKnown_of_known? {v : Json} {e : BuilderError} (h : known? v = some e) :
    e.isKnown = true := by
  simp only [known?, Option.bind_eq_bind, Option.bind_eq_some_iff] at h
  obtain ⟨_, _, _, _, h⟩ := h
  exact isKnown_of_ofBody? h

theorem ofJson_toJson_of_isKnown {e : BuilderError} (h : e.isKnown = true) :
    ofJson e.toJson = e := by
  rw [ofJson, known?_toJson h]

/-- An error of an unknown kind is written as the record it came in. -/
theorem toJson_ofJson_of_unknown {v : Json} (h : (ofJson v).isKnown = false) :
    (ofJson v).toJson = v := by
  rw [ofJson] at h ⊢
  split at h
  · rename_i hknown
    rw [isKnown_of_known? hknown] at h
    cases h
  · rfl

/-- Whatever an error was read from, it is read again from what is written for it. -/
theorem ofJson_toJson_ofJson (v : Json) : ofJson (ofJson v).toJson = ofJson v := by
  cases h : (ofJson v).isKnown with
  | true => exact ofJson_toJson_of_isKnown h
  | false => rw [toJson_ofJson_of_unknown h]

end BuilderError

/-! ## Outcomes -/

namespace Outcome

/-- The value of the field for errors: a member of that name, or the item after the tag. -/
def errorField? : Json → Option Json
  | .array items => items[1]?
  | .object members => members.lookup "errors"
  | _ => none

/-- The records of the errors in the value of an outcome. -/
def errorRecords (v : Json) : List Json :=
  match errorField? v with
  | some (.array records) => records
  | _ => []

/-- Whether all errors of an outcome are of known kinds. -/
def isKnown : Outcome → Bool
  | .builderErrors errors => errors.all BuilderError.isKnown
  | _ => true

theorem read?_object {kind : String} {members : List (String × Json)}
    (h : ∀ m ∈ members, m.1 ≠ "outcome") :
    read? (Json.object (("outcome", .string kind) :: members)) = ofBody? kind (.keyed members) := by
  have hbody : Datum.body? (Json.object (("outcome", .string kind) :: members)) =
      some (.keyed (("outcome", .string kind) :: members)) := rfl
  rw [read?, hbody, Option.bind_eq_bind, Option.bind_eq_bind, Option.bind_some,
    Body.tagged?_keyed rfl h]
  rfl

theorem readErrors?_toJson {errors : List BuilderError}
    (h : ∀ e ∈ errors, BuilderError.ofJson e.toJson = e) :
    readErrors? (Json.array (errors.map BuilderError.toJson)) = some errors := by
  have hread : (errors.map BuilderError.toJson).mapM (fun v => some (BuilderError.ofJson v)) =
      some (errors.map id) := by
    rw [List.mapM_map]
    exact mapM_eq_some fun e he => congrArg some (h e he)
  rw [List.map_id] at hread
  exact hread

/-- An outcome is read from what is written for it if its errors are. -/
theorem read?_toJson {o : Outcome}
    (h : ∀ errors, o = .builderErrors errors → ∀ e ∈ errors, BuilderError.ofJson e.toJson = e) :
    read? o.toJson = some o := by
  cases o with
  | parseFailure message line =>
      rw [toJson, read?_object (by simp), ofBody?]
      simp [Body.fields?_keyed, Datum.required]
  | builderErrors errors =>
      rw [toJson, read?_object (by simp), ofBody?]
      simp [Body.fields?_keyed, Datum.defaulted, readErrors?_toJson (h errors rfl)]
  | unexpectedFailure kind message =>
      rw [toJson, read?_object (by simp), ofBody?]
      simp [Body.fields?_keyed, Datum.required, BuilderError.optional_optionalText]

/-! ## What has been read -/

theorem lookup_eq_head?_named {α : Type} (key : String) (members : List (String × α)) :
    members.lookup key = (Body.named key members).head? := by
  induction members with
  | nil => rfl
  | cons m members ih =>
      obtain ⟨other, x⟩ := m
      by_cases hkey : key = other
      · rw [hkey, List.lookup_cons_self]
        simp [Body.named]
      · have hother : (key == other) = false := by simpa using hkey
        rw [List.lookup_cons, hother]
        simp [ih, Body.named, Ne.symm hkey]

/-- The errors of an outcome are read from one field, which may be missing. -/
theorem errors_of_read? {α : Type} [JsonDatum α] {x : α} {errors : List BuilderError}
    (h : read? x = some (.builderErrors errors)) :
    ∃ body kind rest field, Datum.body? x = some body ∧ body.tagged? "outcome" = some (kind, rest) ∧
      rest.fields? ["errors"] = some [field] ∧
      Datum.defaulted readErrors? [] field = some errors := by
  simp only [read?, Option.bind_eq_bind, Option.bind_eq_some_iff] at h
  obtain ⟨_, _, body, hbody, ⟨kind, rest⟩, htagged, h⟩ := h
  refine ⟨body, kind, rest, ?_⟩
  unfold ofBody? at h
  split at h
  · obtain ⟨_, _, h⟩ := Option.bind_eq_some_iff.mp h
    split at h
    · simp only [Option.bind_eq_bind, Option.bind_eq_some_iff] at h
      grind
    · cases h
  · obtain ⟨fields, hfields, h⟩ := Option.bind_eq_some_iff.mp h
    split at h
    · rename_i field
      obtain ⟨errors', herrors, heq⟩ := Option.bind_eq_some_iff.mp h
      cases heq
      exact ⟨field, hbody, htagged, hfields, herrors⟩
    · cases h
  · obtain ⟨_, _, h⟩ := Option.bind_eq_some_iff.mp h
    split at h
    · simp only [Option.bind_eq_bind, Option.bind_eq_some_iff] at h
      grind
    · cases h
  · cases h

theorem exists_ofJson_of_defaulted {α : Type} [JsonDatum α] {field : Option α}
    {errors : List BuilderError} (h : Datum.defaulted readErrors? [] field = some errors) :
    ∀ e ∈ errors, ∃ v, e = BuilderError.ofJson v := by
  cases field with
  | none =>
      cases h
      simp
  | some x =>
      simp only [Datum.defaulted, readErrors?, Datum.list?, Option.bind_eq_bind,
        Option.bind_eq_some_iff] at h
      obtain ⟨items, _, hread⟩ := h
      intro e he
      obtain ⟨y, _, hy⟩ := exists_of_mapM_eq_some hread he
      obtain ⟨v, _, hv⟩ := Option.map_eq_some_iff.mp hy
      exact ⟨v, hv.symm⟩

theorem read?_toJson_of_read? {α : Type} [JsonDatum α] {x : α} {o : Outcome}
    (h : read? x = some o) : read? o.toJson = some o := by
  refine read?_toJson fun errors ho e he => ?_
  subst ho
  obtain ⟨_, _, _, field, _, _, _, hfield⟩ := errors_of_read? h
  obtain ⟨v, rfl⟩ := exists_ofJson_of_defaulted hfield e he
  exact BuilderError.ofJson_toJson_ofJson v

theorem errorField?_eq {v : Json} {body rest : Body Json} {kind : String} {field : Option Json}
    (hbody : Datum.body? v = some body) (htagged : body.tagged? "outcome" = some (kind, rest))
    (hfield : rest.fields? ["errors"] = some [field]) : errorField? v = field := by
  cases v with
  | array items =>
      cases hbody
      exact Body.getElem?_one_of_tagged htagged hfield
  | object members =>
      cases hbody
      rw [errorField?, lookup_eq_head?_named, Body.named_of_tagged (by decide) htagged hfield,
        Option.head?_toList]
  | null => cases hbody
  | bool b => cases hbody
  | number n => cases hbody
  | string s => cases hbody

theorem eq_map_errorRecords {v : Json} {errors : List BuilderError}
    (h : read? v = some (.builderErrors errors)) :
    errors = (errorRecords v).map BuilderError.ofJson := by
  obtain ⟨body, kind, rest, field, hbody, htagged, hfields, hfield⟩ := errors_of_read? h
  rw [errorRecords, errorField?_eq hbody htagged hfields]
  cases field with
  | none =>
      cases hfield
      rfl
  | some x =>
      simp only [Datum.defaulted, readErrors?, Datum.list?, Option.bind_eq_bind,
        Option.bind_eq_some_iff] at hfield
      obtain ⟨items, hitems, hread⟩ := hfield
      have hx : x = .array items := by
        cases x with
        | array ys =>
            cases hitems
            rfl
        | _ => cases hitems
      have hall : items.mapM (fun y => (JsonDatum.value? y).map BuilderError.ofJson) =
          some (items.map BuilderError.ofJson) := mapM_eq_some fun y _ => rfl
      rw [hall] at hread
      cases hread
      rw [hx]

/-- Outcomes survive being written and read back. One that has been read from a value is read again
from what is written for it: its errors are those of the value's records in their order, and a
record of an unknown kind is written as it came in. One without errors of unknown kinds is always
read back. -/
theorem outcome_survives :
    (∀ (v : Json) (o : Outcome), read? v = some o → read? o.toJson = some o ∧
      ∀ errors, o = .builderErrors errors → errors = (errorRecords v).map BuilderError.ofJson ∧
        errorRecords o.toJson = errors.map BuilderError.toJson ∧
        ∀ record ∈ errorRecords v, ∀ tag detail,
          BuilderError.ofJson record = .unknown tag detail →
            (BuilderError.ofJson record).toJson = record) ∧
      ∀ o : Outcome, o.isKnown = true → read? o.toJson = some o := by
  constructor
  · intro v o h
    refine ⟨read?_toJson_of_read? h, fun errors ho => ?_⟩
    subst ho
    refine ⟨eq_map_errorRecords h, rfl, fun record _ tag detail hunknown => ?_⟩
    exact BuilderError.toJson_ofJson_of_unknown (by rw [hunknown]; rfl)
  · intro o h
    refine read?_toJson fun errors ho e he => ?_
    subst ho
    exact BuilderError.ofJson_toJson_of_isKnown (List.all_eq_true.mp h e he)

/-- A rule whose name is no text, and an error written as a list. -/
def sampleRecords : List Json :=
  [.object [("rule", .ofNat 3), ("kind", .string "rule")], .array [.string "global", .string "G"]]

def sampleErrors : List BuilderError :=
  [.unknown "rule" (.object [("rule", .ofNat 3), ("kind", .string "rule")]), .global "G" none]

theorem sampleRecords_survive :
    read? (Json.array [.string "builder_errors", .array sampleRecords]) =
        some (.builderErrors sampleErrors) ∧
      read? (toJson (.builderErrors sampleErrors)) = some (.builderErrors sampleErrors) ∧
      read? (toJson (.parseFailure "" (some 4294967295))) =
        some (.parseFailure "" (some 4294967295)) := by
  have hread : read? (Json.array [.string "builder_errors", .array sampleRecords]) =
      some (.builderErrors sampleErrors) := rfl
  exact ⟨hread, (outcome_survives.1 _ _ hread).1, outcome_survives.2 _ rfl⟩

end Outcome
end RuleBuild
