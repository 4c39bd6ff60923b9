import RuleBuild.Outcome.Diagnostics
import RuleBuild.Proofs.Outcome
import RuleBuild.Proofs.Json.Pretty

/-!
# The records of errors

A record is an error of a known kind exactly if it is written as that kind has it; every other one
is kept as it came in, under its kind.
-/
namespace RuleBuild

/-- A problem is a record of a message and a line. -/
def Problem.WrittenAs {α : Type} [Datum α] (p : Problem) (x : α) : Prop :=
  ∃ body message line, Datum.body? x = some body ∧
    body.Gives ["message", "line"] [some message, line] ∧
    Datum.TextAs p.message message ∧ p.line.WrittenAs line

theorem Problem.read?_eq_some_iff {α : Type} [Datum α] {x : α} {p : Problem} :
    read? x = some p ↔ p.WrittenAs x := by
  simp only [read?, Option.bind_eq_bind, Option.bind_eq_some_iff, Body.fields?_eq_some_iff]
  constructor
  · rintro ⟨body, hbody, fields, hfields, h⟩
    split at h
    · rename_i message line
      simp only [Option.bind_eq_some_iff, Line.readField?_eq_some_iff] at h
      obtain ⟨text, htext, l, hl, heq⟩ := h
      cases heq
      obtain ⟨y, rfl, hy⟩ := (Datum.required_eq_some_iff Datum.text?_eq_some_iff).mp htext
      exact ⟨body, y, line, hbody, hfields, hy, hl⟩
    · cases h
  · rintro ⟨body, message, line, hbody, hfields, hmessage, hline⟩
    refine ⟨body, hbody, _, hfields, ?_⟩
    simp only [Datum.required, Option.bind_some, Line.readField?_eq_some_iff.mpr hline]
    rw [show Datum.text? message = some p.message from hmessage]
    rfl

theorem Json.eq_string_of_text? {x : Json} {s : String} (h : Datum.text? x = some s) :
    x = .string s := by
  cases x with
  | string s =>
      cases h
      rfl
  | _ => cases h

namespace BuilderError

open Datum

/-- The fields of the errors of each kind. A rule or a function without a message has an empty one,
and a global may say that it has none. -/
inductive FieldsAs (body : Body Json) : String → BuilderError → Prop
  | global {name : String} {message : Option String} {x : Json} {field : Option Json}
      (fields : body.Gives ["global", "message"] [some x, field]) (named : TextAs name x)
      (said : OptionalAs TextAs message field) : FieldsAs body "global" (.global name message)
  | rule {name message : String} {line : Line} {problems : Option (List Problem)} {x : Json}
      {field lineField problemsField : Option Json}
      (fields : body.Gives ["rule", "message", "line", "problems"]
        [some x, field, lineField, problemsField])
      (named : TextAs name x) (said : DefaultedAs TextAs "" message field)
      (placed : line.WrittenAs lineField)
      (embedded : OptionalAs (ListAs Problem.WrittenAs) problems problemsField) :
      FieldsAs body "rule" (.rule name message line problems)
  | parser {message : String} {row : Line} {x : Json} {field : Option Json}
      (fields : body.Gives ["message", "row"] [some x, field]) (said : TextAs message x)
      (placed : row.WrittenAs field) : FieldsAs body "parser" (.parser message row)
  | function {name message : String} {problems : Option (List Problem)} {x : Json}
      {field problemsField : Option Json}
      (fields : body.Gives ["function", "message", "problems"] [some x, field, problemsField])
      (named : TextAs name x) (said : DefaultedAs TextAs "" message field)
      (embedded : OptionalAs (ListAs Problem.WrittenAs) problems problemsField) :
      FieldsAs body "function" (.function name message problems)
  | fieldTemplate {message : String} {line : Line} {x : Json} {field : Option Json}
      (fields : body.Gives ["message", "line"] [some x, field]) (said : TextAs message x)
      (placed : line.WrittenAs field) :
      FieldsAs body "field_template" (.fieldTemplate message line)
  | factTemplate {message : String} {line : Line} {x : Json} {field : Option Json}
      (fields : body.Gives ["message", "line"] [some x, field]) (said : TextAs message x)
      (placed : line.WrittenAs field) : FieldsAs body "fact_template" (.factTemplate message line)

/-- An error is an object with the name of its kind under `kind`, or a list that begins with this
name, and its fields. -/
inductive WrittenAs : BuilderError → Json → Prop
  | object {members : List (String × Json)} {kind : String} {e : BuilderError}
      (tag : Body.named "kind" members = [.string kind])
      (fields : FieldsAs (.keyed members) kind e) : WrittenAs e (.object members)
  | array {items : List Json} {kind : String} {e : BuilderError}
      (fields : FieldsAs (.listed items) kind e) : WrittenAs e (.array (.string kind :: items))

theorem readProblems?_eq_some_iff {field : Option Json} {problems : Option (List Problem)} :
    readProblems? field = some problems ↔
      OptionalAs (ListAs Problem.WrittenAs) problems field :=
  optional_eq_some_iff (list?_eq_some_iff Problem.read?_eq_some_iff)

theorem ofBody?_eq_some_iff {kind : String} {body : Body Json} {e : BuilderError} :
    ofBody? kind body = some e ↔ FieldsAs body kind e := by
  constructor
  · intro h
    unfold ofBody? at h
    split at h
    case h_7 => cases h
    all_goals
      simp only [Option.bind_eq_bind, Option.bind_eq_some_iff, Body.fields?_eq_some_iff] at h
      obtain ⟨fields, hfields, h⟩ := h
      split at h
      case h_2 => cases h
      simp only [Option.bind_eq_some_iff, Line.readField?_eq_some_iff, readProblems?_eq_some_iff,
        required_eq_some_iff text?_eq_some_iff, optional_eq_some_iff text?_eq_some_iff,
        defaulted_eq_some_iff text?_eq_some_iff] at h
    · obtain ⟨_, ⟨_, rfl, hname⟩, _, hmessage, heq⟩ := h
      cases heq
      exact .global hfields hname hmessage
    · obtain ⟨_, ⟨_, rfl, hname⟩, _, hmessage, _, hline, _, hproblems, heq⟩ := h
      cases heq
      exact .rule hfields hname hmessage hline hproblems
    · obtain ⟨_, ⟨_, rfl, hmessage⟩, _, hrow, heq⟩ := h
      cases heq
      exact .parser hfields hmessage hrow
    · obtain ⟨_, ⟨_, rfl, hname⟩, _, hmessage, _, hproblems, heq⟩ := h
      cases heq
      exact .function hfields hname hmessage hproblems
    · obtain ⟨_, ⟨_, rfl, hmessage⟩, _, hline, heq⟩ := h
      cases heq
      exact .fieldTemplate hfields hmessage hline
    · obtain ⟨_, ⟨_, rfl, hmessage⟩, _, hline, heq⟩ := h
      cases heq
      exact .factTemplate hfields hmessage hline
  · intro h
    have htext {s : String} {x : Json} (hx : TextAs s x) :
        required Datum.text? (some x) = some s := hx
    have hoptional {s : Option String} {field : Option Json} (h : OptionalAs TextAs s field) :
        Datum.optional Datum.text? field = some s := (optional_eq_some_iff text?_eq_some_iff).mpr h
    have hdefaulted {s : String} {field : Option Json} (h : DefaultedAs TextAs "" s field) :
        defaulted Datum.text? "" field = some s := (defaulted_eq_some_iff text?_eq_some_iff).mpr h
    cases h with
    | global fields named said =>
        simp [ofBody?, Body.fields?_eq_some_iff.mpr fields, htext named, hoptional said]
    | rule fields named said placed embedded =>
        simp [ofBody?, Body.fields?_eq_some_iff.mpr fields, htext named, hdefaulted said,
          Line.readField?_eq_some_iff.mpr placed, readProblems?_eq_some_iff.mpr embedded]
    | parser fields said placed =>
        simp [ofBody?, Body.fields?_eq_some_iff.mpr fields, htext said,
          Line.readField?_eq_some_iff.mpr placed]
    | function fields named said embedded =>
        simp [ofBody?, Body.fields?_eq_some_iff.mpr fields, htext named, hdefaulted said,
          readProblems?_eq_some_iff.mpr embedded]
    | fieldTemplate fields said placed =>
        simp [ofBody?, Body.fields?_eq_some_iff.mpr fields, htext said,
          Line.readField?_eq_some_iff.mpr placed]
    | factTemplate fields said placed =>
        simp [ofBody?, Body.fields?_eq_some_iff.mpr fields, htext said,
          Line.readField?_eq_some_iff.mpr placed]

theorem FieldsAs.mono {body body' : Body Json} {kind : String} {e : BuilderError}
    (h : FieldsAs body kind e)
    (hgives : ∀ {names fields}, "kind" ∉ names → body.Gives names fields →
      body'.Gives names fields) : FieldsAs body' kind e := by
  cases h with
  | global fields named said => exact .global (hgives (by decide) fields) named said
  | rule fields named said placed embedded =>
      exact .rule (hgives (by decide) fields) named said placed embedded
  | parser fields said placed => exact .parser (hgives (by decide) fields) said placed
  | function fields named said embedded =>
      exact .function (hgives (by decide) fields) named said embedded
  | fieldTemplate fields said placed =>
      exact .fieldTemplate (hgives (by decide) fields) said placed
  | factTemplate fields said placed => exact .factTemplate (hgives (by decide) fields) said placed

theorem FieldsAs.kindName_eq {body : Body Json} {kind : String} {e : BuilderError}
    (h : FieldsAs body kind e) : e.kindName = kind := by
  cases h <;> rfl

theorem known?_eq_some_iff {v : Json} {e : BuilderError} : known? v = some e ↔ WrittenAs e v := by
  constructor
  · intro h
    simp only [known?, Option.bind_eq_bind, Option.bind_eq_some_iff] at h
    obtain ⟨body, hbody, ⟨kind, rest⟩, htagged, h⟩ := h
    have hfields := ofBody?_eq_some_iff.mp h
    cases v with
    | array items =>
        cases hbody
        cases items with
        | nil => cases htagged
        | cons x items =>
            obtain ⟨_, htag, heq⟩ := Option.map_eq_some_iff.mp htagged
            cases heq
            rw [Json.eq_string_of_text? htag]
            exact .array hfields
    | object members =>
        cases hbody
        simp only [Body.tagged?, Option.bind_eq_bind, Option.bind_eq_some_iff] at htagged
        obtain ⟨_, hmember, x, rfl, _, htag, heq⟩ := htagged
        cases heq
        rw [Json.eq_string_of_text? htag] at hmember
        refine .object (Body.member?_eq_some_iff.mp hmember) (hfields.mono ?_)
        exact fun hnames => (Body.gives_filter_ne hnames members).mp
    | _ => cases hbody
  · intro h
    cases h with
    | @object members kind _ tag fields =>
        have hrest := fields.mono fun hnames => (Body.gives_filter_ne hnames members).mpr
        have hmember : Body.member? "kind" members = some (some (.string kind)) :=
          Body.member?_eq_some_iff.mpr tag
        have hbody : body? (Json.object members) = some (.keyed members) := rfl
        simp only [known?, hbody, Body.tagged?, hmember, Option.bind_eq_bind, Option.bind_some,
          Json.text?_string, Option.pure_def]
        exact ofBody?_eq_some_iff.mpr hrest
    | array fields => exact ofBody?_eq_some_iff.mpr fields

theorem isKnown_ofJson_iff {v : Json} : (ofJson v).isKnown = true ↔ ∃ e, WrittenAs e v := by
  simp only [← known?_eq_some_iff]
  rw [ofJson]
  split
  · rename_i e he
    simp [he, isKnown_of_known? he]
  · rename_i hnone
    simp [hnone, isKnown]

theorem kindName_ofJson {v : Json} {kind : String} (h : v.get? "kind" = some (.string kind)) :
    (ofJson v).kindName = kind := by
  rw [ofJson]
  split
  · rename_i e he
    cases known?_eq_some_iff.mp he with
    | object tag fields =>
        rw [Json.get?, Outcome.lookup_eq_head?_named, tag] at h
        cases h
        exact fields.kindName_eq
    | array fields => cases h
  · rw [h]
    rfl

end BuilderError

/-! ## Outcomes in texts -/

namespace Json

theorem lookup_put {α : Type} (key other : String) (x : α) (members : List (String × α)) :
    (put other x members).lookup key = if other = key then some x else members.lookup key := by
  induction members with
  | nil =>
      by_cases h : other = key
      · simp [put, h]
      · have hkey : (key == other) = false := by simpa using Ne.symm h
        simp [put, List.lookup_cons, h, hkey]
  | cons m members ih =>
      obtain ⟨name, y⟩ := m
      rw [put]
      by_cases hname : name = other
      · by_cases h : other = key
        · simp [hname, h]
        · have hkey : (key == other) = false := by simpa using Ne.symm h
          simp [hname, List.lookup_cons, h, hkey]
      · rw [if_neg hname, List.lookup_cons, List.lookup_cons, ih]
        by_cases h : other = key
        · have hkey : (key == name) = false := by simpa [h] using Ne.symm hname
          simp [h, hkey]
        · simp only [if_neg h]

/-- Of a repeated key the last value counts. -/
theorem lookup_collect {α : Type} (key : String) (members : List (String × α)) :
    (collect members).lookup key = (Body.named key members).getLast? := by
  have hfold (before : List (String × α)) :
      (members.foldl (fun ms m => put m.1 m.2 ms) before).lookup key =
        (Body.named key members).getLast?.or (before.lookup key) := by
    induction members generalizing before with
    | nil => simp [Body.named]
    | cons m members ih =>
        rw [List.foldl_cons, ih, lookup_put, Body.named_cons]
        split
        · rw [List.getLast?_cons]
          cases (Body.named key members).getLast? <;> rfl
        · rfl
  rw [collect, hfold]
  simp

theorem Raw.values?_eq_some_iff {items : List Raw} {vs : List Json} :
    Raw.values? items = some vs ↔ List.Forall₂ (fun x v => x.value? = some v) items vs := by
  rw [← mapM_eq_some_iff]
  have hvalues : Raw.values? items = items.mapM Raw.value? := by
    induction items with
    | nil => rfl
    | cons x xs ih => rw [Raw.values?, List.mapM_cons, ih]
  rw [hvalues]

theorem Raw.named_of_memberValues? {members : List (String × Raw)} {vs : List (String × Json)}
    (h : Raw.memberValues? (members.map fun m => (some m.1, m.2)) = some vs) (key : String) :
    List.Forall₂ (fun x v => x.value? = some v) (Body.named key members) (Body.named key vs) := by
  induction members generalizing vs with
  | nil =>
      cases h
      exact .nil
  | cons m members ih =>
      simp only [List.map_cons, Raw.memberValues?, Option.bind_eq_bind, Option.bind_some,
        Option.bind_eq_some_iff] at h
      obtain ⟨v, hv, rest, hrest, heq⟩ := h
      cases heq
      rw [Body.named_cons, Body.named_cons]
      split
      · exact .cons hv (ih hrest)
      · exact ih hrest

theorem Raw.members_of_body? {members : List (Option String × Raw)} {ms : List (String × Raw)}
    (h : Datum.body? (Raw.object members) = some (.keyed ms)) :
    members = ms.map fun m => (some m.1, m.2) := by
  obtain ⟨ms', hms, heq⟩ := Option.map_eq_some_iff.mp h
  cases heq
  have hall := mapM_eq_some_iff.mp hms
  clear h hms
  induction hall with
  | nil => rfl
  | cons hm _ ih =>
      obtain ⟨key, hkey, heq⟩ := Option.map_eq_some_iff.mp hm
      cases heq
      rw [List.map_cons, ← ih, ← hkey]

end Json

namespace Outcome

open Json (Raw)

/-- The field for errors in a text is that of the text's value. -/
theorem errorField?_of_value? {x : Raw} {v : Json} {body rest : Body Raw} {kind : String}
    {field : Option Raw} (hv : x.value? = some v) (hbody : Datum.body? x = some body)
    (htagged : body.tagged? "outcome" = some (kind, rest))
    (hfield : rest.fields? ["errors"] = some [field]) :
    Option.Rel (fun x v => x.value? = some v) field (errorField? v) := by
  cases x with
  | array items =>
      cases hbody
      obtain ⟨vs, hvs, rfl⟩ := Option.map_eq_some_iff.mp hv
      rw [errorField?, ← Body.getElem?_one_of_tagged htagged hfield]
      cases Raw.values?_eq_some_iff.mp hvs with
      | nil => exact .none
      | cons _ hrest =>
          cases hrest with
          | nil => exact .none
          | cons hy _ => exact .some hy
  | object members =>
      obtain ⟨ms, hms, rfl⟩ := Option.map_eq_some_iff.mp hbody
      obtain ⟨vs, hvs, rfl⟩ := Option.map_eq_some_iff.mp hv
      rw [Raw.members_of_body? hbody] at hvs
      have hnamed := Raw.named_of_memberValues? hvs "errors"
      rw [Body.named_of_tagged (by decide) htagged hfield] at hnamed
      rw [errorField?, Json.lookup_collect]
      cases field with
      | none =>
          rw [List.forall₂_nil_left_iff.mp hnamed]
          exact .none
      | some y =>
          obtain ⟨w, ws, hw, hws, heq⟩ := List.forall₂_cons_left_iff.mp hnamed
          rw [heq, List.forall₂_nil_left_iff.mp hws]
          exact .some hw
  | _ => cases hbody

/-- The errors of an outcome read from a text are those of the records in the text's value. -/
theorem eq_map_errorRecords_of_value? {x : Raw} {v : Json} {errors : List BuilderError}
    (hv : x.value? = some v) (h : read? x = some (.builderErrors errors)) :
    errors = (errorRecords v).map BuilderError.ofJson := by
  obtain ⟨body, kind, rest, field, hbody, htagged, hfields, hfield⟩ := errors_of_read? h
  have hvalue := errorField?_of_value? hv hbody htagged hfields
  rw [errorRecords]
  generalize errorField? v = there at hvalue
  cases hvalue with
  | none =>
      cases hfield
      rfl
  | @some y w hw =>
      simp only [Datum.defaulted, readErrors?, Datum.list?, Option.bind_eq_bind,
        Option.bind_eq_some_iff] at hfield
      obtain ⟨items, hitems, hread⟩ := hfield
      cases y with
      | array ys =>
          cases hitems
          obtain ⟨ws, hws, rfl⟩ := Option.map_eq_some_iff.mp hw
          have hall : items.mapM (fun y => (JsonDatum.value? y).map BuilderError.ofJson) =
              some (ws.map BuilderError.ofJson) := by
            refine mapM_eq_some_iff.mpr (List.forall₂_map_right_iff.mpr ?_)
            refine (Raw.values?_eq_some_iff.mp hws).imp fun y v hy => ?_
            rw [show JsonDatum.value? y = y.value? from rfl, hy]
            rfl
          rw [hall] at hread
          cases hread
          rfl
      | _ => cases hitems

end Outcome

namespace BuilderError

/-- A record is read as an error of a known kind exactly if it is written as that kind has it, and
then as the error that is written. Every other record is kept as it came in, under the text that an
object has for its `kind`, and untagged if there is none. So an object keeps the name of its kind.
The errors of an outcome are those of its records, each in its place, whether the outcome is read
from a value or from a text. -/
theorem records_read_by_grammar :
    (∀ v : Json,
      ((ofJson v).isKnown = true ↔ ∃ e, WrittenAs e v) ∧
      (∀ e, WrittenAs e v → ofJson v = e) ∧
      ((∀ e, ¬ WrittenAs e v) →
        (∀ kind, v.get? "kind" = some (.string kind) → ofJson v = .unknown kind v) ∧
        ((∀ kind, v.get? "kind" ≠ some (.string kind)) → ofJson v = .unknown "untagged" v)) ∧
      ∀ kind, v.get? "kind" = some (.string kind) → (ofJson v).kindName = kind) ∧
    (∀ (v : Json) (errors : List BuilderError), Outcome.read? v = some (.builderErrors errors) →
      errors = (Outcome.errorRecords v).map ofJson) ∧
    ∀ (bytes : Bytes) (errors : List BuilderError),
      Outcome.ofBytes? bytes = some (.builderErrors errors) →
        ∃ v, (Json.Raw.ofBytes? bytes).bind Json.Raw.value? = some v ∧
          errors = (Outcome.errorRecords v).map ofJson := by
  refine ⟨fun v => ⟨isKnown_ofJson_iff, fun e he => ?_, fun hnone => ?_, fun kind => ?_⟩,
    fun v errors => Outcome.eq_map_errorRecords, fun bytes errors h => ?_⟩
  · rw [ofJson, known?_eq_some_iff.mpr he]
  · have hunknown : known? v = none :=
      Option.eq_none_iff_forall_ne_some.mpr fun e he => hnone e (known?_eq_some_iff.mp he)
    rw [ofJson, hunknown]
    constructor
    · intro kind hkind
      rw [hkind]
      rfl
    · intro hkind
      have htag : (v.get? "kind").bind Json.string? = none := by
        refine Option.bind_eq_none_iff.mpr fun x hx => ?_
        cases x with
        | string kind => exact absurd hx (hkind kind)
        | _ => rfl
      rw [htag]
      rfl
  · exact kindName_ofJson
  · obtain ⟨x, hx, hread⟩ := Option.bind_eq_some_iff.mp h
    obtain ⟨v, hv⟩ : ∃ v, x.value? = some v := by
      simp only [Outcome.read?, Option.bind_eq_bind, Option.bind_eq_some_iff] at hread
      exact hread.imp fun _ => And.left
    exact ⟨v, by rw [hx]; exact hv, Outcome.eq_map_errorRecords_of_value? hv hread⟩

def sampleRule : Json := .object [("rule", .ofNat 3), ("kind", .string "rule")]

def sampleGlobal : Json := .array [.string "global", .string "G"]

def sampleValue : Json := .array [.string "builder_errors", .array [sampleRule, sampleGlobal]]

/-- A rule whose name is no text is kept, a list is a global without a message, and null has no
kind. -/
theorem sampleRecords_read_by_grammar :
    (WrittenAs (.global "G" none) sampleGlobal ∧ ofJson sampleGlobal = .global "G" none) ∧
      ((∀ e, ¬ WrittenAs e sampleRule) ∧ sampleRule.get? "kind" = some (.string "rule") ∧
        ofJson sampleRule = .unknown "rule" sampleRule ∧ (ofJson sampleRule).kindName = "rule") ∧
      ((∀ e, ¬ WrittenAs e .null) ∧ (∀ kind, Json.null.get? "kind" ≠ some (.string kind)) ∧
        ofJson .null = .unknown "untagged" .null) ∧
      (Outcome.read? sampleValue = some (.builderErrors Outcome.sampleErrors) ∧
        Outcome.sampleErrors = (Outcome.errorRecords sampleValue).map ofJson) ∧
      Outcome.ofBytes? (bytesOf sampleValue.pretty) = some (.builderErrors Outcome.sampleErrors) ∧
        ∃ v, (Json.Raw.ofBytes? (bytesOf sampleValue.pretty)).bind Json.Raw.value? = some v ∧
          Outcome.sampleErrors = (Outcome.errorRecords v).map ofJson := by
  have hglobal : WrittenAs (.global "G" none) sampleGlobal := known?_eq_some_iff.mp rfl
  have hrule (e : BuilderError) : ¬ WrittenAs e sampleRule :=
    fun he => nomatch known?_eq_some_iff.mpr he
  have hnull (e : BuilderError) : ¬ WrittenAs e .null := fun he => nomatch he
  have hkind (kind : String) : Json.null.get? "kind" ≠ some (.string kind) := nofun
  have hread : Outcome.read? sampleValue = some (.builderErrors Outcome.sampleErrors) := rfl
  have htext : Outcome.ofBytes? (bytesOf sampleValue.pretty) =
      some (.builderErrors Outcome.sampleErrors) := by
    have hplain : Json.Plain Json.greatestDepth sampleValue := by
      simp [sampleValue, sampleRule, sampleGlobal, Json.ofNat, Json.greatestDepth, Json.Fits]
    rw [Outcome.ofBytes?, Json.ofBytes?_pretty hplain]
    rfl
  obtain ⟨hrecords, hvalues, htexts⟩ := records_read_by_grammar
  exact ⟨⟨hglobal, (hrecords _).2.1 _ hglobal⟩,
    ⟨hrule, rfl, ((hrecords _).2.2.1 hrule).1 _ rfl, (hrecords _).2.2.2 _ rfl⟩,
    ⟨hnull, hkind, ((hrecords _).2.2.1 hnull).2 hkind⟩, ⟨hread, hvalues _ _ hread⟩,
    htext, htexts _ _ htext⟩

end BuilderError
end RuleBuild
