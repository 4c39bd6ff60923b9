import RuleBuild.Proofs.ProblemList.Views

/-!
# The problems of an artifact after any history

A list is changed by four operations. Whatever their order and whichever artifacts they are about,
the problems of one artifact are those that its last renewal left, followed by those added since.
-/
namespace RuleBuild

inductive Edit
  | report (artifact : String) (o : Outcome)
  | add (artifact : String) (d : Diagnostic)
  | clear (artifact : String)
  | clearAll
  deriving Repr

namespace Edit

/-- The artifact that an operation is about, none if it is about all of them. -/
def artifact? : Edit → Option String
  | .report a _ => some a
  | .add a _ => some a
  | .clear a => some a
  | .clearAll => none

/-- Whether an operation is about an artifact, alone or among all. -/
def concerns (a : String) (e : Edit) : Bool := e.artifact?.all (· = a)

/-- Whether an operation does away with the problems that an artifact had before. -/
def renews (a : String) : Edit → Bool
  | .report b _ => b = a
  | .add _ _ => false
  | .clear b => b = a
  | .clearAll => true

/-- The problems that an operation leaves where it does away with the earlier ones. -/
def left : Edit → List Diagnostic
  | .report _ o => o.diagnostics
  | .add _ _ => []
  | .clear _ => []
  | .clearAll => []

def added? (a : String) : Edit → Option Diagnostic
  | .report _ _ => none
  | .add b d => if b = a then some d else none
  | .clear _ => none
  | .clearAll => none

/-- The problems of an artifact after an operation, from those before it. -/
def effect (a : String) (ds : List Diagnostic) (e : Edit) : List Diagnostic :=
  if e.renews a then e.left else ds ++ (e.added? a).toList

end Edit

namespace ProblemList

/-- A list after an operation. -/
def edit (l : ProblemList) : Edit → ProblemList
  | .report a o => ((Recorded.mk l []).report a o).store
  | .add a d => (ProblemStore.add l a d).2
  | .clear a => (ProblemStore.clear l a).2
  | .clearAll => l.clearAll

/-- A list after operations one after the other. -/
def editAll (l : ProblemList) (es : List Edit) : ProblemList := es.foldl edit l

/-- One operation changes the problems of an artifact by its effect on them alone. -/
theorem problems_edit (l : ProblemList) {e : Edit} (h : e.artifact? ≠ some "") (a : String) :
    (l.edit e).problems a = e.effect a (l.problems a) := by
  cases e with
  | report b o =>
      have hb : b ≠ "" := fun hb => h (by rw [hb]; rfl)
      rw [edit, Recorded.report, Recorded.replace_eq_follow, follow_replace _ hb, problems_renew]
      simp [Edit.effect, Edit.renews, Edit.left, Edit.added?]
  | add b d =>
      have hb : b ≠ "" := fun hb => h (by rw [hb]; rfl)
      rw [edit, store_add _ hb, problems_push]
      by_cases hba : b = a
      · simp [Edit.effect, Edit.renews, Edit.added?, hba]
      · simp [Edit.effect, Edit.renews, Edit.added?, hba]
  | clear b =>
      have hclear : l.edit (.clear b) = l.clear b := rfl
      rw [hclear, problems_clear]
      simp [Edit.effect, Edit.renews, Edit.left, Edit.added?]
  | clearAll =>
      rw [edit, problems_clearAll]
      rfl

/-- The problems of an artifact after any operations follow from its problems before them. -/
theorem problems_editAll_eq_foldl (l : ProblemList) {es : List Edit}
    (h : ∀ e ∈ es, e.artifact? ≠ some "") (a : String) :
    (l.editAll es).problems a = es.foldl (fun ds e => e.effect a ds) (l.problems a) := by
  unfold editAll
  induction es generalizing l with
  | nil => rfl
  | cons e es ih =>
      obtain ⟨he, hes⟩ := List.forall_mem_cons.mp h
      rw [List.foldl_cons, List.foldl_cons, ih (l.edit e) hes, problems_edit l he]

end ProblemList

/-! ## Effects since the last renewal -/

namespace Edit

theorem effect_of_renews {a : String} {e : Edit} (h : e.renews a = true) (ds : List Diagnostic) :
    e.effect a ds = e.left := by
  rw [effect, if_pos h]

/-- Operations that renew nothing add their problems in order. -/
theorem foldl_effect_of_not_renews {a : String} {es : List Edit}
    (h : ∀ e ∈ es, e.renews a = false) (ds : List Diagnostic) :
    es.foldl (fun ds e => e.effect a ds) ds = ds ++ es.filterMap (added? a) := by
  induction es generalizing ds with
  | nil => simp
  | cons e es ih =>
      obtain ⟨he, hes⟩ := List.forall_mem_cons.mp h
      have heffect : e.effect a ds = ds ++ (e.added? a).toList := by
        rw [effect, he]
        rfl
      rw [List.foldl_cons, ih hes, heffect, List.append_assoc]
      cases hd : e.added? a with
      | none => simp [hd]
      | some d => simp [hd]

/-- An operation about other artifacts has no effect. -/
theorem effect_of_not_concerns {a : String} {e : Edit} (h : e.concerns a = false)
    (ds : List Diagnostic) : e.effect a ds = ds := by
  cases e with
  | report b o =>
      have hb : b ≠ a := by simpa [concerns, artifact?] using h
      simp [effect, renews, added?, hb]
  | add b d =>
      have hb : b ≠ a := by simpa [concerns, artifact?] using h
      simp [effect, renews, added?, hb]
  | clear b =>
      have hb : b ≠ a := by simpa [concerns, artifact?] using h
      simp [effect, renews, added?, hb]
  | clearAll => simp [concerns, artifact?] at h

theorem foldl_effect_filter (a : String) (es : List Edit) (ds : List Diagnostic) :
    (es.filter (concerns a)).foldl (fun ds e => e.effect a ds) ds =
      es.foldl (fun ds e => e.effect a ds) ds := by
  induction es generalizing ds with
  | nil => rfl
  | cons e es ih =>
      by_cases he : e.concerns a = true
      · rw [List.filter_cons_of_pos he, List.foldl_cons, List.foldl_cons, ih]
      · rw [List.filter_cons_of_neg he, List.foldl_cons, ih,
          effect_of_not_concerns (by simpa using he)]

end Edit

/-- Either no element of a list has a property, or there is a last one that has it. -/
theorem none_or_last {α : Type} (p : α → Bool) (xs : List α) :
    (∀ x ∈ xs, p x = false) ∨
      ∃ before x since, xs = before ++ x :: since ∧ p x = true ∧ ∀ y ∈ since, p y = false := by
  induction xs with
  | nil => exact .inl (by simp)
  | cons x xs ih =>
      rcases ih with hnone | ⟨before, y, since, rfl, hy, hsince⟩
      · cases hx : p x with
        | false => exact .inl (List.forall_mem_cons.mpr ⟨hx, hnone⟩)
        | true => exact .inr ⟨[], x, xs, rfl, hx, hnone⟩
      · exact .inr ⟨x :: before, y, since, rfl, hy, hsince⟩

/-- What operations make of the problems of an artifact: those that the last operation renewing them
left, or those of before if none did, followed by the problems added since. -/
def Edit.Explain (a : String) (es : List Edit) (before after : List Diagnostic) : Prop :=
  ((∀ e ∈ es, e.renews a = false) ∧ after = before ++ es.filterMap (added? a)) ∨
    ∃ earlier e since, es = earlier ++ e :: since ∧ e.renews a = true ∧
      (∀ f ∈ since, f.renews a = false) ∧ after = e.left ++ since.filterMap (added? a)

/-- Any operations about artifacts that have names explain the problems of every artifact after
them. Operations about other artifacts make no difference. -/
theorem problems_since_last_renewal (l : ProblemList) (es : List Edit)
    (h : ∀ e ∈ es, e.artifact? ≠ some "") (a : String) :
    Edit.Explain a es (l.problems a) ((l.editAll es).problems a) ∧
      (l.editAll (es.filter (Edit.concerns a))).problems a = (l.editAll es).problems a := by
  constructor
  · rw [ProblemList.problems_editAll_eq_foldl l h]
    rcases none_or_last (Edit.renews a) es with hnone | ⟨earlier, e, since, rfl, he, hsince⟩
    · exact .inl ⟨hnone, Edit.foldl_effect_of_not_renews hnone _⟩
    · refine .inr ⟨earlier, e, since, rfl, he, hsince, ?_⟩
      rw [List.foldl_append, List.foldl_cons, Edit.effect_of_renews he,
        Edit.foldl_effect_of_not_renews hsince]
  · have hfilter : ∀ e ∈ es.filter (Edit.concerns a), e.artifact? ≠ some "" :=
      fun e he => h e (List.mem_filter.mp he).1
    rw [ProblemList.problems_editAll_eq_foldl l h, ProblemList.problems_editAll_eq_foldl l hfilter,
      Edit.foldl_effect_filter]

/-- Two artifacts, one of which is reported between two additions. -/
def sampleEdits : List Edit :=
  [.add "a.drl" (.error "early" none), .report "a.drl" (.parseFailure "broken" (some 3)),
    .add "b.drl" (.error "elsewhere" none), .clear "b.drl", .add "a.drl" (.error "late" (some 7))]

theorem sampleEdits_explained :
    (∀ e ∈ sampleEdits, e.artifact? ≠ some "") ∧
      Edit.Explain "a.drl" sampleEdits ((ProblemList.empty "drlbuild.problem").problems "a.drl")
        (((ProblemList.empty "drlbuild.problem").editAll sampleEdits).problems "a.drl") := by
  have hnamed : ∀ e ∈ sampleEdits, e.artifact? ≠ some "" := by decide
  exact ⟨hnamed, (problems_since_last_renewal _ sampleEdits hnamed "a.drl").1⟩

end RuleBuild
