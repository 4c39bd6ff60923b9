import RuleBuild.Report
import RuleBuild.Reporting

/-!
# The calls that recording makes

Recording reaches a store through calls only. Calls are data here, so that a sequence of them can be
compared; a store with a log shows which calls it was sent. Main statement: recording an artifact's
diagnostics sends one fixed sequence of calls, whatever the store answers on the way
(`Recorded.replace_eq_follow`).
-/
namespace RuleBuild

inductive StoreCall
  | clear (artifact : String)
  | add (artifact : String) (d : Diagnostic)
  deriving Repr, DecidableEq

abbrev AnsweredCall := StoreCall × Except StoreError Unit

namespace StoreCall

variable {S : Type} [ProblemStore S]

/-- The answer to a call, and the store after it. -/
def perform (store : S) : StoreCall → Except StoreError Unit × S
  | .clear artifact => ProblemStore.clear store artifact
  | .add artifact d => ProblemStore.add store artifact d

/-- Calls made one after the other, none left out because of an earlier answer. -/
def performAll (store : S) : List StoreCall → List AnsweredCall × S
  | [] => ([], store)
  | c :: cs =>
    let (answer, next) := c.perform store
    let (answered, last) := performAll next cs
    ((c, answer) :: answered, last)

def warning : StoreCall → StoreError → Warning
  | .clear artifact => .clearFailed artifact
  | .add artifact _ => .recordFailed artifact

/-- The warning of an answered call, none if it succeeded. -/
def warning? : AnsweredCall → Option Warning
  | (_, .ok _) => none
  | (c, .error e) => some (c.warning e)

theorem performAll_append (store : S) (cs ds : List StoreCall) :
    performAll store (cs ++ ds) =
      ((performAll store cs).1 ++ (performAll (performAll store cs).2 ds).1,
        (performAll (performAll store cs).2 ds).2) := by
  induction cs generalizing store with
  | nil => rfl
  | cons c cs ih => simp only [List.cons_append, performAll, ih]

theorem map_fst_performAll (store : S) (cs : List StoreCall) :
    (performAll store cs).1.map (·.1) = cs := by
  induction cs generalizing store with
  | nil => rfl
  | cons c cs ih => simp only [performAll, List.map_cons, ih]

end StoreCall

/-! ## Recording as calls -/

def Warning.ofStore : Warning → Bool
  | .clearFailed _ _ => true
  | .recordFailed _ _ => true
  | .buildFailed _ => false
  | .runtimeUnknown _ => false

theorem StoreCall.ofStore_of_warning? {c : AnsweredCall} {w : Warning} (h : warning? c = some w) :
    w.ofStore = true := by
  obtain ⟨c, answer⟩ := c
  cases answer with
  | ok _ => cases h
  | error e => cases c <;> (cases h; rfl)

namespace Recorded

variable {S : Type} [ProblemStore S]

/-- The store after some calls, with a warning for each that failed. -/
def follow (r : Recorded S) (cs : List StoreCall) : Recorded S :=
  ⟨(StoreCall.performAll r.store cs).2,
    r.warnings ++ (StoreCall.performAll r.store cs).1.filterMap StoreCall.warning?⟩

@[simp] theorem follow_nil (r : Recorded S) : r.follow [] = r := by
  simp [follow, StoreCall.performAll]

theorem follow_append (r : Recorded S) (cs ds : List StoreCall) :
    r.follow (cs ++ ds) = (r.follow cs).follow ds := by
  simp only [follow, StoreCall.performAll_append, List.filterMap_append, List.append_assoc]

theorem after_eq_follow (r : Recorded S) (c : StoreCall) :
    r.after c.warning (c.perform r.store) = r.follow [c] := by
  unfold after follow
  simp only [StoreCall.performAll]
  rcases c.perform r.store with ⟨answer, next⟩
  cases answer with
  | ok _ => simp [StoreCall.warning?]
  | error e => simp [StoreCall.warning?]

theorem clear_eq_follow (r : Recorded S) (artifact : String) :
    r.clear artifact = r.follow [.clear artifact] :=
  r.after_eq_follow (.clear artifact)

theorem add_eq_follow (r : Recorded S) (artifact : String) (d : Diagnostic) :
    r.add artifact d = r.follow [.add artifact d] :=
  r.after_eq_follow (.add artifact d)

theorem foldl_add_eq_follow (r : Recorded S) (artifact : String) (ds : List Diagnostic) :
    ds.foldl (fun r d => r.add artifact d) r = r.follow (ds.map (.add artifact)) := by
  induction ds generalizing r with
  | nil => simp
  | cons d ds ih =>
      rw [List.foldl_cons, ih, add_eq_follow, ← follow_append]
      rfl

/-- Replacing what is known of an artifact is one call to forget it and one call for each
diagnostic. -/
theorem replace_eq_follow (r : Recorded S) (artifact : String) (ds : List Diagnostic) :
    r.replace artifact ds = r.follow (.clear artifact :: ds.map (.add artifact)) := by
  rw [replace, foldl_add_eq_follow, clear_eq_follow, ← follow_append]
  rfl

end Recorded

def ArtifactReport.calls (r : ArtifactReport) : List StoreCall :=
  .clear r.artifact :: r.diagnostics.map (.add r.artifact)

/-! ## A store with a log -/

/-- A store that writes down each call it is sent, with the answer. -/
structure Logged (S : Type) where
  store : S
  log : List AnsweredCall

namespace Logged

variable {S : Type} [ProblemStore S]

/-- A call passed on to the store and written down. -/
def pass (l : Logged S) (c : StoreCall) : Except StoreError Unit × Logged S :=
  let (answer, next) := c.perform l.store
  (answer, ⟨next, l.log ++ [(c, answer)]⟩)

instance : ProblemStore (Logged S) where
  clear l artifact := l.pass (.clear artifact)
  add l artifact d := l.pass (.add artifact d)

theorem perform_eq (l : Logged S) (c : StoreCall) : c.perform l = l.pass c := by
  cases c <;> rfl

/-- The log grows by the calls sent, and the store below answers as it would without a log. -/
theorem performAll_eq (l : Logged S) (cs : List StoreCall) :
    StoreCall.performAll l cs =
      ((StoreCall.performAll l.store cs).1,
        ⟨(StoreCall.performAll l.store cs).2, l.log ++ (StoreCall.performAll l.store cs).1⟩) := by
  induction cs generalizing l with
  | nil => simp [StoreCall.performAll]
  | cons c cs ih => simp [StoreCall.performAll, perform_eq, pass, ih]

end Logged
end RuleBuild
