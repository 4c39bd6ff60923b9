import Mathlib.Data.List.Forall2
import Mathlib.Data.List.Induction
import RuleBuild.Proofs.Configuration.Faults

/-!
# The registry of runtimes

A call changes each runtime by itself, so a run of calls does: it keeps the runtimes and their
order, finds jars where a call asks for it, and leaves as the only default the runtime that was made
so last.
-/
namespace RuleBuild

/-- A call that changes a registry. The file system is the one at the time of the call. -/
inductive RuntimeCall
  | setDefault (name : String)
  | recognizeJars (fs : FileSystem) (name : String)

namespace RuntimeCall

/-- The name that a call is made with. -/
def name : RuntimeCall → String
  | .setDefault name => name
  | .recognizeJars _ name => name

/-- What a call makes of a runtime in a registry of runtimes with these names. -/
def effect (names : List String) (r : Runtime) : RuntimeCall → Runtime
  | .setDefault name => if name ∈ names then { r with isDefault := r.name = name } else r
  | .recognizeJars fs name => if r.name = name then r.recognizeJars fs else r

/-- What calls make of a runtime, one after the other. -/
def effects (names : List String) (calls : List RuntimeCall) (r : Runtime) : Runtime :=
  calls.foldl (fun r call => call.effect names r) r

theorem effects_append (names : List String) (calls more : List RuntimeCall) (r : Runtime) :
    effects names (calls ++ more) r = effects names more (effects names calls r) :=
  List.foldl_append

@[simp] theorem effect_name (names : List String) (r : Runtime) (call : RuntimeCall) :
    (call.effect names r).name = r.name := by
  cases call <;> simp only [effect] <;> split <;> rfl

@[simp] theorem effects_name (names : List String) (calls : List RuntimeCall) (r : Runtime) :
    (effects names calls r).name = r.name := by
  induction calls generalizing r with
  | nil => rfl
  | cons call calls ih => exact (ih _).trans (effect_name names r call)

end RuntimeCall

/-! ## What happens to a runtime -/

/-- What calls may make of a runtime: it is still the same one, with the same version at the same
path, and has other jars only if a call for its jars names it. -/
structure Runtime.KeptBy (calls : List RuntimeCall) (r r' : Runtime) : Prop where
  name : r'.name = r.name
  version : r'.version = r.version
  product : r'.product = r.product
  path : r'.path = r.path
  jars : r'.jars = r.jars ∨
    ∃ fs, .recognizeJars fs r.name ∈ calls ∧ r'.jars = (r.recognizeJars fs).jars

namespace RuntimeCall

theorem keptBy_effect {names : List String} {calls : List RuntimeCall} {r r' : Runtime}
    (h : r.KeptBy calls r') (call : RuntimeCall) :
    r.KeptBy (calls ++ [call]) (call.effect names r') := by
  have hmore : r.KeptBy (calls ++ [call]) r' := by
    refine { h with jars := h.jars.imp_right fun ⟨fs, hmem, hjars⟩ => ?_ }
    exact ⟨fs, List.mem_append_left _ hmem, hjars⟩
  cases call with
  | setDefault name =>
      rw [effect]
      split
      · exact ⟨hmore.name, hmore.version, hmore.product, hmore.path, hmore.jars⟩
      · exact hmore
  | recognizeJars fs name =>
      rw [effect]
      split
      · rename_i hname
        refine ⟨h.name, h.version, h.product, h.path, .inr ⟨fs, ?_, ?_⟩⟩
        · rw [← h.name, hname]
          exact List.mem_append_right _ List.mem_cons_self
        · rw [Runtime.recognizeJars, Runtime.recognizeJars, h.path]
      · exact hmore

theorem keptBy_effects (names : List String) (calls : List RuntimeCall) (r : Runtime) :
    r.KeptBy calls (effects names calls r) := by
  induction calls using List.reverseRecOn with
  | nil => exact ⟨rfl, rfl, rfl, rfl, .inl rfl⟩
  | append_singleton calls call ih =>
      rw [effects_append]
      exact keptBy_effect ih call

/-- Calls that make no known runtime the default leave the default as it is. -/
theorem isDefault_effects {names : List String} {calls : List RuntimeCall}
    (h : ∀ other, .setDefault other ∈ calls → other ∉ names) (r : Runtime) :
    (effects names calls r).isDefault = r.isDefault := by
  induction calls generalizing r with
  | nil => rfl
  | cons call calls ih =>
      have hrest (other : String) (hmem : .setDefault other ∈ calls) : other ∉ names :=
        h other (List.mem_cons_of_mem _ hmem)
      have hfirst : (call.effect names r).isDefault = r.isDefault := by
        cases call with
        | setDefault name => rw [effect, if_neg (h name List.mem_cons_self)]
        | recognizeJars fs name =>
            rw [effect]
            split
            · rfl
            · rfl
      exact (ih hrest _).trans hfirst

theorem isDefault_effects_of_last {names : List String} {before later : List RuntimeCall}
    {name : String} (hname : name ∈ names)
    (h : ∀ other, .setDefault other ∈ later → other ∉ names) (r : Runtime) :
    (effects names (before ++ .setDefault name :: later) r).isDefault = decide (r.name = name) := by
  rw [effects_append]
  refine (isDefault_effects h _).trans ?_
  simp [effect, hname]

end RuntimeCall

/-! ## What happens to the registry -/

namespace Runtimes

def names (rs : Runtimes) : List String := rs.list.map Runtime.name

/-- The registry after a call, if the call is done. -/
def call? (rs : Runtimes) : RuntimeCall → Option Runtimes
  | .setDefault name => rs.setDefault? name
  | .recognizeJars fs name => rs.recognizeJarsOf? fs name

/-- The registry after a call. -/
def after (rs : Runtimes) (call : RuntimeCall) : Runtimes := (rs.call? call).getD rs

/-- The registry after calls, one after the other. -/
def run (rs : Runtimes) (calls : List RuntimeCall) : Runtimes := calls.foldl after rs

variable {rs : Runtimes}

theorem find?_eq_none_iff {name : String} : rs.find? name = none ↔ name ∉ rs.names := by
  simp [find?, names, List.find?_eq_none]

theorem exists_find? {name : String} (h : name ∈ rs.names) :
    ∃ r ∈ rs.list, r.name = name ∧ rs.find? name = some r := by
  cases hfind : rs.find? name with
  | none => exact absurd h (find?_eq_none_iff.mp hfind)
  | some r =>
      exact ⟨r, List.mem_of_find?_eq_some hfind, by simpa using List.find?_some hfind, rfl⟩

/-- Where names are distinct, to change the first runtime of a name is to change each of that
name. -/
theorem modifyFirst_eq_map {name : String} {f : Runtime → Runtime} {list : List Runtime}
    (h : (list.map Runtime.name).Nodup) :
    modifyFirst name f list = list.map fun r => if r.name = name then f r else r := by
  induction list with
  | nil => rfl
  | cons r list ih =>
      obtain ⟨hnew, hnodup⟩ := List.nodup_cons.mp h
      rw [modifyFirst, List.map_cons]
      by_cases hname : r.name = name
      · have hothers : list.map (fun r => if r.name = name then f r else r) = list.map id := by
          apply List.map_congr_left
          intro other hmem
          rw [if_neg]
          · rfl
          · rintro rfl
            exact hnew (hname ▸ List.mem_map_of_mem hmem)
        rw [if_pos hname, if_pos hname, hothers, List.map_id]
      · rw [if_neg hname, if_neg hname, ih hnodup]

theorem call?_eq (hnodup : rs.names.Nodup) (call : RuntimeCall) :
    rs.call? call =
      if call.name ∈ rs.names then some { rs with list := rs.list.map (call.effect rs.names ·) }
      else none := by
  by_cases hname : call.name ∈ rs.names
  · obtain ⟨r, _, _, hfind⟩ := exists_find? hname
    rw [if_pos hname]
    cases call with
    | setDefault name =>
        rw [RuntimeCall.name] at hname hfind
        simp [call?, setDefault?, hfind, RuntimeCall.effect, hname]
    | recognizeJars fs name =>
        rw [RuntimeCall.name] at hname hfind
        simp [call?, recognizeJarsOf?, hfind, RuntimeCall.effect, modifyFirst_eq_map hnodup]
  · have hfind := find?_eq_none_iff.mpr hname
    rw [if_neg hname]
    cases call with
    | setDefault name =>
        rw [RuntimeCall.name] at hfind
        simp [call?, setDefault?, hfind]
    | recognizeJars fs name =>
        rw [RuntimeCall.name] at hfind
        simp [call?, recognizeJarsOf?, hfind]

/-- A call with an unknown name has no effect on any runtime of the registry. -/
theorem effect_of_unknown {call : RuntimeCall} (h : call.name ∉ rs.names) {r : Runtime}
    (hr : r ∈ rs.list) : call.effect rs.names r = r := by
  cases call with
  | setDefault name => exact if_neg h
  | recognizeJars fs name =>
      rw [RuntimeCall.effect, if_neg]
      rintro rfl
      exact h (List.mem_map_of_mem hr)

theorem after_eq (hnodup : rs.names.Nodup) (call : RuntimeCall) :
    rs.after call = { rs with list := rs.list.map (call.effect rs.names ·) } := by
  rw [after, call?_eq hnodup]
  split
  · rfl
  · rename_i hname
    have hsame : rs.list.map (call.effect rs.names ·) = rs.list.map id :=
      List.map_congr_left fun r hr => effect_of_unknown hname hr
    rw [hsame, List.map_id]
    rfl

theorem names_map (rs : Runtimes) {f : Runtime → Runtime} (h : ∀ r, (f r).name = r.name) :
    names { rs with list := rs.list.map f } = rs.names := by
  rw [names, names, List.map_map]
  exact List.map_congr_left fun r _ => h r

theorem run_eq (hnodup : rs.names.Nodup) (calls : List RuntimeCall) :
    rs.run calls = { rs with list := rs.list.map (RuntimeCall.effects rs.names calls) } := by
  induction calls using List.reverseRecOn with
  | nil =>
      have hsame : rs.list.map (RuntimeCall.effects rs.names []) = rs.list.map id := rfl
      rw [hsame, List.map_id]
      rfl
  | append_singleton calls call ih =>
      have hnames := names_map rs (RuntimeCall.effects_name rs.names calls)
      rw [run, List.foldl_append]
      change (rs.run calls).after call = _
      rw [ih, after_eq (by rwa [hnames]), hnames]
      simp only [List.map_map, Runtimes.mk.injEq, and_true]
      apply List.map_congr_left
      intro r _
      rw [RuntimeCall.effects_append]
      rfl

theorem names_run (hnodup : rs.names.Nodup) (calls : List RuntimeCall) :
    (rs.run calls).names = rs.names := by
  rw [run_eq hnodup, names_map rs (RuntimeCall.effects_name rs.names calls)]

/-- A call is done exactly if its name is known. -/
theorem isSome_call?_iff (hnodup : rs.names.Nodup) (call : RuntimeCall) :
    (rs.call? call).isSome = true ↔ call.name ∈ rs.names := by
  rw [call?_eq hnodup]
  split
  · rename_i hname
    exact iff_of_true rfl hname
  · rename_i hname
    exact iff_of_false (by simp) hname

/-! ## The default -/

theorem filter_name_eq_singleton {list : List Runtime} {name : String}
    (hnodup : (list.map Runtime.name).Nodup) (hname : name ∈ list.map Runtime.name) :
    ∃ r ∈ list, r.name = name ∧ list.filter (fun r => r.name = name) = [r] := by
  induction list with
  | nil => cases hname
  | cons r list ih =>
      obtain ⟨hnew, hnodup⟩ := List.nodup_cons.mp hnodup
      by_cases heq : r.name = name
      · refine ⟨r, List.mem_cons_self, heq, ?_⟩
        have hothers : list.filter (fun r => r.name = name) = [] := by
          rw [List.filter_eq_nil_iff]
          intro other hmem hother
          have hsame : other.name = name := by simpa using hother
          exact hnew (heq ▸ hsame ▸ List.mem_map_of_mem hmem)
        rw [List.filter_cons_of_pos (by simpa using heq), hothers]
      · have hrest := (List.mem_cons.mp hname).resolve_left (Ne.symm heq)
        obtain ⟨other, hmem, hother, hfilter⟩ := ih hnodup hrest
        refine ⟨other, List.mem_cons_of_mem _ hmem, hother, ?_⟩
        rw [List.filter_cons_of_neg (by simpa using heq), hfilter]

theorem default?_of_filter {r : Runtime} (h : rs.list.filter (·.isDefault) = [r]) :
    rs.default? = some r := by
  rw [default?, ← List.head?_filter, h]
  rfl

/-- The runtime that a project is built against is the one that it names, if that is known, and else
the default. -/
theorem forProject?_cases (rs : Runtimes) :
    (∀ name ∈ rs.project, name ∈ rs.names →
        ∃ r ∈ rs.list, r.name = name ∧ rs.forProject? = some r) ∧
      ((∀ name ∈ rs.project, name ∉ rs.names) → rs.forProject? = rs.default?) := by
  constructor
  · intro name hproject hname
    obtain ⟨r, hmem, hr, hfind⟩ := exists_find? hname
    refine ⟨r, hmem, hr, ?_⟩
    rw [forProject?, Option.mem_def.mp hproject, Option.bind_some, hfind]
    rfl
  · intro hunknown
    have hnone : rs.project.bind rs.find? = none := by
      rw [Option.bind_eq_none_iff]
      exact fun name hproject => find?_eq_none_iff.mpr (hunknown name hproject)
    rw [forProject?, hnone]
    rfl

/-- After a call that makes a known runtime the default, and none after it that does so, this one is
the only default. -/
theorem filter_isDefault_run (before : List RuntimeCall) {later : List RuntimeCall} {name : String}
    (hnodup : rs.names.Nodup) (hname : name ∈ rs.names)
    (hlater : ∀ other, .setDefault other ∈ later → other ∉ rs.names) :
    ∃ r, r.name = name ∧
      (rs.run (before ++ .setDefault name :: later)).list.filter (·.isDefault) = [r] := by
  obtain ⟨r, _, hr, hfilter⟩ := filter_name_eq_singleton hnodup hname
  refine ⟨RuntimeCall.effects rs.names (before ++ .setDefault name :: later) r, ?_, ?_⟩
  · rw [RuntimeCall.effects_name, hr]
  · have hdefault : ((·.isDefault) ∘
        RuntimeCall.effects rs.names (before ++ .setDefault name :: later)) =
          fun r : Runtime => decide (r.name = name) :=
      funext fun r => RuntimeCall.isDefault_effects_of_last hname hlater r
    rw [run_eq hnodup]
    dsimp only
    rw [List.filter_map, hdefault, hfilter]
    rfl

/-! ## Runs of calls -/

/-- A registry of runtimes that have been accepted keeps its shape under any calls: its runtimes, in
their order, are what they were, but for jars that a call has found and for the default. A call is
done exactly if its name is known, and changes nothing else. The runtime that was last made the
default is the only one, and the one for the project unless the project names another. -/
theorem registry_keeps_shape (c : Configuration) (hc : c.fault? = none)
    (calls : List RuntimeCall) :
    let rs : Runtimes := ⟨c.runtimes, c.runtime⟩
    let last := rs.run calls
    List.Forall₂ (Runtime.KeptBy calls) rs.list last.list ∧ last.project = rs.project ∧
      (∀ call : RuntimeCall, ((last.call? call).isSome = true ↔ call.name ∈ rs.names) ∧
        (call.name ∉ rs.names → last.after call = last)) ∧
      ∀ before name later, calls = before ++ .setDefault name :: later → name ∈ rs.names →
        (∀ other, .setDefault other ∈ later → other ∉ rs.names) →
        ∃ r, r.name = name ∧ last.list.filter (·.isDefault) = [r] ∧ last.default? = some r ∧
          (∀ selected ∈ rs.project, selected ∈ rs.names →
            ∃ r' ∈ last.list, r'.name = selected ∧ last.forProject? = some r') ∧
          ((∀ selected ∈ rs.project, selected ∉ rs.names) → last.forProject? = some r) := by
  intro rs last
  have hnodup : rs.names.Nodup := (Configuration.fault?_eq_none_iff.mp hc).runtimes
  have hrun : last = { rs with list := rs.list.map (RuntimeCall.effects rs.names calls) } :=
    run_eq hnodup calls
  have hnames : last.names = rs.names := names_run hnodup calls
  have hproject : last.project = rs.project := by rw [hrun]
  refine ⟨?_, hproject, fun call => ⟨?_, fun hunknown => ?_⟩, ?_⟩
  · rw [hrun]
    exact List.forall₂_map_right_iff.mpr
      (List.forall₂_same.mpr fun r _ => RuntimeCall.keptBy_effects rs.names calls r)
  · rw [← hnames]
    exact isSome_call?_iff (by rwa [hnames]) call
  · rw [← hnames] at hunknown
    rw [after, call?_eq (by rwa [hnames]), if_neg hunknown]
    rfl
  · rintro before name later rfl hname hlater
    obtain ⟨r, hr, hfilter⟩ := filter_isDefault_run before hnodup hname hlater
    have hdefault := default?_of_filter hfilter
    obtain ⟨hnamed, hunnamed⟩ := forProject?_cases last
    rw [hproject, hnames] at hnamed hunnamed
    exact ⟨r, hr, hfilter, hdefault, hnamed, fun hunknown => (hunnamed hunknown).trans hdefault⟩

/-- Of two runtimes that are both flagged as the default, the second is made the only one; the
project still names the first. -/
theorem secondRuntime_made_default :
    let first : Runtime := ⟨"a", "1", none, some "lib", true, ["a.jar"]⟩
    let second : Runtime := ⟨"b", "2", some "engine", none, true, ["b.jar"]⟩
    let c : Configuration :=
      { Configuration.empty with runtimes := [first, second], runtime := some "a" }
    let later : List RuntimeCall := [.recognizeJars .empty "a", .setDefault "c"]
    let last := run ⟨c.runtimes, c.runtime⟩ (.setDefault "b" :: later)
    c.fault? = none ∧ last.list = [⟨"a", "1", none, some "lib", false, []⟩, second] ∧
      last.list.filter (·.isDefault) = [second] ∧ last.default? = some second ∧
      (∃ r ∈ last.list, r.name = "a" ∧ last.forProject? = some r) ∧
      last.call? (.setDefault "c") = none := by
  intro first second c later last
  have hc : c.fault? = none := by decide
  have hlist : last.list = [⟨"a", "1", none, some "lib", false, []⟩, second] := by
    decide +kernel
  have hlater (other : String) (hmem : .setDefault other ∈ later) :
      other ∉ names ⟨c.runtimes, c.runtime⟩ := by
    obtain rfl : other = "c" := by simpa [later] using hmem
    decide
  obtain ⟨_, _, hdone, hlast⟩ := registry_keeps_shape c hc (.setDefault "b" :: later)
  obtain ⟨r, _, hfilter, hdefault, hproject, _⟩ := hlast [] "b" later rfl (by decide) hlater
  have hr : r = second := by
    have hsecond : last.list.filter (·.isDefault) = [second] := by rw [hlist]; rfl
    exact (List.cons.inj (hfilter.symm.trans hsecond)).1
  refine ⟨hc, hlist, hr ▸ hfilter, hr ▸ hdefault, hproject "a" rfl (by decide), ?_⟩
  have hunknown := mt (hdone (.setDefault "c")).1.mp (by decide)
  rwa [Bool.not_eq_true, Option.isSome_eq_false_iff, Option.isNone_iff_eq_none] at hunknown

end Runtimes
end RuleBuild
