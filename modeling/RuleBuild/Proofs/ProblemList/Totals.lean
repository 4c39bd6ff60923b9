import RuleBuild.Proofs.ProblemList.Views
import RuleBuild.Report

/-!
# What a list shows as a whole

The artifacts that a list names and the number of its errors follow from the problems of each
artifact. Entries that hold nothing of the tool's own do not show.
-/
namespace RuleBuild.ProblemList

theorem mem_toList_iff (l : ProblemList) (id : String) (ms : List Marker) :
    (id, ms) ∈ l.markers.toList ↔ l.markers[id]? = some ms := by
  rw [Std.ExtTreeMap.mem_toList_iff_getElem?_eq_some]

theorem markersOf_of_mem_toList {l : ProblemList} {e : String × List Marker}
    (h : e ∈ l.markers.toList) : l.markersOf e.1 = e.2 := by
  rw [markersOf, (l.mem_toList_iff e.1 e.2).mp h]
  rfl

theorem problems_eq_nil_iff (l : ProblemList) (id : String) :
    l.problems id = [] ↔ ∀ m ∈ l.markersOf id, m.category ≠ l.category := by
  simp [problems, own, List.filter_eq_nil_iff]

theorem problems_ne_nil_iff (l : ProblemList) (id : String) :
    l.problems id ≠ [] ↔ ∃ m ∈ l.markersOf id, m.category = l.category := by
  simp [problems_eq_nil_iff]

/-- An artifact is named if it has problems. -/
theorem mem_artifacts_iff (l : ProblemList) (id : String) :
    id ∈ l.artifacts ↔ l.problems id ≠ [] := by
  rw [problems_ne_nil_iff, artifacts, List.mem_map]
  simp only [List.mem_filter, List.any_eq_true, decide_eq_true_eq]
  constructor
  · rintro ⟨e, ⟨he, m, hm, hcategory⟩, rfl⟩
    rw [markersOf_of_mem_toList he]
    exact ⟨m, hm, hcategory⟩
  · rintro ⟨m, hm, hcategory⟩
    cases hentry : l.markers[id]? with
    | none => simp [markersOf, hentry] at hm
    | some ms =>
        have he := (l.mem_toList_iff id ms).mpr hentry
        rw [markersOf_of_mem_toList he] at hm
        exact ⟨(id, ms), ⟨he, m, hm, hcategory⟩, rfl⟩

/-- The artifacts are named in the order of their texts, each once. -/
theorem pairwise_artifacts (l : ProblemList) : l.artifacts.Pairwise (· < ·) := by
  rw [artifacts, List.pairwise_map]
  refine List.Pairwise.filter _ (l.markers.ordered_keys_toList.imp ?_)
  intro e f h
  exact compareOfLessAndEq_eq_lt.mp h

theorem countErrors_problems (l : ProblemList) (id : String) :
    countErrors (l.problems id) =
      ((l.markersOf id).filter fun m => m.category = l.category && m.severity = .error).length := by
  rw [countErrors, problems, own, List.filter_map, List.length_map, List.filter_filter]
  congr 1
  apply List.filter_congr
  intro m _
  exact Bool.and_comm _ _

theorem flatMap_problems_filter (l : ProblemList) (ids : List String) :
    (ids.filter fun id => ! (l.problems id).isEmpty).flatMap l.problems =
      ids.flatMap l.problems := by
  induction ids with
  | nil => rfl
  | cons id ids ih =>
      rw [List.flatMap_cons, ← ih]
      cases hproblems : l.problems id with
      | nil => simp [hproblems]
      | cons d ds => simp [hproblems]

/-- The errors are those among the problems of any artifacts that include all that have problems. -/
theorem errorCount_eq (l : ProblemList) {ids : List String} (hnodup : ids.Nodup)
    (h : ∀ id, l.problems id ≠ [] → id ∈ ids) :
    l.errorCount = countErrors (ids.flatMap l.problems) := by
  have hkeys : (l.markers.toList.map (·.1)).Nodup := by
    rw [Std.ExtTreeMap.map_fst_toList_eq_keys]
    exact l.markers.distinct_keys.imp fun h => by simpa using h
  have hcount : l.errorCount = countErrors ((l.markers.toList.map (·.1)).flatMap l.problems) := by
    rw [errorCount, countErrors, List.filter_flatMap, List.filter_flatMap, List.length_flatMap,
      List.length_flatMap, List.map_map]
    congr 1
    apply List.map_congr_left
    intro e he
    rw [Function.comp_apply, ← countErrors, countErrors_problems, markersOf_of_mem_toList he]
  -- Both lists are free of repetitions, and what is not in both of them has no problems.
  have hperm : ((l.markers.toList.map (·.1)).filter fun id => ! (l.problems id).isEmpty).Perm
      (ids.filter fun id => ! (l.problems id).isEmpty) := by
    refine (List.perm_ext_iff_of_nodup (hkeys.filter _) (hnodup.filter _)).mpr fun id => ?_
    rw [List.mem_filter, List.mem_filter]
    refine and_congr_left fun hproblems => iff_of_true ?_ (h id (by simpa using hproblems))
    obtain ⟨e, he, rfl⟩ := List.mem_map.mp ((l.mem_artifacts_iff id).mpr (by simpa using hproblems))
    exact List.mem_map_of_mem (List.mem_filter.mp he).1
  rw [hcount, ← flatMap_problems_filter, ← flatMap_problems_filter l ids]
  exact ((hperm.flatMap_right l.problems).filter _).length_eq

end RuleBuild.ProblemList
