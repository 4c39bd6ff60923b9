import RuleBuild.Proofs.StoreCalls

/-!
# What operations on a problem list change

Two views of a list say all that a tool may care about: the problems it has recorded of an artifact,
and the markers of the other tools there. Each operation has one lemma for each view.
-/
namespace RuleBuild.ProblemList

/-- The markers that other tools have recorded of an artifact. -/
def othersOf (l : ProblemList) (artifact : String) : List Marker :=
  (l.markersOf artifact).filter (·.category ≠ l.category)

/-- The list with one more problem of an artifact. -/
def push (l : ProblemList) (artifact : String) (d : Diagnostic) : ProblemList :=
  { l with
    markers := l.markers.alter artifact fun ms => some (ms.getD [] ++ [markerOf l.category d]) }

/-- The list with other problems of an artifact. -/
def renew (l : ProblemList) (artifact : String) (ds : List Diagnostic) : ProblemList :=
  ds.foldl (fun l d => l.push artifact d) (l.clear artifact)

/-! ## Entries -/

theorem getElem?_clear (l : ProblemList) (a b : String) :
    (l.clear a).markers[b]? =
      if a = b then l.markers[b]?.bind (foreign? l.category) else l.markers[b]? := by
  simp only [clear, Std.ExtTreeMap.getElem?_alter, Std.LawfulEqCmp.compare_eq_iff_eq]
  by_cases h : a = b
  · simp [h]
  · simp [h]

theorem getElem?_push (l : ProblemList) (a b : String) (d : Diagnostic) :
    (l.push a d).markers[b]? =
      if a = b then some (l.markersOf b ++ [markerOf l.category d]) else l.markers[b]? := by
  simp only [push, Std.ExtTreeMap.getElem?_alter, Std.LawfulEqCmp.compare_eq_iff_eq]
  by_cases h : a = b
  · simp [h, markersOf]
  · simp [h]

theorem getElem?_clearAll (l : ProblemList) (a : String) :
    l.clearAll.markers[a]? = l.markers[a]?.bind (foreign? l.category) := by
  simp [clearAll, Std.ExtTreeMap.getElem?_filterMap]

theorem getD_bind_foreign? (category : String) (ms : Option (List Marker)) :
    (ms.bind (foreign? category)).getD [] = (ms.getD []).filter (·.category ≠ category) := by
  cases ms with
  | none => rfl
  | some ms =>
      simp only [Option.bind_some, foreign?, Option.getD_some]
      split
      · rename_i h
        rw [h]
        rfl
      · rename_i h
        rw [h]
        rfl

theorem markersOf_clear (l : ProblemList) (a b : String) :
    (l.clear a).markersOf b = if a = b then l.othersOf b else l.markersOf b := by
  rw [markersOf, getElem?_clear]
  split
  · exact getD_bind_foreign? l.category l.markers[b]?
  · rfl

theorem markersOf_push (l : ProblemList) (a b : String) (d : Diagnostic) :
    (l.push a d).markersOf b =
      if a = b then l.markersOf b ++ [markerOf l.category d] else l.markersOf b := by
  rw [markersOf, getElem?_push]
  split
  · rfl
  · rfl

theorem markersOf_clearAll (l : ProblemList) (a : String) :
    l.clearAll.markersOf a = l.othersOf a := by
  rw [markersOf, getElem?_clearAll]
  exact getD_bind_foreign? l.category l.markers[a]?

/-! ## The two views -/

@[simp] theorem category_clear (l : ProblemList) (a : String) :
    (l.clear a).category = l.category := rfl

@[simp] theorem category_push (l : ProblemList) (a : String) (d : Diagnostic) :
    (l.push a d).category = l.category := rfl

@[simp] theorem category_clearAll (l : ProblemList) : l.clearAll.category = l.category := rfl

theorem own_othersOf (l : ProblemList) (a : String) : own l.category (l.othersOf a) = [] := by
  simp [own, othersOf]

theorem problems_clear (l : ProblemList) (a b : String) :
    (l.clear a).problems b = if a = b then [] else l.problems b := by
  rw [problems, markersOf_clear, category_clear]
  split
  · rw [own_othersOf]
    rfl
  · rfl

theorem othersOf_clear (l : ProblemList) (a b : String) :
    (l.clear a).othersOf b = l.othersOf b := by
  rw [othersOf, markersOf_clear, category_clear]
  split
  · simp [othersOf]
  · rfl

theorem problems_push (l : ProblemList) (a b : String) (d : Diagnostic) :
    (l.push a d).problems b = if a = b then l.problems b ++ [d] else l.problems b := by
  rw [problems, markersOf_push, category_push]
  split
  · simp [problems, own, markerOf, Marker.diagnostic]
  · rfl

theorem othersOf_push (l : ProblemList) (a b : String) (d : Diagnostic) :
    (l.push a d).othersOf b = l.othersOf b := by
  rw [othersOf, markersOf_push, category_push]
  split
  · simp [othersOf, markerOf]
  · rfl

theorem problems_clearAll (l : ProblemList) (a : String) : l.clearAll.problems a = [] := by
  rw [problems, markersOf_clearAll, category_clearAll, own_othersOf]
  rfl

theorem othersOf_clearAll (l : ProblemList) (a : String) :
    l.clearAll.othersOf a = l.othersOf a := by
  rw [othersOf, markersOf_clearAll, category_clearAll]
  simp [othersOf]

/-! ## Problems replaced as a whole -/

theorem category_foldl_push (l : ProblemList) (a : String) (ds : List Diagnostic) :
    (ds.foldl (fun l d => l.push a d) l).category = l.category := by
  induction ds generalizing l with
  | nil => rfl
  | cons d ds ih => rw [List.foldl_cons, ih, category_push]

theorem problems_foldl_push (l : ProblemList) (a b : String) (ds : List Diagnostic) :
    (ds.foldl (fun l d => l.push a d) l).problems b =
      if a = b then l.problems b ++ ds else l.problems b := by
  induction ds generalizing l with
  | nil => simp
  | cons d ds ih =>
      rw [List.foldl_cons, ih, problems_push]
      split
      · rw [List.append_assoc]
        rfl
      · rfl

theorem othersOf_foldl_push (l : ProblemList) (a b : String) (ds : List Diagnostic) :
    (ds.foldl (fun l d => l.push a d) l).othersOf b = l.othersOf b := by
  induction ds generalizing l with
  | nil => rfl
  | cons d ds ih => rw [List.foldl_cons, ih, othersOf_push]

theorem getElem?_foldl_push_of_ne (l : ProblemList) {a b : String} (h : a ≠ b)
    (ds : List Diagnostic) : (ds.foldl (fun l d => l.push a d) l).markers[b]? = l.markers[b]? := by
  induction ds generalizing l with
  | nil => rfl
  | cons d ds ih => rw [List.foldl_cons, ih, getElem?_push, if_neg h]

@[simp] theorem category_renew (l : ProblemList) (a : String) (ds : List Diagnostic) :
    (l.renew a ds).category = l.category :=
  category_foldl_push (l.clear a) a ds

theorem problems_renew (l : ProblemList) (a b : String) (ds : List Diagnostic) :
    (l.renew a ds).problems b = if a = b then ds else l.problems b := by
  rw [renew, problems_foldl_push, problems_clear]
  split
  · rfl
  · rfl

theorem othersOf_renew (l : ProblemList) (a b : String) (ds : List Diagnostic) :
    (l.renew a ds).othersOf b = l.othersOf b := by
  rw [renew, othersOf_foldl_push, othersOf_clear]

theorem getElem?_renew_of_ne (l : ProblemList) {a b : String} (h : a ≠ b) (ds : List Diagnostic) :
    (l.renew a ds).markers[b]? = l.markers[b]? := by
  rw [renew, getElem?_foldl_push_of_ne _ h, getElem?_clear, if_neg h]

theorem getElem?_foldl_push_congr {l l' : ProblemList} {b : String}
    (hcategory : l.category = l'.category) (hentry : l.markers[b]? = l'.markers[b]?) (a : String)
    (ds : List Diagnostic) :
    (ds.foldl (fun l d => l.push a d) l).markers[b]? =
      (ds.foldl (fun l d => l.push a d) l').markers[b]? := by
  induction ds generalizing l l' with
  | nil => exact hentry
  | cons d ds ih =>
      rw [List.foldl_cons, List.foldl_cons]
      apply ih
      · exact hcategory
      · rw [getElem?_push, getElem?_push, markersOf, markersOf, hentry, hcategory]

/-- Renewing some artifact leaves an entry as a function of the entry before it. -/
theorem getElem?_renew_congr {l l' : ProblemList} {b : String}
    (hcategory : l.category = l'.category) (hentry : l.markers[b]? = l'.markers[b]?) (a : String)
    (ds : List Diagnostic) :
    (l.renew a ds).markers[b]? = (l'.renew a ds).markers[b]? := by
  have hcleared : (l.clear a).markers[b]? = (l'.clear a).markers[b]? := by
    rw [getElem?_clear, getElem?_clear, hcategory, hentry]
  have hcategories : (l.clear a).category = (l'.clear a).category := hcategory
  exact getElem?_foldl_push_congr hcategories hcleared a ds

theorem foreign?_eq (category : String) (ms : List Marker) :
    foreign? category ms =
      if ms.filter (·.category ≠ category) = [] then none
      else some (ms.filter (·.category ≠ category)) := by
  unfold foreign?
  split
  · rename_i h
    rw [if_pos h]
  · rename_i h
    rw [h, if_neg (List.cons_ne_nil _ _)]

theorem bind_foreign?_bind (category : String) (ms : Option (List Marker)) :
    (ms.bind (foreign? category)).bind (foreign? category) = ms.bind (foreign? category) := by
  cases ms with
  | none => rfl
  | some ms =>
      rw [Option.bind_some, foreign?_eq]
      split
      · rfl
      · rename_i hforeign
        have hkept : (ms.filter (·.category ≠ category)).filter (·.category ≠ category) =
            ms.filter (·.category ≠ category) := by
          simp
        rw [Option.bind_some, foreign?_eq, hkept, if_neg hforeign]

/-- What is recorded of an artifact is forgotten together with what was forgotten before. -/
theorem getElem?_clear_push (l : ProblemList) (a : String) (d : Diagnostic) :
    ((l.push a d).clear a).markers[a]? = (l.clear a).markers[a]? := by
  rw [getElem?_clear, getElem?_clear, if_pos rfl, if_pos rfl, getElem?_push, if_pos rfl, markersOf,
    category_push]
  cases l.markers[a]? with
  | none => simp [foreign?_eq, markerOf]
  | some ms => simp [foreign?_eq, markerOf]

theorem getElem?_clear_renew (l : ProblemList) (a : String) (ds : List Diagnostic) :
    ((l.renew a ds).clear a).markers[a]? = (l.clear a).markers[a]? := by
  have hpushes (k : ProblemList) : ((ds.foldl (fun l d => l.push a d) k).clear a).markers[a]? =
      (k.clear a).markers[a]? := by
    induction ds generalizing k with
    | nil => rfl
    | cons d ds ih => rw [List.foldl_cons, ih, getElem?_clear_push]
  rw [renew, hpushes, getElem?_clear, if_pos rfl, getElem?_clear, if_pos rfl, category_clear,
    bind_foreign?_bind]

/-! ## Lists as stores -/

/-- A list accepts every problem of an artifact that has a name. -/
theorem store_add (l : ProblemList) {a : String} (h : a ≠ "") (d : Diagnostic) :
    ProblemStore.add l a d = (.ok (), l.push a d) := by
  simp only [ProblemStore.add, add, if_neg h]
  rfl

theorem performAll_adds (l : ProblemList) {a : String} (h : a ≠ "") (ds : List Diagnostic) :
    StoreCall.performAll l (ds.map (.add a)) =
      (ds.map fun d => (.add a d, .ok ()), ds.foldl (fun l d => l.push a d) l) := by
  induction ds generalizing l with
  | nil => rfl
  | cons d ds ih => simp [StoreCall.performAll, StoreCall.perform, store_add l h, ih]

/-- Recording the diagnostics of an artifact that has a name never fails. -/
theorem performAll_replace (l : ProblemList) {a : String} (h : a ≠ "") (ds : List Diagnostic) :
    StoreCall.performAll l (.clear a :: ds.map (.add a)) =
      ((.clear a, .ok ()) :: ds.map fun d => (.add a d, .ok ()), l.renew a ds) := by
  have hclear : StoreCall.perform l (.clear a) = (.ok (), l.clear a) := rfl
  simp only [StoreCall.performAll, hclear, performAll_adds _ h, renew]

theorem follow_replace (r : Recorded ProblemList) {a : String} (h : a ≠ "")
    (ds : List Diagnostic) :
    r.follow (.clear a :: ds.map (.add a)) = ⟨r.store.renew a ds, r.warnings⟩ := by
  have hnone : (ds.map fun d => (StoreCall.add a d, (.ok () : Except StoreError Unit))).filterMap
      StoreCall.warning? = [] := by
    simp [List.filterMap_map, Function.comp_def, StoreCall.warning?]
  simp only [Recorded.follow, performAll_replace _ h, List.filterMap_cons, StoreCall.warning?,
    hnone, List.append_nil]

end RuleBuild.ProblemList
