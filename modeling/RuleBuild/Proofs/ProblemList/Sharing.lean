import Mathlib.Data.List.Sort
import RuleBuild.Listing
import RuleBuild.Proofs.ProblemList.History
import RuleBuild.Proofs.ProblemList.Stored
import RuleBuild.Proofs.ProblemList.Totals

/-!
# Tools that share a file

Each tool loads the list, works on it and saves it. What a tool finds there, whenever it looks, is
what it would find if no other tool had ever used the file.
-/
namespace RuleBuild

namespace ProblemList

/-! ## Two lists edited alike -/

theorem edit_report_unnamed (l : ProblemList) (o : Outcome) :
    l.edit (.report "" o) = l.clear "" := by
  have hadds (r : Recorded ProblemList) (ds : List Diagnostic) :
      (ds.foldl (fun r d => r.add "" d) r).store = r.store := by
    induction ds generalizing r with
    | nil => rfl
    | cons d ds ih => exact ih _
  exact hadds _ o.diagnostics

/-- Operations are made of removals and additions, so whatever these keep between two lists is kept
by any operations. -/
theorem editAll_rel {R : ProblemList → ProblemList → Prop}
    (hclear : ∀ l l' a, R l l' → R (l.clear a) (l'.clear a))
    (hpush : ∀ l l' a d, R l l' → R (l.push a d) (l'.push a d))
    (hclearAll : ∀ l l', R l l' → R l.clearAll l'.clearAll) (es : List Edit) (l l' : ProblemList)
    (h : R l l') : R (l.editAll es) (l'.editAll es) := by
  have hpushes (a : String) (ds : List Diagnostic) (k k' : ProblemList) (hk : R k k') :
      R (ds.foldl (fun l d => l.push a d) k) (ds.foldl (fun l d => l.push a d) k') := by
    induction ds generalizing k k' with
    | nil => exact hk
    | cons d ds ih => exact ih _ _ (hpush k k' a d hk)
  have hedit (e : Edit) (k k' : ProblemList) (hk : R k k') : R (k.edit e) (k'.edit e) := by
    cases e with
    | report a o =>
        by_cases ha : a = ""
        · rw [ha, edit_report_unnamed, edit_report_unnamed]
          exact hclear k k' "" hk
        · rw [edit, edit, Recorded.report, Recorded.report, Recorded.replace_eq_follow,
            Recorded.replace_eq_follow, follow_replace _ ha, follow_replace _ ha]
          exact hpushes a o.diagnostics _ _ (hclear k k' a hk)
    | add a d =>
        by_cases ha : a = ""
        · rw [ha]
          exact hk
        · rw [edit, edit, store_add _ ha, store_add _ ha]
          exact hpush k k' a d hk
    | clear a => exact hclear k k' a hk
    | clearAll => exact hclearAll k k' hk
  induction es generalizing l l' with
  | nil => exact h
  | cons e es ih => exact ih _ _ (hedit e l l' h)

/-- Whether a tool sees the same in two lists. -/
structure Alike (l l' : ProblemList) : Prop where
  category : l.category = l'.category
  problems : ∀ a, l.problems a = l'.problems a

theorem Alike.trans {a b c : ProblemList} (hab : a.Alike b) (hbc : b.Alike c) : a.Alike c :=
  ⟨hab.category.trans hbc.category, fun id => (hab.problems id).trans (hbc.problems id)⟩

theorem Alike.editAll {l l' : ProblemList} (h : l.Alike l') (es : List Edit) :
    (l.editAll es).Alike (l'.editAll es) := by
  refine editAll_rel ?_ ?_ ?_ es l l' h
  · intro k k' a hk
    refine ⟨hk.category, fun b => ?_⟩
    rw [problems_clear, problems_clear, hk.problems]
  · intro k k' a d hk
    refine ⟨hk.category, fun b => ?_⟩
    rw [problems_push, problems_push, hk.problems]
  · intro k k' hk
    refine ⟨hk.category, fun b => ?_⟩
    rw [problems_clearAll, problems_clearAll]

theorem Alike.artifacts {l l' : ProblemList} (h : l.Alike l') : l.artifacts = l'.artifacts := by
  refine List.Pairwise.eq_of_mem_iff l.pairwise_artifacts l'.pairwise_artifacts fun a => ?_
  rw [mem_artifacts_iff, mem_artifacts_iff, h.problems]

theorem Alike.errorCount {l l' : ProblemList} (h : l.Alike l') : l.errorCount = l'.errorCount := by
  have hproblems : l.problems = l'.problems := funext h.problems
  have hnodup := l.pairwise_artifacts.nodup
  rw [l.errorCount_eq hnodup fun a => (l.mem_artifacts_iff a).mpr,
    l'.errorCount_eq hnodup fun a ha => h.artifacts ▸ (l'.mem_artifacts_iff a).mpr ha, hproblems]

theorem Alike.render {l l' : ProblemList} (h : l.Alike l') (style : Style) :
    l.render style = l'.render style := by
  have hproblems : l.problems = l'.problems := funext h.problems
  have hoverview : l.overview = l'.overview := by
    unfold overview
    rw [h.category, h.artifacts, h.errorCount, hproblems]
  have hlines : l.lines style = l'.lines style := by
    unfold lines entries summaryText
    rw [h.artifacts, h.errorCount, hproblems]
  cases style with
  | json => exact congrArg showJson hoverview
  | plain => exact congrArg textOfLines hlines
  | coloured => exact congrArg textOfLines hlines

theorem own_markersOf (l : ProblemList) (a : String) :
    own l.category (l.markersOf a) = (l.problems a).map (markerOf l.category) := by
  rw [problems, List.map_map]
  refine (List.map_id _).symm.trans (List.map_congr_left fun m hm => ?_)
  have hcategory : m.category = l.category := by simpa using (List.mem_filter.mp hm).2
  rw [id, Function.comp_apply, markerOf, Marker.diagnostic, ← hcategory]

theorem Alike.own {l l' : ProblemList} (h : l.Alike l') (a : String) :
    own l.category (l.markersOf a) = own l.category (l'.markersOf a) := by
  rw [own_markersOf, h.problems, h.category, own_markersOf]

/-- A tool leaves the markers of the others where they are. -/
theorem othersOf_editAll (l : ProblemList) (es : List Edit) (a : String) :
    (l.editAll es).othersOf a = l.othersOf a := by
  refine editAll_rel (R := fun k _ => ∀ a, k.othersOf a = l.othersOf a) ?_ ?_ ?_ es l l
    (fun _ => rfl) a
  · intro k _ b hk a
    rw [othersOf_clear, hk]
  · intro k _ b d hk a
    rw [othersOf_push, hk]
  · intro k _ hk a
    rw [othersOf_clearAll, hk]

theorem category_editAll (l : ProblemList) (es : List Edit) :
    (l.editAll es).category = l.category :=
  editAll_rel (R := fun k _ => k.category = l.category) (fun _ _ _ h => h) (fun _ _ _ _ h => h)
    (fun _ _ h => h) es l l rfl

theorem own_othersOf_of_ne {c : String} (l : ProblemList) (h : c ≠ l.category) (a : String) :
    own c (l.othersOf a) = own c (l.markersOf a) := by
  rw [own, own, othersOf, List.filter_filter]
  refine List.filter_congr fun m _ => ?_
  by_cases hm : m.category = c
  · simp [hm, h]
  · simp [hm]

end ProblemList

/-! ## Tools taking turns -/

/-- One use of a shared file by the tool of a category. -/
structure Turn where
  category : String
  edits : List Edit
  deriving Repr

namespace Turn

/-- The file system after a turn: the tool loads the list in the file, works on it and saves it. -/
def take (path : Path) (fs : FileSystem) (t : Turn) : Except StoreError FileSystem :=
  match ProblemList.load fs path t.category with
  | .error e => .error e
  | .ok l =>
    match (l.editAll t.edits).save fs path with
    | (.error e, _) => .error e
    | (.ok _, fs) => .ok fs

/-- The file system after turns one after the other. -/
def takeAll (path : Path) (fs : FileSystem) (ts : List Turn) : Except StoreError FileSystem :=
  ts.foldlM (take path) fs

end Turn

namespace ProblemList

theorem load_eq_map (fs : FileSystem) (path : Path) (c d : String) :
    load fs path d = (load fs path c).map fun l => ⟨d, l.markers⟩ := by
  have hbytes (bytes : Bytes) :
      ofBytes? d bytes = (ofBytes? c bytes).map fun l => ⟨d, l.markers⟩ := by
    unfold ofBytes?
    cases Json.Raw.ofBytes? bytes with
    | none => rfl
    | some tree =>
        simp only [Option.bind_eq_bind, Option.bind_some]
        cases readFile? tree with
        | none => rfl
        | some file =>
            by_cases hversion : file.1 = formatVersion
            · simp [hversion]
            · simp [hversion, empty]
  unfold load
  split
  · cases fs.read path with
    | error e => rfl
    | ok bytes =>
        simp only [hbytes]
        cases ofBytes? c bytes with
        | none => rfl
        | some l => rfl
  · rfl

theorem category_of_load {fs : FileSystem} {path : Path} {c : String} {l : ProblemList}
    (h : load fs path c = .ok l) : l.category = c := by
  have hsame := load_eq_map fs path c c
  rw [h] at hsame
  rw [Except.ok.inj hsame]

/-- Whether the file of a path can be shared: every tool finds the same markers in it, none where
there is no file yet, and every list can be saved to it. -/
structure Shared (fs : FileSystem) (path : Path)
    (markers : Std.ExtTreeMap String (List Marker)) : Prop where
  load : ∀ c, load fs path c = .ok ⟨c, markers⟩
  save : ∀ l : ProblemList, ∃ fs', l.save fs path = (.ok (), fs')

/-- A file can be shared if a tool can load its list and nothing refuses to have it written. Where
there is no file, it has to be possible to save one. -/
theorem shared_of_load {fs : FileSystem} {path : Path} {c : String} {l : ProblemList}
    (hload : load fs path c = .ok l) (hallows : fs.Allows path)
    (hsave : fs.hasPath path = false → ∃ fs', l.save fs path = (.ok (), fs')) :
    Shared fs path l.markers := by
  refine ⟨fun d => ?_, ?_⟩
  · rw [load_eq_map fs path c d, hload]
    rfl
  · cases hpath : fs.hasPath path with
    | false =>
        intro k
        obtain ⟨fs', hsaved⟩ := hsave hpath
        obtain ⟨mid, hparent, hwrite⟩ := save_eq_ok_iff.mp hsaved
        obtain ⟨after, hafter⟩ := FileSystem.write_content hwrite k.toBytes
        exact ⟨after, save_eq_ok_iff.mpr ⟨mid, hparent, hafter⟩⟩
    | true =>
        rw [load, if_pos hpath] at hload
        cases hread : fs.read path with
        | error e =>
            rw [hread] at hload
            cases hload
        | ok bytes => exact save_of_read hread hallows

end ProblemList

namespace Turn

/-- The markers that a turn leaves in the file. -/
def leaves (markers : Std.ExtTreeMap String (List Marker)) (t : Turn) :
    Std.ExtTreeMap String (List Marker) :=
  (((⟨t.category, markers⟩ : ProblemList).editAll t.edits).kept t.category).markers

theorem take_of_shared {fs : FileSystem} {path : Path}
    {markers : Std.ExtTreeMap String (List Marker)} (h : ProblemList.Shared fs path markers)
    (t : Turn) :
    ∃ fs', t.take path fs = .ok fs' ∧ ProblemList.Shared fs' path (t.leaves markers) := by
  obtain ⟨fs', hsave⟩ := h.save ((⟨t.category, markers⟩ : ProblemList).editAll t.edits)
  refine ⟨fs', ?_, ProblemList.load_of_save hsave,
    ProblemList.save_of_read (ProblemList.read_of_save hsave) (ProblemList.allows_of_save hsave)⟩
  simp only [take, h.load, hsave]

theorem takeAll_of_shared {fs : FileSystem} {path : Path}
    {markers : Std.ExtTreeMap String (List Marker)} (h : ProblemList.Shared fs path markers)
    (ts : List Turn) :
    ∃ fs', takeAll path fs ts = .ok fs' ∧
      ProblemList.Shared fs' path (ts.foldl leaves markers) := by
  induction ts generalizing fs markers with
  | nil => exact ⟨fs, rfl, h⟩
  | cons t ts ih =>
      obtain ⟨mid, htake, hmid⟩ := t.take_of_shared h
      obtain ⟨fs', hrest, hfs'⟩ := ih hmid
      refine ⟨fs', ?_, hfs'⟩
      rw [takeAll, List.foldlM_cons, htake]
      exact hrest

theorem problems_leaves (markers : Std.ExtTreeMap String (List Marker)) (t : Turn)
    (c a : String) :
    (⟨c, t.leaves markers⟩ : ProblemList).problems a =
      (ProblemList.own c (((⟨t.category, markers⟩ : ProblemList).editAll t.edits).markersOf a)).map
        Marker.diagnostic := by
  rw [← ProblemList.markersOf_kept _ t.category]
  rfl

/-- The turn of another tool changes nothing that a tool sees. -/
theorem alike_of_ne {c : String} {t : Turn} (h : t.category ≠ c)
    (markers : Std.ExtTreeMap String (List Marker)) :
    (⟨c, t.leaves markers⟩ : ProblemList).Alike ⟨c, markers⟩ := by
  refine ⟨rfl, fun a => ?_⟩
  have hne : c ≠ ((⟨t.category, markers⟩ : ProblemList).editAll t.edits).category := by
    rw [ProblemList.category_editAll]
    exact h.symm
  have hothers := ProblemList.own_othersOf_of_ne ⟨t.category, markers⟩ h.symm a
  rw [problems_leaves, ← ProblemList.own_othersOf_of_ne _ hne, ProblemList.othersOf_editAll,
    hothers]
  rfl

theorem Alike.leaves {c : String} {t : Turn} (h : t.category = c)
    {markers markers' : Std.ExtTreeMap String (List Marker)}
    (hsees : (⟨c, markers⟩ : ProblemList).Alike ⟨c, markers'⟩) :
    (⟨c, t.leaves markers⟩ : ProblemList).Alike ⟨c, t.leaves markers'⟩ := by
  subst h
  have hedited := hsees.editAll t.edits
  have hsame (markers : Std.ExtTreeMap String (List Marker)) (a : String) :
      (⟨t.category, t.leaves markers⟩ : ProblemList).problems a =
        ((⟨t.category, markers⟩ : ProblemList).editAll t.edits).problems a := by
    rw [problems_leaves, ProblemList.problems, ProblemList.category_editAll]
  refine ⟨rfl, fun a => ?_⟩
  rw [hsame, hsame, hedited.problems]

/-- What a tool sees after any turns follows from its own turns. -/
theorem alike_foldl_leaves (c : String) (ts : List Turn)
    {markers markers' : Std.ExtTreeMap String (List Marker)}
    (h : (⟨c, markers⟩ : ProblemList).Alike ⟨c, markers'⟩) :
    (⟨c, ts.foldl leaves markers⟩ : ProblemList).Alike
      ⟨c, (ts.filter (·.category = c)).foldl leaves markers'⟩ := by
  induction ts generalizing markers markers' with
  | nil => exact h
  | cons t ts ih =>
      by_cases ht : t.category = c
      · rw [List.filter_cons_of_pos (by simpa using ht), List.foldl_cons, List.foldl_cons]
        exact ih (Alike.leaves ht h)
      · rw [List.filter_cons_of_neg (by simpa using ht), List.foldl_cons]
        exact ih ((alike_of_ne ht markers).trans h)

end Turn

/-- Tools that take turns with a shared file do not disturb each other: for each of them the file
holds in the end, and so after every turn, what it would hold if the tool had been alone. -/
theorem tools_undisturbed {fs : FileSystem} {path : Path} {c : String} {l : ProblemList}
    (hload : ProblemList.load fs path c = .ok l) (hallows : fs.Allows path)
    (hsave : fs.hasPath path = false → ∃ fs', l.save fs path = (.ok (), fs')) (ts : List Turn) :
    ∃ shared alone, Turn.takeAll path fs ts = .ok shared ∧
      Turn.takeAll path fs (ts.filter (·.category = c)) = .ok alone ∧
      (∀ d, ∃ found foundAlone, ProblemList.load shared path d = .ok found ∧
        ProblemList.load alone path d = .ok foundAlone ∧
        ∀ a, ProblemList.own c (found.markersOf a) = ProblemList.own c (foundAlone.markersOf a)) ∧
      ∃ found foundAlone, ProblemList.load shared path c = .ok found ∧
        ProblemList.load alone path c = .ok foundAlone ∧ ∀ es : List Edit,
          (∀ a, (found.editAll es).problems a = (foundAlone.editAll es).problems a) ∧
          (found.editAll es).artifacts = (foundAlone.editAll es).artifacts ∧
          (found.editAll es).errorCount = (foundAlone.editAll es).errorCount := by
  have hshared := ProblemList.shared_of_load hload hallows hsave
  obtain ⟨shared, htakeAll, hfound⟩ := Turn.takeAll_of_shared hshared ts
  obtain ⟨alone, htakeOwn, hfoundAlone⟩ :=
    Turn.takeAll_of_shared hshared (ts.filter (·.category = c))
  have hsees := Turn.alike_foldl_leaves c ts
    (show (⟨c, l.markers⟩ : ProblemList).Alike ⟨c, l.markers⟩ from ⟨rfl, fun _ => rfl⟩)
  refine ⟨shared, alone, htakeAll, htakeOwn,
    fun d => ⟨_, _, hfound.load d, hfoundAlone.load d, hsees.own⟩,
    _, _, hfound.load c, hfoundAlone.load c, fun es => ?_⟩
  have hedited := hsees.editAll es
  exact ⟨hedited.problems, hedited.artifacts, hedited.errorCount⟩

def sampleTurns : List Turn :=
  [⟨"drlbuild.problem", [.add "a.drl" (.error "first" (some 1))]⟩,
    ⟨"other", [.clear "a.drl", .add "a.drl" (.error "foreign" none)]⟩,
    ⟨"drlbuild.problem", [.report "b.drl" (.parseFailure "second" none)]⟩, ⟨"other", [.clearAll]⟩]

theorem sampleTurns_undisturbed :
    ProblemList.load .empty ProblemList.sampleFile "drlbuild.problem" =
        .ok (.empty "drlbuild.problem") ∧
      ∃ shared alone, Turn.takeAll ProblemList.sampleFile .empty sampleTurns = .ok shared ∧
        Turn.takeAll ProblemList.sampleFile .empty
          (sampleTurns.filter (·.category = "drlbuild.problem")) = .ok alone ∧
        ∀ d, ∃ found foundAlone, ProblemList.load shared ProblemList.sampleFile d = .ok found ∧
          ProblemList.load alone ProblemList.sampleFile d = .ok foundAlone ∧
          ∀ a, ProblemList.own "drlbuild.problem" (found.markersOf a) =
            ProblemList.own "drlbuild.problem" (foundAlone.markersOf a) := by
  have hload : ProblemList.load .empty ProblemList.sampleFile "drlbuild.problem" =
      .ok (.empty "drlbuild.problem") := rfl
  have hsave : ∃ fs', (ProblemList.empty "drlbuild.problem").save .empty ProblemList.sampleFile =
      (.ok (), fs') := ⟨_, rfl⟩
  have hallows : FileSystem.empty.Allows ProblemList.sampleFile := fun _ _ => rfl
  obtain ⟨shared, alone, hshared, halone, hfound, _⟩ :=
    tools_undisturbed hload hallows (fun _ => hsave) sampleTurns
  exact ⟨hload, shared, alone, hshared, halone, hfound⟩

end RuleBuild
