import RuleBuild.FileSystem
import RuleBuild.Proofs.Path.Below
import RuleBuild.Proofs.Path.Extension

/-!
# Identities of what lies below the root

A path below the root is known by the names that lead to it from there. They settle its kind and its
identity, and the identity gives them back: names hold no slash.
-/
namespace RuleBuild

theorem Text.split_join {α : Type} [DecidableEq α] {sep : α} {ps : List (List α)} (hne : ps ≠ [])
    (h : ∀ p ∈ ps, sep ∉ p) : split sep (join sep ps) = ps := by
  induction ps with
  | nil => exact absurd rfl hne
  | cons p ps ih =>
      obtain ⟨hp, hps⟩ := List.forall_mem_cons.mp h
      cases ps with
      | nil => exact split_of_not_mem hp
      | cons q ps =>
          rw [join, split_append, split_of_not_mem hp, ih (by simp) hps]
          rfl

theorem FileSystem.slash_not_mem_of_isName {name : String} (h : isName name = true) :
    '/' ∉ name.toList := by
  simp only [isName, Bool.and_eq_true] at h
  simpa using h.2

/-- Names are told apart by the text that they make with slashes between them. -/
theorem intercalate_injective {ns ms : List String} (hn : ns ≠ []) (hm : ms ≠ [])
    (hns : ∀ n ∈ ns, FileSystem.isName n = true) (hms : ∀ m ∈ ms, FileSystem.isName m = true)
    (h : "/".intercalate ns = "/".intercalate ms) : ns = ms := by
  have hpieces {xs : List String} (hxs : ∀ x ∈ xs, FileSystem.isName x = true) :
      ∀ p ∈ xs.map String.toList, '/' ∉ p := by
    intro p hp
    obtain ⟨x, hx, rfl⟩ := List.mem_map.mp hp
    exact FileSystem.slash_not_mem_of_isName (hxs x hx)
  rw [← join_texts_eq_intercalate, ← join_texts_eq_intercalate] at h
  have hjoin := String.ofList_injective h
  have hsplit := congrArg (Text.split '/') hjoin
  rw [Text.split_join (by simpa using hn) (hpieces hns),
    Text.split_join (by simpa using hm) (hpieces hms)] at hsplit
  exact List.map_injective_iff.mpr (fun _ _ => String.toList_inj.mp) hsplit

/-- The identity of the project is no path of names. -/
theorem intercalate_ne_projectId {ns : List String} (hn : ns ≠ [])
    (hns : ∀ n ∈ ns, FileSystem.isName n = true) : "/".intercalate ns ≠ projectId := by
  intro h
  obtain ⟨n, ns, rfl⟩ := List.exists_cons_of_ne_nil hn
  have hdot : '/' ∉ projectId.toList := by decide
  cases ns with
  | nil =>
      have hname := hns n List.mem_cons_self
      rw [show n = projectId by simpa using h] at hname
      exact absurd hname (by decide)
  | cons m ns =>
      rw [← h, ← join_texts_eq_intercalate] at hdot
      simp [Text.join] at hdot

/-! ## Steps up -/

theorem Text.mem_split_join {sep : Char} {p : List Char} {ps : List (List Char)} (hmem : p ∈ ps)
    (h : sep ∉ p) : p ∈ split sep (join sep ps) := by
  induction ps with
  | nil => cases hmem
  | cons q ps ih =>
      cases ps with
      | nil =>
          rw [List.mem_singleton.mp hmem] at h ⊢
          simp [join, split_of_not_mem h]
      | cons r ps =>
          rw [join, split_append, List.mem_append]
          rcases List.mem_cons.mp hmem with rfl | hmem
          · exact .inl (by simp [split_of_not_mem h])
          · exact .inr (ih hmem)

namespace Path

/-- Steps up that are not of the base stand on the way. -/
theorem up_mem_way {moved : Bool} {path base cs : List (Component String)}
    (h : way moved path base = some cs) (hbase : .up ∉ base) (hpath : .up ∈ path) : .up ∈ cs := by
  fun_induction way moved path base generalizing cs with
  | case1 => cases hpath
  | case2 moved a path =>
      cases h
      exact hpath
  | case3 => cases hpath
  | case4 moved a path b base heq ih =>
      simp only [Bool.and_eq_true, decide_eq_true_eq] at heq
      obtain ⟨hb, hrest⟩ := not_or.mp (List.mem_cons.not.mp hbase)
      rw [heq.2] at hpath
      exact ih h hrest ((List.mem_cons.mp hpath).resolve_left hb)
  | case5 moved a path base hne ih =>
      obtain ⟨ds, hds, rfl⟩ := Option.map_eq_some_iff.mp h
      rcases List.mem_cons.mp hpath with rfl | hpath
      · exact List.mem_cons_self
      · have hrest : .up ∉ base := fun hmem => hbase (List.mem_cons_of_mem _ hmem)
        exact List.mem_cons_of_mem _ (ih hds hrest hpath)
  | case6 => cases h
  | case7 moved a path b base hne hhere hup =>
      cases h
      exact List.mem_append_left _ List.mem_cons_self

theorem up_mem_dropDots {cs : List (Component String)} (h : .up ∈ cs) : .up ∈ dropDots cs := by
  cases cs with
  | nil => cases h
  | cons c cs =>
      rcases List.mem_cons.mp h with rfl | h
      · exact List.mem_cons_self
      · exact List.mem_cons_of_mem _ (List.mem_filter.mpr ⟨h, by simp⟩)

/-- From a root without a step up, the steps up of a path stay in what it is known by. -/
theorem up_mem_relativeTo? {root p : Path} (hroot : .up ∉ root.components)
    (hp : .up ∈ p.components) : .up ∈ (relativeTo? root p).getD p.components := by
  cases hway : relativeTo? root p with
  | none => exact hp
  | some cs =>
      unfold relativeTo? wayTo? at hway
      split at hway
      · obtain ⟨ds, hds, rfl⟩ := Option.map_eq_some_iff.mp hway
        exact up_mem_dropDots (up_mem_way hds hroot hp)
      · split at hway
        · cases hway
          exact hp
        · cases hway

end Path

/-- Components with a step up make no identity of names. -/
theorem idOfComponents_ne_intercalate {cs : List (Component String)} {ns : List String}
    (hup : .up ∈ cs) (hne : ns ≠ []) (hns : ∀ n ∈ ns, FileSystem.isName n = true) :
    idOfComponents cs ≠ "/".intercalate ns := by
  obtain ⟨c, cs, rfl⟩ := List.exists_cons_of_ne_nil (List.ne_nil_of_mem hup)
  intro h
  rw [← join_texts_eq_intercalate] at h
  have hjoin : Text.join '/' ((c :: cs).map (·.text.toList)) =
      Text.join '/' (ns.map String.toList) := String.ofList_injective h
  have hpiece : "..".toList ∈ (c :: cs).map (·.text.toList) := List.mem_map.mpr ⟨.up, hup, rfl⟩
  have hsplit := Text.mem_split_join hpiece (by decide : '/' ∉ "..".toList)
  rw [hjoin, Text.split_join (by simpa using hne)] at hsplit
  · obtain ⟨n, hn, heq⟩ := List.mem_map.mp hsplit
    have hname := hns n hn
    rw [String.toList_inj.mp heq] at hname
    exact absurd hname (by decide)
  · intro p hp
    obtain ⟨n, hn, rfl⟩ := List.mem_map.mp hp
    exact FileSystem.slash_not_mem_of_isName (hns n hn)

namespace Path

/-! ## Texts of paths -/

theorem slash_not_mem_of_mem_pieces {text piece : String} (h : piece ∈ (ofString text).pieces) :
    '/' ∉ piece.toList := by
  obtain ⟨cs, hcs, rfl⟩ := List.mem_map.mp h
  rw [String.toList_ofList]
  exact Text.not_mem_of_mem_split hcs

theorem isEmpty_ofString_iff {text : String} : (ofString text).isEmpty = true ↔ text = "" := by
  constructor
  · intro hempty
    have hpieces : (ofString text).pieces = [] ∨ (ofString text).pieces = [""] := by
      simpa [isEmpty] using hempty
    rcases hpieces with hpieces | hpieces
    · exact absurd (List.map_eq_nil_iff.mp hpieces) (Text.split_ne_nil '/' _)
    · obtain ⟨cs, hsplit, hcs⟩ := List.map_eq_singleton_iff.mp hpieces
      obtain rfl : cs = [] := by simpa using hcs
      rw [Text.split_eq_singleton_nil_iff] at hsplit
      exact String.toList_inj.mp hsplit
  · rintro rfl
    rfl

/-- A path is the path of its text, unless a slash stands within a piece. -/
theorem ofString_toString {p : Path} (hne : p.pieces ≠ [])
    (h : ∀ piece ∈ p.pieces, '/' ∉ piece.toList) : ofString p.toString = p := by
  have hpieces : ∀ cs ∈ p.pieces.map String.toList, '/' ∉ cs := by
    intro cs hcs
    obtain ⟨piece, hmem, rfl⟩ := List.mem_map.mp hcs
    exact h piece hmem
  rw [ofString, toString, String.toList_ofList, Text.split_join (by simpa using hne) hpieces,
    List.map_map]
  simp [Function.comp_def]

/-! ## Places below the root -/

theorem root_mem_components_iff (p : Path) : .root ∈ p.components ↔ p.isAbsolute = true := by
  have hpieces (xs : List String) : Component.root ∉ xs.filterMap component? := by
    intro hmem
    obtain ⟨piece, _, hc⟩ := List.mem_filterMap.mp hmem
    rcases eq_of_component? hc with hc | hc <;> cases hc
  constructor
  · intro hmem
    unfold components at hmem
    split at hmem
    · rename_i x xs hp
      exact (isAbsolute_iff p).mpr ⟨x, xs, hp⟩
    · rename_i xs hp
      exact absurd hmem (by simp [hpieces])
    · exact absurd hmem (hpieces _)
  · intro habs
    rw [components_of_isAbsolute habs]
    exact List.mem_cons_self

theorem components_of_relative {p : Path} (habs : p.isAbsolute = false)
    (hhere : .here ∉ p.components) : p.components = p.pieces.filterMap component? := by
  unfold components at hhere ⊢
  split
  · rename_i x xs hp
    exact absurd ((isAbsolute_iff p).mpr ⟨x, xs, hp⟩) (by simp [habs])
  · rename_i xs hp
    rw [hp] at hhere
    exact absurd List.mem_cons_self hhere
  · rfl

/-- The last of some names at the end of a path decides what kind of file it names. -/
theorem ofPath?_of_components_eq {p : Path} {cs : List (Component String)} {names : Location}
    (h : p.components = cs ++ names.map .name) (hne : names ≠ []) :
    ArtifactKind.ofPath? p = names.getLast?.bind ArtifactKind.ofFileName := by
  have hlast : p.fileName? = names.getLast? := by
    rw [fileName?, h, List.getLast?_append, List.getLast?_map]
    cases hname : names.getLast? with
    | none => exact absurd (List.getLast?_eq_none_iff.mp hname) hne
    | some name => rfl
  rw [ArtifactKind.ofPath?, extension?, hlast, Option.bind_assoc]
  rfl

/-- A path below the root, by the names that lead to it. -/
structure LiesBelow (p root : Path) (names : Location) : Prop where
  absolute : p.isAbsolute = true
  components : p.components = root.components ++ names.map .name

namespace LiesBelow

variable {root p : Path} {names : Location}

theorem below (h : p.LiesBelow root names) : Path.below root p = names.map .name :=
  below_of_components_eq h.components (by simp)

theorem names_eq (h : p.LiesBelow root names) : p.names = root.names ++ names := by
  rw [Path.names, h.components, List.filterMap_append, ← Path.names, List.filterMap_map]
  simp [Component.name?, Function.comp_def]

theorem noUp (h : p.LiesBelow root names) (hup : .up ∉ root.components) : .up ∉ p.components := by
  rw [h.components]
  simpa using hup

theorem artifactId (h : p.LiesBelow root names) (hroot : root.isAbsolute = true)
    (hne : names ≠ []) : artifactId root p = "/".intercalate names :=
  artifactId_of_components_eq (h.absolute.trans hroot.symm) h.components hne

theorem ofPath? (h : p.LiesBelow root names) (hne : names ≠ []) :
    ArtifactKind.ofPath? p = names.getLast?.bind ArtifactKind.ofFileName :=
  ofPath?_of_components_eq h.components hne

end LiesBelow

/-- A path given from the root or from the root of the file system, by names that lead below the
root. Nothing stands after the last name. -/
structure GivenBelow (q root : Path) (names : Location) : Prop where
  components : q.components = names.map .name ∨ q.components = root.components ++ names.map .name
  last : q.pieces.getLast? = names.getLast?
  ne_nil : names ≠ []
  named : ∀ name ∈ names, FileSystem.isName name = true

namespace GivenBelow

variable {root q : Path} {names : Location}

/-- Seen from the root, such a path is absolute, and its last name still stands at its end. -/
theorem join (h : q.GivenBelow root names) (hroot : root.isAbsolute = true) :
    (root.join q).LiesBelow root names ∧ (root.join q).pieces.getLast? = names.getLast? := by
  have hpieces : q.pieces ≠ [] := by
    intro hnil
    have hlast := h.last
    rw [hnil, List.getLast?_nil, eq_comm, List.getLast?_eq_none_iff] at hlast
    exact h.ne_nil hlast
  rcases h.components with hrel | habs
  · have hq : q.isAbsolute = false := by
      rw [Bool.eq_false_iff, ne_eq, ← root_mem_components_iff, hrel]
      simp
    have hcomponents : q.pieces.filterMap component? = names.map .name := by
      rw [← components_of_relative hq (by simp [hrel]), hrel]
    have hempty := not_isEmpty_of_isAbsolute hroot
    refine ⟨⟨(isAbsolute_join hempty hq hpieces).trans hroot, ?_⟩, ?_⟩
    · rw [components_join hempty hq hpieces, hcomponents]
    · obtain ⟨x, before, hjoin, _⟩ := pieces_join hempty hq
      rw [hjoin, ← List.cons_append, List.getLast?_append_of_ne_nil _ hpieces, h.last]
  · have hq : q.isAbsolute = true := by
      rw [← root_mem_components_iff, habs, components_of_isAbsolute hroot]
      simp
    have hjoin : root.join q = q := by rw [Path.join, hq, Bool.true_or, if_pos rfl]
    rw [hjoin]
    exact ⟨⟨hq, habs⟩, h.last⟩

end GivenBelow
end Path
end RuleBuild
