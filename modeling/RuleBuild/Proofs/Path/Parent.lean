import Mathlib.Data.List.DropRight
import Mathlib.Logic.Relation
import RuleBuild.Proofs.Path.Below

/-!
# The way up

The parent of a path has its components but the last, so whoever goes up from a path reaches one
without a parent. The paths on the way are those that enclose it, and each is shorter than those
before it.
-/
namespace RuleBuild.Path

/-! ## The last component -/

theorem component?_eq_none_iff {piece : String} :
    component? piece = none ↔ piece = "" ∨ piece = "." := by
  rw [component?_eq]
  split
  · simp_all
  · split
    · simp_all
    · simp_all

/-- What `trimEnd` takes away is no component. -/
theorem component?_of_trimmed {piece : String} (h : (piece = "" || piece = ".") = true) :
    component? piece = none :=
  component?_eq_none_iff.mpr (by simpa using h)

theorem trimEnd_isPrefix (pieces : List String) : trimEnd pieces <+: pieces :=
  List.rdropWhile_prefix (fun s => s = "" || s = ".") pieces

theorem filterMap_component?_trimEnd (pieces : List String) :
    (trimEnd pieces).filterMap component? = pieces.filterMap component? := by
  rw [trimEnd, List.filterMap_reverse,
    filterMap_component?_dropWhile fun _ => component?_of_trimmed, List.filterMap_reverse,
    List.reverse_reverse]

/-- What is left by `trimEnd` ends in a component. -/
theorem trimEnd_eq_concat {pieces ys : List String} {y : String}
    (h : trimEnd pieces = ys.concat y) : ∃ c, component? y = some c := by
  have hne : List.rdropWhile (fun s => s = "" || s = ".") pieces ≠ [] := by
    change trimEnd pieces ≠ []
    simp [h]
  have hlast := List.rdropWhile_last_not _ _ hne
  have hy : (List.rdropWhile (fun s => s = "" || s = ".") pieces).getLast hne = y := by
    change (trimEnd pieces).getLast hne = y
    simp [h]
  rw [hy] at hlast
  rw [← Option.ne_none_iff_exists', ne_eq, component?_eq_none_iff]
  simpa using hlast

theorem trimEnd_eq_nil_iff {pieces : List String} :
    trimEnd pieces = [] ↔ pieces.filterMap component? = [] := by
  rw [← filterMap_component?_trimEnd pieces]
  constructor
  · intro h
    rw [h]
    rfl
  · intro h
    rcases List.eq_nil_or_concat (trimEnd pieces) with hnil | ⟨ys, y, hlast⟩
    · exact hnil
    · obtain ⟨c, hc⟩ := trimEnd_eq_concat hlast
      simp [hlast, hc] at h

/-- Without their last component, pieces amount to what they do otherwise. -/
theorem filterMap_component?_dropLast_trimEnd (pieces : List String) :
    (trimEnd (trimEnd pieces).dropLast).filterMap component? =
      (pieces.filterMap component?).dropLast := by
  rw [filterMap_component?_trimEnd, ← filterMap_component?_trimEnd pieces]
  rcases List.eq_nil_or_concat (trimEnd pieces) with hnil | ⟨ys, y, hlast⟩
  · rw [hnil]
    rfl
  · obtain ⟨c, hc⟩ := trimEnd_eq_concat hlast
    rw [hlast, List.concat_eq_append, List.dropLast_concat, List.filterMap_append]
    simp [hc]

/-- What is left without the last component begins the path, and is not all of it. -/
theorem pieces_of_trimEnd_dropLast {pieces zs : List String} {z : String}
    (h : trimEnd (trimEnd pieces).dropLast = z :: zs) : ∃ x rest, pieces = z :: x :: rest := by
  obtain ⟨more, hmore⟩ : z :: zs <+: (trimEnd pieces).dropLast := h ▸ trimEnd_isPrefix _
  have hne : trimEnd pieces ≠ [] := by
    intro hnil
    simp [hnil] at hmore
  obtain ⟨rest, hrest⟩ := trimEnd_isPrefix pieces
  rw [← List.dropLast_append_getLast hne, ← hmore] at hrest
  obtain ⟨x, xs, hx⟩ := List.exists_cons_of_ne_nil
    (List.append_ne_nil_of_left_ne_nil (List.concat_ne_nil ((trimEnd pieces).getLast hne)
      (zs ++ more)) rest)
  refine ⟨x, xs, ?_⟩
  rw [← hrest, ← hx]
  simp

/-! ## Parents -/

/-- All that a path can have as its parent: none without a component to leave out, or else one that
has the components but the last. -/
theorem parent?_cases (p : Path) :
    (p.parent? = none ∧ (p.components = [] ∨ p.components = [.root])) ∨
      ∃ q, p.parent? = some q ∧ p.components ≠ [] ∧ q.components = p.components.dropLast ∧
        q.isAbsolute = p.isAbsolute := by
  unfold parent?
  split
  · rename_i x xs hp
    have habs : p.isAbsolute = true := (isAbsolute_iff p).mpr ⟨x, xs, hp⟩
    have hcomponents : p.components = .root :: (x :: xs).filterMap component? := by
      simp only [components, hp]
    have hparent := filterMap_component?_dropLast_trimEnd (x :: xs)
    rw [hcomponents]
    split
    · rename_i hnil
      exact .inl ⟨rfl, .inr (by rw [trimEnd_eq_nil_iff.mp hnil])⟩
    · rename_i hne
      have hsome : (x :: xs).filterMap component? ≠ [] := fun hnil =>
        hne (trimEnd_eq_nil_iff.mpr hnil)
      rw [List.dropLast_cons_of_ne_nil hsome, ← hparent]
      split
      · rename_i hnil
        exact .inr ⟨_, rfl, by simp, by rw [hnil]; rfl, habs.symm⟩
      · rename_i hrest
        obtain ⟨z, zs, hz⟩ := List.exists_cons_of_ne_nil hrest
        exact .inr ⟨_, rfl, by simp, by rw [hz]; rfl, by rw [hz, habs]; rfl⟩
  · rename_i xs hp
    have habs : p.isAbsolute = false := isAbsolute_eq_false_of_pieces hp (by decide)
    have hcomponents : p.components = .here :: xs.filterMap component? := by
      simp only [components, hp]
    rw [hcomponents]
    split
    · rename_i hnil
      exact .inr ⟨_, rfl, by simp, by rw [trimEnd_eq_nil_iff.mp hnil]; rfl, habs.symm⟩
    · rename_i hne
      have hsome : xs.filterMap component? ≠ [] := fun hnil => hne (trimEnd_eq_nil_iff.mpr hnil)
      rw [List.dropLast_cons_of_ne_nil hsome, ← filterMap_component?_dropLast_trimEnd xs]
      exact .inr ⟨_, rfl, by simp, rfl, habs.symm⟩
  · rename_i hslash hdot
    have habs : p.isAbsolute = false := by
      rw [Bool.eq_false_iff, ne_eq, isAbsolute_iff]
      rintro ⟨x, xs, hp⟩
      exact hslash x xs hp
    have hcomponents : p.components = p.pieces.filterMap component? := by
      simp only [components]
    rw [hcomponents]
    split
    · rename_i hnil
      exact .inl ⟨rfl, .inl (trimEnd_eq_nil_iff.mp hnil)⟩
    · rename_i hne
      have hsome : p.pieces.filterMap component? ≠ [] := fun hnil =>
        hne (trimEnd_eq_nil_iff.mpr hnil)
      rw [← filterMap_component?_dropLast_trimEnd p.pieces]
      split
      · rename_i hnil
        exact .inr ⟨_, rfl, hsome, by rw [hnil]; rfl, habs.symm⟩
      · rename_i hrest
        -- What is left begins as the path does, and so neither with a slash nor with a dot.
        obtain ⟨z, zs, hz⟩ := List.exists_cons_of_ne_nil hrest
        obtain ⟨x, rest, hpieces⟩ := pieces_of_trimEnd_dropLast hz
        have hz' : z ≠ "" := fun heq => hslash x _ (heq ▸ hpieces)
        have hdot' : z ≠ "." := fun heq => hdot _ (heq ▸ hpieces)
        refine .inr ⟨_, rfl, hsome, ?_, ?_⟩
        · rw [hz, components_of_pieces rfl hz' hdot']
        · rw [hz, isAbsolute_eq_false_of_pieces rfl hz', habs]

theorem trimEnd_dropLast_isPrefix (pieces : List String) :
    trimEnd (trimEnd pieces).dropLast <+: pieces :=
  ((trimEnd_isPrefix _).trans (List.dropLast_prefix _)).trans (trimEnd_isPrefix pieces)

/-- A path begins with the pieces of its parent, unless these are no components at all. -/
theorem pieces_of_parent? {p q : Path} (h : p.parent? = some q) :
    q.pieces <+: p.pieces ∨ ∀ piece ∈ q.pieces, piece = "" := by
  unfold parent? at h
  split at h
  · rename_i x xs hp
    split at h
    · cases h
    · split at h
      · cases h
        exact .inr (by simp)
      · cases h
        rw [hp]
        exact .inl (List.cons_prefix_cons.mpr ⟨rfl, trimEnd_dropLast_isPrefix (x :: xs)⟩)
  · rename_i xs hp
    split at h
    · cases h
      exact .inr (by simp [empty])
    · cases h
      rw [hp]
      exact .inl (List.cons_prefix_cons.mpr ⟨rfl, trimEnd_dropLast_isPrefix xs⟩)
  · split at h
    · cases h
    · split at h
      · cases h
        exact .inr (by simp [empty])
      · cases h
        exact .inl (trimEnd_dropLast_isPrefix p.pieces)

/-! ## Enclosing paths -/

/-- Whether `q` is `p` itself or is reached from it by going from parent to parent. -/
def Encloses (q p : Path) : Prop := Relation.ReflTransGen (fun a b => a.parent? = some b) p q

theorem length_components_of_parent? {p q : Path} (h : p.parent? = some q) :
    q.components.length < p.components.length := by
  rcases parent?_cases p with ⟨hnone, _⟩ | ⟨r, hr, hne, hcomponents, _⟩
  · rw [hnone] at h
    cases h
  · cases hr.symm.trans h
    have hpos := List.length_pos_iff.mpr hne
    rw [hcomponents, List.length_dropLast]
    omega

theorem length_components_le (p : Path) : p.components.length ≤ p.pieces.length := by
  unfold components
  split
  · rename_i x xs hp
    rw [hp, List.length_cons, List.length_cons]
    exact Nat.succ_le_succ (List.length_filterMap_le _ _)
  · rename_i xs hp
    rw [hp, List.length_cons, List.length_cons]
    exact Nat.succ_le_succ (List.length_filterMap_le _ _)
  · exact List.length_filterMap_le _ _

theorem isAbsolute_of_parent? {p q : Path} (h : p.parent? = some q) :
    q.isAbsolute = p.isAbsolute := by
  rcases parent?_cases p with ⟨hnone, _⟩ | ⟨r, hr, _, _, habs⟩
  · rw [hnone] at h
    cases h
  · cases hr.symm.trans h
    exact habs

namespace Encloses

variable {p q r : Path}

theorem refl (p : Path) : p.Encloses p := Relation.ReflTransGen.refl

theorem of_parent? (h : p.parent? = some q) (hr : r.Encloses q) : r.Encloses p := .head h hr

/-- What encloses a path and is not the path encloses its parent, if there is one. -/
theorem cases_parent? (h : q.Encloses p) : q = p ∨ ∃ r, p.parent? = some r ∧ q.Encloses r := by
  rcases Relation.ReflTransGen.cases_head h with rfl | ⟨r, hr, hrest⟩
  · exact .inl rfl
  · exact .inr ⟨r, hr, hrest⟩

theorem isAbsolute (h : q.Encloses p) : q.isAbsolute = p.isAbsolute := by
  induction h with
  | refl => rfl
  | tail _ hparent ih => rw [isAbsolute_of_parent? hparent, ih]

theorem above (h : q.Encloses p) (hparent : q.parent? = some r) : r.Encloses p := .tail h hparent

theorem components_isPrefix (h : q.Encloses p) : q.components <+: p.components := by
  induction h with
  | refl => exact List.prefix_refl _
  | tail _ hparent ih =>
      rename_i b c _
      rcases parent?_cases b with ⟨hnone, _⟩ | ⟨r, hr, _, hcomponents, _⟩
      · rw [hnone] at hparent
        cases hparent
      · cases hr.symm.trans hparent
        rw [hcomponents]
        exact (List.dropLast_prefix _).trans ih

theorem eq_or_shorter (h : q.Encloses p) :
    q = p ∨ q.components.length < p.components.length := by
  induction h with
  | refl => exact .inl rfl
  | tail _ hparent ih =>
      have hlt := length_components_of_parent? hparent
      rcases ih with rfl | ih
      · exact .inr hlt
      · exact .inr (hlt.trans ih)

end Encloses
end RuleBuild.Path
