import RuleBuild.Artifact

/-!
# Identities are never empty

The components of a path have texts, and so do the steps of the way from one path to another; the
identity of an artifact, which joins them, is therefore never empty.
-/
namespace RuleBuild

namespace Path

theorem text_ne_empty_of_component? {piece : String} {c : Component String}
    (h : component? piece = some c) : c.text ≠ "" := by
  unfold component? at h
  split at h
  · cases h
  · cases h
  · cases h
    decide
  · rename_i hempty _ _
    cases h
    exact hempty

theorem text_ne_empty_of_mem_filterMap {pieces : List String} {c : Component String}
    (h : c ∈ pieces.filterMap component?) : c.text ≠ "" := by
  obtain ⟨piece, _, hc⟩ := List.mem_filterMap.mp h
  exact text_ne_empty_of_component? hc

theorem text_ne_empty_of_mem_components {p : Path} {c : Component String} (h : c ∈ p.components) :
    c.text ≠ "" := by
  unfold components at h
  split at h
  · rcases List.mem_cons.mp h with rfl | h
    · decide
    · exact text_ne_empty_of_mem_filterMap h
  · rcases List.mem_cons.mp h with rfl | h
    · decide
    · exact text_ne_empty_of_mem_filterMap h
  · exact text_ne_empty_of_mem_filterMap h

/-- The way to a path consists of steps up and of components of the path. -/
theorem mem_way {moved : Bool} {path base cs : List (Component String)}
    (h : way moved path base = some cs) {c : Component String} (hc : c ∈ cs) :
    c = .up ∨ c ∈ path := by
  fun_induction way moved path base generalizing cs with
  | case1 => cases h; cases hc
  | case2 moved a path => cases h; exact .inr hc
  | case3 moved b base ih =>
      obtain ⟨ds, hds, rfl⟩ := Option.map_eq_some_iff.mp h
      rcases List.mem_cons.mp hc with rfl | hc
      · exact .inl rfl
      · exact ih hds hc
  | case4 moved a path b base heq ih =>
      rcases ih h hc with hup | hin
      · exact .inl hup
      · exact .inr (List.mem_cons_of_mem _ hin)
  | case5 moved a path base hne ih =>
      obtain ⟨ds, hds, rfl⟩ := Option.map_eq_some_iff.mp h
      rcases List.mem_cons.mp hc with rfl | hc
      · exact .inr List.mem_cons_self
      · rcases ih hds hc with hup | hin
        · exact .inl hup
        · exact .inr (List.mem_cons_of_mem _ hin)
  | case6 => cases h
  | case7 moved a path b base hne hhere hup =>
      cases h
      rcases List.mem_append.mp hc with hc | hc
      · rcases List.mem_cons.mp hc with rfl | hc
        · exact .inl rfl
        · obtain ⟨_, _, rfl⟩ := List.mem_map.mp hc
          exact .inl rfl
      · exact .inr hc

theorem mem_of_mem_dropDots {cs : List (Component String)} {c : Component String}
    (h : c ∈ dropDots cs) : c ∈ cs := by
  cases cs with
  | nil => exact h
  | cons d cs =>
      rcases List.mem_cons.mp h with rfl | h
      · exact List.mem_cons_self
      · exact List.mem_cons_of_mem _ (List.mem_filter.mp h).1

theorem text_ne_empty_of_mem_relativeTo? {base p : Path} {cs : List (Component String)}
    (h : relativeTo? base p = some cs) {c : Component String} (hc : c ∈ cs) : c.text ≠ "" := by
  unfold relativeTo? wayTo? at h
  split at h
  · obtain ⟨ds, hds, rfl⟩ := Option.map_eq_some_iff.mp h
    rcases mem_way hds (mem_of_mem_dropDots hc) with rfl | hin
    · decide
    · exact text_ne_empty_of_mem_components hin
  · split at h
    · cases h
      exact text_ne_empty_of_mem_components hc
    · cases h

end Path

theorem idOfComponents_ne_empty {cs : List (Component String)} (h : ∀ c ∈ cs, c.text ≠ "") :
    idOfComponents cs ≠ "" := by
  unfold idOfComponents
  split
  · decide
  · rename_i hne
    cases cs with
    | nil => exact absurd rfl hne
    | cons c cs =>
        cases cs with
        | nil => simpa [Text.join] using h c List.mem_cons_self
        | cons d ds => simp [Text.join]

/-- The identity of an artifact is never empty, wherever its path leads. -/
theorem artifactId_ne_empty (root p : Path) : artifactId root p ≠ "" := by
  apply idOfComponents_ne_empty
  intro c hc
  cases hway : Path.relativeTo? root p with
  | none =>
      rw [hway] at hc
      exact Path.text_ne_empty_of_mem_components hc
  | some cs =>
      rw [hway] at hc
      exact Path.text_ne_empty_of_mem_relativeTo? hway hc

theorem Artifact.id_ne_empty {root p : Path} {a : Artifact} (h : Artifact.ofPath? root p = some a) :
    a.id ≠ "" := by
  obtain ⟨kind, _, rfl⟩ := Option.map_eq_some_iff.mp h
  exact artifactId_ne_empty root p

end RuleBuild
