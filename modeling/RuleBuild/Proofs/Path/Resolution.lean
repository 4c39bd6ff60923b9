import RuleBuild.Proofs.Path.Identity

/-!
# Paths resolved by their text

A dot stays where it is and a step up takes the last name away, whatever is found on the way. A path
without a step up resolves to its names; one with a step up is never below another by its
components alone.
-/
namespace RuleBuild.Path

/-- The names that components lead to, from the names `ns`. -/
def follow (ns : List String) : List (Component String) → List String
  | [] => ns
  | .root :: cs => follow [] cs
  | .here :: cs => follow ns cs
  | .up :: cs => follow ns.dropLast cs
  | .name n :: cs => follow (ns ++ [n]) cs

/-- The names that a path from the root of the file system resolves to. -/
def resolved (p : Path) : List String := follow [] p.components

theorem follow_names (ns ms : List String) : follow ns (ms.map .name) = ns ++ ms := by
  induction ms generalizing ns with
  | nil => simp [follow]
  | cons m ms ih => simp [follow, ih]

theorem resolved_eq_names {p : Path} (habs : p.isAbsolute = true) (hup : .up ∉ p.components) :
    p.resolved = p.names := by
  rw [resolved, components_eq_names habs hup, follow, follow_names, List.nil_append]

/-! ## Steps up -/

theorem ofString_pieces_ne_nil (text : String) : (ofString text).pieces ≠ [] := by
  simpa [ofString] using Text.split_ne_nil '/' text.toList

/-- Seen from a root without a step up, a path has those that it is written with. -/
theorem up_mem_components_join_iff {root q : Path} (hroot : root.isAbsolute = true)
    (hup : .up ∉ root.components) (hne : q.pieces ≠ []) :
    .up ∈ (root.join q).components ↔ .up ∈ q.components := by
  cases hq : q.isAbsolute with
  | true => rw [join, hq, Bool.true_or, if_pos rfl]
  | false =>
      rw [components_join (not_isEmpty_of_isAbsolute hroot) hq hne, List.mem_append,
        or_iff_right hup, up_mem_filterMap_iff, up_mem_components_iff]

theorem isAbsolute_root_join {root q : Path} (hroot : root.isAbsolute = true)
    (hne : q.pieces ≠ []) : (root.join q).isAbsolute = true := by
  rw [isAbsolute_join_eq hne, hroot, Bool.true_or]

/-! ## Below by components -/

theorem strip?_eq_some_iff {pre cs ds : List (Component String)} :
    strip? pre cs = some ds ↔ cs = pre ++ ds := by
  induction pre generalizing cs with
  | nil => simp [strip?]
  | cons p pre ih =>
      cases cs with
      | nil => simp [strip?]
      | cons c cs =>
          by_cases hc : p = c
          · simp [strip?, hc, ih]
          · simp [strip?, hc, Ne.symm hc]

theorem here_not_mem_components {p : Path} (h : p.isAbsolute = true) : .here ∉ p.components := by
  rw [components_of_isAbsolute h, List.mem_cons, not_or]
  exact ⟨by simp, here_not_mem_filterMap p.pieces⟩

theorem below_eq_of_isAbsolute {root out : Path} (hout : out.isAbsolute = true) :
    out.components = root.components ++ below root out ∨ below root out = out.components := by
  have hhere := here_not_mem_components hout
  have hkept {cs : List (Component String)} (h : ∀ c ∈ cs, c ∈ out.components) :
      cs.filter (· ≠ .here) = cs := by
    rw [List.filter_eq_self]
    intro c hc
    have hne : c ≠ .here := fun heq => hhere (heq ▸ h c hc)
    simpa using hne
  rw [below]
  cases hstrip : strip? root.components out.components with
  | none => exact .inr (hkept fun c hc => hc)
  | some cs =>
      have hcomponents := strip?_eq_some_iff.mp hstrip
      refine .inl ?_
      rw [Option.getD_some, hkept, hcomponents]
      intro c hc
      rw [hcomponents]
      exact List.mem_append_right _ hc

/-- The components of `out` below the root are names on the way to `ns` exactly if `out` has no step
up, and resolves to a place below the root on that way. -/
theorem below_isPrefix_names_iff {root out : Path} {ns : List String}
    (hroot : root.isAbsolute = true) (hup : .up ∉ root.components) (hout : out.isAbsolute = true) :
    (below root out ≠ [] ∧ below root out <+: ns.map .name) ↔
      (out.resolved ≠ root.names ∧ out.resolved <+: root.names ++ ns) ∧
        .up ∉ out.components ∧ root.names <+: out.resolved := by
  constructor
  · rintro ⟨hne, hprefix⟩
    obtain ⟨ms, hms, hbelow⟩ := List.prefix_map_iff.mp hprefix
    rw [hbelow, ne_eq, List.map_eq_nil_iff] at hne
    have hcomponents : out.components = root.components ++ ms.map .name := by
      rcases @below_eq_of_isAbsolute root out hout with hcomponents | hwhole
      · rwa [hbelow] at hcomponents
      · -- A path elsewhere keeps its root, which is no name.
        rw [hbelow, components_of_isAbsolute hout] at hwhole
        cases ms <;> simp at hwhole
    have hnoUp : .up ∉ out.components := by
      rw [hcomponents]
      simpa using hup
    have hnames : out.names = root.names ++ ms := by
      rw [names, names, hcomponents, List.filterMap_append, List.filterMap_map]
      simp [Component.name?, Function.comp_def]
    rw [resolved_eq_names hout hnoUp, hnames]
    refine ⟨⟨?_, (List.prefix_append_right_inj _).mpr hms⟩, hnoUp, List.prefix_append _ _⟩
    simpa using hne
  · rintro ⟨⟨hne, hprefix⟩, hnoUp, ⟨ms, hms⟩⟩
    rw [resolved_eq_names hout hnoUp] at hne hprefix hms
    have hbelow : below root out = ms.map .name := by
      apply below_of_components_eq
      · rw [components_eq_names hout hnoUp, components_eq_names hroot hup, ← hms, List.map_append]
        rfl
      · simp
    rw [← hms] at hne hprefix
    rw [hbelow, ne_eq, List.map_eq_nil_iff]
    exact ⟨by simpa using hne, ((List.prefix_append_right_inj _).mp hprefix).map _⟩

end RuleBuild.Path
