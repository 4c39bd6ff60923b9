import RuleBuild.Artifact

/-!
# Extensions of names

The extension of a name stands after its last dot, and something stands before that dot. Main
statement: `extensionOf?_eq_some_iff`.
-/
namespace RuleBuild

namespace Text

variable {α : Type} [DecidableEq α]

theorem split_of_not_mem {sep : α} {cs : List α} (h : sep ∉ cs) : split sep cs = [cs] := by
  induction cs with
  | nil => rfl
  | cons c cs ih =>
      obtain ⟨hc, hcs⟩ := not_or.mp (fun hor => h (List.mem_cons.mpr hor))
      rw [split_cons, ih hcs, cut, if_neg (Ne.symm hc)]

theorem cut_append {sep c : α} {ps : List (List α)} (h : ps ≠ []) (qs : List (List α)) :
    cut sep c (ps ++ qs) = cut sep c ps ++ qs := by
  obtain ⟨p, ps, rfl⟩ := List.exists_cons_of_ne_nil h
  by_cases hc : c = sep
  · simp [cut, hc]
  · simp [cut, hc]

/-- The pieces on both sides of a separator are cut on their own. -/
theorem split_append (sep : α) (cs ds : List α) :
    split sep (cs ++ sep :: ds) = split sep cs ++ split sep ds := by
  induction cs with
  | nil => simp [cut]
  | cons c cs ih =>
      rw [List.cons_append, split_cons, ih, cut_append (split_ne_nil sep cs), split_cons]

theorem not_mem_of_mem_split {sep : α} {cs p : List α} (h : p ∈ split sep cs) : sep ∉ p := by
  induction cs generalizing p with
  | nil =>
      rw [List.mem_singleton.mp h]
      simp
  | cons c cs ih =>
      obtain ⟨q, qs, hsplit⟩ := List.exists_cons_of_ne_nil (split_ne_nil sep cs)
      rw [split_cons, hsplit] at h
      by_cases hc : c = sep
      · rw [cut, if_pos hc] at h
        rcases List.mem_cons.mp h with rfl | h
        · simp
        · exact ih (hsplit ▸ h)
      · rw [cut, if_neg hc] at h
        rcases List.mem_cons.mp h with rfl | h
        · have hq := ih (hsplit ▸ List.mem_cons_self)
          exact List.not_mem_cons_of_ne_of_not_mem (Ne.symm hc) hq
        · exact ih (hsplit ▸ List.mem_cons_of_mem _ h)

omit [DecidableEq α] in
theorem join_append {sep : α} {ps : List (List α)} (h : ps ≠ []) (q : List α) :
    join sep (ps ++ [q]) = join sep ps ++ sep :: q := by
  induction ps with
  | nil => exact absurd rfl h
  | cons p ps ih =>
      cases ps with
      | nil => rfl
      | cons p' ps => simpa [join] using ih (by simp)

/-- A text of several pieces is what stands before its last separator, and the last piece. -/
theorem split_eq_append_iff {sep : α} {cs q : List α} {ps : List (List α)} (h : ps ≠ []) :
    split sep cs = ps ++ [q] ↔
      sep ∉ q ∧ ∃ ds, split sep ds = ps ∧ cs = ds ++ sep :: q := by
  constructor
  · intro hsplit
    have hq : sep ∉ q := not_mem_of_mem_split (by rw [hsplit]; simp)
    have hcs : cs = join sep ps ++ sep :: q := by
      rw [← join_append h, ← hsplit, join_split]
    refine ⟨hq, join sep ps, ?_, hcs⟩
    rw [hcs, split_append, split_of_not_mem hq] at hsplit
    exact List.append_cancel_right hsplit
  · rintro ⟨hq, ds, rfl, rfl⟩
    rw [split_append, split_of_not_mem hq]

theorem split_eq_singleton_nil_iff {sep : α} {cs : List α} :
    split sep cs = [[]] ↔ cs = [] := by
  constructor
  · intro h
    rw [← join_split sep cs, h]
    rfl
  · rintro rfl
    rfl

end Text

namespace Path

theorem extensionOf?_eq_some_iff_split (name extension : String) :
    extensionOf? name = some extension ↔
      ∃ ps, Text.split '.' name.toList = ps ++ [extension.toList] ∧ ps ≠ [] ∧ ps ≠ [[]] := by
  obtain ⟨rs, hrs⟩ : ∃ rs, Text.split '.' name.toList = List.reverse rs :=
    ⟨_, (List.reverse_reverse _).symm⟩
  rw [extensionOf?, hrs, List.reverse_reverse]
  rcases rs with - | ⟨e, - | ⟨p, ps⟩⟩
  · simp
  · simp [List.singleton_eq_append_iff]
  · have hstem : ps.reverse ++ [p] = [[]] ↔ (ps.isEmpty && p.isEmpty) = true := by
      rw [List.append_eq_singleton_iff]
      simp
    have hlast (ds : List (List Char)) : (e :: p :: ps).reverse = ds ++ [extension.toList] ↔
        ps.reverse ++ [p] = ds ∧ e = extension.toList := by
      rw [List.reverse_cons, List.reverse_cons, List.append_singleton_inj]
    simp only [hlast]
    constructor
    · intro h
      split at h
      · cases h
      · rename_i hne
        cases h
        exact ⟨_, ⟨rfl, by simp⟩, by simp, (not_congr hstem).mpr hne⟩
    · rintro ⟨ds, ⟨rfl, rfl⟩, _, hne⟩
      rw [if_neg ((not_congr hstem).mp hne), String.ofList_toList]

/-- A name has the extension that follows its last dot, unless nothing stands before that dot. -/
theorem extensionOf?_eq_some_iff (name extension : String) :
    extensionOf? name = some extension ↔
      '.' ∉ extension.toList ∧
        ∃ stem : String, stem ≠ "" ∧ name = stem ++ "." ++ extension := by
  rw [extensionOf?_eq_some_iff_split]
  constructor
  · rintro ⟨ps, hsplit, hne, hstem⟩
    obtain ⟨hdot, ds, rfl, hname⟩ := (Text.split_eq_append_iff hne).mp hsplit
    refine ⟨hdot, String.ofList ds, ?_, ?_⟩
    · intro hempty
      exact hstem (Text.split_eq_singleton_nil_iff.mpr (by simpa using hempty))
    · apply String.toList_inj.mp
      simp [hname]
  · rintro ⟨hdot, stem, hstem, rfl⟩
    have hne := Text.split_ne_nil '.' stem.toList
    refine ⟨Text.split '.' stem.toList, ?_, hne, ?_⟩
    · exact (Text.split_eq_append_iff hne).mpr ⟨hdot, stem.toList, rfl, by simp⟩
    · intro hempty
      exact hstem (by simpa using Text.split_eq_singleton_nil_iff.mp hempty)

end Path

def ArtifactKind.extension : ArtifactKind → String
  | .ruleText => "drl"
  | .spreadsheet => "xls"

def ArtifactKind.ofFileName (name : String) : Option ArtifactKind :=
  (Path.extensionOf? name).bind ofExtension?

theorem ArtifactKind.ofExtension?_eq_some_iff (extension : String) (kind : ArtifactKind) :
    ofExtension? extension = some kind ↔ extension = kind.extension := by
  constructor
  · intro h
    unfold ofExtension? at h
    split at h
    · cases h
      rfl
    · cases h
      rfl
    · cases h
  · rintro rfl
    cases kind with
    | ruleText => rfl
    | spreadsheet => rfl

/-- A file is of a kind if its name ends in a dot and the extension of the kind, and something
stands before the dot. -/
theorem ArtifactKind.ofFileName_eq_some_iff (name : String) (kind : ArtifactKind) :
    ofFileName name = some kind ↔
      ∃ stem : String, stem ≠ "" ∧ name = stem ++ "." ++ kind.extension := by
  have hdot : '.' ∉ kind.extension.toList := by
    cases kind with
    | ruleText => decide
    | spreadsheet => decide
  rw [ofFileName, Option.bind_eq_some_iff]
  constructor
  · rintro ⟨extension, hext, hkind⟩
    rw [ofExtension?_eq_some_iff] at hkind
    subst hkind
    exact ((Path.extensionOf?_eq_some_iff name _).mp hext).2
  · intro hstem
    exact ⟨kind.extension, (Path.extensionOf?_eq_some_iff name _).mpr ⟨hdot, hstem⟩,
      (ofExtension?_eq_some_iff _ _).mpr rfl⟩

end RuleBuild
