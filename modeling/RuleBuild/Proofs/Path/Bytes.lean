import RuleBuild.Proofs.Path.Identity
import RuleBuild.Proofs.Text.Utf8

/-!
# Paths as bytes

The path of encoded bytes is the path of the text that they encode, and both have one identity. Of
names that are no texts, lossy reading still makes names: no slash, no dot alone and no step up
comes about that way.
-/
namespace RuleBuild

/-! ## Ways between names in another form -/

theorem Component.map_injective {Name Name' : Type} {f : Name → Name'}
    (hf : Function.Injective f) : Function.Injective (Component.map f) := by
  intro a b h
  cases a <;> cases b <;> simp only [Component.map, reduceCtorEq, Component.name.injEq] at h ⊢
  exact hf h

theorem Component.map_eq_here_iff {Name Name' : Type} {f : Name → Name'} {c : Component Name} :
    c.map f = .here ↔ c = .here := by
  cases c <;> simp [Component.map]

theorem Component.map_eq_up_iff {Name Name' : Type} {f : Name → Name'} {c : Component Name} :
    c.map f = .up ↔ c = .up := by
  cases c <;> simp [Component.map]

/-- Components that are names are known by these. -/
theorem Component.map_name_filterMap_name? {Name : Type} {cs : List (Component Name)}
    (h : ∀ c ∈ cs, ∃ n, c = .name n) : (cs.filterMap Component.name?).map .name = cs := by
  induction cs with
  | nil => rfl
  | cons c cs ih =>
      obtain ⟨⟨n, rfl⟩, hcs⟩ := List.forall_mem_cons.mp h
      simp only [List.filterMap_cons, name?, List.map_cons, ih hcs]

namespace Path

section Way

variable {Name Name' : Type} [DecidableEq Name] [DecidableEq Name'] {f : Name → Name'}
  (hf : Function.Injective f)

include hf

theorem way_map (moved : Bool) (path base : List (Component Name)) :
    way moved (path.map (Component.map f)) (base.map (Component.map f)) =
      (way moved path base).map (List.map (Component.map f)) := by
  have hinj {a b : Component Name} : a.map f = b.map f ↔ a = b :=
    (Component.map_injective hf).eq_iff
  fun_induction way moved path base with
  | case1 => rfl
  | case2 => rfl
  | case3 moved b base ih =>
      rw [List.map_nil] at ih
      simp [way, ih, Function.comp_def, Component.map]
  | case4 moved a path b base heq ih =>
      simp only [List.map_cons, way, hinj, heq, if_true]
      exact ih
  | case5 moved a path base hne ih =>
      simp only [List.map_cons] at ih ⊢
      simp only [way, hinj, hne, Component.map_eq_here_iff]
      simp [ih, Function.comp_def]
  | case6 moved a path base hne =>
      simp only [List.map_cons, way, hinj, hne, Component.map_eq_here_iff]
      simp [Component.map]
  | case7 moved a path b base hne hhere hup =>
      simp only [List.map_cons, way, hinj, hne, Component.map_eq_here_iff, hhere,
        Component.map_eq_up_iff, hup]
      simp [Component.map, Function.comp_def]

omit hf in
theorem dropDots_map (cs : List (Component Name)) :
    dropDots (cs.map (Component.map f)) = (dropDots cs).map (Component.map f) := by
  cases cs with
  | nil => rfl
  | cons c cs =>
      rw [List.map_cons, dropDots, dropDots, List.map_cons, List.filter_map]
      simp [Function.comp_def, Component.map_eq_here_iff]

theorem wayTo?_map (absolute baseAbsolute : Bool) (path base : List (Component Name)) :
    wayTo? absolute baseAbsolute (path.map (Component.map f)) (base.map (Component.map f)) =
      (wayTo? absolute baseAbsolute path base).map (List.map (Component.map f)) := by
  unfold wayTo?
  split
  · rw [way_map hf, Option.map_map, Option.map_map]
    exact congrArg (Option.map · _) (funext dropDots_map)
  · split
    · rfl
    · rfl

end Way
end Path

/-! ## Bytes of texts -/

theorem slash_ne_ofNat {n : Nat} (hlow : 0x80 ≤ n) (hhigh : n < 0x100) :
    BytePath.slash ≠ UInt8.ofNat n := by
  intro heq
  have hslash : BytePath.slash.toNat = 0x2F := rfl
  rw [heq, Utf8.toNat_ofNat_of_lt hhigh] at hslash
  omega

/-- Only a slash has the byte of a slash. -/
theorem slash_not_mem_utf8EncodeChar {c : Char} (h : c ≠ '/') :
    BytePath.slash ∉ String.utf8EncodeChar c := by
  have hval : c.val.toNat = c.toNat := rfl
  have hvalid : c.toNat < 0xD800 ∨ (0xDFFF < c.toNat ∧ c.toNat < 0x110000) := c.valid
  fun_cases String.utf8EncodeChar c with
  | case1 v hv =>
      simp only [v, hval] at hv ⊢
      rw [List.mem_singleton]
      intro heq
      have hslash : BytePath.slash.toNat = '/'.toNat := rfl
      rw [heq, Utf8.toNat_ofNat_of_lt (by omega)] at hslash
      exact h (Char.toNat_inj.mp hslash)
  | case2 v h1 h2 =>
      simp only [v, hval] at h1 h2 ⊢
      have hlead := slash_ne_ofNat (n := c.toNat / 64 % 32 + 0xC0) (by omega) (by omega)
      have hlast := slash_ne_ofNat (n := c.toNat % 64 + 0x80) (by omega) (by omega)
      simp only [List.mem_cons, hlead, hlast, List.not_mem_nil, or_self,
        not_false_eq_true]
  | case3 v h1 h2 h3 =>
      simp only [v, hval] at h1 h2 h3 ⊢
      have hlead := slash_ne_ofNat (n := c.toNat / 4096 % 16 + 0xE0) (by omega) (by omega)
      have hmiddle := slash_ne_ofNat (n := c.toNat / 64 % 64 + 0x80) (by omega) (by omega)
      have hlast := slash_ne_ofNat (n := c.toNat % 64 + 0x80) (by omega) (by omega)
      simp only [List.mem_cons, hlead, hmiddle, hlast, List.not_mem_nil, or_self,
        not_false_eq_true]
  | case4 v h1 h2 h3 =>
      simp only [v, hval] at h1 h2 h3 ⊢
      have hlead := slash_ne_ofNat (n := c.toNat / 262144 % 8 + 0xF0) (by omega) (by omega)
      have hsecond := slash_ne_ofNat (n := c.toNat / 4096 % 64 + 0x80) (by omega) (by omega)
      have hmiddle := slash_ne_ofNat (n := c.toNat / 64 % 64 + 0x80) (by omega) (by omega)
      have hlast := slash_ne_ofNat (n := c.toNat % 64 + 0x80) (by omega) (by omega)
      simp only [List.mem_cons, hlead, hsecond, hmiddle, hlast, List.not_mem_nil, or_self,
        not_false_eq_true]

/-- What holds no separator goes on with the first piece of the rest. -/
theorem Text.split_append_of_not_mem {α : Type} [DecidableEq α] {sep : α} {cs ds p : List α}
    {ps : List (List α)} (h : sep ∉ cs) (hds : split sep ds = p :: ps) :
    split sep (cs ++ ds) = (cs ++ p) :: ps := by
  induction cs with
  | nil => exact hds
  | cons c cs ih =>
      obtain ⟨hc, hcs⟩ := not_or.mp (List.mem_cons.not.mp h)
      rw [List.cons_append, split_cons, ih hcs, cut, if_neg (Ne.symm hc), List.cons_append]

theorem split_flatMap_utf8EncodeChar (cs : List Char) :
    Text.split BytePath.slash (cs.flatMap String.utf8EncodeChar) =
      (Text.split '/' cs).map (List.flatMap String.utf8EncodeChar) := by
  induction cs with
  | nil => rfl
  | cons c cs ih =>
      rw [List.flatMap_cons, Text.split_cons]
      by_cases hc : c = '/'
      · subst hc
        have hslash : String.utf8EncodeChar '/' = [BytePath.slash] := by decide
        rw [hslash, List.singleton_append, Text.split_cons, ih]
        simp [Text.cut]
      · obtain ⟨p, ps, hsplit⟩ := List.exists_cons_of_ne_nil (Text.split_ne_nil '/' cs)
        rw [hsplit, List.map_cons] at ih
        rw [Text.split_append_of_not_mem (slash_not_mem_utf8EncodeChar hc) ih, hsplit]
        simp [Text.cut, hc]

namespace BytePath

/-- The path of the bytes of a text is the path of the text. -/
theorem ofBytes_bytesOf (text : String) : ofBytes (bytesOf text) = ofPath (Path.ofString text) := by
  rw [ofBytes, bytesOf_eq, split_flatMap_utf8EncodeChar, ofPath, Path.ofString, List.map_map]
  congr 1
  apply List.map_congr_left
  intro cs _
  rw [Function.comp_apply, bytesOf_eq, String.toList_ofList]

theorem bytesOf_eq_nil_iff {text : String} : bytesOf text = [] ↔ text = "" :=
  Utf8.bytesOf_injective.eq_iff' (by simp [bytesOf_eq])

theorem bytesOf_eq_dot_iff {text : String} : bytesOf text = [dot] ↔ text = "." :=
  Utf8.bytesOf_injective.eq_iff' (by simp [bytesOf_eq, dot, String.utf8EncodeChar])

theorem bytesOf_eq_dots_iff {text : String} : bytesOf text = [dot, dot] ↔ text = ".." :=
  Utf8.bytesOf_injective.eq_iff' (by simp [bytesOf_eq, dot, String.utf8EncodeChar])

theorem isAbsolute_iff (p : BytePath) :
    p.isAbsolute = true ↔ ∃ x xs, p.pieces = [] :: x :: xs := by
  unfold isAbsolute
  split
  · rename_i x xs hp
    exact ⟨fun _ => ⟨x, xs, hp⟩, fun _ => rfl⟩
  · rename_i hno
    constructor
    · intro h
      cases h
    · rintro ⟨x, xs, hp⟩
      exact absurd hp (hno x xs)

theorem isAbsolute_ofPath (p : Path) : (ofPath p).isAbsolute = p.isAbsolute := by
  rw [Bool.eq_iff_iff, isAbsolute_iff, Path.isAbsolute_iff, ofPath]
  constructor
  · rintro ⟨x, xs, h⟩
    obtain ⟨y, ys, hp, hy, hys⟩ := List.map_eq_cons_iff.mp h
    obtain ⟨z, zs, rfl, _, _⟩ := List.map_eq_cons_iff.mp hys
    exact ⟨z, zs, by rw [hp, bytesOf_eq_nil_iff.mp hy]⟩
  · rintro ⟨x, xs, h⟩
    exact ⟨bytesOf x, xs.map bytesOf, by simp [h, bytesOf_eq_nil_iff]⟩

theorem component?_bytesOf (piece : String) :
    component? (bytesOf piece) = (Path.component? piece).map (Component.map bytesOf) := by
  simp only [component?, Path.component?_eq, bytesOf_eq_nil_iff, bytesOf_eq_dot_iff,
    bytesOf_eq_dots_iff]
  split
  · rfl
  · split
    · rfl
    · rfl

theorem filterMap_component?_bytesOf (pieces : List String) :
    (pieces.map bytesOf).filterMap component? =
      (pieces.filterMap Path.component?).map (Component.map bytesOf) := by
  rw [List.filterMap_map, List.map_filterMap]
  exact List.filterMap_congr fun piece _ => component?_bytesOf piece

theorem components_ofPath (p : Path) :
    (ofPath p).components = p.components.map (Component.map bytesOf) := by
  have hempty : bytesOf "" = [] := bytesOf_eq_nil_iff.mpr rfl
  have hdot : bytesOf "." = [dot] := bytesOf_eq_dot_iff.mpr rfl
  unfold Path.components
  split
  · rename_i x xs hp
    rw [List.map_cons, ← filterMap_component?_bytesOf]
    simp [components, ofPath, hp, hempty, Component.map]
  · rename_i xs hp
    rw [List.map_cons, ← filterMap_component?_bytesOf]
    simp [components, ofPath, hp, hdot, Component.map]
  · rename_i habsolute hhere
    rw [← filterMap_component?_bytesOf, components, ofPath]
    split
    · rename_i x xs hp
      obtain ⟨y, ys, hpieces, hy, hys⟩ := List.map_eq_cons_iff.mp hp
      obtain ⟨z, zs, rfl, _, _⟩ := List.map_eq_cons_iff.mp hys
      exact absurd (bytesOf_eq_nil_iff.mp hy ▸ hpieces) (habsolute z zs)
    · rename_i x xs _ hp
      obtain ⟨y, ys, hpieces, hy, _⟩ := List.map_eq_cons_iff.mp hp
      have hne : x ≠ [dot] := by
        rintro rfl
        exact hhere ys (bytesOf_eq_dot_iff.mp hy ▸ hpieces)
      rw [if_neg hne, ← hp]
    · rename_i hp
      rw [List.map_eq_nil_iff.mp hp]
      rfl

theorem up_mem_components_ofPath_iff (p : Path) :
    .up ∈ (ofPath p).components ↔ .up ∈ p.components := by
  rw [components_ofPath, List.mem_map]
  constructor
  · rintro ⟨c, hc, heq⟩
    exact Component.map_eq_up_iff.mp heq ▸ hc
  · exact fun hup => ⟨.up, hup, rfl⟩

/-- The identity of a path of texts is the same, taken from their bytes. -/
theorem artifactId_ofPath (root p : Path) :
    (ofPath root).artifactId (ofPath p) = RuleBuild.artifactId root p := by
  have hdecode (c : Component String) : (c.map bytesOf).map Utf8.decodeLossy = c := by
    cases c <;> simp [Component.map, Utf8.decodeLossy_bytesOf]
  have hrelative : relativeTo? (ofPath root) (ofPath p) =
      (Path.relativeTo? root p).map (List.map (Component.map bytesOf)) := by
    rw [relativeTo?, Path.relativeTo?, isAbsolute_ofPath, isAbsolute_ofPath, components_ofPath,
      components_ofPath, Path.wayTo?_map Utf8.bytesOf_injective]
  rw [artifactId, hrelative, components_ofPath, RuleBuild.artifactId, Option.getD_map]
  simp [Function.comp_def, hdecode]

/-! ## Names -/

/-- The names on a path. -/
def names (p : BytePath) : List Bytes := p.components.filterMap Component.name?

theorem eq_of_component? {piece : Bytes} {c : Component Bytes} (h : component? piece = some c) :
    c = .up ∨ c = .name piece ∧ piece ≠ [] ∧ piece ≠ [dot] ∧ piece ≠ [dot, dot] := by
  unfold component? at h
  split at h
  · cases h
  · rename_i hidle
    obtain ⟨hempty, hdot⟩ := not_or.mp hidle
    split at h
    · exact .inl (Option.some.inj h).symm
    · rename_i hdots
      exact .inr ⟨(Option.some.inj h).symm, hempty, hdot, hdots⟩

theorem components_of_isAbsolute {p : BytePath} (h : p.isAbsolute = true) :
    p.components = .root :: p.pieces.filterMap component? := by
  obtain ⟨x, xs, hp⟩ := (isAbsolute_iff p).mp h
  simp only [components, hp]
  rfl

theorem components_eq_names {p : BytePath} (h : p.isAbsolute = true) (hup : .up ∉ p.components) :
    p.components = .root :: p.names.map .name := by
  have hnames : p.names = (p.pieces.filterMap component?).filterMap Component.name? := by
    rw [names, components_of_isAbsolute h, List.filterMap_cons_none rfl]
  rw [components_of_isAbsolute h] at hup ⊢
  rw [hnames, Component.map_name_filterMap_name?]
  intro c hc
  obtain ⟨piece, _, hpiece⟩ := List.mem_filterMap.mp hc
  rcases eq_of_component? hpiece with rfl | ⟨rfl, _⟩
  · exact absurd (List.mem_cons_of_mem _ hc) hup
  · exact ⟨piece, rfl⟩

/-- The names on a path given by its bytes are read as names, whatever they encode. -/
theorem isName_decodeLossy {bytes n : Bytes} (habs : (ofBytes bytes).isAbsolute = true)
    (h : n ∈ (ofBytes bytes).names) : FileSystem.isName (Utf8.decodeLossy n) = true := by
  rw [names, components_of_isAbsolute habs, List.filterMap_cons_none rfl,
    List.filterMap_filterMap] at h
  obtain ⟨piece, hpiece, hname⟩ := List.mem_filterMap.mp h
  obtain ⟨c, hc, hn⟩ := Option.bind_eq_some_iff.mp hname
  rcases eq_of_component? hc with rfl | ⟨rfl, hempty, hdot, hdots⟩
  · cases hn
  · obtain rfl : piece = n := Option.some.inj hn
    have hslash : slash ∉ piece := Text.not_mem_of_mem_split hpiece
    have hread {text : String} (hplain : ∀ c ∈ text.toList, Utf8.IsPlain c)
        (htext : Utf8.decodeLossy piece = text) : piece = text.toList.map Utf8.plainByte := by
      subst htext
      exact Utf8.eq_of_decodeLossy hplain
    have hplain : Utf8.IsPlain '.' := by decide
    have hreadEmpty : Utf8.decodeLossy piece ≠ "" := fun heq => hempty (hread (by simp) heq)
    have hreadDot : Utf8.decodeLossy piece ≠ "." := fun heq =>
      hdot (hread (by simpa using hplain) heq)
    have hreadDots : Utf8.decodeLossy piece ≠ ".." := fun heq =>
      hdots (hread (by simpa using hplain) heq)
    have hreadSlash : '/' ∉ (Utf8.decodeLossy piece).toList := fun hmem =>
      hslash (Utf8.mem_of_mem_decodeLossy (by decide) hmem)
    simp [FileSystem.isName, hreadEmpty, hreadDot, hreadDots, hreadSlash]

end BytePath
end RuleBuild
