import Mathlib.Data.List.Basic
import RuleBuild.Artifact

/-!
# Paths below a path

A path that has no step up is known by its names, however it is spelt. Joined to an absolute path it
leads below that path, and the way back shows its names again.
-/
namespace RuleBuild

/-- The name that a component is, none for the root, a dot or a step up. -/
def Component.name? {Name : Type} : Component Name → Option Name
  | .name n => some n
  | _ => none

theorem Component.name_injective {Name : Type} : Function.Injective (@Component.name Name) :=
  fun _ _ => Component.name.inj

namespace Path

def names (p : Path) : List String := p.components.filterMap Component.name?

def pieceName? (piece : String) : Option String := (component? piece).bind Component.name?

/-! ## Pieces and components -/

theorem component?_eq (piece : String) :
    component? piece =
      if piece = "" ∨ piece = "." then none
      else if piece = ".." then some .up else some (.name piece) := by
  unfold component?
  split
  · simp
  · simp
  · simp
  · simp_all

theorem pieceName?_eq (piece : String) :
    pieceName? piece = if piece = "" ∨ piece = "." ∨ piece = ".." then none else some piece := by
  rw [pieceName?, component?_eq]
  by_cases hidle : piece = "" ∨ piece = "."
  · rcases hidle with rfl | rfl
    · rfl
    · rfl
  · by_cases hup : piece = ".."
    · subst hup
      rfl
    · simp_all [Component.name?]

theorem eq_of_pieceName? {piece name : String} (h : pieceName? piece = some name) :
    piece = name := by
  rw [pieceName?_eq] at h
  split at h
  · cases h
  · exact Option.some.inj h

theorem eq_of_component? {piece : String} {c : Component String} (h : component? piece = some c) :
    c = .up ∨ c = .name piece := by
  rw [component?_eq] at h
  split at h
  · cases h
  · split at h
    · exact .inl (Option.some.inj h).symm
    · exact .inr (Option.some.inj h).symm

theorem here_not_mem_filterMap (pieces : List String) : .here ∉ pieces.filterMap component? := by
  intro hmem
  obtain ⟨piece, _, hc⟩ := List.mem_filterMap.mp hmem
  rcases eq_of_component? hc with hc | hc
  · cases hc
  · cases hc

theorem mem_pieces_of_component?_eq_up {piece : String} (h : component? piece = some .up) :
    piece = ".." := by
  rw [component?_eq] at h
  split at h
  · cases h
  · split at h
    · assumption
    · cases h

theorem names_eq (p : Path) : p.names = p.pieces.filterMap pieceName? := by
  have hpieces (xs : List String) :
      (xs.filterMap component?).filterMap Component.name? = xs.filterMap pieceName? := by
    rw [List.filterMap_filterMap]
    rfl
  unfold names components
  split
  · rename_i x xs hp
    rw [hp, List.filterMap_cons, hpieces]
    rfl
  · rename_i xs hp
    rw [hp, List.filterMap_cons, hpieces]
    rfl
  · exact hpieces p.pieces

theorem up_mem_filterMap_iff (pieces : List String) :
    .up ∈ pieces.filterMap component? ↔ ".." ∈ pieces := by
  rw [List.mem_filterMap]
  constructor
  · rintro ⟨piece, hmem, hc⟩
    rwa [mem_pieces_of_component?_eq_up hc] at hmem
  · intro hmem
    exact ⟨"..", hmem, rfl⟩

theorem up_mem_components_iff (p : Path) : .up ∈ p.components ↔ ".." ∈ p.pieces := by
  unfold components
  split
  · rename_i x xs hp
    rw [hp, List.mem_cons, List.mem_cons, up_mem_filterMap_iff]
    simp
  · rename_i xs hp
    rw [hp, List.mem_cons, List.mem_cons, up_mem_filterMap_iff]
    simp
  · exact up_mem_filterMap_iff p.pieces

/-- Pieces without a step up amount to their names. -/
theorem filterMap_component?_of_not_up {pieces : List String} (h : ".." ∉ pieces) :
    pieces.filterMap component? = (pieces.filterMap pieceName?).map .name := by
  rw [List.map_filterMap]
  apply List.filterMap_congr
  intro piece hmem
  have hup : piece ≠ ".." := fun heq => h (heq ▸ hmem)
  rw [pieceName?_eq, component?_eq]
  by_cases hidle : piece = "" ∨ piece = "."
  · rcases hidle with rfl | rfl
    · rfl
    · rfl
  · simp_all

theorem filterMap_component?_dropWhile {idle : String → Bool}
    (h : ∀ piece, idle piece = true → component? piece = none) (pieces : List String) :
    (pieces.dropWhile idle).filterMap component? = pieces.filterMap component? := by
  induction pieces with
  | nil => rfl
  | cons x xs ih =>
      by_cases hx : idle x = true
      · rw [List.dropWhile_cons_of_pos hx, List.filterMap_cons_none (h x hx), ih]
      · rw [List.dropWhile_cons_of_neg hx]

/-! ## Absolute paths -/

theorem isAbsolute_iff (p : Path) : p.isAbsolute = true ↔ ∃ x xs, p.pieces = "" :: x :: xs := by
  unfold isAbsolute
  split
  · rename_i x xs hp
    exact ⟨fun _ => ⟨x, xs, hp⟩, fun _ => rfl⟩
  · rename_i hno
    constructor
    · intro h
      cases h
    · rintro ⟨x, xs, hp⟩
      exact absurd hp (hno x xs)

theorem components_of_isAbsolute {p : Path} (h : p.isAbsolute = true) :
    p.components = .root :: p.pieces.filterMap component? := by
  obtain ⟨x, xs, hp⟩ := (isAbsolute_iff p).mp h
  simp only [components, hp]
  rfl

theorem components_eq_names {p : Path} (h : p.isAbsolute = true) (hup : .up ∉ p.components) :
    p.components = .root :: p.names.map .name := by
  rw [up_mem_components_iff] at hup
  rw [components_of_isAbsolute h, filterMap_component?_of_not_up hup, names_eq]

theorem not_isEmpty_of_isAbsolute {p : Path} (h : p.isAbsolute = true) : p.isEmpty = false := by
  obtain ⟨x, xs, hp⟩ := (isAbsolute_iff p).mp h
  simp [isEmpty, hp]

/-- What the first piece of a path counts for. -/
def leading (piece : String) : List (Component String) :=
  if piece = "" then [.root]
  else if piece = "." then [.here] else (component? piece).toList

theorem components_eq_leading {p : Path} {x : String} {xs : List String} (h : p.pieces = x :: xs)
    (hempty : p.isEmpty = false) : p.components = leading x ++ xs.filterMap component? := by
  unfold components
  split
  · rename_i y ys hp
    cases h.symm.trans hp
    rfl
  · rename_i ys hp
    cases h.symm.trans hp
    rfl
  · rename_i hslash hdot
    have hx : x ≠ "" := by
      rintro rfl
      cases xs with
      | nil => simp [isEmpty, h] at hempty
      | cons y ys => exact hslash y ys h
    have hx' : x ≠ "." := fun heq => hdot xs (heq ▸ h)
    rw [leading, if_neg hx, if_neg hx', h, List.filterMap_cons]
    cases component? x with
    | none => rfl
    | some c => rfl

/-- A path that begins neither with a slash nor with a dot is known by its pieces alone. -/
theorem components_of_pieces {p : Path} {x : String} {xs : List String} (h : p.pieces = x :: xs)
    (hx : x ≠ "") (hdot : x ≠ ".") : p.components = (x :: xs).filterMap component? := by
  have hempty : p.isEmpty = false := by simp [isEmpty, h, hx]
  rw [components_eq_leading h hempty, leading, if_neg hx, if_neg hdot, List.filterMap_cons]
  cases component? x with
  | none => rfl
  | some c => rfl

/-! ## Joined paths -/

/-- Joined to a path that is not written with nothing, a relative one adds its pieces; a slash at
the end is not repeated. -/
theorem pieces_join {p q : Path} (hp : p.isEmpty = false) (hq : q.isAbsolute = false) :
    ∃ x before, (p.join q).pieces = x :: (before ++ q.pieces) ∧
      (p.pieces = x :: before ∨ p.pieces = x :: (before ++ [""])) := by
  simp only [join, hq, hp, Bool.or_self, Bool.false_eq_true, ↓reduceIte]
  by_cases hlast : p.pieces.getLast? = some ""
  · obtain ⟨front, hfront⟩ := List.getLast?_eq_some_iff.mp hlast
    rw [if_pos hlast]
    cases front with
    | nil => simp [isEmpty, hfront] at hp
    | cons x before =>
        refine ⟨x, before, ?_, .inr hfront⟩
        rw [hfront, List.dropLast_concat, List.cons_append]
  · rw [if_neg hlast]
    cases hpieces : p.pieces with
    | nil => simp [isEmpty, hpieces] at hp
    | cons x before => exact ⟨x, before, rfl, .inl rfl⟩

/-- A joined path has no pieces but those of its parts. -/
theorem mem_pieces_join {p q : Path} {piece : String} (h : piece ∈ (p.join q).pieces) :
    piece ∈ p.pieces ∨ piece ∈ q.pieces := by
  rw [join] at h
  split at h
  · exact .inr h
  · split at h
    · exact (List.mem_append.mp h).imp_left (List.dropLast_subset _ ·)
    · exact List.mem_append.mp h

theorem isAbsolute_eq_false_of_pieces {p : Path} {x : String} {xs : List String}
    (h : p.pieces = x :: xs) (hx : x ≠ "") : p.isAbsolute = false := by
  rw [Bool.eq_false_iff, ne_eq, isAbsolute_iff]
  rintro ⟨y, ys, hp⟩
  rw [h] at hp
  exact hx (List.cons.inj hp).1

theorem isAbsolute_of_pieces {p : Path} {xs : List String} (h : p.pieces = "" :: xs)
    (hempty : p.isEmpty = false) : p.isAbsolute = true := by
  cases xs with
  | nil => simp [isEmpty, h] at hempty
  | cons y ys => exact (isAbsolute_iff p).mpr ⟨y, ys, h⟩

theorem isEmpty_join {p q : Path} (hp : p.isEmpty = false) (hq : q.isAbsolute = false)
    (hne : q.pieces ≠ []) : (p.join q).isEmpty = false := by
  obtain ⟨x, before, hjoin, _⟩ := pieces_join hp hq
  simp [isEmpty, hjoin, hne]

theorem isAbsolute_join {p q : Path} (hp : p.isEmpty = false) (hq : q.isAbsolute = false)
    (hne : q.pieces ≠ []) : (p.join q).isAbsolute = p.isAbsolute := by
  obtain ⟨x, before, hjoin, hbefore⟩ := pieces_join hp hq
  have hpieces : ∃ xs, p.pieces = x :: xs := by
    rcases hbefore with hbefore | hbefore
    · exact ⟨_, hbefore⟩
    · exact ⟨_, hbefore⟩
  obtain ⟨xs, hpieces⟩ := hpieces
  by_cases hx : x = ""
  · subst hx
    rw [isAbsolute_of_pieces hpieces hp, isAbsolute_of_pieces hjoin (isEmpty_join hp hq hne)]
  · rw [isAbsolute_eq_false_of_pieces hpieces hx, isAbsolute_eq_false_of_pieces hjoin hx]

/-- A joined path is absolute if one of its parts is. -/
theorem isAbsolute_join_eq {p q : Path} (hne : q.pieces ≠ []) :
    (p.join q).isAbsolute = (p.isAbsolute || q.isAbsolute) := by
  cases hq : q.isAbsolute with
  | true => rw [join, hq, Bool.true_or, if_pos rfl, hq, Bool.or_true]
  | false =>
      cases hp : p.isEmpty with
      | true =>
          have habs : p.isAbsolute = false := by
            rw [Bool.eq_false_iff]
            intro habs
            simp [not_isEmpty_of_isAbsolute habs] at hp
          rw [join, hp, Bool.or_true, if_pos rfl, hq, habs, Bool.or_self]
      | false => rw [isAbsolute_join hp hq hne, Bool.or_false]

theorem components_join {p q : Path} (hp : p.isEmpty = false) (hq : q.isAbsolute = false)
    (hne : q.pieces ≠ []) :
    (p.join q).components = p.components ++ q.pieces.filterMap component? := by
  obtain ⟨x, before, hjoin, hbefore⟩ := pieces_join hp hq
  have hslash : component? "" = none := rfl
  have hcomponents : p.components = leading x ++ before.filterMap component? := by
    rcases hbefore with hbefore | hbefore
    · exact components_eq_leading hbefore hp
    · rw [components_eq_leading hbefore hp, List.filterMap_append, List.filterMap_cons_none hslash,
        List.filterMap_nil, List.append_nil]
  rw [components_eq_leading hjoin (isEmpty_join hp hq hne), hcomponents, List.filterMap_append,
    List.append_assoc]

theorem isAbsolute_singleton (piece : String) : isAbsolute ⟨[piece]⟩ = false := by
  cases habs : isAbsolute ⟨[piece]⟩ with
  | false => rfl
  | true =>
      obtain ⟨x, xs, hpieces⟩ := (isAbsolute_iff _).mp habs
      simp at hpieces

theorem components_ne_nil {p : Path} (h : p.isEmpty = false) : p.components ≠ [] := by
  have hleading (x : String) : leading x ≠ [] := by
    unfold leading
    split
    · simp
    · rename_i hempty
      split
      · simp
      · rename_i hdot
        simp only [component?_eq, hempty, hdot, or_self, ↓reduceIte]
        split
        · simp
        · simp
  cases hpieces : p.pieces with
  | nil => simp [isEmpty, hpieces] at h
  | cons x xs =>
      rw [components_eq_leading hpieces h]
      exact List.append_ne_nil_of_left_ne_nil (hleading x) _

/-- A path followed by pieces, one after the other. -/
def extend (p : Path) (pieces : List String) : Path :=
  pieces.foldl (fun p piece => p.join ⟨[piece]⟩) p

theorem isAbsolute_extend {p : Path} (hp : p.isEmpty = false) (pieces : List String) :
    (p.extend pieces).isAbsolute = p.isAbsolute := by
  unfold extend
  induction pieces generalizing p with
  | nil => rfl
  | cons x xs ih =>
      have hx := isAbsolute_singleton x
      rw [List.foldl_cons, ih (isEmpty_join hp hx (by simp)), isAbsolute_join hp hx (by simp)]

theorem components_extend {p : Path} (hp : p.isEmpty = false) (pieces : List String) :
    (p.extend pieces).components = p.components ++ pieces.filterMap component? := by
  unfold extend
  induction pieces generalizing p with
  | nil => simp
  | cons x xs ih =>
      have hx := isAbsolute_singleton x
      rw [List.foldl_cons, ih (isEmpty_join hp hx (by simp)), components_join hp hx (by simp),
        List.append_assoc, ← List.filterMap_append]
      rfl

/-! ## The way back -/

theorem strip?_append (cs ds : List (Component String)) : strip? cs (cs ++ ds) = some ds := by
  induction cs with
  | nil => rfl
  | cons c cs ih => simp [strip?, ih]

theorem below_of_components_eq {root p : Path} {cs : List (Component String)}
    (h : p.components = root.components ++ cs) (hhere : .here ∉ cs) : below root p = cs := by
  rw [below, h, strip?_append, Option.getD_some, List.filter_eq_self]
  intro c hc
  have hne : c ≠ .here := fun heq => hhere (heq ▸ hc)
  simpa using hne

theorem below_of_isEmpty (root : Path) {p : Path} (h : p.isEmpty = true) : below root p = [] := by
  have hcomponents : p.components = [] := by
    simp only [isEmpty, Bool.or_eq_true, decide_eq_true_eq] at h
    rcases h with h | h
    · rw [components, h]
      rfl
    · rw [components, h]
      rfl
  rw [below, hcomponents]
  cases root.components with
  | nil => rfl
  | cons c cs => rfl

/-- What is joined to a root without a step up lies below it, by its names. -/
theorem below_join {root rel : Path} (hroot : root.isEmpty = false)
    (hrel : rel.isAbsolute = false) (hup : .up ∉ rel.components) :
    below root (root.join rel) = rel.names.map .name := by
  by_cases hne : rel.pieces = []
  · obtain ⟨x, before, hjoin, hbefore⟩ := pieces_join hroot hrel
    rw [hne, List.append_nil] at hjoin
    rw [names_eq, hne]
    -- Nothing joined to a single slash leaves no path at all.
    cases hempty : (root.join rel).isEmpty with
    | true => exact below_of_isEmpty root hempty
    | false =>
        have hslash : component? "" = none := rfl
        apply below_of_components_eq
        · rw [components_eq_leading hjoin hempty]
          rcases hbefore with hbefore | hbefore
          · simp [components_eq_leading hbefore hroot]
          · simp [components_eq_leading hbefore hroot, hslash]
        · simp
  · apply below_of_components_eq
    · rw [components_join hroot hrel hne,
        filterMap_component?_of_not_up ((up_mem_components_iff rel).not.mp hup), names_eq]
    · simp

section Way

variable {Name : Type} [DecidableEq Name]

theorem way_nil (moved : Bool) (cs : List (Component Name)) : way moved cs [] = some cs := by
  cases cs with
  | nil => rfl
  | cons c cs => rfl

theorem way_append (base cs : List (Component Name)) : way false (base ++ cs) base = some cs := by
  induction base with
  | nil => exact way_nil false cs
  | cons c base ih => simp [way, ih]

theorem dropDots_eq_self {cs : List (Component Name)} (hhere : .here ∉ cs) : dropDots cs = cs := by
  cases cs with
  | nil => rfl
  | cons c cs =>
      have hfilter : cs.filter (· ≠ .here) = cs := by
        rw [List.filter_eq_self]
        intro d hd
        have hne : d ≠ .here := fun heq => hhere (heq ▸ List.mem_cons_of_mem _ hd)
        simpa using hne
      rw [dropDots, hfilter]

end Way

theorem relativeTo?_of_components_eq {root p : Path} {cs : List (Component String)}
    (habs : p.isAbsolute = root.isAbsolute) (h : p.components = root.components ++ cs)
    (hhere : .here ∉ cs) : relativeTo? root p = some cs := by
  rw [relativeTo?, wayTo?, if_pos habs, h, way_append, Option.map_some, dropDots_eq_self hhere]

end Path

theorem join_texts_eq_intercalate (ns : List String) :
    String.ofList (Text.join '/' (ns.map String.toList)) = "/".intercalate ns := by
  induction ns with
  | nil => rfl
  | cons n ns ih =>
      cases ns with
      | nil => simp [Text.join]
      | cons m ns =>
          rw [String.intercalate_cons_cons, ← ih]
          apply String.toList_inj.mp
          simp [Text.join]

/-- Names on the way to a path make its identity, with slashes between them. -/
theorem artifactId_of_relativeTo? {root p : Path} {ns : List String}
    (h : Path.relativeTo? root p = some (ns.map .name)) (hne : ns ≠ []) :
    artifactId root p = "/".intercalate ns := by
  rw [artifactId, h, Option.getD_some, ← join_texts_eq_intercalate]
  obtain ⟨n, ns, rfl⟩ := List.exists_cons_of_ne_nil hne
  simp [idOfComponents, Component.text, Function.comp_def]

/-- The identity of what lies below the root is its names with slashes between them. -/
theorem artifactId_of_components_eq {root p : Path} {ns : List String}
    (habs : p.isAbsolute = root.isAbsolute) (h : p.components = root.components ++ ns.map .name)
    (hne : ns ≠ []) : artifactId root p = "/".intercalate ns :=
  artifactId_of_relativeTo? (Path.relativeTo?_of_components_eq habs h (by simp)) hne

end RuleBuild
