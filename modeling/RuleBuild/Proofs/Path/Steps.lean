import Mathlib.Data.List.Induction
import RuleBuild.Proofs.FileSystem.Walk
import RuleBuild.Proofs.Path.Bytes

/-!
# Identities taken as ways

The pieces of an identity, taken one after the other from the root, lead to the path that it was
made from, as far as names on the way are texts. So an identity tells such paths apart, and its
steps up tell of any path whether it lies below the root.
-/
namespace RuleBuild
namespace Path

section Lead

variable {Name : Type} (spell : String → Name)

/-- Where a piece of a text leads from some components. A dot stays there, two dots take the last
name away, and anything else is a name, as it is spelt. There is no way above the root. -/
def step? (cs : List (Component Name)) (piece : String) : Option (List (Component Name)) :=
  if piece = "." then some cs
  else if piece = ".." then
    match cs.getLast? with
    | some (.name _) => some cs.dropLast
    | _ => none
  else some (cs ++ [.name (spell piece)])

/-- Where the pieces of a text lead, one after the other. -/
def lead? (cs : List (Component Name)) (pieces : List String) : Option (List (Component Name)) :=
  pieces.foldlM (step? spell) cs

theorem lead?_append (cs : List (Component Name)) (xs ys : List String) :
    lead? spell cs (xs ++ ys) = (lead? spell cs xs).bind (lead? spell · ys) := List.foldlM_append

/-- As many steps up as there are names lead back to where the names begin. -/
theorem lead?_up (cs : List (Component Name)) (ns : List Name) :
    lead? spell (cs ++ ns.map .name) (List.replicate ns.length "..") = some cs := by
  induction ns using List.reverseRecOn with
  | nil => simp [lead?]
  | append_singleton ns n ih =>
      have hstep : step? spell (cs ++ (ns ++ [n]).map .name) ".." = some (cs ++ ns.map .name) := by
        rw [List.map_append, ← List.append_assoc, step?, if_neg (by decide), if_pos rfl]
        simp
      rw [List.length_append, List.length_singleton, List.replicate_succ, lead?, List.foldlM_cons,
        hstep]
      exact ih

theorem lead?_names (cs : List (Component Name)) {pieces : List String}
    (h : ∀ piece ∈ pieces, FileSystem.isName piece = true) :
    lead? spell cs pieces = some (cs ++ pieces.map (.name ∘ spell)) := by
  induction pieces generalizing cs with
  | nil => simp [lead?]
  | cons piece pieces ih =>
      obtain ⟨hpiece, hpieces⟩ := List.forall_mem_cons.mp h
      obtain ⟨_, hdot, hup⟩ := FileSystem.isName_spec hpiece
      have hstep : step? spell cs piece = some (cs ++ [.name (spell piece)]) := by
        rw [step?, if_neg hdot, if_neg hup]
      have hrest := ih (cs ++ [.name (spell piece)]) hpieces
      rw [List.append_assoc] at hrest
      rw [lead?, List.foldlM_cons, hstep]
      exact hrest

/-- Steps lead alike where names are spelt otherwise. -/
theorem lead?_map {Name' : Type} (f : Name → Name') (cs : List (Component Name))
    (pieces : List String) :
    lead? (f ∘ spell) (cs.map (Component.map f)) pieces =
      (lead? spell cs pieces).map (List.map (Component.map f)) := by
  have hstep (cs : List (Component Name)) (piece : String) :
      step? (f ∘ spell) (cs.map (Component.map f)) piece =
        (step? spell cs piece).map (List.map (Component.map f)) := by
    unfold step?
    split
    · rfl
    · split
      · rw [List.getLast?_map, ← List.map_dropLast]
        cases cs.getLast? with
        | none => rfl
        | some c => cases c <;> rfl
      · simp [Component.map]
  induction pieces generalizing cs with
  | nil => rfl
  | cons piece pieces ih =>
      rw [lead?, lead?, List.foldlM_cons, List.foldlM_cons, hstep]
      cases step? spell cs piece with
      | none => rfl
      | some next => exact ih next

end Lead

/-! ## The way between two lists of names -/

/-- Where two lists part: both begin with `common`, and what is left of the first does not begin as
what is left of the second, unless nothing is left of it. -/
structure Fork {α : Type} (xs ys common up down : List α) : Prop where
  base : xs = common ++ up
  path : ys = common ++ down
  parted : up.head? = down.head? → up = []

namespace Fork

variable {α β : Type} {xs ys common up down : List α}

theorem cons (h : Fork xs ys common up down) (x : α) :
    Fork (x :: xs) (x :: ys) (x :: common) up down where
  base := by rw [h.base, List.cons_append]
  path := by rw [h.path, List.cons_append]
  parted := h.parted

theorem map (h : Fork xs ys common up down) {f : α → β} (hf : Function.Injective f) :
    Fork (xs.map f) (ys.map f) (common.map f) (up.map f) (down.map f) where
  base := by rw [h.base, List.map_append]
  path := by rw [h.path, List.map_append]
  parted hhead := by
    rw [List.head?_map, List.head?_map] at hhead
    rw [h.parted (Option.map_injective hf hhead), List.map_nil]

theorem not_isPrefix (h : Fork xs ys common up down) (hup : up ≠ []) : ¬ up <+: down := by
  intro hprefix
  obtain ⟨x, up, rfl⟩ := List.exists_cons_of_ne_nil hup
  obtain ⟨rest, rfl⟩ := hprefix
  exact hup (h.parted (by simp))

theorem up_eq_nil_iff (h : Fork xs ys common up down) : up = [] ↔ xs <+: ys := by
  rw [h.base, h.path, List.prefix_append_right_inj]
  constructor
  · rintro rfl
    exact List.nil_prefix
  · exact fun hprefix => by_contra fun hup => h.not_isPrefix hup hprefix

theorem eq_iff (h : Fork xs ys common up down) : xs = ys ↔ up = [] ∧ down = [] := by
  rw [h.base, h.path, List.append_cancel_left_eq]
  constructor
  · rintro rfl
    exact ⟨h.parted rfl, h.parted rfl⟩
  · rintro ⟨rfl, rfl⟩
    rfl

/-- Nothing longer than `common` begins both lists. -/
theorem prefix_common (h : Fork xs ys common up down) {pre : List α} (hxs : pre <+: xs)
    (hys : pre <+: ys) : pre <+: common := by
  rw [h.base] at hxs
  rw [h.path] at hys
  rcases List.prefix_or_prefix_of_prefix hxs (List.prefix_append common up) with hpre | ⟨rest, rfl⟩
  · exact hpre
  · rw [List.prefix_append_right_inj] at hxs hys
    cases rest with
    | nil => simp
    | cons x rest =>
        obtain ⟨up, rfl⟩ := hxs
        obtain ⟨down, rfl⟩ := hys
        cases h.parted rfl

end Fork

section Way

variable {Name : Type} [DecidableEq Name]

theorem way_names_nil (moved : Bool) (ns : List Name) :
    way moved [] (ns.map .name) = some (List.replicate ns.length .up) := by
  induction ns generalizing moved with
  | nil => rfl
  | cons n ns ih => simp [way, ih, List.replicate_succ]

/-- Between names the way goes up from where they part, then down. -/
theorem way_names (ns ms : List Name) :
    ∃ common up down, Fork ns ms common up down ∧
      way false (ms.map .name) (ns.map .name) =
        some (List.replicate up.length .up ++ down.map .name) := by
  induction ns generalizing ms with
  | nil => exact ⟨[], [], ms, ⟨rfl, rfl, fun _ => rfl⟩, way_nil ..⟩
  | cons n ns ih =>
      cases ms with
      | nil =>
          refine ⟨[], n :: ns, [], ⟨rfl, rfl, by simp⟩, ?_⟩
          rw [List.map_nil, List.append_nil]
          exact way_names_nil false (n :: ns)
      | cons m ms =>
          by_cases hsame : m = n
          · subst hsame
            obtain ⟨common, up, down, hfork, hway⟩ := ih ms
            exact ⟨m :: common, up, down, hfork.cons m, by simpa [way] using hway⟩
          · refine ⟨[], n :: ns, m :: ms, ⟨rfl, rfl, fun hhead => ?_⟩, ?_⟩
            · exact absurd (Option.some.inj hhead).symm hsame
            · simp [way, hsame, List.map_const', List.replicate_succ, Function.comp_def]

end Way

/-- Components without slashes in their texts are the pieces of the identity they make. -/
theorem pieces_idOfComponents {cs : List (Component String)} (h : ∀ c ∈ cs, '/' ∉ c.text.toList) :
    (ofString (idOfComponents cs)).pieces =
      if cs = [] then [projectId] else cs.map Component.text := by
  cases cs with
  | nil => rfl
  | cons c cs =>
      have hpieces : ∀ p ∈ (c :: cs).map (·.text.toList), '/' ∉ p := by
        intro p hp
        obtain ⟨d, hd, rfl⟩ := List.mem_map.mp hp
        exact h d hd
      rw [if_neg (List.cons_ne_nil _ _), idOfComponents, ofString, String.toList_ofList,
        Text.split_join (by simp) hpieces, List.map_map]
      · simp [Function.comp_def]
      · simp

end Path

namespace BytePath

/-- Whether a path begins as the root does and goes on with names that are texts. -/
def Legible (root p : BytePath) : Prop :=
  ∃ common down, common <+: root.components ∧ p.components = common ++ down ∧
    ∀ n, .name n ∈ down → ∃ text, n = bytesOf text

theorem legible_ofPath (root p : Path) : (ofPath root).Legible (ofPath p) := by
  refine ⟨[], (ofPath p).components, List.nil_prefix, rfl, fun n hn => ?_⟩
  rw [components_ofPath] at hn
  obtain ⟨c, _, hc⟩ := List.mem_map.mp hn
  cases c <;> simp only [Component.map, reduceCtorEq, Component.name.injEq] at hc
  exact ⟨_, hc.symm⟩

/-- Names are legible if they are texts where they leave the root. -/
theorem legible_iff {root p : BytePath} {common up : List (Component Bytes)} {down : List Bytes}
    (h : Path.Fork root.components p.components common up (down.map .name)) :
    root.Legible p ↔ ∀ n ∈ down, ∃ text, n = bytesOf text := by
  constructor
  · rintro ⟨pre, rest, hpre, hp, htexts⟩ n hn
    obtain ⟨more, rfl⟩ := h.prefix_common hpre ⟨rest, hp.symm⟩
    have hrest : rest = more ++ down.map .name := by
      rw [h.path, List.append_assoc, List.append_cancel_left_eq] at hp
      exact hp.symm
    refine htexts n ?_
    rw [hrest]
    exact List.mem_append_right more (List.mem_map_of_mem hn)
  · intro htexts
    refine ⟨common, down.map .name, ⟨up, h.base.symm⟩, h.path, fun n hn => ?_⟩
    obtain ⟨m, hm, heq⟩ := List.mem_map.mp hn
    exact Component.name_injective heq ▸ htexts m hm

theorem artifactId_congr {root p q : BytePath} (habs : q.isAbsolute = p.isAbsolute)
    (h : q.components = p.components) : root.artifactId q = root.artifactId p := by
  rw [artifactId, artifactId, relativeTo?, relativeTo?, habs, h]

theorem artifactId_self (root : BytePath) : root.artifactId root = projectId := by
  have hway := Path.way_append root.components []
  rw [List.append_nil] at hway
  rw [artifactId, relativeTo?, Path.wayTo?, if_pos rfl, hway]
  rfl

/-- Where root and path part, the way goes up and then down. -/
theorem relativeTo?_eq_some {root p : BytePath} (hroot : root.isAbsolute = true)
    (hp : p.isAbsolute = true) (hrootUp : .up ∉ root.components) (hpUp : .up ∉ p.components) :
    ∃ (common : List (Component Bytes)) (up down : List Bytes),
      Path.Fork root.components p.components common (up.map .name) (down.map .name) ∧
      (∀ n ∈ down, n ∈ p.names) ∧
      relativeTo? root p = some (List.replicate up.length .up ++ down.map .name) := by
  obtain ⟨common, up, down, hfork, hway⟩ := Path.way_names root.names p.names
  refine ⟨.root :: common.map .name, up, down, ?_, fun n hn => ?_, ?_⟩
  · rw [components_eq_names hroot hrootUp, components_eq_names hp hpUp]
    exact (hfork.map Component.name_injective).cons .root
  · rw [hfork.path]
    exact List.mem_append_right common hn
  · rw [relativeTo?, Path.wayTo?, hroot, hp, if_pos rfl, components_eq_names hroot hrootUp,
      components_eq_names hp hpUp, Path.way, if_pos (by simp), hway, Option.map_some,
      Path.dropDots_eq_self]
    simp

section Identity

variable {root path : Bytes} (hroot : (ofBytes root).isAbsolute = true)
  (hpath : (ofBytes path).isAbsolute = true) (hrootUp : .up ∉ (ofBytes root).components)
  (hpathUp : .up ∉ (ofBytes path).components)

include hroot hpath hrootUp hpathUp

/-- The pieces of an identity are steps up and then what the names of the path are read as. -/
theorem pieces_artifactId :
    ∃ (common : List (Component Bytes)) (up down : List Bytes),
      Path.Fork (ofBytes root).components (ofBytes path).components common (up.map .name)
        (down.map .name) ∧
      (∀ n ∈ down, FileSystem.isName (Utf8.decodeLossy n) = true) ∧
      (Path.ofString ((ofBytes root).artifactId (ofBytes path))).pieces =
        if up = [] ∧ down = [] then ["."]
        else List.replicate up.length ".." ++ down.map Utf8.decodeLossy := by
  obtain ⟨common, up, down, hfork, hnames, hrelative⟩ :=
    relativeTo?_eq_some hroot hpath hrootUp hpathUp
  have hnamed : ∀ n ∈ down, FileSystem.isName (Utf8.decodeLossy n) = true := fun n hn =>
    isName_decodeLossy hpath (hnames n hn)
  have htexts : (List.replicate up.length Component.up ++ down.map Component.name).map
      (Component.map Utf8.decodeLossy) =
        List.replicate up.length .up ++ (down.map Utf8.decodeLossy).map .name := by
    simp [Component.map, Function.comp_def]
  have hslash : ∀ c ∈ List.replicate up.length Component.up ++
      (down.map Utf8.decodeLossy).map .name, '/' ∉ c.text.toList := by
    intro c hc
    rcases List.mem_append.mp hc with hc | hc
    · obtain rfl := List.eq_of_mem_replicate hc
      decide
    · obtain ⟨text, htext, rfl⟩ := List.mem_map.mp hc
      obtain ⟨n, hn, rfl⟩ := List.mem_map.mp htext
      exact FileSystem.slash_not_mem_of_isName (hnamed n hn)
  refine ⟨common, up, down, hfork, hnamed, ?_⟩
  rw [artifactId, hrelative, Option.getD_some, htexts, Path.pieces_idOfComponents hslash]
  simp [Component.text, Function.comp_def, projectId]

/-- The pieces of an identity lead to what is read as the path is, and to the path itself if it is
legible. -/
theorem lead?_pieces_artifactId :
    ∃ cs, Path.lead? bytesOf (ofBytes root).components
        (Path.ofString ((ofBytes root).artifactId (ofBytes path))).pieces = some cs ∧
      cs.map (Component.map Utf8.decodeLossy) =
        (ofBytes path).components.map (Component.map Utf8.decodeLossy) ∧
      (cs = (ofBytes path).components ↔ (ofBytes root).Legible (ofBytes path)) := by
  obtain ⟨common, up, down, hfork, hnamed, hpieces⟩ :=
    pieces_artifactId hroot hpath hrootUp hpathUp
  have hnamed' : ∀ text ∈ down.map Utf8.decodeLossy, FileSystem.isName text = true :=
    List.forall_mem_map.mpr hnamed
  have htext (n : Bytes) : bytesOf (Utf8.decodeLossy n) = n ↔ ∃ text, n = bytesOf text := by
    constructor
    · exact fun h => ⟨_, h.symm⟩
    · rintro ⟨text, rfl⟩
      rw [Utf8.decodeLossy_bytesOf]
  refine ⟨common ++ (down.map Utf8.decodeLossy).map (.name ∘ bytesOf), ?_, ?_, ?_⟩
  · rw [hpieces]
    split
    · rename_i hnil
      rw [hfork.base, hnil.1, hnil.2]
      rfl
    · rw [Path.lead?_append, hfork.base, Path.lead?_up, Option.bind_some,
        Path.lead?_names _ _ hnamed']
  · rw [hfork.path]
    simp [Component.map, Utf8.decodeLossy_bytesOf]
  · rw [legible_iff hfork, hfork.path, List.append_cancel_left_eq, List.map_map,
      List.map_inj_left]
    simp [htext]

/-- A piece of an identity is a step up or a name, or a dot for the root itself. -/
theorem mem_pieces_artifactId {piece : String}
    (h : piece ∈ (Path.ofString ((ofBytes root).artifactId (ofBytes path))).pieces) :
    piece = ".." ∨ FileSystem.isName piece = true ∨
      piece = "." ∧ (ofBytes path).components = (ofBytes root).components := by
  obtain ⟨common, up, down, hfork, hnamed, hpieces⟩ :=
    pieces_artifactId hroot hpath hrootUp hpathUp
  rw [hpieces] at h
  split at h
  · rename_i hnil
    have hcomponents := hfork.eq_iff.mpr (by simpa using hnil)
    exact .inr (.inr ⟨List.mem_singleton.mp h, hcomponents.symm⟩)
  · rcases List.mem_append.mp h with h | h
    · exact .inl (List.eq_of_mem_replicate h)
    · obtain ⟨n, hn, rfl⟩ := List.mem_map.mp h
      exact .inr (.inl (hnamed n hn))

theorem artifactId_ne_empty : (ofBytes root).artifactId (ofBytes path) ≠ "" := by
  intro hid
  have hmem : "" ∈ (Path.ofString ((ofBytes root).artifactId (ofBytes path))).pieces := by
    rw [hid]
    exact List.mem_singleton.mpr rfl
  rcases mem_pieces_artifactId hroot hpath hrootUp hpathUp hmem with h | h | h
  · exact absurd h (by decide)
  · exact absurd h (by decide)
  · exact absurd h.1 (by decide)

theorem components_eq_of_artifactId (hid : (ofBytes root).artifactId (ofBytes path) = ".") :
    (ofBytes path).components = (ofBytes root).components := by
  have hmem : "." ∈ (Path.ofString ((ofBytes root).artifactId (ofBytes path))).pieces := by
    rw [hid]
    exact List.mem_singleton.mpr rfl
  rcases mem_pieces_artifactId hroot hpath hrootUp hpathUp hmem with h | h | h
  · exact absurd h (by decide)
  · exact absurd h (by decide)
  · exact h.2

theorem up_mem_pieces_artifactId_iff :
    ".." ∈ (Path.ofString ((ofBytes root).artifactId (ofBytes path))).pieces ↔
      ¬ (ofBytes root).components <+: (ofBytes path).components := by
  obtain ⟨common, up, down, hfork, hnamed, hpieces⟩ :=
    pieces_artifactId hroot hpath hrootUp hpathUp
  have hdown : ∀ n ∈ down, Utf8.decodeLossy n ≠ ".." := fun n hn =>
    (FileSystem.isName_spec (hnamed n hn)).2.2
  rw [hpieces, ← hfork.up_eq_nil_iff, List.map_eq_nil_iff]
  by_cases hup : up = []
  · subst hup
    by_cases hnil : down = []
    · simp [hnil]
    · simpa [hnil] using hdown
  · simp [hup]

end Identity
end BytePath

/-- The identity of a path of texts leads to it. -/
theorem lead?_artifactId {root path : String} (hroot : (Path.ofString root).isAbsolute = true)
    (hpath : (Path.ofString path).isAbsolute = true)
    (hrootUp : .up ∉ (Path.ofString root).components)
    (hpathUp : .up ∉ (Path.ofString path).components) :
    Path.lead? id (Path.ofString root).components
        (Path.ofString (artifactId (Path.ofString root) (Path.ofString path))).pieces =
      some (Path.ofString path).components := by
  rw [← BytePath.isAbsolute_ofPath, ← BytePath.ofBytes_bytesOf] at hroot hpath
  rw [← BytePath.up_mem_components_ofPath_iff, ← BytePath.ofBytes_bytesOf] at hrootUp hpathUp
  obtain ⟨cs, hlead, _, hcs⟩ := BytePath.lead?_pieces_artifactId hroot hpath hrootUp hpathUp
  rw [BytePath.ofBytes_bytesOf, BytePath.ofBytes_bytesOf] at hlead hcs
  have hspell := Path.lead?_map id bytesOf (Path.ofString root).components
    (Path.ofString (artifactId (Path.ofString root) (Path.ofString path))).pieces
  rw [Function.comp_id] at hspell
  rw [hcs.mpr (BytePath.legible_ofPath ..), BytePath.artifactId_ofPath,
    BytePath.components_ofPath, BytePath.components_ofPath, hspell] at hlead
  obtain ⟨ds, hds, heq⟩ := Option.map_eq_some_iff.mp hlead
  rw [hds, List.map_injective_iff.mpr (Component.map_injective Utf8.bytesOf_injective) heq]

/-- The pieces of an identity lead from the root, never above the root of the file system, to the
path itself exactly if names on the way to it are texts, and always to what is read as the path is.
So paths with the same components share an identity, paths that share one are read the same, and
they have the same components if their names are texts where they leave the root. Of any path, the
root alone is known by a dot, and an identity has a step up exactly if the path does not lie below
the root. -/
theorem identity_leads_to_path (root path : Bytes)
    (hroot : (BytePath.ofBytes root).isAbsolute = true)
    (hpath : (BytePath.ofBytes path).isAbsolute = true)
    (hrootUp : .up ∉ (BytePath.ofBytes root).components)
    (hpathUp : .up ∉ (BytePath.ofBytes path).components) :
    let read := List.map (Component.map Utf8.decodeLossy)
    let r := BytePath.ofBytes root
    let p := BytePath.ofBytes path
    let pieces := (Path.ofString (r.artifactId p)).pieces
    (∃ cs, Path.lead? bytesOf r.components pieces = some cs ∧
      read cs = read p.components ∧ (cs = p.components ↔ r.Legible p)) ∧
      (∀ other : Bytes, (BytePath.ofBytes other).isAbsolute = true →
        .up ∉ (BytePath.ofBytes other).components →
          let o := BytePath.ofBytes other
          (o.components = p.components → r.artifactId o = r.artifactId p) ∧
          (r.artifactId o = r.artifactId p → read o.components = read p.components ∧
            (r.Legible o → r.Legible p → o.components = p.components))) ∧
      r.artifactId p ≠ "" ∧ (r.artifactId p = "." ↔ p.components = r.components) ∧
      (".." ∈ pieces ↔ ¬ r.components <+: p.components) := by
  intro read r p pieces
  obtain ⟨cs, hlead, hread, hcs⟩ := BytePath.lead?_pieces_artifactId hroot hpath hrootUp hpathUp
  refine ⟨⟨cs, hlead, hread, hcs⟩, fun other hother hotherUp => ⟨?_, fun hid => ?_⟩,
    BytePath.artifactId_ne_empty hroot hpath hrootUp hpathUp,
    ⟨BytePath.components_eq_of_artifactId hroot hpath hrootUp hpathUp, fun hcomponents => ?_⟩,
    BytePath.up_mem_pieces_artifactId_iff hroot hpath hrootUp hpathUp⟩
  · exact BytePath.artifactId_congr (hother.trans hpath.symm)
  · obtain ⟨ds, hlead', hread', hds⟩ :=
      BytePath.lead?_pieces_artifactId hroot hother hrootUp hotherUp
    rw [hid, hlead] at hlead'
    obtain rfl : cs = ds := Option.some.inj hlead'
    exact ⟨hread'.symm.trans hread, fun ho hp => (hds.mpr ho).symm.trans (hcs.mpr hp)⟩
  · rw [BytePath.artifactId_congr (hpath.trans hroot.symm) hcomponents]
    exact BytePath.artifactId_self r

/-- A path beside the root, both spelt with slashes and dots that count for nothing. The first name
of both is no text, and it is not on the way. -/
theorem identity_beside_root :
    let shared : Bytes := bytesOf "/work" ++ [0xFF]
    let r := BytePath.ofBytes (shared ++ bytesOf "/./rules//base/")
    let p := BytePath.ofBytes (BytePath.slash :: shared ++ bytesOf "/lib/./more/x.drl")
    r.isAbsolute = true ∧ p.isAbsolute = true ∧ .up ∉ r.components ∧ .up ∉ p.components ∧
      r.Legible p ∧ r.artifactId p = "../../lib/more/x.drl" ∧
      Path.lead? bytesOf r.components (Path.ofString (r.artifactId p)).pieces =
        some p.components ∧
      ¬ r.components <+: p.components := by
  intro shared r p
  have hroot : r.isAbsolute = true := by decide +kernel
  have hpath : p.isAbsolute = true := by decide +kernel
  have hrootUp : .up ∉ r.components := by decide +kernel
  have hpathUp : .up ∉ p.components := by decide +kernel
  have hid : r.artifactId p = "../../lib/more/x.drl" := by decide +kernel
  have hlegible : r.Legible p := by
    refine ⟨[.root, .name (bytesOf "work" ++ [0xFF])],
      ["lib", "more", "x.drl"].map (.name ∘ bytesOf), by decide +kernel, by decide +kernel,
      fun n hn => ?_⟩
    obtain ⟨text, _, htext⟩ := List.mem_map.mp hn
    exact ⟨text, (Component.name_injective htext).symm⟩
  obtain ⟨⟨cs, hlead, _, hcs⟩, _, _, _, hup⟩ :=
    identity_leads_to_path _ _ hroot hpath hrootUp hpathUp
  refine ⟨hroot, hpath, hrootUp, hpathUp, hlegible, hid, hcs.mpr hlegible ▸ hlead, hup.mp ?_⟩
  rw [hid]
  decide

/-- Names that are no texts may be read as one, and their paths share an identity, which leads to
neither. From a root with a step up there is no way back, and the identity is the path itself, which
does not lead there either if the step up is taken first. -/
theorem identity_of_two_paths :
    (let r := BytePath.ofBytes (bytesOf "/r")
    let p := BytePath.ofBytes (bytesOf "/r/" ++ 0xFF :: bytesOf ".drl")
    let q := BytePath.ofBytes (bytesOf "/r/" ++ 0xFE :: bytesOf ".drl")
    (r.isAbsolute = true ∧ p.isAbsolute = true ∧ q.isAbsolute = true) ∧
      (.up ∉ r.components ∧ .up ∉ p.components ∧ .up ∉ q.components) ∧
      r.artifactId p = r.artifactId q ∧ p.components ≠ q.components ∧
      Path.lead? bytesOf r.components (Path.ofString (r.artifactId p)).pieces ≠
        some p.components ∧
      Path.lead? bytesOf r.components (Path.ofString (r.artifactId q)).pieces ≠
        some q.components) ∧
    (let r := BytePath.ofBytes (bytesOf "/a/../b")
    let p := BytePath.ofBytes (bytesOf "/a/x.drl")
    r.isAbsolute = true ∧ p.isAbsolute = true ∧ .up ∉ p.components ∧
      r.artifactId p = "//a/x.drl" ∧
      ∀ base ∈ [r.components, (BytePath.ofBytes (bytesOf "/b")).components],
        Path.lead? bytesOf base (Path.ofString (r.artifactId p)).pieces ≠ some p.components) := by
  decide +kernel

end RuleBuild
