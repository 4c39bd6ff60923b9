import Mathlib.Data.List.TakeWhile
import RuleBuild.FileSystem.Scan
import RuleBuild.Proofs.FileSystem.Walk

/-!
# What a scan shows

A scan of an absolute directory begins at the directory itself, unless a part of the directory's own
path is hidden from listings (`of?_of_directory`, `of?_of_isUnlisted`), and shows everything below
it, once and in order (`mem_namesBelow_iff`, `pairwise_namesBelow`). A scan of a relative directory
leaves out the dots that its path begins with (`opens_of_relative`, `shown_of_leading_dot`). Where
any scan begins, and that what it shows leads to what it has found, is said by `start_of_scan` and
`locate_showEntry`.
-/
namespace RuleBuild

/-! ## The order of places -/

theorem compare_location_eq_lt {a b : Location} : compare a b = .lt ↔ a < b := by
  rw [List.compare_eq_compareLex]
  induction a generalizing b with
  | nil =>
      cases b with
      | nil => simp [List.compareLex_nil_nil]
      | cons y ys => simp [List.compareLex_nil_cons]
  | cons x xs ih =>
      cases b with
      | nil => simp [List.compareLex_cons_nil]
      | cons y ys =>
          have hlt : compare x y = .lt ↔ x < y := compareOfLessAndEq_eq_lt
          rw [List.compareLex_cons_cons, List.cons_lt_cons_iff, Ordering.then_eq_lt, ih,
            Std.compare_eq_iff_eq, hlt]

theorem lt_of_append_lt_append {place a b : Location} (h : place ++ a < place ++ b) : a < b := by
  induction place with
  | nil => exact h
  | cons x xs ih =>
      rcases List.cons_lt_cons_iff.mp h with hlt | ⟨_, hlt⟩
      · exact absurd hlt (String.lt_irrefl x)
      · exact ih hlt

/-! ## What lies below a place -/

namespace FileSystem

theorem mem_below_iff {fs : FileSystem} {place p : Location} :
    p ∈ fs.below place ↔ ∃ ns ≠ [], p = place ++ ns ∧ (fs.at? p).isSome := by
  have hentry (hp : p ≠ []) : p ∈ fs.entries.toList.map (·.1) ↔ (fs.at? p).isSome := by
    rw [at?, Entries.at?, if_neg hp, Std.ExtTreeMap.map_fst_toList_eq_keys,
      Std.ExtTreeMap.mem_keys, Std.ExtTreeMap.mem_iff_isSome_getElem?]
  rw [below, List.mem_filter, Bool.and_eq_true, List.isPrefixOf_iff_prefix, decide_eq_true_eq]
  constructor
  · rintro ⟨hmem, ⟨ns, rfl⟩, hlength⟩
    have hne : ns ≠ [] := by
      rintro rfl
      simp at hlength
    exact ⟨ns, hne, rfl, (hentry (by simp [hne])).mp hmem⟩
  · rintro ⟨ns, hne, rfl, hsome⟩
    refine ⟨(hentry (by simp [hne])).mpr hsome, List.prefix_append place ns, ?_⟩
    have hpos : 0 < ns.length := List.length_pos_iff.mpr hne
    rw [List.length_append]
    omega

theorem pairwise_below (fs : FileSystem) (place : Location) :
    (fs.below place).Pairwise (· < ·) := by
  have hentries : (fs.entries.toList.map (·.1)).Pairwise (· < ·) := by
    rw [List.pairwise_map]
    exact fs.entries.ordered_keys_toList.imp compare_location_eq_lt.mp
  exact hentries.filter _

end FileSystem

namespace ScanBase

theorem mem_namesBelow_iff {fs : FileSystem} {b : ScanBase} {names : Location} :
    names ∈ b.namesBelow fs ↔ names ≠ [] ∧ (fs.at? (b.place ++ names)).isSome := by
  rw [namesBelow, List.mem_map]
  constructor
  · rintro ⟨p, hmem, rfl⟩
    obtain ⟨ns, hne, rfl, hsome⟩ := FileSystem.mem_below_iff.mp hmem
    rw [List.drop_left]
    exact ⟨hne, hsome⟩
  · rintro ⟨hne, hsome⟩
    exact ⟨b.place ++ names, FileSystem.mem_below_iff.mpr ⟨names, hne, rfl, hsome⟩, List.drop_left⟩

theorem pairwise_namesBelow (fs : FileSystem) (b : ScanBase) :
    (b.namesBelow fs).Pairwise (· < ·) := by
  rw [namesBelow, List.pairwise_map]
  refine List.Pairwise.imp_of_mem ?_ (fs.pairwise_below b.place)
  intro p q hp hq hlt
  obtain ⟨ns, _, rfl, _⟩ := FileSystem.mem_below_iff.mp hp
  obtain ⟨ms, _, rfl, _⟩ := FileSystem.mem_below_iff.mp hq
  rw [List.drop_left, List.drop_left]
  exact lt_of_append_lt_append hlt

/-! ## Steps of a scan -/

/-- Whether a piece is looked for in listings that leave it out. -/
def isUnlisted (piece : String) : Bool := isListed piece && isDotName piece

/-- A directory shown by a path that leads to it, and not by the names in it alone. -/
structure Shown (fs : FileSystem) (b : ScanBase) : Prop where
  locate : fs.locate b.shown = .ok b.place
  notHere : b.isHere = false

theorem Shown.showEntry {fs : FileSystem} {b : ScanBase} (h : b.Shown fs) (p : Path) :
    b.showEntry p = b.shown.join p := by
  rw [ScanBase.showEntry, h.notHere, if_neg (by simp)]

theorem Shown.extend {fs : FileSystem} {b last : ScanBase} {pieces : List String} (h : b.Shown fs)
    (hwalk : fs.walk b.place pieces = .ok last.place)
    (hshown : last.shown = b.shown.extend pieces) : last.Shown fs := by
  have hempty := FileSystem.not_isEmpty_of_locate h.locate
  refine ⟨hshown ▸ FileSystem.locate_extend h.locate hwalk, ?_⟩
  have hhere := h.notHere
  rw [isHere, decide_eq_false_iff_not] at hhere ⊢
  rw [hshown, Path.components_extend hempty, List.append_eq_singleton_iff]
  rintro (⟨hnil, _⟩ | ⟨hsame, _⟩)
  · exact Path.components_ne_nil hempty hnil
  · exact hhere hsame

theorem Shown.step_eq {fs : FileSystem} {hideDots : Bool} {b : ScanBase} (h : b.Shown fs)
    (piece : String) :
    step fs hideDots b piece =
      if hideDots && isUnlisted piece then none
      else
        match fs.walk b.place [piece] with
        | .ok place => some ⟨b.shown.join ⟨[piece]⟩, place⟩
        | .error _ => none := by
  rw [step, h.showEntry, Bool.and_assoc,
    FileSystem.locate_join h.locate (Path.isAbsolute_singleton piece) (by simp)]
  rfl

/-- A step that leads where a walk does, and further steps that do, are steps along a walk. -/
theorem foldlM_step_cons_eq_some_iff {fs : FileSystem} {hideDots : Bool} {b last : ScanBase}
    {next : Path} {x : String} {xs : List String}
    (hstep : step fs hideDots b x =
      if hideDots && isUnlisted x then none
      else
        match fs.walk b.place [x] with
        | .ok place => some ⟨next, place⟩
        | .error _ => none)
    (hrest : ∀ place, fs.walk b.place [x] = .ok place →
      (xs.foldlM (step fs hideDots) ⟨next, place⟩ = some last ↔
        (∀ piece ∈ xs, (hideDots && isUnlisted piece) = false) ∧
          fs.walk place xs = .ok last.place ∧ last.shown = next.extend xs)) :
    (x :: xs).foldlM (step fs hideDots) b = some last ↔
      (∀ piece ∈ x :: xs, (hideDots && isUnlisted piece) = false) ∧
        fs.walk b.place (x :: xs) = .ok last.place ∧ last.shown = next.extend xs := by
  rw [List.foldlM_cons, hstep, List.forall_mem_cons]
  cases hx : hideDots && isUnlisted x with
  | true => simp
  | false =>
      cases hwalk : fs.walk b.place [x] with
      | error e =>
          simp only [Bool.false_eq_true, ↓reduceIte, Option.bind_eq_bind, Option.bind_none,
            reduceCtorEq, false_iff]
          rintro ⟨_, hwhole, _⟩
          rw [← List.singleton_append] at hwhole
          obtain ⟨mid, hmid, _⟩ := FileSystem.walk_append_eq_ok hwhole
          rw [hwalk] at hmid
          cases hmid
      | ok mid =>
          have hsplit := FileSystem.walk_append hwalk xs
          rw [List.singleton_append] at hsplit
          simp only [Bool.false_eq_true, ↓reduceIte, Option.bind_eq_bind, Option.bind_some,
            hrest mid hwalk, hsplit, true_and]

/-- Steps along pieces lead where a walk does, unless one of them is left out of listings. -/
theorem Shown.foldlM_step_eq_some_iff {fs : FileSystem} {hideDots : Bool} {b last : ScanBase}
    {pieces : List String} (h : b.Shown fs) :
    pieces.foldlM (step fs hideDots) b = some last ↔
      (∀ piece ∈ pieces, (hideDots && isUnlisted piece) = false) ∧
        fs.walk b.place pieces = .ok last.place ∧ last.shown = b.shown.extend pieces := by
  induction pieces generalizing b with
  | nil =>
      simp only [List.foldlM_nil, FileSystem.walk, Path.extend, List.foldl_nil]
      constructor
      · intro heq
        cases heq
        exact ⟨by simp, rfl, rfl⟩
      · rintro ⟨_, hplace, hshown⟩
        cases last
        cases hplace
        cases hshown
        rfl
  | cons x xs ih =>
      refine foldlM_step_cons_eq_some_iff (h.step_eq x) fun place hwalk => ?_
      have hnext : Shown fs ⟨b.shown.join ⟨[x]⟩, place⟩ := h.extend hwalk rfl
      exact ih hnext

theorem foldlM_step_of_isUnlisted {fs : FileSystem} {pieces : List String} {piece : String}
    (hmem : piece ∈ pieces) (h : isUnlisted piece = true) (b : ScanBase) :
    pieces.foldlM (ScanBase.step fs true) b = none := by
  induction pieces generalizing b with
  | nil => cases hmem
  | cons x xs ih =>
      rw [List.foldlM_cons]
      rcases List.mem_cons.mp hmem with rfl | hmem
      · rw [isUnlisted] at h
        simp [ScanBase.step, h]
      · cases ScanBase.step fs true b x with
        | none => rfl
        | some next => exact ih hmem next

/-! ## The directory that a scan begins in -/

/-- A directory that a scan of `root` begins in, where `root` leads and shown as `root`. -/
structure Opens (fs : FileSystem) (root : Path) (b : ScanBase) : Prop where
  shown : b.Shown fs
  locate : fs.locate root = .ok b.place
  directory : fs.at? b.place = some .directory
  components : b.shown.components = root.components
  isAbsolute : b.shown.isAbsolute = root.isAbsolute

theorem component?_of_isIdle {piece : String} (h : isIdle piece = true) :
    Path.component? piece = none := by
  have hidle : piece = "" ∨ piece = "." := by simpa [isIdle] using h
  rw [Path.component?_eq, if_pos hidle]

theorem filterMap_component?_takeWhile_isIdle (pieces : List String) :
    (pieces.takeWhile isIdle).filterMap Path.component? = [] := by
  rw [List.filterMap_eq_nil_iff]
  exact fun piece hmem => component?_of_isIdle (List.mem_takeWhile_imp hmem)

theorem filterMap_pieceName?_takeWhile_isIdle (pieces : List String) :
    (pieces.takeWhile isIdle).filterMap Path.pieceName? = [] := by
  have hbind := congrArg (List.filterMap Component.name?)
    (filterMap_component?_takeWhile_isIdle pieces)
  rwa [List.filterMap_filterMap] at hbind

/-- The pieces passed over at the beginning of an absolute path are no names. -/
theorem filterMap_dropWhile_isIdle {root : Path} (habs : root.isAbsolute = true) :
    (root.pieces.tail.dropWhile isIdle).filterMap Path.pieceName? = root.names := by
  rw [← FileSystem.filterMap_tail_eq_names habs,
    ← List.takeWhile_append_dropWhile (p := isIdle) (l := root.pieces.tail),
    List.filterMap_append, filterMap_pieceName?_takeWhile_isIdle, List.nil_append,
    List.takeWhile_append_dropWhile]

/-- Only names are left out of listings. -/
theorem isUnlisted_of_pieceName?_eq_none {piece : String} (h : Path.pieceName? piece = none) :
    isUnlisted piece = false := by
  rw [Path.pieceName?_eq] at h
  split at h
  · rename_i hidle
    rcases hidle with rfl | rfl | rfl
    · decide
    · decide
    · decide
  · cases h

theorem isUnlisted_eq_false_of_names {pieces : List String}
    (h : ∀ name ∈ pieces.filterMap Path.pieceName?, isUnlisted name = false) :
    ∀ piece ∈ pieces, isUnlisted piece = false := by
  intro piece hmem
  cases hname : Path.pieceName? piece with
  | some name =>
      rw [Path.eq_of_pieceName? hname]
      exact h name (List.mem_filterMap.mpr ⟨piece, hmem, hname⟩)
  | none => exact isUnlisted_of_pieceName?_eq_none hname

/-- A part of its path that listings leave out hides a directory from scans. -/
theorem of?_of_isUnlisted {fs : FileSystem} {root : Path} {name : String}
    (habs : root.isAbsolute = true) (hmem : name ∈ root.names) (h : isUnlisted name = true) :
    of? fs true root = none := by
  rw [← filterMap_dropWhile_isIdle habs, List.mem_filterMap] at hmem
  obtain ⟨piece, hpiece, hname⟩ := hmem
  rw [Path.eq_of_pieceName? hname] at hpiece
  simp [of?, habs, foldlM_step_of_isUnlisted hpiece h]

theorem walk_takeWhile_isIdle (fs : FileSystem) (pieces : List String) :
    fs.walk [] (pieces.takeWhile isIdle) = .ok [] := by
  have hnames := filterMap_pieceName?_takeWhile_isIdle pieces
  have hup : ".." ∉ pieces.takeWhile isIdle := fun hmem => by
    simpa [isIdle] using List.mem_takeWhile_imp hmem
  have hdir : fs.at? ([] ++ (pieces.takeWhile isIdle).filterMap Path.pieceName?) =
      some .directory := by
    rw [hnames]
    rfl
  rw [FileSystem.walk_of_directory hup hdir, hnames]
  rfl

/-- A walk from a directory may pass over the idle pieces that it begins with. -/
theorem walk_dropWhile {fs : FileSystem} {place : Location} {idle : String → Bool}
    (hidle : ∀ piece, idle piece = true → piece = "" ∨ piece = ".")
    (hdir : fs.at? place = some .directory) (pieces : List String) :
    fs.walk place (pieces.dropWhile idle) = fs.walk place pieces := by
  induction pieces with
  | nil => rfl
  | cons x xs ih =>
      by_cases hx : idle x = true
      · rw [List.dropWhile_cons_of_pos hx, ih, FileSystem.walk_idle xs hdir (hidle x hx)]
      · rw [List.dropWhile_cons_of_neg hx]

theorem walk_dropWhile_isIdle (fs : FileSystem) (pieces : List String) :
    fs.walk [] (pieces.dropWhile isIdle) = fs.walk [] pieces :=
  walk_dropWhile (fun _ h => by simpa [isIdle] using h) rfl pieces

/-- The path that an absolute scan begins with: a slash, written as `root` writes it. -/
theorem shown_slash (fs : FileSystem) (pieces : List String) :
    Shown fs ⟨⟨"" :: pieces.takeWhile isIdle ++ [""]⟩, []⟩ ∧
      Path.isAbsolute ⟨"" :: pieces.takeWhile isIdle ++ [""]⟩ = true ∧
      Path.components ⟨"" :: pieces.takeWhile isIdle ++ [""]⟩ = [.root] := by
  have habs : Path.isAbsolute ⟨"" :: pieces.takeWhile isIdle ++ [""]⟩ = true := by
    rw [Path.isAbsolute_iff]
    obtain ⟨x, xs, hcons⟩ :=
      List.exists_cons_of_ne_nil (List.concat_ne_nil "" (pieces.takeWhile isIdle))
    exact ⟨x, xs, by rw [← hcons]; simp⟩
  have hslash : Path.component? "" = none := rfl
  have hcomponents : Path.components ⟨"" :: pieces.takeWhile isIdle ++ [""]⟩ = [.root] := by
    rw [Path.components_of_isAbsolute habs]
    simp [hslash, filterMap_component?_takeWhile_isIdle]
  refine ⟨⟨?_, ?_⟩, habs, hcomponents⟩
  · rw [FileSystem.locate_of_isAbsolute habs, List.cons_append, List.tail_cons,
      FileSystem.walk_append (walk_takeWhile_isIdle fs pieces),
      FileSystem.walk_idle [] rfl (.inl rfl)]
    rfl
  · rw [isHere, hcomponents]
    rfl

theorem of?_isAbsolute_eq_some_iff {fs : FileSystem} {hideDots : Bool} {root : Path}
    {b : ScanBase} (habs : root.isAbsolute = true) :
    of? fs hideDots root = some b ↔
      (∀ name ∈ root.names, (hideDots && isUnlisted name) = false) ∧
        fs.locate root = .ok b.place ∧ fs.at? b.place = some .directory ∧
        b.shown = Path.extend ⟨"" :: root.pieces.tail.takeWhile isIdle ++ [""]⟩
          (root.pieces.tail.dropWhile isIdle) := by
  have hlisted : (∀ name ∈ root.names, (hideDots && isUnlisted name) = false) ↔
      ∀ piece ∈ root.pieces.tail.dropWhile isIdle, (hideDots && isUnlisted piece) = false := by
    rw [← filterMap_dropWhile_isIdle habs]
    constructor
    · intro h
      cases hideDots with
      | false => exact fun _ _ => rfl
      | true => exact isUnlisted_eq_false_of_names h
    · intro h name hmem
      obtain ⟨piece, hpiece, hname⟩ := List.mem_filterMap.mp hmem
      rw [← Path.eq_of_pieceName? hname]
      exact h piece hpiece
  simp only [of?, habs, Bool.true_or, ↓reduceIte, Option.filter_eq_some_iff, decide_eq_true_eq,
    (shown_slash fs root.pieces.tail).1.foldlM_step_eq_some_iff,
    FileSystem.locate_of_isAbsolute habs, walk_dropWhile_isIdle, hlisted]
  tauto

theorem exists_of?_of_locate {fs : FileSystem} {hideDots : Bool} {root : Path} {place : Location}
    (habs : root.isAbsolute = true) (hlocate : fs.locate root = .ok place)
    (hdir : fs.at? place = some .directory)
    (hlisted : ∀ name ∈ root.names, (hideDots && isUnlisted name) = false) :
    ∃ b, of? fs hideDots root = some b :=
  ⟨⟨_, place⟩, (of?_isAbsolute_eq_some_iff habs).mpr ⟨hlisted, hlocate, hdir, rfl⟩⟩

/-- Where a scan of an absolute path begins at all, it begins at the directory of the path. -/
theorem opens_of_isAbsolute {fs : FileSystem} {hideDots : Bool} {root : Path} {b : ScanBase}
    (habs : root.isAbsolute = true) (h : of? fs hideDots root = some b) : b.Opens fs root := by
  obtain ⟨_, hlocate, hdir, hshown⟩ := (of?_isAbsolute_eq_some_iff habs).mp h
  obtain ⟨hslash, habsolute, hcomponents⟩ := shown_slash fs root.pieces.tail
  have hempty := Path.not_isEmpty_of_isAbsolute habsolute
  have hrest : fs.walk [] (root.pieces.tail.dropWhile isIdle) = .ok b.place := by
    rw [walk_dropWhile_isIdle, ← hlocate, FileSystem.locate_of_isAbsolute habs]
  refine ⟨hslash.extend hrest hshown, hlocate, hdir, ?_, ?_⟩
  · obtain ⟨x, xs, hpieces⟩ := (Path.isAbsolute_iff root).mp habs
    have hslash : Path.component? "" = none := rfl
    rw [hshown, Path.components_extend hempty, hcomponents, Path.components_of_isAbsolute habs,
      Path.filterMap_component?_dropWhile fun _ => component?_of_isIdle, hpieces, List.tail_cons,
      List.filterMap_cons_none hslash]
    rfl
  · rw [hshown, Path.isAbsolute_extend hempty, habsolute, habs]

theorem Opens.place_eq {fs : FileSystem} {root : Path} {b : ScanBase} (h : b.Opens fs root)
    (habs : root.isAbsolute = true) (hup : .up ∉ root.components) : b.place = root.names := by
  have hwalk := h.locate
  rw [FileSystem.locate_of_isAbsolute habs] at hwalk
  rw [FileSystem.eq_of_walk hwalk (FileSystem.not_up_mem_tail hup),
    FileSystem.filterMap_tail_eq_names habs, List.nil_append]

theorem of?_of_directory {fs : FileSystem} {root : Path} (habs : root.isAbsolute = true)
    (hup : .up ∉ root.components) (hdir : fs.at? root.names = some .directory)
    (hlisted : ∀ name ∈ root.names, isUnlisted name = false) :
    ∃ b, of? fs true root = some b ∧ b.Opens fs root ∧ b.place = root.names := by
  have hlocate := FileSystem.locate_of_directory habs hup hdir
  obtain ⟨b, hscan⟩ : ∃ b, of? fs true root = some b :=
    exists_of?_of_locate habs hlocate hdir hlisted
  have hopens := opens_of_isAbsolute habs hscan
  exact ⟨b, hscan, hopens, hopens.place_eq habs hup⟩

/-! ## Relative directories -/

theorem step_dot {fs : FileSystem} {hideDots : Bool}
    (hcurrent : fs.at? fs.current = some .directory) :
    step fs hideDots (start fs) "." = some (start fs) := by
  have hlocate : fs.locate ⟨["."]⟩ = .ok fs.current := by
    rw [FileSystem.locate_eq]
    exact FileSystem.walk_idle [] hcurrent (.inr rfl)
  have hentry : (start fs).showEntry ⟨["."]⟩ = ⟨["."]⟩ := rfl
  have hplain : isListed "." = false := rfl
  simp only [step, hentry, hlocate, hplain, Bool.and_false, Bool.false_and]
  rfl

theorem ne_dot_of_dropWhile {pieces xs : List String} {x : String}
    (h : pieces.dropWhile (· = ".") = x :: xs) : x ≠ "." := by
  have hhead := List.head_dropWhile_not (fun piece => decide (piece = ".")) (l := pieces)
    (by rw [h]; exact List.cons_ne_nil x xs)
  simpa [h] using hhead

/-- The dots that a relative path begins with are left out. -/
theorem foldlM_step_start {fs : FileSystem} {hideDots : Bool}
    (hcurrent : fs.at? fs.current = some .directory) (pieces : List String) :
    pieces.foldlM (step fs hideDots) (start fs) =
      (pieces.dropWhile (· = ".")).foldlM (step fs hideDots) (start fs) := by
  induction pieces with
  | nil => rfl
  | cons x xs ih =>
      by_cases hx : x = "."
      · rw [List.foldlM_cons, hx, step_dot hcurrent, List.dropWhile_cons_of_pos (by simp), ← ih]
        rfl
      · rw [List.dropWhile_cons_of_neg (by simpa using hx)]

theorem locate_singleton {fs : FileSystem} {x : String} (hx : x ≠ "") :
    fs.locate ⟨[x]⟩ = fs.walk fs.current [x] := by
  have hempty : Path.isEmpty ⟨[x]⟩ = false := by simp [Path.isEmpty, hx]
  rw [FileSystem.locate_eq, hempty, FileSystem.origin, Path.steps, Path.isAbsolute_singleton]
  rfl

theorem shown_singleton {fs : FileSystem} {x : String} {place : Location} (hx : x ≠ "")
    (hdot : x ≠ ".") (hwalk : fs.walk fs.current [x] = .ok place) : Shown fs ⟨⟨[x]⟩, place⟩ := by
  refine ⟨(locate_singleton hx).trans hwalk, ?_⟩
  rw [isHere, decide_eq_false_iff_not, Path.components_of_pieces rfl hx hdot]
  exact fun hhere => Path.here_not_mem_filterMap [x] (hhere ▸ List.mem_cons_self)

/-- A scan that goes on with a piece that is no dot shows what it finds by this piece and those
after it. -/
theorem foldlM_step_start_eq_some_iff {fs : FileSystem} {hideDots : Bool} {x : String}
    {xs : List String} {b : ScanBase} (hx : x ≠ "") (hdot : x ≠ ".") :
    (x :: xs).foldlM (step fs hideDots) (start fs) = some b ↔
      (∀ piece ∈ x :: xs, (hideDots && isUnlisted piece) = false) ∧
        fs.walk fs.current (x :: xs) = .ok b.place ∧ b.shown = Path.extend ⟨[x]⟩ xs := by
  refine foldlM_step_cons_eq_some_iff ?_ fun place hwalk =>
    (shown_singleton hx hdot hwalk).foldlM_step_eq_some_iff
  have hentry : (start fs).showEntry ⟨[x]⟩ = ⟨[x]⟩ := rfl
  rw [step, hentry, locate_singleton hx, Bool.and_assoc]
  rfl

theorem foldlM_step_start_nothing (fs : FileSystem) (hideDots : Bool) (xs : List String) :
    ("" :: xs).foldlM (step fs hideDots) (start fs) = none := by
  have hentry : (start fs).showEntry ⟨[""]⟩ = ⟨[""]⟩ := rfl
  have hlocate : fs.locate ⟨[""]⟩ = .error .notFound := rfl
  rw [List.foldlM_cons, step, hentry, hlocate]
  simp

theorem shown_of_foldlM_step_start {fs : FileSystem} {hideDots : Bool} {x : String}
    {xs : List String} {b : ScanBase} (hx : x ≠ "") (hdot : x ≠ ".")
    (h : (x :: xs).foldlM (step fs hideDots) (start fs) = some b) :
    b.Shown fs ∧ b.shown.isAbsolute = false ∧
      b.shown.components = (x :: xs).filterMap Path.component? := by
  have hempty : Path.isEmpty ⟨[x]⟩ = false := by simp [Path.isEmpty, hx]
  obtain ⟨_, hwalk, hshown⟩ := (foldlM_step_start_eq_some_iff hx hdot).mp h
  rw [← List.singleton_append] at hwalk
  obtain ⟨mid, hmid, hrest⟩ := FileSystem.walk_append_eq_ok hwalk
  refine ⟨(shown_singleton hx hdot hmid).extend hrest hshown, ?_, ?_⟩
  · rw [hshown, Path.isAbsolute_extend hempty, Path.isAbsolute_singleton]
  · rw [hshown, Path.components_extend hempty, Path.components_of_pieces rfl hx hdot,
      ← List.filterMap_append]
    rfl

theorem of?_of_relative {fs : FileSystem} {hideDots : Bool} {root : Path}
    (hrel : root.isAbsolute = false) (hempty : root.isEmpty = false) :
    of? fs hideDots root = (root.pieces.foldlM (step fs hideDots) (start fs)).filter fun b =>
      fs.at? b.place = some .directory := by
  rw [of?, hrel, hempty]
  rfl

/-- A scan of a relative directory that does not begin with a dot begins at the directory, unless a
piece of the path is left out of listings. -/
theorem opens_of_relative {fs : FileSystem} {root : Path} {place : Location}
    (hrel : root.isAbsolute = false) (hlocate : fs.locate root = .ok place)
    (hdir : fs.at? place = some .directory) (hlead : root.pieces.head? ≠ some ".")
    (hlisted : ∀ piece ∈ root.pieces, isUnlisted piece = false) :
    ∃ b, of? fs true root = some b ∧ b.Opens fs root := by
  have hempty := FileSystem.not_isEmpty_of_locate hlocate
  obtain ⟨x, xs, hpieces, hx, hwalk⟩ := FileSystem.walk_of_relative hrel hlocate
  have hdot : x ≠ "." := by simpa [hpieces] using hlead
  have hscan : root.pieces.foldlM (step fs true) (start fs) =
      some ⟨Path.extend ⟨[x]⟩ xs, place⟩ := by
    rw [hpieces] at hlisted ⊢
    exact (foldlM_step_start_eq_some_iff hx hdot).mpr ⟨hlisted, hwalk, rfl⟩
  refine ⟨⟨Path.extend ⟨[x]⟩ xs, place⟩, ?_, ?_⟩
  · rw [of?_of_relative hrel hempty, hscan, Option.filter_some, if_pos (by simpa using hdir)]
  · rw [hpieces] at hscan
    obtain ⟨hshown, habs, hcomponents⟩ := shown_of_foldlM_step_start hx hdot hscan
    refine ⟨hshown, hlocate, hdir, ?_, habs.trans hrel.symm⟩
    rw [hcomponents, Path.components_of_pieces hpieces hx hdot]

/-- A scan of nothing but dots begins where relative paths begin. -/
theorem of?_of_dots {fs : FileSystem} {root : Path} {place : Location}
    (hrel : root.isAbsolute = false) (hlocate : fs.locate root = .ok place)
    (hdots : ∀ piece ∈ root.pieces, piece = ".") :
    of? fs true root = some (start fs) ∧ root.components = [.here] := by
  have hempty := FileSystem.not_isEmpty_of_locate hlocate
  obtain ⟨x, xs, hpieces, _, hwalk⟩ := FileSystem.walk_of_relative hrel hlocate
  have hcurrent := (FileSystem.walk_cons_eq_ok hwalk).1
  constructor
  · have hnone : root.pieces.dropWhile (· = ".") = [] := by
      rw [List.dropWhile_eq_nil_iff]
      simpa using hdots
    rw [of?_of_relative hrel hempty, foldlM_step_start hcurrent, hnone]
    exact if_pos (decide_eq_true hcurrent)
  · rw [hpieces, List.forall_mem_cons] at hdots
    rw [Path.components_eq_leading hpieces hempty, hdots.1, Path.leading,
      List.filterMap_eq_nil_iff.mpr fun piece hmem => by rw [hdots.2 piece hmem]; rfl]
    rfl

/-- A scan of a directory after a leading dot shows what it finds without this dot. -/
theorem shown_of_leading_dot {fs : FileSystem} {root : Path} {place : Location} {b : ScanBase}
    (hrel : root.isAbsolute = false) (hlocate : fs.locate root = .ok place)
    (hlead : root.pieces.head? = some ".") (hproper : ∃ piece ∈ root.pieces, piece ≠ ".")
    (h : of? fs true root = some b) :
    b.Shown fs ∧ b.shown.isAbsolute = false ∧ .here ∉ b.shown.components ∧
      root.components = .here :: b.shown.components := by
  have hempty := FileSystem.not_isEmpty_of_locate hlocate
  obtain ⟨d, ds, hpieces, _, hwalk⟩ := FileSystem.walk_of_relative hrel hlocate
  have hcurrent := (FileSystem.walk_cons_eq_ok hwalk).1
  rw [of?_of_relative hrel hempty, foldlM_step_start hcurrent, Option.filter_eq_some_iff] at h
  have hdrop : root.pieces.dropWhile (· = ".") ≠ [] := by
    rw [ne_eq, List.dropWhile_eq_nil_iff]
    simpa using hproper
  obtain ⟨x, xs, hrest⟩ := List.exists_cons_of_ne_nil hdrop
  have hdot := ne_dot_of_dropWhile hrest
  have hcomponents : root.components = .here :: (x :: xs).filterMap Path.component? := by
    obtain rfl : d = "." := by simpa [hpieces] using hlead
    have hidle (piece : String) (hdot : decide (piece = ".") = true) :
        Path.component? piece = none := by
      rw [of_decide_eq_true hdot]
      rfl
    rw [Path.components_eq_leading hpieces hempty, ← Path.filterMap_component?_dropWhile hidle ds,
      ← hrest, hpieces, List.dropWhile_cons_of_pos (by simp)]
    rfl
  rw [hrest] at h
  have hx : x ≠ "" := by
    rintro rfl
    rw [foldlM_step_start_nothing] at h
    cases h.1
  obtain ⟨hshown, habs, hspelt⟩ := shown_of_foldlM_step_start hx hdot h.1
  exact ⟨hshown, habs, hspelt ▸ Path.here_not_mem_filterMap (x :: xs), hspelt ▸ hcomponents⟩

/-! ## Entries -/

/-- An entry is shown by the path of its directory, and its names at the end. -/
theorem Shown.entry {fs : FileSystem} {b : ScanBase} {names : Location} (h : b.Shown fs)
    (hmem : names ∈ b.namesBelow fs) :
    (b.showEntry ⟨names⟩).isAbsolute = b.shown.isAbsolute ∧
      (b.showEntry ⟨names⟩).components = b.shown.components ++ names.map .name ∧
      fs.locate (b.showEntry ⟨names⟩) = .ok (b.place ++ names) := by
  obtain ⟨hne, hsome⟩ := mem_namesBelow_iff.mp hmem
  have hnames : ∀ name ∈ names, FileSystem.isName name = true := fun name hname =>
    FileSystem.isName_of_at? hsome (List.mem_append_right _ hname)
  have hempty := FileSystem.not_isEmpty_of_locate h.locate
  have hrel := FileSystem.isAbsolute_of_isName hnames
  rw [h.showEntry]
  refine ⟨Path.isAbsolute_join hempty hrel hne, ?_, ?_⟩
  · rw [Path.components_join hempty hrel hne, FileSystem.filterMap_component?_of_isName hnames]
  · exact FileSystem.locate_join_names h.locate hnames hne hsome

/-- Where relative paths begin, entries are shown by their names. -/
theorem locate_showEntry_start {fs : FileSystem} {names : Location}
    (hmem : names ∈ (start fs).namesBelow fs) :
    fs.locate ((start fs).showEntry ⟨names⟩) = .ok (fs.current ++ names) := by
  obtain ⟨hne, hsome⟩ := mem_namesBelow_iff.mp hmem
  have hnames : ∀ name ∈ names, FileSystem.isName name = true := fun name hname =>
    FileSystem.isName_of_at? hsome (List.mem_append_right _ hname)
  have hentry : (start fs).showEntry ⟨names⟩ = ⟨names⟩ := rfl
  obtain ⟨n, ns, rfl⟩ := List.exists_cons_of_ne_nil hne
  have hslash := (FileSystem.isName_spec (hnames n List.mem_cons_self)).1
  have hempty : Path.isEmpty ⟨n :: ns⟩ = false := by simp [Path.isEmpty, hslash]
  rw [hentry, FileSystem.locate_eq, hempty, FileSystem.origin, Path.steps,
    FileSystem.isAbsolute_of_isName hnames]
  exact FileSystem.walk_names hsome hnames

/-! ## Scans of any path -/

theorem step_eq_some {fs : FileSystem} {hideDots : Bool} {b next : ScanBase} {piece : String}
    (h : step fs hideDots b piece = some next) :
    next.shown = b.showEntry ⟨[piece]⟩ ∧ fs.locate next.shown = .ok next.place := by
  rw [step] at h
  split at h
  · cases h
  · cases hlocate : fs.locate (b.showEntry ⟨[piece]⟩) with
    | error e => simp [hlocate] at h
    | ok place =>
        rw [hlocate] at h
        obtain rfl := Option.some.inj h
        exact ⟨rfl, hlocate⟩

theorem mem_pieces_showEntry {b : ScanBase} {p : Path} {piece : String}
    (h : piece ∈ (b.showEntry p).pieces) : piece ∈ b.shown.pieces ∨ piece ∈ p.pieces := by
  rw [showEntry] at h
  split at h
  · exact .inr h
  · exact Path.mem_pieces_join h

theorem mem_pieces_of_foldlM_step {fs : FileSystem} {hideDots : Bool} {b last : ScanBase}
    {pieces : List String} (h : pieces.foldlM (step fs hideDots) b = some last) :
    ∀ piece ∈ last.shown.pieces, piece ∈ b.shown.pieces ∨ piece ∈ pieces := by
  induction pieces generalizing b with
  | nil =>
      obtain rfl := Option.some.inj h
      exact fun piece hmem => .inl hmem
  | cons x xs ih =>
      rw [List.foldlM_cons] at h
      obtain ⟨next, hstep, hrest⟩ := Option.bind_eq_some_iff.mp h
      intro piece hmem
      rcases ih hrest piece hmem with hmem | hmem
      · rw [(step_eq_some hstep).1] at hmem
        refine (mem_pieces_showEntry hmem).imp_right fun hmem => ?_
        exact List.mem_cons.mpr (.inl (List.mem_singleton.mp hmem))
      · exact .inr (List.mem_cons_of_mem _ hmem)

/-- A scan shows its directory by pieces of the path that it is given, slashes and dots. -/
theorem mem_pieces_shown {fs : FileSystem} {hideDots : Bool} {root : Path} {b : ScanBase}
    (h : of? fs hideDots root = some b) {piece : String} (hmem : piece ∈ b.shown.pieces) :
    piece = "" ∨ piece = "." ∨ piece ∈ root.pieces := by
  rw [of?, Option.filter_eq_some_iff] at h
  split at h
  · rcases mem_pieces_of_foldlM_step h.1 piece hmem with hmem | hmem
    · rcases List.mem_cons.mp hmem with rfl | hmem
      · exact .inl rfl
      · rcases List.mem_append.mp hmem with hmem | hmem
        · have hidle := List.mem_takeWhile_imp hmem
          rw [isIdle, Bool.or_eq_true, decide_eq_true_eq, decide_eq_true_eq] at hidle
          exact hidle.imp_right .inl
        · exact .inl (List.mem_singleton.mp hmem)
    · exact .inr (.inr (List.mem_of_mem_tail ((List.dropWhile_suffix _).subset hmem)))
  · rcases mem_pieces_of_foldlM_step h.1 piece hmem with hmem | hmem
    · exact .inr (.inl (List.mem_singleton.mp hmem))
    · exact .inr (.inr hmem)

end ScanBase

/-- Whether a relative path has an empty piece right after the dots that it begins with: so have
`./`, `.//lib` and the path that is written with nothing. -/
def Path.BeginsWithGap (p : Path) : Prop :=
  p.isAbsolute = false ∧ (p.pieces.dropWhile (· = ".")).head? = some ""

instance (p : Path) : Decidable p.BeginsWithGap :=
  inferInstanceAs (Decidable (_ ∧ _))

namespace ScanBase

variable {fs : FileSystem} {hideDots : Bool} {root : Path} {b : ScanBase} {place : Location}

theorem directory_of_foldlM_step_start {pieces : List String} (hne : pieces ≠ [])
    (h : pieces.foldlM (step fs hideDots) (start fs) = some b) :
    fs.at? fs.current = some .directory := by
  obtain ⟨x, xs, rfl⟩ := List.exists_cons_of_ne_nil hne
  by_cases hx : x = ""
  · rw [hx, foldlM_step_start_nothing] at h
    cases h
  · rw [List.foldlM_cons] at h
    obtain ⟨next, hstep, _⟩ := Option.bind_eq_some_iff.mp h
    obtain ⟨hshown, hlocate⟩ := step_eq_some hstep
    have hentry : (start fs).showEntry ⟨[x]⟩ = ⟨[x]⟩ := rfl
    rw [hshown, hentry, locate_singleton hx] at hlocate
    exact (FileSystem.walk_cons_eq_ok hlocate).1

/-- A scan of a path with an empty piece after its leading dots begins nowhere. -/
theorem of?_of_gap (hempty : root.isEmpty = false) (hgap : root.BeginsWithGap) :
    of? fs hideDots root = none := by
  obtain ⟨hrel, hhead⟩ := hgap
  obtain ⟨xs, hrest⟩ := List.head?_eq_some_iff.mp hhead
  rw [of?_of_relative hrel hempty, Option.filter_eq_none_iff]
  intro b hscan
  have hne : root.pieces ≠ [] := by
    intro hnil
    simp [hnil] at hrest
  rw [foldlM_step_start (directory_of_foldlM_step_start hne hscan), hrest,
    foldlM_step_start_nothing] at hscan
  cases hscan

theorem locate_eq_walk_dropWhile (hrel : root.isAbsolute = false) (hempty : root.isEmpty = false)
    (hcurrent : fs.at? fs.current = some .directory) :
    fs.locate root = fs.walk fs.current (root.pieces.dropWhile (· = ".")) := by
  rw [walk_dropWhile (fun _ hdot => .inr (of_decide_eq_true hdot)) hcurrent, FileSystem.locate_eq,
    hempty, FileSystem.origin, Path.steps, hrel]
  rfl

/-- A scan of a relative path begins, if at all, at the directory that the path leads to. -/
theorem start_of_relative (hrel : root.isAbsolute = false) (hempty : root.isEmpty = false)
    (h : of? fs hideDots root = some b) :
    fs.locate root = .ok b.place ∧ fs.at? b.place = some .directory ∧
      (b = start fs ∨ b.Shown fs) := by
  have hgap : ¬ root.BeginsWithGap := fun hgap => by
    rw [of?_of_gap hempty hgap] at h
    cases h
  have hne : root.pieces ≠ [] := fun hnil => by simp [Path.isEmpty, hnil] at hempty
  rw [of?_of_relative hrel hempty, Option.filter_eq_some_iff, decide_eq_true_eq] at h
  obtain ⟨hscan, hdir⟩ := h
  have hcurrent := directory_of_foldlM_step_start hne hscan
  rw [foldlM_step_start hcurrent] at hscan
  rw [locate_eq_walk_dropWhile hrel hempty hcurrent]
  cases hrest : root.pieces.dropWhile (· = ".") with
  | nil =>
      rw [hrest] at hscan
      obtain rfl := Option.some.inj hscan
      exact ⟨rfl, hdir, .inl rfl⟩
  | cons x xs =>
      have hx : x ≠ "" := fun heq => hgap ⟨hrel, by rw [hrest, heq]; rfl⟩
      have hdot := ne_dot_of_dropWhile hrest
      rw [hrest] at hscan
      obtain ⟨_, hwalk, _⟩ := (foldlM_step_start_eq_some_iff hx hdot).mp hscan
      exact ⟨hwalk, hdir, .inr (shown_of_foldlM_step_start hx hdot hscan).1⟩

/-- A scan that lists everything begins at the directory that a relative path leads to, unless an
empty piece follows the leading dots. -/
theorem exists_of?_of_relative (hrel : root.isAbsolute = false)
    (hlocate : fs.locate root = .ok place) (hdir : fs.at? place = some .directory)
    (hgap : ¬ root.BeginsWithGap) : ∃ b, of? fs false root = some b := by
  have hempty := FileSystem.not_isEmpty_of_locate hlocate
  obtain ⟨_, _, _, _, hwalk⟩ := FileSystem.walk_of_relative hrel hlocate
  have hcurrent := (FileSystem.walk_cons_eq_ok hwalk).1
  rw [locate_eq_walk_dropWhile hrel hempty hcurrent] at hlocate
  rw [of?_of_relative hrel hempty, foldlM_step_start hcurrent]
  cases hrest : root.pieces.dropWhile (· = ".") with
  | nil => exact ⟨start fs, if_pos (decide_eq_true hcurrent)⟩
  | cons x xs =>
      have hx : x ≠ "" := fun heq => hgap ⟨hrel, by rw [hrest, heq]; rfl⟩
      rw [hrest] at hlocate
      have hscan : (x :: xs).foldlM (step fs false) (start fs) =
          some ⟨Path.extend ⟨[x]⟩ xs, place⟩ :=
        (foldlM_step_start_eq_some_iff hx (ne_dot_of_dropWhile hrest)).mpr
          ⟨fun _ _ => rfl, hlocate, rfl⟩
      rw [hscan]
      exact ⟨_, if_pos (decide_eq_true hdir)⟩

/-- A scan of a path that is written with nothing begins at the root. -/
theorem of?_of_isEmpty (hempty : root.isEmpty = true) :
    of? fs hideDots root = some ⟨⟨["", ""]⟩, []⟩ := by
  have htail : root.pieces.tail = [] := by
    have hpieces : root.pieces = [] ∨ root.pieces = [""] := by simpa [Path.isEmpty] using hempty
    rcases hpieces with h | h
    · rw [h]
      rfl
    · rw [h]
      rfl
  rw [of?, hempty, Bool.or_true, if_pos rfl, htail]
  rfl

/-- A scan begins, if at all, at the directory that its path leads to. -/
theorem start_of_scan (hempty : root.isEmpty = false) (h : of? fs hideDots root = some b) :
    fs.locate root = .ok b.place ∧ fs.at? b.place = some .directory ∧
      (b = start fs ∨ b.Shown fs) := by
  cases habs : root.isAbsolute with
  | true =>
      have hopens := opens_of_isAbsolute habs h
      exact ⟨hopens.locate, hopens.directory, .inr hopens.shown⟩
  | false => exact start_of_relative habs hempty h

theorem exists_of?_of_directory (hlocate : fs.locate root = .ok place)
    (hdir : fs.at? place = some .directory) (hgap : ¬ root.BeginsWithGap) :
    ∃ b, of? fs false root = some b := by
  cases habs : root.isAbsolute with
  | true => exact exists_of?_of_locate habs hlocate hdir fun _ _ => rfl
  | false => exact exists_of?_of_relative habs hlocate hdir hgap

/-- What a scan shows leads to what it has found. -/
theorem locate_showEntry (h : of? fs hideDots root = some b) {names : Location}
    (hmem : names ∈ b.namesBelow fs) :
    fs.locate (b.showEntry ⟨names⟩) = .ok (b.place ++ names) := by
  have hstart : b = start fs ∨ b.Shown fs := by
    by_cases hempty : root.isEmpty = true
    · rw [of?_of_isEmpty hempty] at h
      obtain rfl := Option.some.inj h
      exact .inr (shown_slash fs []).1
    · exact (start_of_scan (Bool.eq_false_iff.mpr hempty) h).2.2
  rcases hstart with rfl | hshown
  · exact locate_showEntry_start hmem
  · exact (hshown.entry hmem).2.2

end ScanBase
end RuleBuild
