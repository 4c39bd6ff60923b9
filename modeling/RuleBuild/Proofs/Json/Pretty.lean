import RuleBuild.Proofs.Json.Literal
import RuleBuild.Proofs.Text.Utf8

/-!
# Values read back from their text

A value without doubles, whose whole numbers fit 64 bits and whose containers are not nested too
deeply, is read back from the text over several lines that is written for it.
-/
namespace RuleBuild.Json

mutual

/-- The tree that the text of a value spells out. -/
def raw : Json → Raw
  | .null => .null
  | .bool b => .bool b
  | .number n => .number n
  | .string s => .string s
  | .array items => .array (raws items)
  | .object members => .object (rawMembers members)

/-- The trees of items. -/
def raws : List Json → List Raw
  | [] => []
  | x :: xs => raw x :: raws xs

/-- The trees of members. -/
def rawMembers : List (String × Json) → List (Option String × Raw)
  | [] => []
  | (key, x) :: ms => (some key, raw x) :: rawMembers ms

end

theorem raws_eq_map (items : List Json) : raws items = items.map raw := by
  induction items with
  | nil => rfl
  | cons x xs ih => rw [raws, ih, List.map_cons]

theorem rawMembers_eq_map (members : List (String × Json)) :
    rawMembers members = members.map fun m => (some m.1, m.2.raw) := by
  induction members with
  | nil => rfl
  | cons m ms ih => rw [rawMembers, ih, List.map_cons]

/-- Values whose text is read back where containers may be nested `room` levels deep. -/
inductive Plain : Nat → Json → Prop
  | null {room : Nat} : Plain room .null
  | bool {room : Nat} {b : Bool} : Plain room (.bool b)
  | number {room : Nat} {i : Int} (h : Fits i) : Plain room (.number (.whole i))
  | string {room : Nat} {s : String} : Plain room (.string s)
  | array {room : Nat} {items : List Json} (h : ∀ x ∈ items, Plain room x) :
      Plain (room + 1) (.array items)
  | object {room : Nat} {members : List (String × Json)} (h : ∀ m ∈ members, Plain room m.2) :
      Plain (room + 1) (.object members)

attribute [simp] Plain.null Plain.bool Plain.string

@[simp] theorem plain_number_iff {room : Nat} {i : Int} :
    Plain room (.number (.whole i)) ↔ Fits i := by
  constructor
  · rintro ⟨⟩
    assumption
  · exact .number

@[simp] theorem plain_array_iff {room : Nat} {items : List Json} :
    Plain (room + 1) (.array items) ↔ ∀ x ∈ items, Plain room x := by
  constructor
  · rintro ⟨⟩
    assumption
  · exact .array

@[simp] theorem plain_object_iff {room : Nat} {members : List (String × Json)} :
    Plain (room + 1) (.object members) ↔ ∀ m ∈ members, Plain room m.2 := by
  constructor
  · rintro ⟨⟩
    assumption
  · exact .object

/-! ## Space between tokens -/

theorem skipSpace_lineBreak (level : Nat) (gs : Glyphs) :
    skipSpace ((lineBreak level).map some ++ gs) = skipSpace gs := by
  have hspace : ∀ g ∈ (lineBreak level).map some, isSpace g = true := by
    intro g hg
    obtain ⟨c, hc, rfl⟩ := List.mem_map.mp hg
    rcases List.mem_cons.mp hc with rfl | hc
    · rfl
    · rw [List.eq_of_mem_replicate hc]
      rfl
  exact List.dropWhile_append_of_pos hspace

theorem skipSpace_cons {c : Char} (h : isSpace (some c) = false) (gs : Glyphs) :
    skipSpace (some c :: gs) = some c :: gs := by
  rw [skipSpace, List.dropWhile_cons_of_neg (by simp [h])]

/-- Space before a value makes no difference. -/
theorem readValue_congr {gs gs' : Glyphs} (h : skipSpace gs = skipSpace gs') (fuel room : Nat) :
    readValue fuel room gs = readValue fuel room gs' := by
  cases fuel with
  | zero => rfl
  | succ fuel => simp only [readValue, h]

theorem readItems_congr {gs gs' : Glyphs} (h : skipSpace gs = skipSpace gs') (fuel room : Nat)
    (done : List Raw) : readItems fuel room done gs = readItems fuel room done gs' := by
  cases fuel with
  | zero => rfl
  | succ fuel => simp only [readItems, readValue_congr h]

theorem readMembers_congr {gs gs' : Glyphs} (h : skipSpace gs = skipSpace gs') (fuel room : Nat)
    (done : List (Option String × Raw)) :
    readMembers fuel room done gs = readMembers fuel room done gs' := by
  cases fuel with
  | zero => rfl
  | succ fuel => simp only [readMembers, h]

theorem length_lineBreak_pos (level : Nat) : 0 < (lineBreak level).length := by
  simp [lineBreak]

theorem ends_lineBreak (level : Nat) (gs : Glyphs) : Ends ((lineBreak level).map some ++ gs) := by
  intro g hg
  cases hg
  exact .inr rfl

theorem ends_comma (gs : Glyphs) : Ends (some ',' :: gs) := by
  intro g hg
  cases hg
  exact .inl rfl

/-! ## Values -/

/-- Whether the text of a value is read as the tree of the value. -/
def ReadsBack (room : Nat) (v : Json) : Prop :=
  ∀ fuel level gs, (prettyChars level v).length < fuel → Ends gs →
    readValue fuel room ((prettyChars level v).map some ++ gs) = some (v.raw, gs)

theorem readValue_quoted (fuel room : Nat) (s : String) (gs : Glyphs) :
    readValue (fuel + 1) room ((quoted s).map some ++ gs) = some (.string s, gs) := by
  obtain ⟨parts, hread, htext⟩ := readString_quoted s gs
  have hquoted : (quoted s).map some ++ gs =
      some '"' :: ((s.toList.flatMap escape ++ ['"']).map some ++ gs) := by
    simp [quoted]
  rw [hquoted, readValue, skipSpace_cons (by decide)]
  simp only [hread, Option.map_some, htext]
  rfl

theorem isSpace_of_isDigit {c : Char} (h : c.isDigit = true) : isSpace (some c) = false := by
  cases hspace : isSpace (some c) with
  | false => rfl
  | true =>
      simp only [isSpace, Bool.or_eq_true, decide_eq_true_eq] at hspace
      rcases hspace with ((rfl | rfl) | rfl) | rfl
      all_goals exact absurd h (by decide)

theorem readValue_of_digit {c : Char} (hc : c.isDigit = true) (fuel room : Nat) (gs : Glyphs) :
    readValue (fuel + 1) room (some c :: gs) =
      (readLiteral false (some c :: gs)).map fun (l, gs) => (numberOf l, gs) := by
  rw [readValue, skipSpace_cons (isSpace_of_isDigit hc)]
  split
  case h_8 => rfl
  all_goals
    rename_i heq
    cases heq
    exact absurd hc (by decide)

theorem toDigits_eq_cons (n : Nat) :
    ∃ c cs, Nat.toDigits 10 n = c :: cs ∧ c.isDigit = true := by
  cases hdigits : Nat.toDigits 10 n with
  | nil => exact absurd hdigits Nat.toDigits_ne_nil
  | cons c cs =>
      refine ⟨c, cs, rfl, Nat.isDigit_of_mem_toDigits (b := 10) (n := n) (by decide) (by decide) ?_⟩
      rw [hdigits]
      exact List.mem_cons_self

theorem numberChars_whole (i : Int) : numberChars (.whole i) =
    if 0 ≤ i then Nat.toDigits 10 i.toNat else '-' :: Nat.toDigits 10 (-i).toNat := by
  rw [numberChars, Int.toString_eq_repr, Int.repr_eq_if]
  split
  · exact Nat.toList_repr
  · rw [String.toList_append, Nat.toList_repr]
    rfl

theorem readValue_nonneg (fuel room : Nat) {n : Nat} (h : n ≤ greatestSignificand) {gs : Glyphs}
    (hends : Ends gs) :
    readValue (fuel + 1) room ((Nat.toDigits 10 n).map some ++ gs) =
      some (.number (.whole n), gs) := by
  have hliteral := readLiteral_decimals false n hends
  obtain ⟨c, cs, hdigits, hc⟩ := toDigits_eq_cons n
  rw [hdigits, List.map_cons, List.cons_append] at hliteral ⊢
  simp only [readValue_of_digit hc, hliteral, Option.map_some, numberOf, number?_of_nonneg h]

theorem readValue_neg (fuel room : Nat) {n : Nat} (hpos : 0 < n) (h : n ≤ 0x8000000000000000)
    {gs : Glyphs} (hends : Ends gs) :
    readValue (fuel + 1) room (some '-' :: ((Nat.toDigits 10 n).map some ++ gs)) =
      some (.number (.whole (-n)), gs) := by
  rw [readValue, skipSpace_cons (by decide)]
  simp only [readLiteral_decimals true n hends, Option.map_some, numberOf, number?_of_neg hpos h]

theorem readValue_whole (fuel room : Nat) {i : Int} (h : Fits i) {gs : Glyphs} (hends : Ends gs) :
    readValue (fuel + 1) room ((numberChars (.whole i)).map some ++ gs) =
      some (.number (.whole i), gs) := by
  obtain ⟨hlow, hhigh⟩ := h
  rw [numberChars_whole]
  split
  · rename_i hsign
    have hfits : i.toNat ≤ greatestSignificand := by
      rw [greatestSignificand]
      omega
    rw [readValue_nonneg fuel room hfits hends, Int.toNat_of_nonneg hsign]
  · rename_i hsign
    have hfits : (-i).toNat ≤ 0x8000000000000000 := by omega
    have hvalue : -(((-i).toNat : Nat) : Int) = i := by omega
    rw [List.map_cons, List.cons_append, readValue_neg fuel room (by omega) hfits hends, hvalue]

/-- The text of a value begins with a character that is no space and closes nothing. -/
theorem prettyChars_head {room : Nat} {v : Json} (h : Plain room v) (level : Nat) :
    ∃ c cs, prettyChars level v = c :: cs ∧ isSpace (some c) = false ∧ c ≠ ']' := by
  cases h with
  | null => exact ⟨'n', _, rfl, by decide, by decide⟩
  | @bool _ b =>
      cases b with
      | false => exact ⟨'f', _, rfl, by decide, by decide⟩
      | true => exact ⟨'t', _, rfl, by decide, by decide⟩
  | @number _ i h =>
      rw [prettyChars, chars, numberChars_whole]
      split
      · obtain ⟨c, cs, hdigits, hc⟩ := toDigits_eq_cons i.toNat
        refine ⟨c, cs, hdigits, isSpace_of_isDigit hc, ?_⟩
        rintro rfl
        exact absurd hc (by decide)
      · exact ⟨'-', _, rfl, by decide, by decide⟩
  | string => exact ⟨'"', _, rfl, by decide, by decide⟩
  | @array _ items _ =>
      cases items with
      | nil => exact ⟨'[', _, rfl, by decide, by decide⟩
      | cons x xs => exact ⟨'[', _, rfl, by decide, by decide⟩
  | @object _ members _ =>
      cases members with
      | nil => exact ⟨'\x7b', _, rfl, by decide, by decide⟩
      | cons m ms => exact ⟨'\x7b', _, rfl, by decide, by decide⟩

/-! ## Containers -/

/-- The text of items between their brackets, without the line break before the closing one. -/
def itemsText (level : Nat) (items : List Json) : List Char :=
  commas ((prettyItems level items).map (lineBreak level ++ ·))

/-- The text of members between their brackets, without the line break before the closing one. -/
def membersText (level : Nat) (members : List (String × Json)) : List Char :=
  commas ((prettyMembers level members).map (lineBreak level ++ ·))

theorem itemsText_cons_cons (level : Nat) (x y : Json) (items : List Json) :
    itemsText level (x :: y :: items) =
      lineBreak level ++ prettyChars level x ++ ',' :: itemsText level (y :: items) := rfl

theorem itemsText_singleton (level : Nat) (x : Json) :
    itemsText level [x] = lineBreak level ++ prettyChars level x := rfl

theorem membersText_cons_cons (level : Nat) (m n : String × Json) (ms : List (String × Json)) :
    membersText level (m :: n :: ms) =
      lineBreak level ++ (quoted m.1 ++ ':' :: ' ' :: prettyChars level m.2) ++
        ',' :: membersText level (n :: ms) := rfl

theorem membersText_singleton (level : Nat) (m : String × Json) :
    membersText level [m] =
      lineBreak level ++ (quoted m.1 ++ ':' :: ' ' :: prettyChars level m.2) := rfl

theorem readValue_lineBreak (fuel room level : Nat) (gs : Glyphs) :
    readValue fuel room ((lineBreak level).map some ++ gs) = readValue fuel room gs :=
  readValue_congr (skipSpace_lineBreak level gs) fuel room

theorem readItems_itemsText {room : Nat} {items : List Json} (hne : items ≠ [])
    (h : ∀ x ∈ items, ReadsBack room x) (fuel level : Nat) (done : List Raw) {close gs : Glyphs}
    (hfuel : (itemsText level items).length < fuel) (hends : Ends close)
    (hclose : skipSpace close = some ']' :: gs) :
    readItems fuel (room + 1) done ((itemsText level items).map some ++ close) =
      some (.array (done.reverse ++ raws items), gs) := by
  induction items generalizing fuel done with
  | nil => exact absurd rfl hne
  | cons x items ih =>
      obtain ⟨hx, hitems⟩ := List.forall_mem_cons.mp h
      -- The line break before the item pays for the step.
      have hbreak := length_lineBreak_pos level
      obtain ⟨fuel, rfl⟩ : ∃ n, fuel = n + 1 := ⟨fuel - 1, by omega⟩
      cases items with
      | nil =>
          rw [itemsText_singleton, List.length_append] at hfuel
          rw [itemsText_singleton, List.map_append, List.append_assoc, readItems,
            readValue_lineBreak, Nat.add_sub_cancel, hx fuel level close (by omega) hends]
          simp only [hclose, container, List.reverse_cons, raws]
      | cons y items =>
          rw [itemsText_cons_cons, List.length_append, List.length_append,
            List.length_cons] at hfuel
          rw [itemsText_cons_cons, List.map_append, List.map_append, List.map_cons,
            List.append_assoc, List.append_assoc, List.cons_append, readItems, readValue_lineBreak,
            Nat.add_sub_cancel, hx fuel level _ (by omega) (ends_comma _)]
          simp only [skipSpace_cons (by decide : isSpace (some ',') = false)]
          rw [ih (by simp) hitems fuel (x.raw :: done) (by omega)]
          simp [raws]

theorem readMembers_member {room : Nat} {m : String × Json} (h : ReadsBack room m.2)
    (fuel level : Nat) (done : List (Option String × Raw)) {rest : Glyphs}
    (hfuel : (prettyChars level m.2).length < fuel) (hends : Ends rest) :
    readMembers (fuel + 1) (room + 1) done
        ((lineBreak level ++ (quoted m.1 ++ ':' :: ' ' :: prettyChars level m.2)).map some ++
          rest) =
      match skipSpace rest with
      | some ',' :: gs => readMembers fuel (room + 1) ((some m.1, m.2.raw) :: done) gs
      | some '\x7d' :: gs => some (.object ((some m.1, m.2.raw) :: done).reverse, gs)
      | _ => none := by
  obtain ⟨parts, hread, htext⟩ := readString_quoted m.1
    (some ':' :: some ' ' :: ((prettyChars level m.2).map some ++ rest))
  have hmember : (quoted m.1 ++ ':' :: ' ' :: prettyChars level m.2).map some ++ rest =
      some '"' :: ((m.1.toList.flatMap escape ++ ['"']).map some ++
        some ':' :: some ' ' :: ((prettyChars level m.2).map some ++ rest)) := by
    simp [quoted]
  have hspace : ∀ gs, skipSpace (some ' ' :: gs) = skipSpace gs := fun gs => rfl
  rw [List.map_append, List.append_assoc, hmember,
    readMembers_congr (skipSpace_lineBreak level _), readMembers, skipSpace_cons (by decide)]
  simp only [hread, htext, skipSpace_cons (by decide : isSpace (some ':') = false),
    Nat.add_sub_cancel]
  rw [readValue_congr (hspace _), h fuel level rest hfuel hends]
  rfl

theorem readMembers_membersText {room : Nat} {members : List (String × Json)} (hne : members ≠ [])
    (h : ∀ m ∈ members, ReadsBack room m.2) (fuel level : Nat) (done : List (Option String × Raw))
    {close gs : Glyphs} (hfuel : (membersText level members).length < fuel) (hends : Ends close)
    (hclose : skipSpace close = some '\x7d' :: gs) :
    readMembers fuel (room + 1) done ((membersText level members).map some ++ close) =
      some (.object (done.reverse ++ rawMembers members), gs) := by
  induction members generalizing fuel done with
  | nil => exact absurd rfl hne
  | cons m members ih =>
      obtain ⟨hm, hmembers⟩ := List.forall_mem_cons.mp h
      have hbreak := length_lineBreak_pos level
      obtain ⟨fuel, rfl⟩ : ∃ n, fuel = n + 1 := ⟨fuel - 1, by omega⟩
      cases members with
      | nil =>
          rw [membersText_singleton, List.length_append, List.length_append, List.length_cons,
            List.length_cons] at hfuel
          rw [membersText_singleton, readMembers_member hm fuel level done (by omega) hends, hclose]
          simp [rawMembers]
      | cons n members =>
          rw [membersText_cons_cons, List.length_append, List.length_append, List.length_append,
            List.length_cons, List.length_cons, List.length_cons] at hfuel
          rw [membersText_cons_cons, List.map_append, List.map_cons, List.append_assoc,
            List.cons_append, readMembers_member hm fuel level done (by omega) (ends_comma _)]
          simp only [skipSpace_cons (by decide : isSpace (some ',') = false)]
          rw [ih (by simp) hmembers fuel ((some m.1, m.2.raw) :: done) (by omega)]
          simp [rawMembers]

/-- The first token after an opening bracket begins the first item. -/
theorem readValue_array (fuel room : Nat) {c : Char} {rest gs : Glyphs}
    (hrest : skipSpace rest = some c :: gs) (hspace : isSpace (some c) = false) (hc : c ≠ ']') :
    readValue (fuel + 1) room (some '[' :: rest) = readItems fuel room [] rest := by
  rw [readValue, skipSpace_cons (by decide)]
  simp only [hrest]
  split
  · rename_i heq
    cases heq
    exact absurd rfl hc
  · exact readItems_congr ((skipSpace_cons hspace gs).trans hrest.symm) fuel room []

theorem readValue_object (fuel room : Nat) {rest gs : Glyphs}
    (hrest : skipSpace rest = some '"' :: gs) :
    readValue (fuel + 1) room (some '\x7b' :: rest) = readMembers fuel room [] rest := by
  rw [readValue, skipSpace_cons (by decide)]
  simp only [hrest]
  exact readMembers_congr ((skipSpace_cons (by decide) gs).trans hrest.symm) fuel room []

theorem skipSpace_itemsText {room : Nat} {x : Json} (h : Plain room x) (level : Nat)
    (items : List Json) (gs : Glyphs) :
    ∃ c rest, skipSpace ((itemsText level (x :: items)).map some ++ gs) = some c :: rest ∧
      isSpace (some c) = false ∧ c ≠ ']' := by
  obtain ⟨c, cs, hx, hspace, hc⟩ := prettyChars_head h level
  cases items with
  | nil =>
      refine ⟨c, cs.map some ++ gs, ?_, hspace, hc⟩
      rw [itemsText_singleton, List.map_append, List.append_assoc, skipSpace_lineBreak, hx,
        List.map_cons, List.cons_append, skipSpace_cons hspace]
  | cons y items =>
      refine ⟨c, cs.map some ++ ((',' :: itemsText level (y :: items)).map some ++ gs), ?_, hspace,
        hc⟩
      rw [itemsText_cons_cons, List.append_assoc, List.map_append, List.append_assoc,
        skipSpace_lineBreak, hx, List.map_append, List.map_cons, List.append_assoc,
        List.cons_append, skipSpace_cons hspace]

theorem skipSpace_membersText (level : Nat) (m : String × Json) (members : List (String × Json))
    (gs : Glyphs) :
    ∃ rest, skipSpace ((membersText level (m :: members)).map some ++ gs) = some '"' :: rest := by
  cases members with
  | nil =>
      rw [membersText_singleton, List.map_append, List.append_assoc, skipSpace_lineBreak]
      exact ⟨_, skipSpace_cons (by decide) _⟩
  | cons n members =>
      rw [membersText_cons_cons, List.append_assoc, List.map_append, List.append_assoc,
        skipSpace_lineBreak]
      exact ⟨_, skipSpace_cons (by decide) _⟩

theorem prettyChars_array (level : Nat) (x : Json) (items : List Json) :
    prettyChars level (.array (x :: items)) =
      '[' :: (itemsText (level + 1) (x :: items) ++ (lineBreak level ++ [']'])) := by
  simp [prettyChars, prettyItems, block, itemsText]

theorem prettyChars_object (level : Nat) (m : String × Json) (members : List (String × Json)) :
    prettyChars level (.object (m :: members)) =
      '\x7b' :: (membersText (level + 1) (m :: members) ++ (lineBreak level ++ ['\x7d'])) := by
  simp [prettyChars, prettyMembers, block, membersText]

theorem readsBack_array {room : Nat} {x : Json} {items : List Json}
    (hplain : Plain room x) (h : ∀ y ∈ x :: items, ReadsBack room y) :
    ReadsBack (room + 1) (.array (x :: items)) := by
  intro fuel level gs hfuel _
  obtain ⟨fuel, rfl⟩ : ∃ n, fuel = n + 1 := ⟨fuel - 1, by omega⟩
  rw [prettyChars_array, List.length_cons, List.length_append] at hfuel
  obtain ⟨c, rest, hrest, hspace, hc⟩ := skipSpace_itemsText hplain (level + 1) items
    ((lineBreak level).map some ++ some ']' :: gs)
  have hclose : skipSpace ((lineBreak level).map some ++ some ']' :: gs) = some ']' :: gs := by
    rw [skipSpace_lineBreak, skipSpace_cons (by decide)]
  have htext : (prettyChars level (.array (x :: items))).map some ++ gs =
      some '[' :: ((itemsText (level + 1) (x :: items)).map some ++
        ((lineBreak level).map some ++ some ']' :: gs)) := by
    rw [prettyChars_array]
    simp
  rw [htext, readValue_array fuel _ hrest hspace hc,
    readItems_itemsText (by simp) h fuel (level + 1) [] (by omega) (ends_lineBreak _ _) hclose]
  rfl

theorem readsBack_object {room : Nat} {m : String × Json} {members : List (String × Json)}
    (h : ∀ n ∈ m :: members, ReadsBack room n.2) :
    ReadsBack (room + 1) (.object (m :: members)) := by
  intro fuel level gs hfuel _
  obtain ⟨fuel, rfl⟩ : ∃ n, fuel = n + 1 := ⟨fuel - 1, by omega⟩
  rw [prettyChars_object, List.length_cons, List.length_append] at hfuel
  obtain ⟨rest, hrest⟩ := skipSpace_membersText (level + 1) m members
    ((lineBreak level).map some ++ some '\x7d' :: gs)
  have hclose : skipSpace ((lineBreak level).map some ++ some '\x7d' :: gs) =
      some '\x7d' :: gs := by
    rw [skipSpace_lineBreak, skipSpace_cons (by decide)]
  have htext : (prettyChars level (.object (m :: members))).map some ++ gs =
      some '\x7b' :: ((membersText (level + 1) (m :: members)).map some ++
        ((lineBreak level).map some ++ some '\x7d' :: gs)) := by
    rw [prettyChars_object]
    simp
  rw [htext, readValue_object fuel _ hrest,
    readMembers_membersText (by simp) h fuel (level + 1) [] (by omega) (ends_lineBreak _ _) hclose]
  rfl

/-- A plain value is read back from its text, wherever the text stands and whatever follows. -/
theorem readsBack_of_plain {room : Nat} {v : Json} (h : Plain room v) : ReadsBack room v := by
  induction h with
  | null =>
      intro fuel level gs hfuel _
      obtain ⟨fuel, rfl⟩ : ∃ n, fuel = n + 1 := ⟨fuel - 1, by omega⟩
      rfl
  | @bool room b =>
      intro fuel level gs hfuel _
      obtain ⟨fuel, rfl⟩ : ∃ n, fuel = n + 1 := ⟨fuel - 1, by omega⟩
      cases b with
      | false => rfl
      | true => rfl
  | number h =>
      intro fuel level gs hfuel hends
      obtain ⟨fuel, rfl⟩ : ∃ n, fuel = n + 1 := ⟨fuel - 1, by omega⟩
      exact readValue_whole fuel _ h hends
  | string =>
      intro fuel level gs hfuel _
      obtain ⟨fuel, rfl⟩ : ∃ n, fuel = n + 1 := ⟨fuel - 1, by omega⟩
      exact readValue_quoted fuel _ _ gs
  | @array room items h ih =>
      cases items with
      | nil =>
          intro fuel level gs hfuel _
          obtain ⟨fuel, rfl⟩ : ∃ n, fuel = n + 1 := ⟨fuel - 1, by omega⟩
          rfl
      | cons x items => exact readsBack_array (h x List.mem_cons_self) ih
  | @object room members h ih =>
      cases members with
      | nil =>
          intro fuel level gs hfuel _
          obtain ⟨fuel, rfl⟩ : ∃ n, fuel = n + 1 := ⟨fuel - 1, by omega⟩
          rfl
      | cons m members => exact readsBack_object ih

/-- The bytes of a plain value's text are read as the tree of the value. -/
theorem ofBytes?_pretty {v : Json} (h : Plain greatestDepth v) :
    Raw.ofBytes? (bytesOf v.pretty) = some v.raw := by
  have hends : Ends [] := fun g hg => nomatch hg
  have hread := readsBack_of_plain h ((prettyChars 0 v).length + 1) 0 [] (by omega) hends
  rw [List.append_nil] at hread
  rw [Raw.ofBytes?, Utf8.chars_bytesOf, pretty, String.toList_ofList, readGlyphs, List.length_map,
    hread]
  rfl

end RuleBuild.Json
