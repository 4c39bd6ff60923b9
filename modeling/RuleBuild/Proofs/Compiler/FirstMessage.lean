import RuleBuild.Proofs.Compiler.ParserMessage

/-!
# The first line that names a line

Of what a program has written among its errors, the first line counts whose first parser message has
a line number of ASCII digits and 32 bits. Lines are what stands between line feeds; a carriage
return at the end of one, the last one included, makes no difference.
-/
namespace RuleBuild

namespace Text

/-- Whether a text of ASCII digits spells a number. Zeros in front make no difference. -/
structure Spells (n : Nat) (ds : List Char) : Prop where
  ascii : ∀ d ∈ ds, d.isDigit = true
  value : Nat.ofDigitChars 10 ds 0 = n

theorem number?_eq_some_iff {ds : List Char} {n : Nat} :
    number? ds = some n ↔ ds ≠ [] ∧ Spells n ds := by
  have hvalue : ds.foldl (fun n c => n * 10 + (c.toNat - '0'.toNat)) 0 =
      Nat.ofDigitChars 10 ds 0 := by
    simp only [Nat.ofDigitChars_eq_foldl, Nat.mul_comm]
  rw [number?, hvalue]
  constructor
  · intro h
    split at h
    · cases h
    · rename_i hdigits
      simp only [Bool.or_eq_true, Bool.not_eq_true', not_or, Bool.not_eq_false, List.isEmpty_iff,
        List.all_eq_true] at hdigits
      exact ⟨hdigits.1, hdigits.2, Option.some.inj h⟩
  · rintro ⟨hne, hascii, rfl⟩
    have hall : ds.all Char.isDigit = true := List.all_eq_true.mpr hascii
    have hempty : ds.isEmpty = false := by simpa using hne
    simp [hall, hempty]

/-- A line is what is left of it, or this and a carriage return. -/
theorem dropReturn_cases (line : List Char) :
    dropReturn line = line ∨ line = dropReturn line ++ ['\r'] := by
  rw [dropReturn]
  split
  · rename_i hlast
    obtain ⟨front, rfl⟩ := List.getLast?_eq_some_iff.mp hlast
    exact .inr (by rw [List.dropLast_concat])
  · exact .inl rfl

theorem trimChars_append_blank {c : Char} (h : isBlank c = true) (cs : List Char) :
    trimChars (cs ++ [c]) = trimChars cs := by
  rw [trimChars, trimChars, List.dropWhile_append]
  split
  · rename_i hblank
    rw [List.isEmpty_iff.mp hblank]
    simp [h]
  · rw [List.reverse_concat, List.dropWhile_cons_of_pos h]

end Text

namespace ParserMessage

variable {cs line : List Char}

/-- Whether the first message in a line of text is about the line `n`. -/
def IsAbout (n : UInt32) (cs : List Char) : Prop :=
  ∃ line, IsFirst line cs ∧ Text.Spells n.toNat line

theorem IsFirst.ne_nil (h : IsFirst line cs) : line ≠ [] := by
  obtain ⟨_, _, _, ⟨_, _, _, _, hline, _⟩, _⟩ := h
  exact hline.nonempty

theorem isAbout_iff_names {n : UInt32} : IsAbout n cs ↔ Names n.toNat cs := by
  refine exists_congr fun line => and_congr_right fun hfirst => ?_
  rw [Text.number?_eq_some_iff, and_iff_right hfirst.ne_nil, and_iff_left n.toNat_lt]

theorem ofLine?_eq_some_iff_isAbout {o : Outcome} :
    ofLine? cs = some o ↔
      ∃ n, IsAbout n cs ∧ o = .parseFailure (String.ofList (Text.trimChars cs)) (some n) := by
  rw [ofLine?_eq_some_iff]
  constructor
  · rintro ⟨n, hn, rfl⟩
    have hback : (UInt32.ofNat n).toNat = n := by
      obtain ⟨_, _, _, hlt⟩ := hn
      exact UInt32.toNat_ofNat_of_lt' hlt
    exact ⟨.ofNat n, isAbout_iff_names.mpr (hback.symm ▸ hn), rfl⟩
  · rintro ⟨n, hn, rfl⟩
    exact ⟨n.toNat, isAbout_iff_names.mp hn, by rw [UInt32.ofNat_toNat]⟩

theorem ofLine?_eq_none_iff : ofLine? cs = none ↔ ∀ n, ¬ IsAbout n cs := by
  rw [Option.eq_none_iff_forall_ne_some]
  constructor
  · intro h n hn
    exact h _ (ofLine?_eq_some_iff_isAbout.mpr ⟨n, hn, rfl⟩)
  · intro h o ho
    obtain ⟨n, hn, _⟩ := ofLine?_eq_some_iff_isAbout.mp ho
    exact h n hn

/-! ## Carriage returns -/

/-- A message does not reach to a carriage return after it. -/
theorem begins_append_return : Begins line (cs ++ ['\r']) ↔ Begins line cs := by
  constructor
  · rintro ⟨code, column, rest, hcode, hline, hcolumn, hcs⟩
    rcases List.eq_nil_or_concat rest with rfl | ⟨front, last, rfl⟩
    · have hlast : cs ++ ['\r'] =
          "[ERR ".toList ++ code ++ "] Line ".toList ++ line ++ [':'] ++ [column] := by
        simpa using hcs
      obtain ⟨_, rfl⟩ := List.append_singleton_inj.mp hlast
      exact absurd hcolumn (by decide)
    · have hlast : cs ++ ['\r'] = "[ERR ".toList ++
          (code ++ ("] Line ".toList ++ (line ++ ':' :: column :: front))) ++ [last] := by
        simpa using hcs
      obtain ⟨hfront, _⟩ := List.append_singleton_inj.mp hlast
      exact ⟨code, column, front, hcode, hline, hcolumn, hfront⟩
  · rintro ⟨code, column, rest, hcode, hline, hcolumn, rfl⟩
    exact ⟨code, column, rest ++ ['\r'], hcode, hline, hcolumn, by simp⟩

theorem line?_append_return (cs : List Char) : line? (cs ++ ['\r']) = line? cs := by
  have hfront (cs : List Char) : lineAtFront? (cs ++ ['\r']) = lineAtFront? cs :=
    Option.ext fun line => by
      rw [lineAtFront?_eq_some_iff, lineAtFront?_eq_some_iff, begins_append_return]
  induction cs with
  | nil => rfl
  | cons c cs ih => rw [List.cons_append, line?, line?, ← List.cons_append, hfront, ih]

theorem ofLine?_dropReturn (cs : List Char) : ofLine? (Text.dropReturn cs) = ofLine? cs := by
  rcases Text.dropReturn_cases cs with h | h
  · rw [h]
  · rw [ofLine?, ofLine?]
    conv => rhs; rw [h]
    rw [line?_append_return, Text.trimChars_append_blank (by decide)]

/-! ## All lines -/

/-- The lines of a text: what stands between line feeds, without a carriage return at the end. -/
def linesOf (errors : String) : List (List Char) :=
  (Text.split '\n' errors.toList).map Text.dropReturn

/-- Nothing is found in a line without characters, so the text after the last line feed may be
nothing. -/
theorem find?_eq_findSome? (errors : String) :
    find? errors = (linesOf errors).findSome? ofLine? := by
  obtain ⟨front, last, hsplit⟩ : ∃ front last, Text.split '\n' errors.toList = front ++ [last] :=
    ⟨_, _, (List.dropLast_append_getLast (Text.split_ne_nil '\n' errors.toList)).symm⟩
  have hlast : ([last].filter (· ≠ [])).findSome? ofLine? = ofLine? last := by
    cases last with
    | nil => rfl
    | cons c cs => simp
  have hlines : Text.lines errors.toList =
      front.map Text.dropReturn ++ [last].filter (· ≠ []) := by
    simp [Text.lines, hsplit]
  have hmapped : linesOf errors = front.map Text.dropReturn ++ [Text.dropReturn last] := by
    simp [linesOf, hsplit]
  rw [find?, hlines, hmapped, List.findSome?_append, List.findSome?_append, hlast,
    List.findSome?_singleton, ofLine?_dropReturn]

/-- What comes before a line feed is looked at first. -/
theorem find?_append (line rest : String) :
    find? (line ++ "\n" ++ rest) = (find? line).or (find? rest) := by
  have hsplit : linesOf (line ++ "\n" ++ rest) = linesOf line ++ linesOf rest := by
    simp [linesOf, Text.split_append]
  rw [find?_eq_findSome?, hsplit, List.findSome?_append, ← find?_eq_findSome?, ← find?_eq_findSome?]

/-- The first line of text that is about a line is the failure found, with the line it is about and
itself as message. Nothing is found exactly if no line of text is about one, and such lines hide
nothing that follows them. -/
theorem first_message_found (errors : String) :
    (∀ o, find? errors = some o ↔
      ∃ before text after n, linesOf errors = before ++ text :: after ∧
        (∀ other ∈ before, ∀ m, ¬ IsAbout m other) ∧ IsAbout n text ∧
          o = .parseFailure (String.ofList (Text.trimChars text)) (some n)) ∧
    (find? errors = none ↔ ∀ text ∈ linesOf errors, ∀ n, ¬ IsAbout n text) ∧
    ∀ earlier : String, (∀ text ∈ linesOf earlier, ∀ n, ¬ IsAbout n text) →
      find? (earlier ++ "\n" ++ errors) = find? errors := by
  have hnone (errors : String) :
      find? errors = none ↔ ∀ text ∈ linesOf errors, ∀ n, ¬ IsAbout n text := by
    simp only [find?_eq_findSome?, List.findSome?_eq_none_iff, ofLine?_eq_none_iff]
  refine ⟨fun o => ?_, hnone errors, fun earlier hearlier => ?_⟩
  · rw [find?_eq_findSome?, List.findSome?_eq_some_iff]
    simp only [ofLine?_eq_some_iff_isAbout, ofLine?_eq_none_iff]
    constructor
    · rintro ⟨before, text, after, hlines, ⟨n, hn, ho⟩, hbefore⟩
      exact ⟨before, text, after, n, hlines, hbefore, hn, ho⟩
    · rintro ⟨before, text, after, n, hlines, hbefore, hn, ho⟩
      exact ⟨before, text, after, hlines, ⟨n, hn, ho⟩, hbefore⟩
  · rw [find?_append, (hnone earlier).mpr hearlier, Option.none_or]

/-- A line number beyond 32 bits is passed over, and so is the second message of its line. -/
theorem far_line_passed_over :
    let earlier := "drlc 7.1\n[ERR 1] Line 4294967296:1 too far [ERR 2] Line 5:1"
    let errors := "  [ERR 101] Line 007:4 no viable alternative\r\nmore"
    (∀ text ∈ linesOf earlier, ∀ n, ¬ IsAbout n text) ∧
      find? (earlier ++ "\n" ++ errors) = find? errors ∧
      (find? errors).map Outcome.diagnostics =
        some [.error "[ERR 101] Line 007:4 no viable alternative" (some 7)] := by
  intro earlier errors
  obtain ⟨_, hnone, _⟩ := first_message_found earlier
  obtain ⟨_, _, hpassed⟩ := first_message_found errors
  have hearlier : ∀ text ∈ linesOf earlier, ∀ n, ¬ IsAbout n text :=
    hnone.mp (by decide +kernel)
  exact ⟨hearlier, hpassed earlier hearlier, by decide +kernel⟩

end ParserMessage
end RuleBuild
