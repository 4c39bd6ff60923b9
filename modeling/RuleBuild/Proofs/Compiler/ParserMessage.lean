import Mathlib.Data.List.Basic
import RuleBuild.Compiler.Output
import RuleBuild.Proofs.Isolation

/-!
# Parser messages among the errors of a program

What counts as a message `[ERR n] Line l:c`, said without the reader: where one begins, which is the
first in a text, and which of them name a line. The reader finds exactly these.
-/
namespace RuleBuild

namespace Text

/-- Digits of any script, at least one. -/
structure IsNumeral (ds : List Char) : Prop where
  nonempty : ds ≠ []
  digits : ∀ d ∈ ds, isDigit d = true

end Text

namespace ParserMessage

variable {cs line : List Char}

/-- Whether a text begins with a message about the given line number. One digit of the column is
enough, whatever follows it. -/
def Begins (line cs : List Char) : Prop :=
  ∃ code column rest, Text.IsNumeral code ∧ Text.IsNumeral line ∧ Text.isDigit column = true ∧
    cs = "[ERR ".toList ++ (code ++ ("] Line ".toList ++ (line ++ ':' :: column :: rest)))

/-- Whether the first message in a text is about the given line number: one begins somewhere, and
none begins before. -/
def IsFirst (line cs : List Char) : Prop :=
  ∃ before rest, cs = before ++ rest ∧ Begins line rest ∧
    ∀ before' rest' line', cs = before' ++ rest' → Begins line' rest' →
      before.length ≤ before'.length

/-- Whether the first message in a text names the line `n`: its line number is of ASCII digits, and
of 32 bits. -/
def Names (n : Nat) (cs : List Char) : Prop :=
  ∃ line, IsFirst line cs ∧ Text.number? line = some n ∧ n < UInt32.size

/-! ## A message at the front of a text -/

theorem after?_eq_some_iff {ps cs rest : List Char} :
    after? ps cs = some rest ↔ cs = ps ++ rest := by
  induction ps generalizing cs with
  | nil => simp [after?]
  | cons p ps ih =>
      cases cs with
      | nil => simp [after?]
      | cons c cs =>
          rw [after?]
          split
          · rename_i hp
            simp [ih, hp]
          · rename_i hp
            simp [Ne.symm hp]

theorem digits?_eq_some_iff {cs ds rest : List Char} :
    digits? cs = some (ds, rest) ↔
      Text.IsNumeral ds ∧ cs = ds ++ rest ∧ ∀ c ∈ rest.head?, Text.isDigit c = false := by
  constructor
  · intro h
    rw [digits?] at h
    split at h
    · cases h
    · rename_i hne
      cases h
      refine ⟨⟨hne, fun d hd => List.mem_takeWhile_imp hd⟩,
        List.takeWhile_append_dropWhile.symm, fun c hc => ?_⟩
      have hhead := List.head?_dropWhile_not Text.isDigit cs
      rw [Option.mem_def.mp hc] at hhead
      exact hhead
  · rintro ⟨⟨hne, hds⟩, rfl, hrest⟩
    have hstop : rest.takeWhile Text.isDigit = [] ∧ rest.dropWhile Text.isDigit = rest := by
      cases rest with
      | nil => exact ⟨rfl, rfl⟩
      | cons c rest => simp [hrest c rfl]
    rw [digits?, List.takeWhile_append_of_pos hds, List.dropWhile_append_of_pos hds, hstop.1,
      hstop.2, List.append_nil]
    cases ds with
    | nil => exact absurd rfl hne
    | cons d ds => rfl

theorem digits?_cons {d : Char} (h : Text.isDigit d = true) (rest : List Char) :
    ∃ ds more, digits? (d :: rest) = some (ds, more) := by
  simp [digits?, h]

theorem lineAtFront?_eq_some_iff : lineAtFront? cs = some line ↔ Begins line cs := by
  simp only [lineAtFront?, Option.bind_eq_bind, Option.bind_eq_some_iff, after?_eq_some_iff]
  constructor
  · rintro ⟨_, rfl, ⟨code, _⟩, hcode, _, rfl, ⟨number, _⟩, hnumber, _, rfl, ⟨column, rest⟩, hcolumn,
      h⟩
    cases h
    rw [digits?_eq_some_iff] at hcode hnumber hcolumn
    obtain ⟨hcode, rfl, -⟩ := hcode
    obtain ⟨hnumber, rfl, -⟩ := hnumber
    obtain ⟨⟨hne, hcolumn⟩, rfl, -⟩ := hcolumn
    obtain ⟨d, ds, rfl⟩ := List.exists_cons_of_ne_nil hne
    exact ⟨code, d, ds ++ rest, hcode, hnumber, hcolumn d List.mem_cons_self, rfl⟩
  · rintro ⟨code, column, rest, hcode, hline, hcolumn, rfl⟩
    obtain ⟨ds, more, hds⟩ := digits?_cons hcolumn rest
    have hcode' := digits?_eq_some_iff.mpr
      ⟨hcode, rfl, fun c (hc : c ∈ ("] Line ".toList ++ (line ++ ':' :: column :: rest)).head?) => by
        obtain rfl : ']' = c := by simpa using hc
        decide⟩
    have hline' := digits?_eq_some_iff.mpr
      ⟨hline, rfl, fun c (hc : c ∈ (':' :: column :: rest).head?) => by
        obtain rfl : ':' = c := by simpa using hc
        decide⟩
    exact ⟨_, rfl, (code, _), hcode', _, rfl, (line, _), hline', _, rfl, (ds, more), hds, rfl⟩

/-! ## The first message in a text -/

theorem Begins.line_unique {line' : List Char} (h : Begins line cs) (h' : Begins line' cs) :
    line = line' := by
  have heq := (lineAtFront?_eq_some_iff.mpr h).symm.trans (lineAtFront?_eq_some_iff.mpr h')
  exact Option.some.inj heq

theorem isFirst_iff_of_begins {line' : List Char} (h : Begins line' cs) :
    IsFirst line cs ↔ line' = line := by
  constructor
  · rintro ⟨before, rest, rfl, hline, hleast⟩
    have hbefore : before = [] :=
      List.length_eq_zero_iff.mp (Nat.le_zero.mp (hleast [] _ line' rfl h))
    subst hbefore
    exact h.line_unique hline
  · rintro rfl
    exact ⟨[], cs, rfl, h, fun _ _ _ _ _ => Nat.zero_le _⟩

/-- A message that does not begin at the first character begins after it. -/
theorem isFirst_cons_iff {c : Char} (h : ∀ line', ¬ Begins line' (c :: cs)) :
    IsFirst line (c :: cs) ↔ IsFirst line cs := by
  constructor
  · rintro ⟨before, rest, hcs, hline, hleast⟩
    cases before with
    | nil =>
        rw [List.nil_append] at hcs
        exact absurd (hcs ▸ hline) (h line)
    | cons d before =>
        obtain ⟨rfl, rfl⟩ := List.cons.inj hcs
        refine ⟨before, rest, rfl, hline, fun before' rest' line' hcs' hline' => ?_⟩
        exact Nat.le_of_succ_le_succ
          (hleast (c :: before') rest' line' (congrArg (c :: ·) hcs') hline')
  · rintro ⟨before, rest, rfl, hline, hleast⟩
    refine ⟨c :: before, rest, rfl, hline, fun before' rest' line' hcs' hline' => ?_⟩
    cases before' with
    | nil =>
        rw [List.nil_append] at hcs'
        exact absurd (hcs' ▸ hline') (h line')
    | cons d before' =>
        exact Nat.succ_le_succ (hleast before' rest' line' (List.cons.inj hcs').2 hline')

theorem line?_eq_some_iff : line? cs = some line ↔ IsFirst line cs := by
  induction cs with
  | nil =>
      refine iff_of_false nofun ?_
      rintro ⟨before, rest, hcs, hline, -⟩
      obtain ⟨rfl, rfl⟩ := List.append_eq_nil_iff.mp hcs.symm
      exact absurd (lineAtFront?_eq_some_iff.mpr hline) nofun
  | cons c cs ih =>
      rw [line?]
      split
      · rename_i line' hfront
        rw [isFirst_iff_of_begins (lineAtFront?_eq_some_iff.mp hfront), Option.some_inj]
      · rename_i hfront
        have hnone : ∀ line', ¬ Begins line' (c :: cs) := fun line' hline => by
          rw [lineAtFront?_eq_some_iff.mpr hline] at hfront
          cases hfront
        rw [isFirst_cons_iff hnone, ih]

/-! ## The outcome of a line, and of all lines -/

theorem ofLine?_eq_some_iff {o : Outcome} :
    ofLine? cs = some o ↔
      ∃ n, Names n cs ∧
        o = .parseFailure (String.ofList (Text.trimChars cs)) (some (UInt32.ofNat n)) := by
  simp only [ofLine?, Option.bind_eq_bind, Option.bind_eq_some_iff, line?_eq_some_iff, Names]
  constructor
  · rintro ⟨n, ⟨line, hline, hn⟩, h⟩
    split at h
    · rename_i hlt
      cases h
      exact ⟨n, ⟨line, hline, hn, hlt⟩, rfl⟩
    · cases h
  · rintro ⟨n, ⟨line, hline, hn, hlt⟩, rfl⟩
    exact ⟨n, ⟨line, hline, hn⟩, if_pos hlt⟩

theorem find?_isSome_iff {errors : String} :
    (find? errors).isSome ↔ ∃ l ∈ Text.lines errors.toList, ∃ n, Names n l := by
  rw [find?, List.findSome?_isSome_iff]
  simp only [Option.isSome_iff_exists, ofLine?_eq_some_iff]
  refine exists_congr fun l => and_congr_right fun _ => ?_
  constructor
  · rintro ⟨_, n, hn, -⟩
    exact ⟨n, hn⟩
  · rintro ⟨n, hn⟩
    exact ⟨_, n, hn, rfl⟩

/-- A line with a message shows something, also without the blanks at its ends. -/
theorem isBlankText_of_names {n : Nat} (h : Names n cs) :
    Text.isBlankText (String.ofList (Text.trimChars cs)) = false := by
  obtain ⟨_, ⟨before, rest, rfl, ⟨_, _, _, _, _, _, hrest⟩, _⟩, _⟩ := h
  have hmem : '[' ∈ before ++ rest := List.mem_append_right before (by simp [hrest])
  have hkept := Text.mem_trimChars hmem (by decide)
  rw [Text.isBlankText, String.toList_ofList, List.all_eq_false]
  exact ⟨'[', hkept, by decide⟩

end ParserMessage
end RuleBuild
