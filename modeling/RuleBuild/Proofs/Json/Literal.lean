import Mathlib.Data.List.Basic
import RuleBuild.Json.Printer
import RuleBuild.Json.Reader

/-!
# Strings and numbers read back

The literal of a string is read as the parts of its characters, which assemble to the string again;
the digits of a whole number that fits 64 bits are read as this number.
-/
namespace RuleBuild.Json

/-! ## Strings -/

/-- Whether a part of a literal stands for a character, whatever parts are around it. -/
def Part.Spells (p : Part) (c : Char) : Prop :=
  ∀ done ps, assemble done (p :: ps) = assemble (c :: done) ps

theorem Part.spells_char (c : Char) : (Part.char c).Spells c := fun _ _ => rfl

theorem Part.spells_of_eq {c d : Char} (h : c = d) : (Part.char d).Spells c := by
  rw [h]
  exact spells_char d

theorem Part.spells_unit {n : Nat} (h : n < 0xD800) : (Part.unit n).Spells (Char.ofNat n) := by
  have hhigh : isHigh n = false := by
    simp only [isHigh, Bool.and_eq_false_iff, decide_eq_false_iff_not]
    omega
  have hlow : isLow n = false := by
    simp only [isLow, Bool.and_eq_false_iff, decide_eq_false_iff_not]
    omega
  intro done ps
  cases ps with
  | nil => simp [assemble, hhigh, hlow]
  | cons p ps => cases p <;> simp [assemble, hhigh, hlow]

theorem hexDigit?_hexDigit {n : Nat} (h : n < 16) : Text.hexDigit? (hexDigit n) = some n := by
  have hall : ∀ n < 16, Text.hexDigit? (hexDigit n) = some n := by decide
  exact hall n h

theorem unit?_of_control {n : Nat} (h : n < 32) :
    unit? (some '0') (some '0') (some (hexDigit (n / 16))) (some (hexDigit (n % 16))) = some n := by
  have hzero : Text.hexDigit? '0' = some 0 := by decide
  have hfirst := hexDigit?_hexDigit (n := n / 16) (by omega)
  have hsecond := hexDigit?_hexDigit (n := n % 16) (by omega)
  have hsum : n / 16 * 16 + n % 16 = n := by omega
  simp [unit?, hzero, hfirst, hsecond, hsum]

/-- A character written in a literal is read as one part, which stands for it. -/
theorem readString_escape (c : Char) : ∃ p : Part, p.Spells c ∧ ∀ read gs,
    readString read ((escape c).map some ++ gs) = readString (p :: read) gs := by
  unfold escape
  -- Seven characters have a short escape, other control characters are written as units.
  split
  · exact ⟨.char '"', Part.spells_of_eq ‹_›, fun _ _ => rfl⟩
  split
  · exact ⟨.char '\\', Part.spells_of_eq ‹_›, fun _ _ => rfl⟩
  split
  · exact ⟨.char '\n', Part.spells_of_eq ‹_›, fun _ _ => rfl⟩
  split
  · exact ⟨.char '\r', Part.spells_of_eq ‹_›, fun _ _ => rfl⟩
  split
  · exact ⟨.char '\t', Part.spells_of_eq ‹_›, fun _ _ => rfl⟩
  split
  · exact ⟨.char '\x08', Part.spells_of_eq ‹_›, fun _ _ => rfl⟩
  split
  · exact ⟨.char '\x0c', Part.spells_of_eq ‹_›, fun _ _ => rfl⟩
  split
  · rename_i hcontrol
    refine ⟨.unit c.toNat, ?_, fun read gs => ?_⟩
    · have := Part.spells_unit (n := c.toNat) (by omega)
      rwa [Char.ofNat_toNat] at this
    · simp only [List.map_cons, List.map_nil, List.cons_append, List.nil_append]
      rw [readString, unit?_of_control hcontrol]
  · rename_i hquote hbackslash _ _ _ _ _ hcontrol
    refine ⟨.char c, Part.spells_char c, fun read gs => ?_⟩
    simp only [List.map_cons, List.map_nil, List.cons_append, List.nil_append]
    rw [readString.eq_def]
    split
    · rename_i heq
      cases heq
    · rename_i heq
      cases heq
    · rename_i heq
      cases heq
      exact absurd rfl hquote
    · rename_i heq
      cases heq
      exact absurd rfl hbackslash
    · rename_i heq
      cases heq
      exact absurd rfl hbackslash
    · rename_i heq
      cases heq
      exact if_neg (by simpa [hbackslash] using hcontrol)

/-- The literal of a string, after its opening quote, is read to its closing quote, and its parts
make up the string. -/
theorem readString_quoted (s : String) (gs : Glyphs) :
    ∃ parts, readString [] ((s.toList.flatMap escape ++ ['"']).map some ++ gs) = some (parts, gs) ∧
      text? parts = some s := by
  have hparts : ∀ cs : List Char, ∃ parts,
      (∀ read, readString read ((cs.flatMap escape ++ ['"']).map some ++ gs) =
        some (read.reverse ++ parts, gs)) ∧
      ∀ done, assemble done parts = some (done.reverse ++ cs) := by
    intro cs
    induction cs with
    | nil => exact ⟨[], fun read => by simp [readString], fun done => by simp [assemble]⟩
    | cons c cs ih =>
        obtain ⟨p, hspells, hread⟩ := readString_escape c
        obtain ⟨parts, hreads, hassemble⟩ := ih
        refine ⟨p :: parts, fun read => ?_, fun done => ?_⟩
        · rw [List.flatMap_cons, List.append_assoc, List.map_append, List.append_assoc, hread,
            hreads]
          simp
        · rw [hspells, hassemble]
          simp
  obtain ⟨parts, hread, hassemble⟩ := hparts s.toList
  refine ⟨parts, hread [], ?_⟩
  rw [text?, hassemble]
  simp

/-! ## Whole numbers -/

/-- The digits with which a number is written. -/
def decimals (n : Nat) : List Nat := (Nat.toDigits 10 n).map fun c => c.toNat - '0'.toNat

theorem ofDigits_decimals (n : Nat) : ofDigits (decimals n) = n := by
  have h := Nat.ofDigitChars_ten_toDigits (n := n)
  rw [Nat.ofDigitChars_eq_foldl] at h
  rw [ofDigits, decimals, List.foldl_map]
  simpa only [Nat.mul_comm] using h

theorem decimals_ne_nil (n : Nat) : decimals n ≠ [] := by
  simp [decimals]

theorem eq_zero_of_decimals_head {n : Nat} (h : (decimals n).head? = some 0) : n = 0 := by
  induction n using Nat.base_induction 10 (by decide) with
  | single m hm =>
      rw [decimals, Nat.toDigits_of_lt_base hm] at h
      simpa [Nat.toNat_digitChar_sub_48_of_lt_ten hm] using h
  | digit m k hk hm ih =>
      rw [decimals, ← Nat.toDigits_append_toDigits (by decide) hm hk, List.map_append,
        List.head?_append] at h
      have hfirst : (decimals m).head? ≠ none := by simp [decimals]
      obtain ⟨d, hd⟩ := Option.ne_none_iff_exists'.mp hfirst
      rw [decimals] at hd ih
      rw [hd, Option.some_or] at h
      exact absurd (ih (hd.trans h)) (by omega)

/-- What may follow a number: no more digits, no fraction and no exponent. -/
def Ends (gs : Glyphs) : Prop :=
  ∀ g, gs.head? = some g → g = some ',' ∨ g = some '\n'

theorem digit?_eq_none_of_ends {gs : Glyphs} (h : Ends gs) {g : Option Char}
    (hg : gs.head? = some g) : digit? g = none := by
  rcases h g hg with rfl | rfl
  · rfl
  · rfl

theorem digits_decimals (n : Nat) {gs : Glyphs} (h : Ends gs) :
    digits ((Nat.toDigits 10 n).map some ++ gs) = (decimals n, gs) := by
  have hdigit : ∀ c ∈ Nat.toDigits 10 n, digit? (some c) = some (c.toNat - '0'.toNat) := by
    intro c hc
    rw [digit?, if_pos (Nat.isDigit_of_mem_toDigits (by decide) (by decide) hc)]
  have hall : ∀ g ∈ (Nat.toDigits 10 n).map some, (digit? g).isSome = true := by
    intro g hg
    obtain ⟨c, hc, rfl⟩ := List.mem_map.mp hg
    simp [hdigit c hc]
  have hstop : gs.takeWhile (digit? · |>.isSome) = [] ∧ gs.dropWhile (digit? · |>.isSome) = gs := by
    cases gs with
    | nil => exact ⟨rfl, rfl⟩
    | cons g gs => simp [digit?_eq_none_of_ends h (rfl : (g :: gs).head? = some g)]
  rw [digits, List.takeWhile_append_of_pos hall, List.dropWhile_append_of_pos hall, hstop.1,
    hstop.2, List.append_nil, List.filterMap_map, decimals, ← List.filterMap_eq_map]
  congr 1
  exact List.filterMap_congr hdigit

theorem readLiteral_decimals (negative : Bool) (n : Nat) {gs : Glyphs} (h : Ends gs) :
    readLiteral negative ((Nat.toDigits 10 n).map some ++ gs) =
      some (⟨negative, decimals n, none, none⟩, gs) := by
  have hfraction : readFraction gs = some (none, gs) := by
    rw [readFraction.eq_def]
    split
    · rename_i gs
      rcases h _ rfl with h | h <;> simp at h
    · rfl
  have hexponent : readExponent gs = some (none, gs) := by
    cases gs with
    | nil => rfl
    | cons g gs =>
        rcases h g rfl with rfl | rfl
        · rfl
        · rfl
  unfold readLiteral
  rw [digits_decimals n h]
  split
  · rename_i hnil
    exact absurd (congrArg Prod.fst hnil) (decimals_ne_nil n)
  · rename_i _ d ds _ hzero
    have hdigits : decimals n = 0 :: d :: ds := congrArg Prod.fst hzero
    have hn : n = 0 := eq_zero_of_decimals_head (by rw [hdigits]; rfl)
    rw [hn] at hdigits
    cases hdigits
  · rename_i whole rest _ _ hwhole
    cases hwhole
    simp [hfraction, hexponent]

theorem le_foldl_digits (n : Nat) (ds : List Nat) :
    n ≤ ds.foldl (fun n d => n * 10 + d) n := by
  induction ds generalizing n with
  | nil => exact Nat.le_refl n
  | cons d ds ih => exact Nat.le_trans (by omega) (ih (n * 10 + d))

/-- Digits of a number that fits are all taken into the significand. -/
theorem foldl_gathered_add (n taken : Nat) (ds : List Nat)
    (h : ds.foldl (fun n d => n * 10 + d) n ≤ greatestSignificand) :
    ds.foldl Gathered.add ⟨n, taken, 0⟩ =
      ⟨ds.foldl (fun n d => n * 10 + d) n, taken + ds.length, 0⟩ := by
  induction ds generalizing n taken with
  | nil => rfl
  | cons d ds ih =>
      have hfits : n * 10 + d ≤ greatestSignificand := Nat.le_trans (le_foldl_digits _ ds) h
      have hadd : Gathered.add ⟨n, taken, 0⟩ d = ⟨n * 10 + d, taken + 1, 0⟩ := by
        simp [Gathered.add, hfits]
      rw [List.foldl_cons, hadd, ih _ _ h, List.foldl_cons, List.length_cons]
      congr 1
      omega

theorem gathered_decimals {n : Nat} (h : n ≤ greatestSignificand) :
    (decimals n).foldl Gathered.add ⟨0, 0, 0⟩ = ⟨n, (decimals n).length, 0⟩ := by
  have hvalue : (decimals n).foldl (fun n d => n * 10 + d) 0 = n := ofDigits_decimals n
  rw [foldl_gathered_add 0 0 _ (by rwa [hvalue]), hvalue, Nat.zero_add]

/-- Whether a whole number is written so that it is read as one. -/
def Fits (i : Int) : Prop := -0x8000000000000000 ≤ i ∧ i ≤ 0xFFFFFFFFFFFFFFFF

theorem number?_of_nonneg {n : Nat} (h : n ≤ greatestSignificand) :
    Literal.number? ⟨false, decimals n, none, none⟩ = some (.whole n) := by
  simp [Literal.number?, gathered_decimals h]

theorem number?_of_neg {n : Nat} (hpos : 0 < n) (h : n ≤ 0x8000000000000000) :
    Literal.number? ⟨true, decimals n, none, none⟩ = some (.whole (-n)) := by
  have hfits : n ≤ greatestSignificand := Nat.le_trans h (by decide)
  simp [Literal.number?, gathered_decimals hfits, hpos, h]

end RuleBuild.Json
