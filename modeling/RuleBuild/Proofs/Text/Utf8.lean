import Mathlib.Tactic.IntervalCases
import RuleBuild.Text.Utf8

/-!
# Reading the bytes of a text

The bytes that encode a text are read as its characters, with nothing left over and nothing
refused.
-/
namespace RuleBuild

theorem toList_loop_eq (bytes : ByteArray) (i : Nat) (done : List UInt8) :
    ByteArray.toList.loop bytes i done = done.reverse ++ bytes.data.toList.drop i := by
  fun_induction ByteArray.toList.loop bytes i done with
  | case1 i done h ih =>
      have hi : i < bytes.data.toList.length := by simpa using h
      rw [ih, List.drop_eq_getElem_cons hi]
      simp [ByteArray.get!, h]
  | case2 i done h =>
      rw [List.drop_eq_nil_of_le (by simpa using Nat.le_of_not_lt h), List.append_nil]

theorem bytesOf_eq (s : String) : bytesOf s = s.toList.flatMap String.utf8EncodeChar := by
  have hencode : s.toUTF8 = (s.toList.flatMap String.utf8EncodeChar).toByteArray := by
    conv => lhs; rw [← String.ofList_toList (s := s)]
    rfl
  rw [bytesOf, hencode, ByteArray.toList, toList_loop_eq, List.toList_data_toByteArray]
  rfl

namespace Utf8

theorem toNat_ofNat_of_lt {n : Nat} (h : n < 256) : (UInt8.ofNat n).toNat = n := by
  rw [UInt8.toNat_ofNat']
  omega

/-! ## Lead bytes -/

theorem lead_of_one {n : Nat} (h : n < 0x80) :
    lead (UInt8.ofNat n) = .scalar (Char.ofNat n) := by
  have hbyte := toNat_ofNat_of_lt (n := n) (by omega)
  simp only [lead, hbyte, if_pos h]

theorem lead_of_two {n : Nat} (hlow : 2 ≤ n) (hhigh : n < 32) :
    lead (UInt8.ofNat (n + 0xC0)) = .opened ⟨n, 1, 1, 0x80, 0xBF⟩ := by
  have hbyte := toNat_ofNat_of_lt (n := n + 0xC0) (by omega)
  have hscalar : ¬ n + 0xC0 < 0x80 := by omega
  have hstray : ¬ n + 0xC0 < 0xC2 := by omega
  have htwo : n + 0xC0 < 0xE0 := by omega
  simp only [lead, hbyte, if_neg hscalar, if_neg hstray, if_pos htwo, Nat.add_sub_cancel]

/-- The first of three bytes leaves a range for the second that keeps out overlong forms and
surrogates. -/
theorem lead_of_three {n : Nat} (h : n < 16) :
    lead (UInt8.ofNat (n + 0xE0)) = .opened ⟨n, 1, 2, if n = 0 then 0xA0 else 0x80,
      if n = 0xD then 0x9F else 0xBF⟩ := by
  interval_cases n <;> rfl

/-- The first of four bytes leaves a range for the second that keeps out overlong forms and values
above the last character. -/
theorem lead_of_four {n : Nat} (h : n < 5) :
    lead (UInt8.ofNat (n + 0xF0)) = .opened ⟨n, 1, 3, if n = 0 then 0x90 else 0x80,
      if n = 4 then 0x8F else 0xBF⟩ := by
  interval_cases n <;> rfl

/-! ## Steps within a character -/

theorem step_of_lead {b : UInt8} {o : Opened} (h : lead b = .opened o) (index : Nat)
    (found : List Piece) : Scan.step ⟨index, none, found⟩ b = ⟨index, some o, found⟩ := by
  simp only [Scan.step, Scan.start, h]

section Continuation

variable {n : Nat} {low high : UInt8}

/-- A byte that goes on with a character appends its six bits. -/
theorem step_of_current {o : Opened} (hn : n < 64) (hlow : o.low.toNat ≤ n + 0x80)
    (hhigh : n + 0x80 ≤ o.high.toNat) (index : Nat) (found : List Piece) :
    Scan.step ⟨index, some o, found⟩ (UInt8.ofNat (n + 0x80)) =
      if o.missing ≤ 1 then
        ⟨index + o.width + 1, none, .scalar (Char.ofNat (o.value * 64 + n)) :: found⟩
      else ⟨index, some ⟨o.value * 64 + n, o.width + 1, o.missing - 1, 0x80, 0xBF⟩, found⟩ := by
  have hbyte := toNat_ofNat_of_lt (n := n + 0x80) (by omega)
  have hrange : o.low ≤ UInt8.ofNat (n + 0x80) ∧ UInt8.ofNat (n + 0x80) ≤ o.high := by
    rw [UInt8.le_iff_toNat_le, UInt8.le_iff_toNat_le, hbyte]
    exact ⟨hlow, hhigh⟩
  have hbits : (n + 0x80) % 64 = n := by omega
  simp only [Scan.step, if_pos hrange, hbyte, hbits]

theorem step_of_more (hn : n < 64) (hlow : low.toNat ≤ n + 0x80) (hhigh : n + 0x80 ≤ high.toNat)
    (value width missing index : Nat) (found : List Piece) :
    Scan.step ⟨index, some ⟨value, width, missing + 2, low, high⟩, found⟩
        (UInt8.ofNat (n + 0x80)) =
      ⟨index, some ⟨value * 64 + n, width + 1, missing + 1, 0x80, 0xBF⟩, found⟩ := by
  rw [step_of_current hn hlow hhigh, if_neg (by simp)]
  rfl

theorem le_high_of_lt (h : n < 64) : n + 0x80 ≤ (0xBF : UInt8).toNat := by
  have hhigh : (0xBF : UInt8).toNat = 0xBF := rfl
  omega

theorem step_of_last (hn : n < 64) (value width index : Nat) (found : List Piece) :
    Scan.step ⟨index, some ⟨value, width, 1, 0x80, 0xBF⟩, found⟩ (UInt8.ofNat (n + 0x80)) =
      ⟨index + width + 1, none, .scalar (Char.ofNat (value * 64 + n)) :: found⟩ :=
  step_of_current hn (Nat.le_add_left _ _) (le_high_of_lt hn) index found

end Continuation

/-- The bytes of a character, read where a character begins, are that character. -/
theorem foldl_step_utf8EncodeChar (c : Char) (index : Nat) (found : List Piece) :
    ∃ next, (String.utf8EncodeChar c).foldl Scan.step ⟨index, none, found⟩ =
      ⟨next, none, .scalar c :: found⟩ := by
  have hvalid : c.toNat < 0xD800 ∨ (0xDFFF < c.toNat ∧ c.toNat < 0x110000) := c.valid
  have hval : c.val.toNat = c.toNat := rfl
  have hlast : c.toNat % 64 < 64 := Nat.mod_lt _ (by decide)
  have hmiddle : c.toNat / 64 % 64 < 64 := Nat.mod_lt _ (by decide)
  have hsecond : c.toNat / 4096 % 64 < 64 := Nat.mod_lt _ (by decide)
  fun_cases String.utf8EncodeChar c with
  | case1 v h =>
      simp only [v, hval] at h ⊢
      refine ⟨index + 1, ?_⟩
      simp only [List.foldl_cons, List.foldl_nil, Scan.step, Scan.start,
        lead_of_one (by omega : c.toNat < 0x80), Char.ofNat_toNat]
  | case2 v h1 h2 =>
      simp only [v, hval] at h1 h2 ⊢
      refine ⟨index + 2, ?_⟩
      have hbits : c.toNat / 64 * 64 + c.toNat % 64 = c.toNat := by omega
      rw [Nat.mod_eq_of_lt (by omega : c.toNat / 64 < 32), List.foldl_cons, List.foldl_cons,
        List.foldl_nil, step_of_lead (lead_of_two (by omega) (by omega)), step_of_last hlast,
        hbits, Char.ofNat_toNat]
  | case3 v h1 h2 h3 =>
      simp only [v, hval] at h1 h2 h3 ⊢
      refine ⟨index + 3, ?_⟩
      have hbits : (c.toNat / 4096 * 64 + c.toNat / 64 % 64) * 64 + c.toNat % 64 = c.toNat := by
        omega
      have hlow : (if c.toNat / 4096 = 0 then 0xA0 else 0x80 : UInt8).toNat ≤
          c.toNat / 64 % 64 + 0x80 := by
        split <;> simp
        omega
      have hhigh : c.toNat / 64 % 64 + 0x80 ≤
          (if c.toNat / 4096 = 0xD then 0x9F else 0xBF : UInt8).toNat := by
        split <;> simp
        all_goals omega
      rw [Nat.mod_eq_of_lt (by omega : c.toNat / 4096 < 16), List.foldl_cons, List.foldl_cons,
        List.foldl_cons, List.foldl_nil, step_of_lead (lead_of_three (by omega)),
        step_of_more hmiddle hlow hhigh, step_of_last hlast, hbits, Char.ofNat_toNat]
  | case4 v h1 h2 h3 =>
      simp only [v, hval] at h1 h2 h3 ⊢
      refine ⟨index + 4, ?_⟩
      have hbits : ((c.toNat / 262144 * 64 + c.toNat / 4096 % 64) * 64 + c.toNat / 64 % 64) * 64 +
          c.toNat % 64 = c.toNat := by
        omega
      have hlow : (if c.toNat / 262144 = 0 then 0x90 else 0x80 : UInt8).toNat ≤
          c.toNat / 4096 % 64 + 0x80 := by
        split <;> simp
        omega
      have hhigh : c.toNat / 4096 % 64 + 0x80 ≤
          (if c.toNat / 262144 = 4 then 0x8F else 0xBF : UInt8).toNat := by
        split <;> simp
        all_goals omega
      rw [Nat.mod_eq_of_lt (by omega : c.toNat / 262144 < 8), List.foldl_cons, List.foldl_cons,
        List.foldl_cons, List.foldl_cons, List.foldl_nil, step_of_lead (lead_of_four (by omega)),
        step_of_more hsecond hlow hhigh,
        step_of_more hmiddle (Nat.le_add_left _ _) (le_high_of_lt hmiddle),
        step_of_last hlast, hbits, Char.ofNat_toNat]

/-- The pieces of an encoded text are its characters. -/
theorem pieces_bytesOf (s : String) : pieces (bytesOf s) = s.toList.map .scalar := by
  have hfold : ∀ (cs : List Char) (index : Nat) (found : List Piece),
      ∃ next, (cs.flatMap String.utf8EncodeChar).foldl Scan.step ⟨index, none, found⟩ =
        ⟨next, none, (cs.map .scalar).reverse ++ found⟩ := by
    intro cs
    induction cs with
    | nil => exact fun index found => ⟨index, rfl⟩
    | cons c cs ih =>
        intro index found
        obtain ⟨next, hc⟩ := foldl_step_utf8EncodeChar c index found
        obtain ⟨last, hcs⟩ := ih next (.scalar c :: found)
        refine ⟨last, ?_⟩
        rw [List.flatMap_cons, List.foldl_append, hc, hcs]
        simp
  obtain ⟨next, h⟩ := hfold s.toList 0 []
  rw [pieces, bytesOf_eq, h, Scan.finish]
  simp

/-- An encoded text is read as its characters, without a gap. -/
theorem chars_bytesOf (s : String) : chars (bytesOf s) = s.toList.map some := by
  rw [chars, pieces_bytesOf, List.map_map]
  rfl

theorem decodeLossy_bytesOf (s : String) : decodeLossy (bytesOf s) = s := by
  rw [decodeLossy, chars_bytesOf]
  simp

theorem bytesOf_injective : Function.Injective bytesOf :=
  Function.LeftInverse.injective decodeLossy_bytesOf

/-! ## What lossy reading cannot make up -/

/-- Whether a character is encoded by one byte, other than zero. -/
def IsPlain (c : Char) : Prop := 0 < c.toNat ∧ c.toNat < 0x80

instance (c : Char) : Decidable (IsPlain c) := inferInstanceAs (Decidable (_ ∧ _))

/-- The byte that encodes a plain character. -/
def plainByte (c : Char) : UInt8 := UInt8.ofNat c.toNat

/-- Whether bytes fall into stretches, one for each piece of a list that begins with the latest, and
the stretch of a plain character is its byte. -/
inductive Covers : List Piece → Bytes → Prop
  | nil : Covers [] []
  | cons {found : List Piece} {bytes part : Bytes} {p : Piece} (h : Covers found bytes)
      (hpart : ∀ c, p = .scalar c → IsPlain c → part = [plainByte c]) :
      Covers (p :: found) (bytes ++ part)

/-- Whether the bytes that go on with a character lie in their range and make it a wide one. -/
structure Opened.IsWide (o : Opened) : Prop where
  low : 0x80 ≤ o.low.toNat
  high : o.high.toNat ≤ 0xBF
  value : 0x80 ≤ (o.value * 64 + (o.low.toNat - 0x80)) * 64 ^ (o.missing - 1)

theorem isWide_of_lead {b : UInt8} {o : Opened} (h : lead b = .opened o) : o.IsWide := by
  unfold lead at h
  dsimp only at h
  generalize b.toNat = n at h
  repeat' split at h
  all_goals simp only [reduceCtorEq, Lead.opened.injEq] at h
  all_goals
    subst h
    refine ⟨by simp, by simp, ?_⟩
  -- A first byte without bits of its own leaves a second byte that makes up for them.
  all_goals
    first
    | decide
    | simp; omega

theorem toNat_ofNat_of_isValidChar {n : Nat} (h : n.isValidChar) : (Char.ofNat n).toNat = n := by
  rw [Char.ofNat, dif_pos h]
  rfl

theorem eq_of_lead_scalar {b : UInt8} {c : Char} (h : lead b = .scalar c) : b = plainByte c := by
  unfold lead at h
  dsimp only at h
  split at h
  · rename_i hlt
    have hvalid : b.toNat.isValidChar := .inl (by omega)
    rw [← Lead.scalar.inj h, plainByte, toNat_ofNat_of_isValidChar hvalid,
      UInt8.ofNat_toNat]
  · repeat' split at h
    all_goals simp only [reduceCtorEq] at h

theorem not_isPlain_ofNat {n : Nat} (h : 0x80 ≤ n) : ¬ IsPlain (Char.ofNat n) := by
  rintro ⟨hpos, hlt⟩
  by_cases hvalid : n.isValidChar
  · rw [toNat_ofNat_of_isValidChar hvalid] at hlt
    omega
  · rw [Char.ofNat, dif_neg hvalid] at hpos
    exact absurd hpos (by decide)

/-- A byte that goes on with a wide character makes it wider. -/
theorem Opened.IsWide.value_le {o : Opened} (h : o.IsWide) {b : UInt8} (hlow : o.low ≤ b)
    (hhigh : b ≤ o.high) : 0x80 ≤ (o.value * 64 + b.toNat % 64) * 64 ^ (o.missing - 1) := by
  obtain ⟨hfrom, hto, hvalue⟩ := h
  rw [UInt8.le_iff_toNat_le] at hlow hhigh
  have hbits : b.toNat % 64 = b.toNat - 0x80 := by omega
  refine hvalue.trans (Nat.mul_le_mul_right _ ?_)
  omega

/-- What a scan has read: stretches for what it has found, and the bytes of a wide character if it
stands within one. -/
structure Scan.HasRead (s : Scan) (bytes : Bytes) : Prop where
  covers : ∃ before pending, bytes = before ++ pending ∧ Covers s.found before ∧
    (s.current = none → pending = [])
  wide : ∀ o, s.current = some o → o.IsWide

theorem Scan.HasRead.start {s : Scan} {bytes : Bytes} (h : Covers s.found bytes) (b : UInt8) :
    (s.start b).HasRead (bytes ++ [b]) := by
  unfold Scan.start
  cases hlead : lead b with
  | scalar c =>
      refine ⟨⟨bytes ++ [b], [], by simp, .cons h ?_, fun _ => rfl⟩, by simp⟩
      rintro c' hc hplain
      cases hc
      rw [eq_of_lead_scalar hlead]
  | opened o =>
      refine ⟨⟨bytes, [b], rfl, h, by simp⟩, ?_⟩
      rintro o' ho
      cases ho
      exact isWide_of_lead hlead
  | stray => exact ⟨⟨bytes ++ [b], [], by simp, .cons h (by simp), fun _ => rfl⟩, by simp⟩

theorem Scan.HasRead.step {s : Scan} {bytes : Bytes} (h : s.HasRead bytes) (b : UInt8) :
    (s.step b).HasRead (bytes ++ [b]) := by
  obtain ⟨⟨before, pending, rfl, hcovers, hnone⟩, hwide⟩ := h
  unfold Scan.step
  cases hcurrent : s.current with
  | none =>
      rw [hnone hcurrent, List.append_nil]
      exact .start hcovers b
  | some o =>
      have ho := hwide o hcurrent
      dsimp only
      split
      · rename_i hrange
        have hvalue := ho.value_le hrange.1 hrange.2
        split
        · rename_i hlast
          rw [Nat.sub_eq_zero_of_le hlast, pow_zero, mul_one] at hvalue
          refine ⟨⟨before ++ (pending ++ [b]), [], by simp, .cons hcovers ?_, fun _ => rfl⟩,
            by simp⟩
          rintro c hc hplain
          cases hc
          exact absurd hplain (not_isPlain_ofNat hvalue)
        · rename_i hmore
          refine ⟨⟨before, pending ++ [b], by simp, hcovers, by simp⟩, ?_⟩
          rintro o' ho'
          cases ho'
          refine ⟨by simp, by simp, ?_⟩
          have hpow : 64 ^ (o.missing - 1) = 64 * 64 ^ (o.missing - 1 - 1) := by
            rw [← pow_succ', Nat.sub_add_cancel (by omega)]
          rw [hpow, ← mul_assoc] at hvalue
          simpa using hvalue
      · -- What has been read of the character is a stretch of its own.
        exact .start (.cons hcovers (by simp)) b

theorem covers_pieces (bytes : Bytes) : Covers (pieces bytes).reverse bytes := by
  have hread : ∀ (bytes done : Bytes) (s : Scan), s.HasRead done →
      (bytes.foldl Scan.step s).HasRead (done ++ bytes) := by
    intro bytes
    induction bytes with
    | nil => exact fun done s h => by simpa using h
    | cons b bytes ih =>
        intro done s h
        simpa using ih (done ++ [b]) (s.step b) (h.step b)
  obtain ⟨⟨before, pending, hbytes, hcovers, hnone⟩, _⟩ := hread bytes [] ⟨0, none, []⟩
    ⟨⟨[], [], rfl, .nil, fun _ => rfl⟩, by simp⟩
  unfold pieces
  generalize bytes.foldl Scan.step ⟨0, none, []⟩ = s at hcovers hnone
  rw [List.nil_append] at hbytes
  unfold Scan.finish
  split
  · rename_i hcurrent
    rw [hbytes, hnone hcurrent, List.append_nil, List.reverse_reverse]
    exact hcovers
  · rw [hbytes, List.reverse_reverse]
    exact .cons hcovers (by simp)

theorem not_isPlain_replacement : ¬ IsPlain '\uFFFD' := by
  decide

theorem scalar_mem_pieces {bytes : Bytes} {c : Char} (hplain : IsPlain c)
    (h : c ∈ (decodeLossy bytes).toList) : .scalar c ∈ pieces bytes := by
  simp only [decodeLossy, chars, String.toList_ofList, List.map_map, List.mem_map] at h
  obtain ⟨p, hp, hc⟩ := h
  cases p with
  | scalar c' => simpa [← hc, Piece.char?] using hp
  | malformed index width => exact absurd hplain (hc ▸ not_isPlain_replacement)
  | truncated index => exact absurd hplain (hc ▸ not_isPlain_replacement)

theorem Covers.mem {found : List Piece} {bytes : Bytes} (h : Covers found bytes) {c : Char}
    (hplain : IsPlain c) (hc : .scalar c ∈ found) : plainByte c ∈ bytes := by
  induction h with
  | nil => cases hc
  | cons _ hpart ih =>
      rcases List.mem_cons.mp hc with heq | hc
      · rw [hpart c heq.symm hplain]
        simp
      · exact List.mem_append_left _ (ih hc)

theorem Covers.eq {found : List Piece} {bytes : Bytes} (h : Covers found bytes) {cs : List Char}
    (hfound : found = cs.map .scalar) (hplain : ∀ c ∈ cs, IsPlain c) :
    bytes = cs.reverse.map plainByte := by
  induction h generalizing cs with
  | nil =>
      rw [List.map_eq_nil_iff.mp hfound.symm]
      rfl
  | cons _ hpart ih =>
      obtain ⟨c, cs, rfl, rfl, hrest⟩ := List.map_eq_cons_iff.mp hfound.symm
      obtain ⟨hc, hcs⟩ := List.forall_mem_cons.mp hplain
      rw [ih hrest.symm hcs, hpart c rfl hc]
      simp

/-- A plain character that is read stands there. -/
theorem mem_of_mem_decodeLossy {bytes : Bytes} {c : Char} (hplain : IsPlain c)
    (h : c ∈ (decodeLossy bytes).toList) : plainByte c ∈ bytes :=
  (covers_pieces bytes).mem hplain (List.mem_reverse.mpr (scalar_mem_pieces hplain h))

/-- Bytes that are read as plain characters are these characters. -/
theorem eq_of_decodeLossy {bytes : Bytes} (h : ∀ c ∈ (decodeLossy bytes).toList, IsPlain c) :
    bytes = (decodeLossy bytes).toList.map plainByte := by
  have hpieces : pieces bytes = (decodeLossy bytes).toList.map .scalar := by
    have hlossy : (decodeLossy bytes).toList =
        (pieces bytes).map fun p => (Piece.char? p).getD '\uFFFD' := by
      simp [decodeLossy, chars, Function.comp_def]
    rw [hlossy] at h ⊢
    rw [List.map_map]
    refine (List.map_id _).symm.trans (List.map_congr_left fun p hp => ?_)
    have hplain := h _ (List.mem_map_of_mem hp)
    cases p with
    | scalar c => rfl
    | malformed index width => exact absurd hplain not_isPlain_replacement
    | truncated index => exact absurd hplain not_isPlain_replacement
  have hcovers := covers_pieces bytes
  rw [hpieces, ← List.map_reverse] at hcovers
  simpa using hcovers.eq rfl (by simpa using h)

end Utf8
end RuleBuild
