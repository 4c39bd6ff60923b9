import Mathlib.Data.List.Forall2
import RuleBuild.Diagnostic
import RuleBuild.Proofs.Record

/-!
# What records may be written as

Which data stand for a field, and which for a line, said as relations between values and data. Each
reader of fields reads exactly what its relation allows.
-/
namespace RuleBuild

theorem mapM_eq_some_iff {α β : Type} {f : α → Option β} {xs : List α} {ys : List β} :
    xs.mapM f = some ys ↔ List.Forall₂ (fun x y => f x = some y) xs ys := by
  induction xs generalizing ys with
  | nil =>
      constructor
      · intro h
        cases h
        exact .nil
      · intro h
        cases h
        rfl
  | cons x xs ih =>
      simp only [List.mapM_cons, Option.bind_eq_bind, Option.bind_eq_some_iff, Option.pure_def]
      constructor
      · rintro ⟨y, hy, zs, hzs, heq⟩
        cases heq
        exact .cons hy (ih.mp hzs)
      · intro h
        cases h with
        | cons hy hys => exact ⟨_, hy, _, ih.mpr hys, rfl⟩

theorem exists_mapM_eq_some_iff {α β : Type} {f : α → Option β} {xs : List α} :
    (∃ ys, xs.mapM f = some ys) ↔ ∀ x ∈ xs, ∃ y, f x = some y := by
  simp only [mapM_eq_some_iff]
  induction xs with
  | nil => simp
  | cons x xs ih =>
      rw [List.forall_mem_cons, ← ih]
      constructor
      · rintro ⟨ys, h⟩
        cases h with
        | cons hy hys => exact ⟨⟨_, hy⟩, _, hys⟩
      · rintro ⟨⟨y, hy⟩, ys, hys⟩
        exact ⟨y :: ys, .cons hy hys⟩

namespace Body

variable {α : Type}

/-- Whether a record gives these data for the fields of the given names, `none` where it gives
nothing. Of named members each field has one at most, and a list holds the data in the order of the
fields, of which the last may be missing. -/
def Gives (names : List String) (fields : List (Option α)) : Body α → Prop
  | .keyed members =>
    List.Forall₂ (fun name field => named name members = field.toList) names fields
  | .listed items => fields.length = names.length ∧
      ∃ missing, fields = items.map some ++ List.replicate missing none
  | .leading items => fields.length = names.length ∧
      ∃ missing, fields = (items.take names.length).map some ++ List.replicate missing none

theorem member?_eq_some_iff {key : String} {members : List (String × α)} {field : Option α} :
    member? key members = some field ↔ named key members = field.toList := by
  rw [member?]
  split
  · rename_i hnamed
    cases field <;> simp [hnamed]
  · rename_i x hnamed
    cases field <;> simp [hnamed]
  · rename_i hnone hone
    constructor
    · rintro ⟨⟩
    · intro h
      cases field with
      | none => exact absurd h hnone
      | some x => exact absurd h (hone x)

theorem fields?_eq_some_iff {names : List String} {fields : List (Option α)} {body : Body α} :
    body.fields? names = some fields ↔ body.Gives names fields := by
  cases body with
  | keyed members => simp only [fields?, mapM_eq_some_iff, member?_eq_some_iff, Gives]
  | listed items =>
      rw [fields?, Gives]
      constructor
      · intro h
        split at h
        · cases h
          exact ⟨by simp; omega, _, rfl⟩
        · cases h
      · rintro ⟨hlength, missing, rfl⟩
        simp only [List.length_append, List.length_map, List.length_replicate] at hlength
        rw [if_pos (by omega)]
        congr 3
        omega
  | leading items =>
      rw [fields?, Gives]
      constructor
      · intro h
        cases h
        exact ⟨by simp; omega, _, rfl⟩
      · rintro ⟨hlength, missing, rfl⟩
        simp only [List.length_append, List.length_map, List.length_take,
          List.length_replicate] at hlength
        congr 3
        omega

/-- A member that no field is named after may be taken off. -/
theorem gives_filter_ne {names : List String} {fields : List (Option α)} {other : String}
    (h : other ∉ names) (members : List (String × α)) :
    (Body.keyed (members.filter (·.1 ≠ other))).Gives names fields ↔
      (Body.keyed members).Gives names fields := by
  rw [Gives, Gives]
  induction names generalizing fields with
  | nil => simp only [List.forall₂_nil_left_iff]
  | cons name names ih =>
      obtain ⟨hname, hnames⟩ := not_or.mp (mt List.mem_cons.mpr h)
      simp only [List.forall₂_cons_left_iff, ih hnames, named_filter_ne (Ne.symm hname)]

/-- Besides its tag, a record with one field holds nothing else. -/
theorem getElem?_one_of_tagged [Datum α] {items : List α} {rest : Body α} {key tag name : String}
    {field : Option α} (htagged : (Body.listed items).tagged? key = some (tag, rest))
    (hfield : rest.fields? [name] = some [field]) : items[1]? = field := by
  cases items with
  | nil => cases htagged
  | cons x items =>
      obtain ⟨_, _, heq⟩ := Option.map_eq_some_iff.mp htagged
      cases heq
      obtain ⟨_, missing, hitems⟩ := fields?_eq_some_iff.mp hfield
      cases items with
      | nil =>
          have hmissing : [field] = List.replicate missing none := hitems
          exact (List.eq_of_mem_replicate (hmissing ▸ List.mem_singleton_self field)).symm
      | cons y items => exact (List.cons.inj hitems).1.symm

/-- A field is written as the member of its name, wherever the tag stands. -/
theorem named_of_tagged [Datum α] {members : List (String × α)} {rest : Body α}
    {key tag name : String} {field : Option α} (hne : name ≠ key)
    (htagged : (Body.keyed members).tagged? key = some (tag, rest))
    (hfield : rest.fields? [name] = some [field]) : named name members = field.toList := by
  simp only [tagged?, Option.bind_eq_bind, Option.bind_eq_some_iff] at htagged
  obtain ⟨_, _, _, _, _, _, hrest⟩ := htagged
  cases hrest
  cases fields?_eq_some_iff.mp hfield with
  | cons hnamed _ => rwa [named_filter_ne hne] at hnamed

end Body

variable {α β : Type}

namespace Datum

/-- A text. -/
def TextAs [Datum α] (s : String) (x : α) : Prop := text? x = some s

theorem text?_eq_some_iff [Datum α] {x : α} {s : String} : text? x = some s ↔ TextAs s x := Iff.rfl

/-- A value that may be missing or null. -/
inductive OptionalAs [Datum α] (written : β → α → Prop) : Option β → Option α → Prop
  | missing : OptionalAs written none none
  | null {x : α} (null : absent? x = some true) : OptionalAs written none (some x)
  | given {b : β} {x : α} (present : absent? x = some false) (value : written b x) :
      OptionalAs written (some b) (some x)

/-- A value that may be missing, with one of its own for that case. -/
inductive DefaultedAs (written : β → α → Prop) (value : β) : β → Option α → Prop
  | missing : DefaultedAs written value value none
  | given {b : β} {x : α} (given : written b x) : DefaultedAs written value b (some x)

/-- A list of values. -/
def ListAs [Datum α] (written : β → α → Prop) (bs : List β) (x : α) : Prop :=
  ∃ items, items? x = some items ∧ List.Forall₂ written bs items

variable {read : α → Option β} {written : β → α → Prop}
  (hread : ∀ {x b}, read x = some b ↔ written b x)

include hread

theorem required_eq_some_iff {b : β} {field : Option α} :
    required read field = some b ↔ ∃ x, field = some x ∧ written b x := by
  rw [required, Option.bind_eq_some_iff]
  simp only [hread]

theorem defaulted_eq_some_iff {value b : β} {field : Option α} :
    defaulted read value field = some b ↔ DefaultedAs written value b field := by
  cases field with
  | none =>
      constructor
      · intro h
        cases h
        exact .missing
      · rintro ⟨⟩
        rfl
  | some x =>
      constructor
      · exact fun h => .given (hread.mp h)
      · rintro (_ | h)
        exact hread.mpr h

theorem optional_eq_some_iff [Datum α] {o : Option β} {field : Option α} :
    Datum.optional read field = some o ↔ OptionalAs written o field := by
  cases field with
  | none =>
      constructor
      · intro h
        cases h
        exact .missing
      · rintro ⟨⟩
        rfl
  | some x =>
      simp only [Datum.optional, Option.bind_eq_bind, Option.bind_eq_some_iff, Option.pure_def]
      constructor
      · rintro ⟨absent, habsent, h⟩
        cases absent with
        | true =>
            cases h
            exact .null habsent
        | false =>
            obtain ⟨b, hb, heq⟩ := Option.bind_eq_some_iff.mp h
            cases heq
            exact .given habsent (hread.mp hb)
      · rintro (_ | habsent | ⟨habsent, h⟩)
        · exact ⟨true, habsent, rfl⟩
        · exact ⟨false, habsent, by simp [hread.mpr h]⟩

theorem list?_eq_some_iff [Datum α] {bs : List β} {x : α} :
    list? read x = some bs ↔ ListAs written bs x := by
  simp only [list?, Option.bind_eq_bind, Option.bind_eq_some_iff, mapM_eq_some_iff, hread]
  constructor
  · rintro ⟨items, hitems, h⟩
    exact ⟨items, hitems, h.flip⟩
  · rintro ⟨items, hitems, h⟩
    exact ⟨items, hitems, h.flip⟩

end Datum

/-! ## Lines -/

namespace Line

variable [Datum α]

/-- A line is a number of 64 bits, or nothing where it is unknown; a number that does not fit 32
bits stands for an unknown line too. -/
inductive WrittenAs : Line → Option α → Prop
  | missing : WrittenAs none none
  | null {x : α} (null : Datum.absent? x = some true) : WrittenAs none (some x)
  | known {x : α} {n : UInt32} (present : Datum.absent? x = some false)
      (number : Datum.whole? x = some (n.toNat : Int)) : WrittenAs (some n) (some x)
  | unfit {x : α} {i : Int} (present : Datum.absent? x = some false)
      (number : Datum.whole? x = some i) (low : -0x8000000000000000 ≤ i)
      (high : i < 0x8000000000000000) (outside : i < 0 ∨ 0x100000000 ≤ i) :
      WrittenAs none (some x)

theorem ofInt_eq_none_iff {i : Int} : ofInt i = none ↔ i < 0 ∨ 0x100000000 ≤ i := by
  rw [ofInt]
  simp only [UInt32.size]
  split
  · simp only [reduceCtorEq, false_iff]
    omega
  · simp only [true_iff]
    omega

theorem ofInt_eq_some_iff {i : Int} {n : UInt32} : ofInt i = some n ↔ i = n.toNat := by
  constructor
  · intro h
    rw [ofInt] at h
    split at h
    · rename_i hrange
      simp only [UInt32.size] at hrange
      cases h
      rw [UInt32.toNat_ofNat_of_lt' (by simp only [UInt32.size]; omega)]
      omega
    · cases h
  · rintro rfl
    exact ofInt_toInt (some n)

theorem read?_eq_some_iff {x : α} {l : Line} :
    read? x = some l ↔ ∃ i, Datum.whole? x = some i ∧ -0x8000000000000000 ≤ i ∧
      i < 0x8000000000000000 ∧ ofInt i = l := by
  simp only [read?, Option.bind_eq_bind, Option.bind_eq_some_iff, Option.pure_def]
  constructor
  · rintro ⟨i, hi, h⟩
    split at h
    · rename_i hrange
      cases h
      exact ⟨i, hi, hrange.1, hrange.2, rfl⟩
    · cases h
  · rintro ⟨i, hi, hlow, hhigh, rfl⟩
    exact ⟨i, hi, by rw [if_pos ⟨hlow, hhigh⟩]⟩

theorem readField?_eq_some_iff {field : Option α} {l : Line} :
    readField? field = some l ↔ l.WrittenAs field := by
  rw [readField?, Option.map_eq_some_iff]
  simp only [Datum.optional_eq_some_iff read?_eq_some_iff]
  constructor
  · rintro ⟨o, ho, rfl⟩
    cases ho with
    | missing => exact .missing
    | null h => exact .null h
    | given present value =>
        rename_i l x
        obtain ⟨i, hi, hlow, hhigh, hl⟩ := value
        cases l with
        | none => exact .unfit present hi hlow hhigh (ofInt_eq_none_iff.mp hl)
        | some n => exact .known present (by rw [hi, ofInt_eq_some_iff.mp hl])
  · intro h
    cases h with
    | missing => exact ⟨none, .missing, rfl⟩
    | null h => exact ⟨none, .null h, rfl⟩
    | @known x n present number =>
        have hn := n.toNat_lt
        refine ⟨some (some n), .given present ⟨_, number, ?_, ?_, ofInt_eq_some_iff.mpr rfl⟩, rfl⟩
        · omega
        · omega
    | unfit present number low high outside =>
        exact ⟨some none, .given present ⟨_, number, low, high, ofInt_eq_none_iff.mpr outside⟩, rfl⟩

end Line
end RuleBuild
