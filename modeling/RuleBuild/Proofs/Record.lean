import RuleBuild.Diagnostic

/-!
# Records read back

A record whose members are named after its fields is read as the data of its members.
-/
namespace RuleBuild

theorem mapM_eq_some {α β : Type} {f : α → Option β} {g : α → β} {xs : List α}
    (h : ∀ x ∈ xs, f x = some (g x)) : xs.mapM f = some (xs.map g) := by
  induction xs with
  | nil => rfl
  | cons x xs ih =>
      obtain ⟨hx, hxs⟩ := List.forall_mem_cons.mp h
      rw [List.mapM_cons, hx, ih hxs]
      rfl

theorem exists_of_mapM_eq_some {α β : Type} {f : α → Option β} {xs : List α} {ys : List β}
    (h : xs.mapM f = some ys) {y : β} (hy : y ∈ ys) : ∃ x ∈ xs, f x = some y := by
  induction xs generalizing ys with
  | nil =>
      cases h
      cases hy
  | cons x xs ih =>
      rw [List.mapM_cons] at h
      simp only [Option.bind_eq_bind, Option.bind_eq_some_iff] at h
      obtain ⟨z, hz, zs, hzs, heq⟩ := h
      cases heq
      rcases List.mem_cons.mp hy with rfl | hy
      · exact ⟨x, List.mem_cons_self, hz⟩
      · obtain ⟨w, hw, hfw⟩ := ih hzs hy
        exact ⟨w, List.mem_cons_of_mem x hw, hfw⟩

namespace Body

variable {α : Type}

theorem named_cons (key : String) (m : String × α) (members : List (String × α)) :
    named key (m :: members) =
      if m.1 = key then m.2 :: named key members else named key members := by
  by_cases hm : m.1 = key
  · simp [named, hm]
  · simp [named, hm]

theorem named_of_mem {members : List (String × α)} (h : (members.map (·.1)).Nodup)
    {m : String × α} (hm : m ∈ members) : named m.1 members = [m.2] := by
  induction members with
  | nil => cases hm
  | cons n members ih =>
      obtain ⟨hn, hmembers⟩ := List.nodup_cons.mp h
      rcases List.mem_cons.mp hm with rfl | hm
      · have hrest : members.filter (·.1 = m.1) = [] := by
          refine List.filter_eq_nil_iff.mpr fun x hx => ?_
          simp only [decide_eq_true_eq]
          exact fun hkey => hn (List.mem_map.mpr ⟨x, hx, hkey⟩)
        simp [named, hrest]
      · have hne : n.1 ≠ m.1 := fun hkey => hn (List.mem_map.mpr ⟨m, hm, hkey.symm⟩)
        rw [← ih hmembers hm]
        simp [named, hne]

/-- Members of other names say nothing about a field. -/
theorem named_filter_ne {key other : String} (h : key ≠ other) (members : List (String × α)) :
    named key (members.filter (·.1 ≠ other)) = named key members := by
  rw [named, named, List.filter_filter]
  congr 1
  refine List.filter_congr fun m _ => ?_
  by_cases hm : m.1 = key
  · simp [hm, h]
  · simp [hm]

/-- Members named each by another field are the data of the fields. -/
theorem fields?_keyed {names : List String} {members : List (String × α)}
    (hnames : members.map (·.1) = names) (h : names.Nodup) :
    (Body.keyed members).fields? names = some (members.map fun m => some m.2) := by
  subst hnames
  rw [fields?, List.mapM_map]
  refine mapM_eq_some fun m hm => ?_
  rw [Function.comp_apply, member?, named_of_mem h hm]

/-- A tag that comes first is taken off the members after it. -/
theorem tagged?_keyed [Datum α] {key tag : String} {x : α} {members : List (String × α)}
    (hx : Datum.text? x = some tag) (h : ∀ m ∈ members, m.1 ≠ key) :
    (Body.keyed ((key, x) :: members)).tagged? key = some (tag, .keyed members) := by
  have hnamed : members.filter (·.1 = key) = [] :=
    List.filter_eq_nil_iff.mpr fun m hm => by simpa using h m hm
  have hrest : members.filter (·.1 ≠ key) = members :=
    List.filter_eq_self.mpr fun m hm => by simpa using h m hm
  have htag : named key ((key, x) :: members) = [x] := by simp [named, hnamed]
  rw [tagged?, member?, htag, List.filter_cons_of_neg (by simp), hrest]
  simp [hx]

end Body

theorem Line.ofInt_toInt (l : Line) : Line.ofInt l.toInt = l := by
  cases l with
  | none => rfl
  | some n =>
      have hn := n.toNat_lt
      rw [Line.toInt, Line.ofInt, if_pos ⟨by omega, by simp only [UInt32.size]; omega⟩]
      simp

theorem Line.toInt_range (l : Line) : -1 ≤ l.toInt ∧ l.toInt < 0x100000000 := by
  cases l with
  | none => exact ⟨by decide, by decide⟩
  | some n =>
      have hn := n.toNat_lt
      rw [Line.toInt]
      omega

/-- A line is read from its number, an unknown one from the number that stands for it. -/
theorem Line.readField?_of_whole {α : Type} [Datum α] {x : α} {l : Line}
    (habsent : Datum.absent? x = some false) (hwhole : Datum.whole? x = some l.toInt) :
    Line.readField? (some x) = some l := by
  obtain ⟨hlow, hhigh⟩ := l.toInt_range
  have hread : Line.read? x = some l := by
    rw [Line.read?, hwhole]
    simp only [Option.bind_eq_bind, Option.bind_some, Line.ofInt_toInt]
    rw [if_pos (by omega)]
    rfl
  simp [Line.readField?, Datum.optional, habsent, hread]

theorem Severity.read?_of_text {α : Type} [Datum α] {x : α} {s : Severity}
    (h : Datum.text? x = some s.name) : Severity.read? x = some s := by
  have hchoice : Datum.choice? x = some s.name := by simp [Datum.choice?, h]
  rw [Severity.read?, hchoice, Option.bind_some]
  cases s with
  | info => rfl
  | warning => rfl
  | error => rfl

end RuleBuild
