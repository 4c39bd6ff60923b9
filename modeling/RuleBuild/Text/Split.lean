/-!
Texts cut at a separator and put together again. Main statement: joining the pieces of a text gives
the text back. It does not matter what a text consists of: bytes are cut as characters are.
-/
namespace RuleBuild.Text

section Pieces

variable {α : Type} [DecidableEq α]

/-- `c` before the pieces `ps`: it begins a piece if it is the separator, else it belongs to the
first one. -/
def cut (sep c : α) (ps : List (List α)) : List (List α) :=
  if c = sep then [] :: ps
  else
    match ps with
    | [] => [[c]]
    | p :: ps => (c :: p) :: ps

/-- The pieces of a text between the separators, at least one. -/
def split (sep : α) (cs : List α) : List (List α) :=
  cs.foldr (cut sep) [[]]

/-- The pieces one after the other, with a separator between them. -/
def join (sep : α) : List (List α) → List α
  | [] => []
  | [p] => p
  | p :: q :: ps => p ++ sep :: join sep (q :: ps)

@[simp] theorem split_nil (sep : α) : split sep [] = [[]] := rfl

@[simp] theorem split_cons (sep c : α) (cs : List α) :
    split sep (c :: cs) = cut sep c (split sep cs) := rfl

theorem split_ne_nil (sep : α) (cs : List α) : split sep cs ≠ [] := by
  cases cs with
  | nil => simp
  | cons c cs => simp only [split_cons, cut]; split <;> (try split) <;> simp

theorem join_cut (sep c : α) {ps : List (List α)} (h : ps ≠ []) :
    join sep (cut sep c ps) = c :: join sep ps := by
  obtain ⟨p, ps, rfl⟩ := List.exists_cons_of_ne_nil h
  by_cases hc : c = sep
  · simp [cut, hc, join]
  · cases ps <;> simp [cut, hc, join]

theorem join_split (sep : α) (cs : List α) : join sep (split sep cs) = cs := by
  induction cs with
  | nil => rfl
  | cons c cs ih => rw [split_cons, join_cut sep c (split_ne_nil sep cs), ih]

end Pieces

/-- A line without a carriage return at its end. -/
def dropReturn (line : List Char) : List Char :=
  if line.getLast? = some '\r' then line.dropLast else line

/-- The lines of a text. A line feed ends a line, together with a carriage return before it; what
stands after the last line feed is a line unless it is nothing. -/
def lines (cs : List Char) : List (List Char) :=
  let ps := split '\n' cs
  ps.dropLast.map dropReturn ++ ps.getLast?.toList.filter (· ≠ [])

end RuleBuild.Text
