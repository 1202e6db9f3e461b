import Mathlib.Data.List.DropRight
import MonkeyLanguage.Text.Newline
import MonkeyLanguage.Text.Position

/-!
# Lines and positions

A position is found by counting: as many line feeds stand before it as there are lines above, and its column
tells the characters behind the last of them (`advance_start`).  So the character at an offset is found in the
lines of a text by its position (`getElem?_splitOnP`).
-/

namespace MonkeyLanguage

/-! ## Splitting a list -/

section
variable {α : Type} (p : α → Bool)

/-- The parts before the last separator of a list are parts of every list that it begins, and what is behind that
separator goes on with the first part of the rest. -/
theorem exists_splitOnP_append (before : List α) :
    ∃ parts : List (List α), parts.length = before.countP p ∧
      ∀ rest, (before ++ rest).splitOnP p =
        parts ++ (rest.splitOnP p).modifyHead (before.rtakeWhile (!p ·) ++ ·) := by
  induction before using List.reverseRecOn with
  | nil => exact ⟨[], rfl, fun rest => (congrFun List.modifyHead_id _).symm⟩
  | append_singleton before c ih =>
    obtain ⟨parts, hlength, hparts⟩ := ih
    by_cases hc : p c = true
    · refine ⟨parts ++ [before.rtakeWhile (!p ·)], by simp [hlength, hc], fun rest => ?_⟩
      rw [← List.append_cons, hparts, List.splitOnP_cons_eq_if_modifyHead, if_pos hc, List.rtakeWhile_concat,
        if_neg (by simp [hc])]
      show parts ++ (_ ++ []) :: _ = parts ++ [_] ++ List.modifyHead id _
      rw [List.modifyHead_id, List.append_nil, List.append_cons]
      rfl
    · refine ⟨parts, by simp [hlength, hc], fun rest => ?_⟩
      rw [← List.append_cons, hparts, List.splitOnP_cons_eq_if_modifyHead, if_neg hc, List.rtakeWhile_concat,
        List.modifyHead_modifyHead]
      simp [hc, Function.comp_def]

theorem getElem?_splitOnP {before after : List α} {x : α} (hx : p x = false) :
    ∃ part, ((before ++ x :: after).splitOnP p)[before.countP p]? = some part ∧
      part[(before.rtakeWhile (!p ·)).length]? = some x := by
  obtain ⟨parts, hlength, hparts⟩ := exists_splitOnP_append p before
  obtain ⟨part, others, hafter⟩ := List.exists_cons_of_ne_nil (List.splitOnP_ne_nil p after)
  refine ⟨before.rtakeWhile (!p ·) ++ x :: part, ?_, by simp⟩
  rw [hparts, List.splitOnP_cons_eq_if_modifyHead, hafter, ← hlength]
  simp [hx]

theorem length_splitOnP (xs : List α) : (xs.splitOnP p).length = xs.countP p + 1 := by
  obtain ⟨parts, hlength, hparts⟩ := exists_splitOnP_append p xs
  have h := congrArg List.length (hparts [])
  rw [List.append_nil, List.splitOnP_nil, List.length_append, hlength] at h
  simpa using h

theorem not_of_mem_splitOnP {xs part : List α} {x : α} (hpart : part ∈ xs.splitOnP p) (hx : x ∈ part) :
    p x = false := by
  induction xs generalizing part with
  | nil =>
    rw [List.splitOnP_nil, List.mem_singleton] at hpart
    subst hpart
    cases hx
  | cons c xs ih =>
    rw [List.splitOnP_cons_eq_if_modifyHead] at hpart
    obtain ⟨first, others, hxs⟩ := List.exists_cons_of_ne_nil (List.splitOnP_ne_nil p xs)
    rw [hxs] at hpart ih
    split at hpart
    · rcases List.mem_cons.1 hpart with rfl | hpart
      · cases hx
      · exact ih hpart hx
    · next hc =>
      rcases List.mem_cons.1 hpart with rfl | hpart
      · rcases List.mem_cons.1 hx with rfl | hx
        · simpa using hc
        · exact ih (List.mem_cons_self ..) hx
      · exact ih (List.mem_cons_of_mem _ hpart) hx

theorem map_splitOnP {β : Type} (f : β → α) (xs : List β) :
    (xs.splitOnP fun x => p (f x)).map (·.map f) = (xs.map f).splitOnP p := by
  induction xs with
  | nil => rfl
  | cons x xs ih =>
    rw [List.map_cons, List.splitOnP_cons_eq_if_modifyHead, List.splitOnP_cons_eq_if_modifyHead, ← ih]
    split
    · rfl
    · cases xs.splitOnP fun x => p (f x) <;> rfl

theorem rtakeWhile_map {β : Type} (f : β → α) (xs : List β) :
    (xs.map f).rtakeWhile p = (xs.rtakeWhile fun x => p (f x)).map f := by
  simp only [List.rtakeWhile, ← List.map_reverse, List.takeWhile_map]
  rfl

end

namespace Text

def lastLine (text : List Char) : List Char :=
  text.rtakeWhile (· != '\n')

@[simp] theorem lastLine_concat (text : List Char) (c : Char) :
    lastLine (text ++ [c]) = if c = '\n' then [] else lastLine text ++ [c] := by
  rw [lastLine, List.rtakeWhile_concat]
  by_cases hc : c = '\n' <;> simp [hc, lastLine]

theorem lines_ne_nil (text : List Char) : lines text ≠ [] := by
  cases text with
  | nil => exact List.cons_ne_nil _ _
  | cons c text =>
    rw [lines]
    split
    · exact List.cons_ne_nil _ _
    · split <;> exact List.cons_ne_nil _ _

end Text

/-! ## Positions -/

namespace Position

/-- The position of the character at an offset of a text: a line more for each line feed before it, and a column
more for each character behind the last of those. -/
def ofOffset (text : List Char) (offset : Nat) : Position :=
  ⟨1 + (text.take offset).count '\n', 1 + (Text.lastLine (text.take offset)).length⟩

theorem advance_start (text : List Char) :
    start.advance text = ⟨1 + text.count '\n', 1 + (Text.lastLine text).length⟩ := by
  induction text using List.reverseRecOn with
  | nil => rfl
  | append_singleton text c ih =>
    rw [advance_append, ih, advance_cons, advance_nil, next, List.count_append, Text.lastLine_concat]
    by_cases hc : c = '\n'
    · simp [hc, Nat.add_assoc]
    · simp [hc, Nat.add_assoc]

theorem ofOffset_append (before rest : List Char) :
    ofOffset (before ++ rest) before.length = start.advance before := by
  rw [ofOffset, List.take_left, advance_start]

end Position

end MonkeyLanguage
