import Remnic.Text.CodeUnits

/-! Texts as their lines, and what trimming takes away: the blanks at both ends, and no more. -/

namespace Remnic.Text.Lines

open CodeUnits List

/-- A text without a newline. -/
abbrev Line := { line : JsString // newline ∉ line }

def unlines (lines : List JsString) : JsString := lines.flatMap (· ++ [newline])

@[simp] theorem startsWith_nil (value : JsString) : startsWith value [] = true := by
  cases value <;> rfl

@[simp] theorem startsWith_cons_cons (c other : CodeUnit) (value start : JsString) :
    startsWith (c :: value) (other :: start) = (other == c && startsWith value start) := rfl

theorem split_append_newline {line : JsString} (one : newline ∉ line) (rest : JsString) :
    split newline (line ++ newline :: rest) = line :: split newline rest := by
  have whole : line ++ newline :: rest = [newline].intercalate (line :: split newline rest) := by
    obtain ⟨first, later, pieces⟩ := exists_cons_of_ne_nil (split_ne_nil newline rest)
    rw [pieces, intercalate_cons_cons, ← pieces, join_split, append_assoc]
    rfl
  rw [whole]
  refine splitOn_intercalate newline ?_ (cons_ne_nil _ _)
  intro piece member
  rcases mem_cons.mp member with rfl | later
  · exact one
  · exact not_mem_of_mem_split later

/-- The lines of a text whose every line is ended, and nothing after the last one. -/
theorem split_unlines {lines : List JsString} (free : ∀ line ∈ lines, newline ∉ line) :
    split newline (unlines lines) = lines ++ [[]] := by
  induction lines with
  | nil => exact splitOn_nil newline
  | cons line lines ih =>
    rw [unlines, flatMap_cons, append_assoc, singleton_append,
      split_append_newline (free line mem_cons_self), ← unlines, ih fun other member => free other (mem_cons_of_mem _ member)]
    rfl

end Remnic.Text.Lines

namespace Remnic.Text.Trim

open CodeUnits List

variable {front back value : JsString}

/-- Only blanks. -/
def Blank (value : JsString) : Prop := ∀ c ∈ value, isWhiteSpace c = true

theorem trim_append_blank (blank : Blank back) : trim (value ++ back) = trim value := by
  unfold trim
  congr 1
  rw [dropWhile_append]
  split
  next empty =>
    have gone : value.dropWhile isWhiteSpace = [] := by simpa using empty
    rw [dropWhile_eq_nil_iff.mpr blank, gone]
  next solid =>
    rw [reverse_append, dropWhile_append_of_pos]
    intro c member
    exact blank c (mem_reverse.mp member)

theorem trim_blank_append (blank : Blank front) : trim (front ++ value) = trim value := by
  rw [trim_eq_rdropWhile, trim_eq_rdropWhile, dropWhile_append_of_pos blank]

/-- Every text is what trimming leaves, between blanks. -/
theorem exists_blanks (value : JsString) : ∃ front back, value = front ++ trim value ++ back ∧ Blank front ∧ Blank back := by
  refine ⟨value.takeWhile isWhiteSpace, (value.dropWhile isWhiteSpace).rtakeWhile isWhiteSpace, ?_, fun c member => ?_, fun c member => ?_⟩
  · have parts : (value.dropWhile isWhiteSpace).rdropWhile isWhiteSpace ++ (value.dropWhile isWhiteSpace).rtakeWhile isWhiteSpace =
        value.dropWhile isWhiteSpace := by
      unfold List.rdropWhile List.rtakeWhile
      rw [← reverse_append, takeWhile_append_dropWhile, reverse_reverse]
    rw [trim_eq_rdropWhile, append_assoc, parts, takeWhile_append_dropWhile]
  · exact mem_takeWhile_imp member
  · exact mem_rtakeWhile_imp member

end Remnic.Text.Trim
