import Remnic.Library.CommonSubsequence
import Remnic.Text.Lines

/-!
`diffVersions` and `computeLCS`. The walk takes both versions along a longest common subsequence of
their lines; it is in step with them whichever one the table gives.
-/

namespace Remnic.PageVersioning.Diff

open Text.CodeUnits Text.Lines Library.CommonSubsequence List

abbrev Table := Nat → Nat → Nat

def Table.set (dp : Table) (i j value : Nat) : Table := fun row column => if row = i ∧ column = j then value else dp row column

/-- The inner loop, for one row and the columns to `j`. -/
def fillRow (a b : List JsString) (i : Nat) (dp : Table) : Nat → Table
  | 0 => dp
  | j + 1 =>
      let dp := fillRow a b i dp j
      dp.set (i + 1) (j + 1) (if a[i]? = b[j]? then dp i j + 1 else max (dp i (j + 1)) (dp (i + 1) j))

/-- The outer loop, for the rows to `i`. -/
def fillTable (a b : List JsString) : Nat → Table
  | 0 => fun _ _ => 0
  | i + 1 => fillRow a b i (fillTable a b i) b.length

/-- The walk back from a cell of the table. -/
def backtrack (a b : List JsString) (dp : Table) : Nat → Nat → List JsString → List JsString
  | i + 1, j + 1, result =>
      if a[i]? = b[j]? then backtrack a b dp i j (a[i]?.getD [] :: result)
      else if dp i (j + 1) > dp (i + 1) j then backtrack a b dp i (j + 1) result
      else backtrack a b dp (i + 1) j result
  | _, _, result => result
termination_by i j => i + j

def computeLCS (a b : List JsString) : List JsString := backtrack a b (fillTable a b a.length) a.length b.length []

def minus : CodeUnit := unit 0x2D

def plus : CodeUnit := unit 0x2B

/-- The lines of the diff after its header, from what remains of both versions. -/
def diffLines : List JsString → List JsString → List JsString → List JsString
  | [], lines1, lines2 => lines1.map (minus :: ·) ++ lines2.map (plus :: ·)
  | common :: lcs, lines1, lines2 =>
      let removed := lines1.takeWhile fun line => decide (line ≠ common)
      let added := lines2.takeWhile fun line => decide (line ≠ common)
      removed.map (minus :: ·) ++ added.map (plus :: ·) ++
        (space :: common) :: diffLines lcs (lines1.drop (removed.length + 1)) (lines2.drop (added.length + 1))

/-- `diffVersions`, with the contents that `getVersion` reads. -/
def diffVersions (content1 content2 : JsString) (v1 v2 : Line) : JsString :=
  let lines1 := split newline content1
  let lines2 := split newline content2
  [newline].intercalate ((text "--- version " ++ v1.val) :: (text "+++ version " ++ v2.val) ::
    diffLines (computeLCS lines1 lines2) lines1 lines2)

/-- The lines of a diff that carry one of two marks, without them. -/
def marked (mark other : CodeUnit) (lines : List JsString) : List JsString :=
  lines.filterMap fun line => if line.head? = some mark ∨ line.head? = some other then some line.tail else none

structure IsFaithful (content1 content2 diff : JsString) : Prop where
  first : marked minus space ((split newline diff).drop 2) = split newline content1
  second : marked plus space ((split newline diff).drop 2) = split newline content2
  common : IsLongest (((split newline diff).drop 2).countP fun line => line.head? = some space) (split newline content1) (split newline content2)

section table

variable {a b : List JsString} {dp : Table} {i j row column : Nat}

theorem fillRow_of_ne (i : Nat) {dp : Table} (other : row ≠ i + 1) : fillRow a b i dp j row column = dp row column := by
  induction j with
  | zero => rfl
  | succ j ih =>
    unfold fillRow Table.set
    dsimp only
    rw [if_neg fun same => other same.1, ih]

theorem fillRow_add (left : column ≤ j) (more : Nat) : fillRow a b i dp (j + more) (i + 1) column = fillRow a b i dp j (i + 1) column := by
  induction more with
  | zero => rfl
  | succ more ih =>
    rw [← Nat.add_assoc, fillRow, Table.set, if_neg (by omega), ih]

theorem fillTable_above (i : Nat) : ∀ row, i < row → ∀ column, fillTable a b i row column = 0 := by
  induction i with
  | zero => exact fun _ _ _ => rfl
  | succ i ih =>
    intro row below column
    unfold fillTable
    rw [fillRow_of_ne i (Nat.ne_of_gt below)]
    exact ih row (Nat.lt_of_succ_lt below) column

theorem fillTable_column_zero (i row : Nat) : fillTable a b i row 0 = 0 := by
  induction i with
  | zero => rfl
  | succ i ih =>
    unfold fillTable
    by_cases own : row = i + 1
    · subst own
      have kept : fillRow a b i (fillTable a b i) (0 + b.length) (i + 1) 0 = fillRow a b i (fillTable a b i) 0 (i + 1) 0 := fillRow_add le_rfl b.length
      rw [Nat.zero_add] at kept
      rw [kept]
      exact fillTable_above i (i + 1) (Nat.lt_succ_self i) 0
    · rw [fillRow_of_ne i own, ih]

theorem fillTable_succ (i : Nat) (within : j < b.length) :
    fillTable a b (i + 1) (i + 1) (j + 1) =
      if a[i]? = b[j]? then fillTable a b (i + 1) i j + 1
      else max (fillTable a b (i + 1) i (j + 1)) (fillTable a b (i + 1) (i + 1) j) := by
  obtain ⟨more, width⟩ := Nat.exists_eq_add_of_le (Nat.succ_le_of_lt within)
  have above (column : Nat) : fillTable a b (i + 1) i column = fillTable a b i i column := fillRow_of_ne i (Nat.ne_of_lt (Nat.lt_succ_self i))
  have left : fillTable a b (i + 1) (i + 1) j = fillRow a b i (fillTable a b i) j (i + 1) j := by
    rw [fillTable, width, Nat.succ_add, ← Nat.add_succ]
    exact fillRow_add le_rfl _
  have cell : fillTable a b (i + 1) (i + 1) (j + 1) = fillRow a b i (fillTable a b i) (j + 1) (i + 1) (j + 1) := by
    rw [fillTable, width]
    exact fillRow_add le_rfl _
  rw [cell, left, above, above, fillRow, Table.set, if_pos ⟨rfl, rfl⟩, fillRow_of_ne i (Nat.ne_of_lt (Nat.lt_succ_self i)),
    fillRow_of_ne i (Nat.ne_of_lt (Nat.lt_succ_self i))]

theorem fillTable_later (more : Nat) (filled : row ≤ i) : fillTable a b (i + more) row column = fillTable a b i row column := by
  induction more with
  | zero => rfl
  | succ more ih => rw [← Nat.add_assoc, fillTable, fillRow_of_ne _ (by omega), ih]

theorem fillTable_cell (filled : row < i) (within : column < b.length) :
    fillTable a b i (row + 1) (column + 1) =
      if a[row]? = b[column]? then fillTable a b i row column + 1
      else max (fillTable a b i row (column + 1)) (fillTable a b i (row + 1) column) := by
  obtain ⟨more, rfl⟩ := Nat.exists_eq_add_of_le (Nat.succ_le_of_lt filled)
  rw [fillTable_later more le_rfl, fillTable_later more le_rfl, fillTable_later more (Nat.le_succ row), fillTable_later more (Nat.le_succ row)]
  exact fillTable_succ row within

theorem fillTable_isLongest (rows : row ≤ i) (height : i ≤ a.length) (columns : column ≤ b.length) :
    IsLongest (fillTable a b i row column) (a.take row) (b.take column) := by
  induction row generalizing column with
  | zero =>
    have start : fillTable a b (0 + i) 0 column = fillTable a b 0 0 column := fillTable_later i le_rfl
    rw [Nat.zero_add] at start
    rw [start]
    exact isLongest_nil_left _
  | succ row ihRow =>
    induction column with
    | zero =>
      rw [fillTable_column_zero]
      exact isLongest_nil_right _
    | succ column ihColumn =>
      have inFirst : row < a.length := Nat.lt_of_lt_of_le rows height
      have above := ihRow (Nat.le_of_succ_le rows) columns
      have diagonal := ihRow (Nat.le_of_succ_le rows) (Nat.le_of_succ_le columns)
      have left := ihColumn (Nat.le_of_succ_le columns)
      rw [take_succ_eq_append_getElem inFirst] at left ⊢
      rw [take_succ_eq_append_getElem columns] at above ⊢
      rw [fillTable_cell rows columns, getElem?_eq_getElem inFirst, getElem?_eq_getElem columns]
      by_cases same : a[row] = b[column]
      · rw [if_pos (congrArg some same), ← same]
        exact diagonal.concat a[row]
      · rw [if_neg fun equal => same (Option.some_inj.mp equal)]
        exact above.concat_of_ne same left

theorem backtrack_spec (result : List JsString) (height : row ≤ a.length) (width : column ≤ b.length) :
    ∃ common, backtrack a b (fillTable a b a.length) row column result = common ++ result ∧
      IsCommon common (a.take row) (b.take column) ∧ common.length = fillTable a b a.length row column := by
  fun_induction backtrack a b (fillTable a b a.length) row column result with
  | case1 row column result same ih =>
    obtain ⟨common, walked, ⟨inFirst, inSecond⟩, long⟩ := ih (Nat.le_of_succ_le height) (Nat.le_of_succ_le width)
    have line : a[row]?.getD [] = a[row] := by rw [getElem?_eq_getElem height, Option.getD_some]
    rw [getElem?_eq_getElem height, getElem?_eq_getElem width, Option.some_inj] at same
    refine ⟨common ++ [a[row]], ?_, ⟨?_, ?_⟩, ?_⟩
    · rw [walked, line, append_assoc]
      rfl
    · rw [take_succ_eq_append_getElem height]
      exact inFirst.append (Sublist.refl _)
    · rw [take_succ_eq_append_getElem width, same]
      exact inSecond.append (Sublist.refl _)
    · rw [fillTable_cell height width, getElem?_eq_getElem height, getElem?_eq_getElem width, if_pos (congrArg some same),
        length_append, long, length_singleton]
  | case2 row column result different greater ih =>
    obtain ⟨common, walked, ⟨inFirst, inSecond⟩, long⟩ := ih (Nat.le_of_succ_le height) width
    refine ⟨common, walked, ⟨inFirst.trans (take_sublist_take_left (Nat.le_succ row)), inSecond⟩, ?_⟩
    rw [fillTable_cell height width, if_neg different, long, Nat.max_eq_left (Nat.le_of_lt greater)]
  | case3 row column result different less ih =>
    obtain ⟨common, walked, ⟨inFirst, inSecond⟩, long⟩ := ih height (Nat.le_of_succ_le width)
    refine ⟨common, walked, ⟨inFirst, inSecond.trans (take_sublist_take_left (Nat.le_succ column))⟩, ?_⟩
    rw [fillTable_cell height width, if_neg different, long, Nat.max_eq_right (Nat.not_lt.mp less)]
  | case4 row column result edge =>
    refine ⟨[], rfl, ⟨nil_sublist _, nil_sublist _⟩, ?_⟩
    cases row with
    | zero =>
      have longest : IsLongest (fillTable a b a.length 0 column) (a.take 0) (b.take column) := fillTable_isLongest (Nat.zero_le _) le_rfl width
      obtain ⟨⟨common, ⟨inFirst, -⟩, long⟩, -⟩ := longest
      rw [take_zero] at inFirst
      rw [← long, sublist_nil.mp inFirst]
    | succ row =>
      cases column with
      | zero => exact (fillTable_column_zero _ _).symm
      | succ column => exact (edge row column rfl rfl).elim

end table

theorem computeLCS_spec (a b : List JsString) : IsCommon (computeLCS a b) a b ∧ IsLongest (computeLCS a b).length a b := by
  obtain ⟨common, walked, isCommon, long⟩ := backtrack_spec (a := a) (b := b) [] le_rfl le_rfl
  have longest := fillTable_isLongest (a := a) (b := b) (Nat.le_refl a.length) le_rfl le_rfl
  rw [append_nil] at walked
  rw [take_length, take_length] at isCommon longest
  rw [computeLCS, walked, long]
  exact ⟨isCommon, longest⟩

section walk

variable {mark : CodeUnit} {lines lcs lines1 lines2 : List JsString}

theorem marked_append (mark other : CodeUnit) (lines rest : List JsString) :
    marked mark other (lines ++ rest) = marked mark other lines ++ marked mark other rest := filterMap_append

theorem marked_own (mark other : CodeUnit) (lines : List JsString) : marked mark other (lines.map (mark :: ·)) = lines := by
  unfold marked
  rw [filterMap_map]
  exact (filterMap_congr fun line _ => if_pos (.inl rfl)).trans filterMap_some

theorem marked_foreign {mark other foreign : CodeUnit} (apart : foreign ≠ mark ∧ foreign ≠ other) (lines : List JsString) :
    marked mark other (lines.map (foreign :: ·)) = [] := by
  refine filterMap_eq_nil_iff.mpr fun line member => ?_
  obtain ⟨line, _, rfl⟩ := mem_map.mp member
  exact if_neg (by simpa using apart)

theorem countP_map_mark {mark foreign : CodeUnit} (apart : foreign ≠ mark) (lines : List JsString) :
    (lines.map (foreign :: ·)).countP (fun line => line.head? = some mark) = 0 := by
  refine countP_eq_zero.mpr fun line member => ?_
  obtain ⟨line, _, rfl⟩ := mem_map.mp member
  simpa using apart

theorem lines_around {common : JsString} (sub : (common :: lcs).Sublist lines) :
    lines.takeWhile (fun line => decide (line ≠ common)) ++
        common :: lines.drop ((lines.takeWhile fun line => decide (line ≠ common)).length + 1) = lines ∧
      lcs.Sublist (lines.drop ((lines.takeWhile fun line => decide (line ≠ common)).length + 1)) := by
  obtain ⟨rest, after, sub⟩ := sublist_after_first sub
  have whole := takeWhile_append_dropWhile (p := fun line => decide (line ≠ common)) (l := lines)
  rw [after] at whole
  have remains : lines.drop ((lines.takeWhile fun line => decide (line ≠ common)).length + 1) = rest := by
    have cut (front : List JsString) : (front ++ common :: rest).drop (front.length + 1) = rest := by simp
    exact (congrArg (List.drop _) whole.symm).trans (cut _)
  rw [remains]
  exact ⟨whole, sub⟩

theorem diffLines_spec (inFirst : lcs.Sublist lines1) (inSecond : lcs.Sublist lines2) :
    marked minus space (diffLines lcs lines1 lines2) = lines1 ∧ marked plus space (diffLines lcs lines1 lines2) = lines2 ∧
      (diffLines lcs lines1 lines2).countP (fun line => line.head? = some space) = lcs.length := by
  induction lcs generalizing lines1 lines2 with
  | nil =>
    unfold diffLines
    refine ⟨?_, ?_, ?_⟩
    · rw [marked_append, marked_own, marked_foreign (by decide), append_nil]
    · rw [marked_append, marked_own, marked_foreign (by decide), nil_append]
    · rw [countP_append, countP_map_mark (by decide), countP_map_mark (by decide)]
      rfl
  | cons common lcs ih =>
    obtain ⟨whole1, rest1⟩ := lines_around inFirst
    obtain ⟨whole2, rest2⟩ := lines_around inSecond
    obtain ⟨first, second, count⟩ := ih rest1 rest2
    have shown (mark : CodeUnit) (rest : List JsString) : marked mark space ((space :: common) :: rest) = common :: marked mark space rest :=
      filterMap_cons_some (if_pos (.inr rfl))
    unfold diffLines
    dsimp only
    refine ⟨?_, ?_, ?_⟩
    · rw [marked_append, marked_append, marked_own, marked_foreign (by decide), append_nil, shown, first, whole1]
    · rw [marked_append, marked_append, marked_own, marked_foreign (by decide), nil_append, shown, second, whole2]
    · rw [countP_append, countP_append, countP_map_mark (by decide), countP_map_mark (by decide), countP_cons_of_pos (by simp), count]
      simp

theorem newline_not_mem_diffLines (free1 : ∀ line ∈ lines1, newline ∉ line) (free2 : ∀ line ∈ lines2, newline ∉ line)
    (inFirst : lcs.Sublist lines1) : ∀ line ∈ diffLines lcs lines1 lines2, newline ∉ line := by
  have single (mark : CodeUnit) (apart : newline ≠ mark) (lines : List JsString) (free : ∀ line ∈ lines, newline ∉ line) :
      ∀ line ∈ lines.map (mark :: ·), newline ∉ line := by
    intro line member
    obtain ⟨body, inside, rfl⟩ := mem_map.mp member
    exact not_mem_cons_of_ne_of_not_mem apart (free body inside)
  induction lcs generalizing lines1 lines2 with
  | nil =>
    intro line member
    rcases mem_append.mp member with removed | added
    · exact single minus (by decide) lines1 free1 line removed
    · exact single plus (by decide) lines2 free2 line added
  | cons common lcs ih =>
    intro line member
    obtain ⟨whole, rest⟩ := lines_around inFirst
    unfold diffLines at member
    dsimp only at member
    rcases mem_append.mp member with changed | later
    · rcases mem_append.mp changed with removed | added
      · exact single minus (by decide) _ (fun line member => free1 line ((takeWhile_sublist _).subset member)) line removed
      · exact single plus (by decide) _ (fun line member => free2 line ((takeWhile_sublist _).subset member)) line added
    · rcases mem_cons.mp later with rfl | later
      · exact not_mem_cons_of_ne_of_not_mem (by decide) (free1 common (inFirst.subset mem_cons_self))
      · exact ih (fun line member => free1 line (mem_of_mem_drop member)) (fun line member => free2 line (mem_of_mem_drop member))
          rest line later

end walk

/-- A diff shows both versions, with as many common lines as there can be. -/
theorem diffVersions_isFaithful (content1 content2 : JsString) (v1 v2 : Line) :
    IsFaithful content1 content2 (diffVersions content1 content2 v1 v2) := by
  obtain ⟨⟨inFirst, inSecond⟩, longest⟩ := computeLCS_spec (split newline content1) (split newline content2)
  obtain ⟨first, second, count⟩ := diffLines_spec inFirst inSecond
  have header (start : JsString) (free : newline ∉ start) (version : Line) : newline ∉ start ++ version.val := by
    rw [mem_append, not_or]
    exact ⟨free, version.property⟩
  have lines : (split newline (diffVersions content1 content2 v1 v2)).drop 2 =
      diffLines (computeLCS (split newline content1) (split newline content2)) (split newline content1) (split newline content2) := by
    unfold diffVersions split
    rw [splitOn_intercalate newline ?_ (cons_ne_nil _ _)]
    · rfl
    · intro line member
      rcases mem_cons.mp member with rfl | member
      · exact header _ (by decide) v1
      · rcases mem_cons.mp member with rfl | member
        · exact header _ (by decide) v2
        · exact newline_not_mem_diffLines (fun line => not_mem_of_mem_split) (fun line => not_mem_of_mem_split) inFirst line member
  refine ⟨?_, ?_, ?_⟩
  · rw [lines, first]
  · rw [lines, second]
  · rw [lines, count]
    exact longest

end Remnic.PageVersioning.Diff
