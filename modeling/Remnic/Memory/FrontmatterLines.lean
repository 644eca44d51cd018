import Remnic.Memory.Frontmatter
import Remnic.Text.Lines

/-!
Another value in the line of a header that names its entity changes no other field and nothing
below the header.
-/

namespace Remnic.Memory.FrontmatterLines

open Text.CodeUnits Text.JsonText Text.Trim Frontmatter List Option

section delimiters

/-- No closing delimiter begins in a text that is followed by another one. -/
def Open : JsString → JsString → Prop
  | [], _ => True
  | c :: rest, later => (afterClose (c :: (rest ++ later))).isSome = false ∧ Open rest later

theorem open_append (first second later : JsString) :
    Open (first ++ second) later ↔ Open first (second ++ later) ∧ Open second later := by
  induction first with
  | nil => exact (and_iff_right trivial).symm
  | cons c first ih => rw [cons_append, Open, ih, Open, append_assoc, and_assoc]

variable {close first front before second value : JsString}

theorem splitClose_append (before : JsString) (closes : (afterClose close).isSome = true) :
    splitClose (before ++ close) = some (before, close) ↔ Open before close := by
  induction before with
  | nil =>
    cases close with
    | nil => cases closes
    | cons c rest => exact iff_of_true (if_pos closes) trivial
  | cons c before ih =>
    rw [cons_append, splitClose, Open, ← ih]
    by_cases here : (afterClose (c :: (before ++ close))).isSome = true
    · rw [if_pos here]
      simp [here]
    · rw [if_neg here, and_iff_right (by simpa using here), map_eq_some_iff]
      constructor
      · rintro ⟨⟨front, back⟩, found, same⟩
        simp only [Prod.mk.injEq, List.cons.injEq, true_and] at same
        rw [found, same.1, same.2]
      · intro found
        exact ⟨_, found, rfl⟩

theorem splitClose_eq_some (found : splitClose value = some (before, close)) :
    value = before ++ close ∧ (afterClose close).isSome = true := by
  induction value generalizing before with
  | nil => cases found
  | cons c rest ih =>
    rw [splitClose] at found
    split at found
    next here =>
      cases found
      exact ⟨rfl, here⟩
    next =>
      obtain ⟨⟨front, back⟩, later, same⟩ := map_eq_some_iff.mp found
      cases same
      obtain ⟨whole, closes⟩ := ih later
      exact ⟨by rw [whole]; rfl, closes⟩

theorem open_of_splitClose (found : splitClose value = some (before, close)) : Open before close := by
  obtain ⟨rfl, closes⟩ := splitClose_eq_some found
  exact (splitClose_append before closes).mp found

theorem open_of_line {line : JsString} (free : newline ∉ line) (later : JsString) :
    Open line later ↔ (line.getLast? = some carriageReturn → (afterClose (carriageReturn :: later)).isSome = false) := by
  induction line with
  | nil => simp [Open]
  | cons c line ih =>
    rw [mem_cons, not_or] at free
    rw [Open, ih free.2]
    cases line with
    | nil =>
      by_cases same : c = carriageReturn
      · simp [same]
      · have none : afterBreak (c :: later) = none := by simp [afterBreak, Ne.symm free.1, same]
        simp [same, afterClose, none]
    | cons next line =>
      have differs : next ≠ newline := fun same => free.2 (by simp [same])
      have none : afterBreak (c :: next :: (line ++ later)) = none := by simp [afterBreak, Ne.symm free.1, differs]
      simp [afterClose, none]

theorem afterBreak_append (ended : front.getLast? = some newline) (later : JsString) :
    afterBreak (front ++ later) = (afterBreak front).map (· ++ later) ∧
      ∀ rest, afterBreak front = some rest → rest = [] ∨ rest.getLast? = some newline := by
  have shape : ∀ {c : CodeUnit} {rest : JsString}, (c :: rest).getLast? = some newline → rest = [] ∨ rest.getLast? = some newline := by
    intro c rest last
    cases rest with
    | nil => exact .inl rfl
    | cons next rest => exact .inr last
  cases front with
  | nil => cases ended
  | cons c front =>
    rw [cons_append, afterBreak, afterBreak]
    by_cases break_ : c = newline
    · rw [if_pos break_, if_pos break_]
      exact ⟨rfl, fun rest same => some.inj same ▸ shape ended⟩
    · rw [if_neg break_, if_neg break_]
      cases front with
      | nil => exact absurd (some.inj ended) break_
      | cons next front =>
        have head : (next :: front ++ later).head? = (next :: front).head? := rfl
        rw [head]
        split
        next => exact ⟨rfl, fun rest same => some.inj same ▸ shape ended⟩
        next => exact ⟨rfl, fun rest same => by cases same⟩

theorem afterDashes_append (ended : front.getLast? = some newline) (later : JsString) :
    (afterDashes (front ++ later)).isSome = (afterDashes front).isSome := by
  have differs : unit 0x2D ≠ newline := by decide
  have lines : dashes = [unit 0x2D, unit 0x2D, unit 0x2D] := rfl
  match front with
  | [] => cases ended
  | [c] =>
    obtain rfl : c = newline := by simpa using ended
    simp [afterDashes, lines, startsWith, differs]
  | [c, d] =>
    obtain rfl : d = newline := by simpa using ended
    simp [afterDashes, lines, startsWith, differs]
  | [c, d, e] =>
    obtain rfl : e = newline := by simpa using ended
    simp [afterDashes, lines, startsWith, differs]
  | c :: d :: e :: f :: front =>
    have ended : (f :: front).getLast? = some newline := by simpa using ended
    have rest := (afterBreak_append ended later).1
    rw [cons_append] at rest
    simp only [afterDashes, lines, startsWith, cons_append, isPrefixOf_cons_cons, drop_succ_cons, drop_zero,
      isPrefixOf_nil_left, rest, reduceCtorEq, if_false]
    split <;> simp

/-- Whether a delimiter begins among whole lines does not depend on what follows them, if that is no delimiter itself. -/
theorem afterClose_append_congr (ended : front.getLast? = some newline) (one : afterDashes first = none)
    (two : afterDashes second = none) : (afterClose (front ++ first)).isSome = (afterClose (front ++ second)).isSome := by
  obtain ⟨left, shape⟩ := afterBreak_append ended first
  obtain ⟨right, _⟩ := afterBreak_append ended second
  rw [afterClose, afterClose, left, right]
  cases found : afterBreak front with
  | none => rfl
  | some rest =>
    rw [map_some, map_some, bind_some, bind_some]
    rcases shape rest found with rfl | endedRest
    · rw [nil_append, nil_append, one, two]
    · rw [afterDashes_append endedRest, afterDashes_append endedRest]

theorem open_append_congr (ended : front = [] ∨ front.getLast? = some newline) (one : afterDashes first = none)
    (two : afterDashes second = none) : Open front first ↔ Open front second := by
  induction front with
  | nil => exact Iff.rfl
  | cons c front ih =>
    have last : (c :: front).getLast? = some newline := ended.resolve_left (cons_ne_nil _ _)
    have rest : front = [] ∨ front.getLast? = some newline := by
      cases front with
      | nil => exact .inl rfl
      | cons next front => exact .inr last
    have same := afterClose_append_congr last one two
    rw [cons_append, cons_append] at same
    rw [Open, Open, same, ih rest]

theorem afterOpening_eq_some {rest : JsString} (found : afterOpening value = some rest) :
    value.take (value.length - rest.length) ++ rest = value ∧
      ∀ later, afterOpening (value.take (value.length - rest.length) ++ later) = some later := by
  have lines : dashes = [unit 0x2D, unit 0x2D, unit 0x2D] := rfl
  unfold afterOpening at found
  split at found
  next starts =>
    obtain ⟨after, rfl⟩ := isPrefixOf_iff_prefix.mp starts
    have dropped : (dashes ++ after).drop 3 = after := rfl
    rw [dropped] at found
    have broken : (∃ mark, after = mark ++ rest ∧ (mark = [newline] ∨ mark = [carriageReturn, newline])) := by
      cases after with
      | nil => cases found
      | cons c after =>
        rw [afterBreak] at found
        split at found
        next same => exact ⟨[newline], by simp [same, some.inj found], .inl rfl⟩
        next =>
          split at found
          next both =>
            obtain ⟨tail, rfl⟩ : ∃ tail, after = newline :: tail := ⟨after.tail, eq_cons_of_mem_head? both.2⟩
            exact ⟨[carriageReturn, newline], by simp [both.1, ← some.inj found], .inr rfl⟩
          next => cases found
    obtain ⟨mark, rfl, shape⟩ := broken
    have front : (dashes ++ (mark ++ rest)).take ((dashes ++ (mark ++ rest)).length - rest.length) = dashes ++ mark := by
      rw [← append_assoc, length_append, Nat.add_sub_cancel, take_left]
    rw [front]
    refine ⟨by rw [append_assoc], fun later => ?_⟩
    rcases shape with rfl | rfl
    · simp [afterOpening, lines, startsWith, afterBreak]
    · have differs : carriageReturn ≠ newline := by decide
      simp [afterOpening, lines, startsWith, afterBreak, differs]
  next => cases found

end delimiters

section fields

variable {line : JsString}

variable {Item : Type} {front : JsString} {skipped : Nat} {blank : JsString}

variable {test : Item → Bool} {items : List Item} {found : Item}

theorem splitLast_eq_none_iff : splitLast test items = none ↔ ∀ item ∈ items, test item = false := by
  induction items with
  | nil => simp [splitLast]
  | cons item items ih =>
    rw [splitLast, forall_mem_cons, ← ih]
    cases splitLast test items <;> cases test item <;> simp

theorem splitLast_eq_some {before after : List Item} (split : splitLast test items = some (before, found, after)) :
    items = before ++ found :: after ∧ test found = true ∧ ∀ item ∈ after, test item = false := by
  induction items generalizing before with
  | nil => cases split
  | cons item items ih =>
    rw [splitLast] at split
    cases later : splitLast test items with
    | some parts =>
      rw [later] at split
      cases split
      obtain ⟨shape, holds, none⟩ := ih later
      exact ⟨by rw [shape, cons_append], holds, none⟩
    | none =>
      rw [later] at split
      dsimp only at split
      split at split
      next holds =>
        cases split
        exact ⟨rfl, holds, splitLast_eq_none_iff.mp later⟩
      next => cases split

theorem splitLast_append (before : List Item) (holds : test found = true) {after : List Item}
    (none : ∀ item ∈ after, test item = false) : splitLast test (before ++ found :: after) = some (before, found, after) := by
  induction before with
  | nil => rw [nil_append, splitLast, splitLast_eq_none_iff.mpr none, holds]; rfl
  | cons item before ih => rw [cons_append, splitLast, ih]

theorem line_eq (member : colon ∈ line) : line = beforeColon line ++ colon :: afterColon line := by
  unfold beforeColon afterColon
  induction line with
  | nil => cases member
  | cons c line ih =>
    by_cases same : c = colon
    · simp [same]
    · have inside : colon ∈ line := (mem_cons.mp member).resolve_left (Ne.symm same)
      rw [takeWhile_cons_of_pos (by simpa using same), dropWhile_cons_of_pos (by simpa using same), cons_append, ← ih inside]

theorem colon_notMem_beforeColon (line : JsString) : colon ∉ beforeColon line := by
  intro member
  have kept := mem_takeWhile_imp member
  simp at kept

theorem beforeColon_append (free : colon ∉ front) (back : JsString) : beforeColon (front ++ colon :: back) = front := by
  have all : ∀ c ∈ front, decide (c ≠ colon) = true := fun c member => decide_eq_true fun same => free (same ▸ member)
  rw [beforeColon, takeWhile_append_of_pos all]
  simp

theorem afterColon_append (free : colon ∉ front) (back : JsString) : afterColon (front ++ colon :: back) = back := by
  have all : ∀ c ∈ front, decide (c ≠ colon) = true := fun c member => decide_eq_true fun same => free (same ▸ member)
  rw [afterColon, dropWhile_append_of_pos all]
  simp

theorem dropWhile_blank_append (isBlank : Blank blank) (rest : JsString) :
    (blank ++ rest).dropWhile isWhiteSpace = rest.dropWhile isWhiteSpace := dropWhile_append_of_pos isBlank

theorem isEntityRefLine_append {back rest : JsString} (frontBlank : Blank front) (backBlank : Blank back) :
    isEntityRefLine (front ++ (entityRefKey ++ (back ++ colon :: rest))) = true := by
  have head : (entityRefKey ++ (back ++ colon :: rest)).dropWhile isWhiteSpace = entityRefKey ++ (back ++ colon :: rest) := rfl
  have start : startsWith (entityRefKey ++ (back ++ colon :: rest)) entityRefKey = true := by simp [startsWith]
  have colonStays : (colon :: rest).dropWhile isWhiteSpace = colon :: rest := rfl
  rw [isEntityRefLine, dropWhile_blank_append frontBlank, head, Bool.and_eq_true]
  refine ⟨start, ?_⟩
  rw [drop_left, dropWhile_blank_append backBlank, colonStays]
  exact decide_eq_true rfl

theorem exists_of_isEntityRefLine (named : isEntityRefLine line = true) :
    ∃ front back rest, line = front ++ (entityRefKey ++ (back ++ colon :: rest)) ∧ Blank front ∧ Blank back := by
  rw [isEntityRefLine, Bool.and_eq_true] at named
  obtain ⟨start, ended⟩ := named
  obtain ⟨more, shape⟩ := isPrefixOf_iff_prefix.mp start
  rw [← shape, drop_left] at ended
  obtain ⟨rest, same⟩ : ∃ rest, more.dropWhile isWhiteSpace = colon :: rest := by
    cases dropped : more.dropWhile isWhiteSpace with
    | nil => simp [dropped] at ended
    | cons c rest =>
      rw [dropped] at ended
      exact ⟨rest, by rw [some.inj (of_decide_eq_true ended)]⟩
  refine ⟨line.takeWhile isWhiteSpace, more.takeWhile isWhiteSpace, rest, ?_, fun c => mem_takeWhile_imp, fun c => mem_takeWhile_imp⟩
  rw [← same, takeWhile_append_dropWhile, shape, takeWhile_append_dropWhile]

theorem colon_notMem_of_blank (isBlank : Blank blank) : colon ∉ blank :=
  fun member => absurd (isBlank colon member) (by decide)

theorem isEntityRefLine_iff (line : JsString) : isEntityRefLine line = true ↔ colon ∈ line ∧ trim (beforeColon line) = entityRefKey := by
  have key : trim entityRefKey = entityRefKey := by decide
  constructor
  · intro named
    obtain ⟨front, back, rest, rfl, frontBlank, backBlank⟩ := exists_of_isEntityRefLine named
    have free : colon ∉ front ++ (entityRefKey ++ back) := by
      rw [mem_append, mem_append, not_or, not_or]
      exact ⟨colon_notMem_of_blank frontBlank, by decide, colon_notMem_of_blank backBlank⟩
    have whole : front ++ (entityRefKey ++ (back ++ colon :: rest)) = (front ++ (entityRefKey ++ back)) ++ colon :: rest := by simp
    refine ⟨by simp, ?_⟩
    rw [whole, beforeColon_append free, trim_blank_append frontBlank, trim_append_blank backBlank, key]
  · rintro ⟨member, trimmed⟩
    obtain ⟨front, back, shape, frontBlank, backBlank⟩ := exists_blanks (beforeColon line)
    rw [line_eq member, shape, trimmed]
    have whole : front ++ entityRefKey ++ back ++ colon :: afterColon line = front ++ (entityRefKey ++ (back ++ colon :: afterColon line)) := by simp
    rw [whole]
    exact isEntityRefLine_append frontBlank backBlank

theorem itemOf_entityRefLine (named : isEntityRefLine line = true) (baseIndent : Nat) : itemOf baseIndent line = none := by
  obtain ⟨front, back, rest, rfl, frontBlank, backBlank⟩ := exists_of_isEntityRefLine named
  have head : (entityRefKey ++ (back ++ colon :: rest)).dropWhile isWhiteSpace = entityRefKey ++ (back ++ colon :: rest) := rfl
  have start : startsWith (entityRefKey ++ (back ++ colon :: rest)) (text "- ") = false := rfl
  rw [itemOf, dropWhile_blank_append frontBlank, head, start]
  simp

theorem afterDashes_entityRefLine (named : isEntityRefLine line = true) (later : JsString) : afterDashes (line ++ later) = none := by
  obtain ⟨front, back, rest, rfl, frontBlank, backBlank⟩ := exists_of_isEntityRefLine named
  have other : ∀ c more, c ≠ unit 0x2D → afterDashes (c :: more) = none := by
    intro c more differs
    have starts : startsWith (c :: more) dashes = false := by
      have lines : dashes = [unit 0x2D, unit 0x2D, unit 0x2D] := rfl
      rw [startsWith, lines, isPrefixOf_cons_cons, beq_eq_false_iff_ne.mpr (Ne.symm differs), Bool.false_and]
    rw [afterDashes, if_neg (by simp [starts])]
  cases front with
  | nil => exact other _ _ (by decide)
  | cons c front =>
    refine other c _ fun same => ?_
    have blank := frontBlank c mem_cons_self
    rw [same] at blank
    exact absurd blank (by decide)

theorem takeItems_append {baseIndent : Nat} {line : JsString} (other : itemOf baseIndent line = none) (before after : List JsString) :
    takeItems baseIndent (before ++ line :: after) = takeItems baseIndent before := by
  induction before with
  | nil => simp [takeItems, other]
  | cons first before ih =>
    rw [cons_append, takeItems, takeItems, ih]

theorem length_takeItems_le (baseIndent : Nat) (lines : List JsString) : (takeItems baseIndent lines).length ≤ lines.length := by
  induction lines with
  | nil => exact Nat.le_refl _
  | cons line lines ih =>
    rw [takeItems]
    split
    · exact Nat.succ_le_succ ih
    · exact Nat.zero_le _

theorem collapseFrom_append {line : JsString} (other : ∀ baseIndent, itemOf baseIndent line = none)
    (valued : opensSequence line = false) (before after : List JsString) (fewer : skipped ≤ before.length) :
    collapseFrom skipped (before ++ line :: after) = collapseFrom skipped before ++ line :: collapseFrom 0 after := by
  induction before generalizing skipped with
  | nil =>
    obtain rfl : skipped = 0 := Nat.le_zero.mp fewer
    simp [collapseFrom, valued]
  | cons first before ih =>
    cases skipped with
    | succ skipped => exact ih (Nat.le_of_succ_le_succ fewer)
    | zero =>
      rw [cons_append, collapseFrom, collapseFrom, takeItems_append (other (first.takeWhile isWhiteSpace).length)]
      generalize taken : (if opensSequence first = true then takeItems (first.takeWhile isWhiteSpace).length before else []) = items
      have short : items.length ≤ before.length := by
        rw [← taken]
        split
        · exact length_takeItems_le _ _
        · exact Nat.zero_le _
      by_cases empty : items = []
      · rw [if_pos empty, if_pos empty, ih (Nat.zero_le _), cons_append]
      · rw [if_neg empty, if_neg empty, ih short, cons_append]

theorem exists_of_mem_collapseFrom {lines : List JsString} {line : JsString} (member : line ∈ collapseFrom skipped lines) :
    ∃ original ∈ lines, beforeColon line = beforeColon original ∧ (colon ∈ line → colon ∈ original) := by
  induction lines generalizing skipped with
  | nil => cases member
  | cons first lines ih =>
    have later : ∀ {skipped}, line ∈ collapseFrom skipped lines →
        ∃ original ∈ first :: lines, beforeColon line = beforeColon original ∧ (colon ∈ line → colon ∈ original) := by
      intro skipped inside
      obtain ⟨original, listed, same⟩ := ih inside
      exact ⟨original, mem_cons_of_mem first listed, same⟩
    cases skipped with
    | succ skipped => exact later member
    | zero =>
      rw [collapseFrom] at member
      generalize taken : (if opensSequence first = true then takeItems (first.takeWhile isWhiteSpace).length lines else []) = items at member
      by_cases empty : items = []
      · rw [if_pos empty] at member
        rcases mem_cons.mp member with rfl | inside
        · exact ⟨line, mem_cons_self, rfl, id⟩
        · exact later inside
      · rw [if_neg empty] at member
        rcases mem_cons.mp member with rfl | inside
        · have opens : opensSequence first = true := by
            by_contra closed
            exact empty (by rw [← taken, if_neg closed])
          have inFirst : colon ∈ first := by
            rw [opensSequence, Bool.and_eq_true, decide_eq_true_eq] at opens
            exact opens.1
          refine ⟨first, mem_cons_self, ?_, fun _ => inFirst⟩
          have shape : ∀ items, collapsedLine first items = beforeColon first ++ colon :: (text " [" ++ (text ", ").intercalate (items.map quoteItem) ++ text "]") := by
            intro items
            simp [collapsedLine, text, encodeChar, colon]
          rw [shape, beforeColon_append (colon_notMem_beforeColon first)]
        · exact later inside

end fields

section rewrite

variable {value : JsString} (before : List JsString)

theorem intercalate_split (after : List JsString) (line : JsString) : [newline].intercalate (before ++ line :: after) =
    before.flatMap (· ++ [newline]) ++ (line ++ after.flatMap (newline :: ·)) := by
  have rest : ∀ (after : List JsString) (line : JsString), [newline].intercalate (line :: after) = line ++ after.flatMap (newline :: ·) := by
    intro after
    induction after with
    | nil => intro line; simp
    | cons next after ih => intro line; rw [intercalate_cons_cons, ih next]; simp
  induction before with
  | nil => exact rest after line
  | cons first before ih =>
    rw [cons_append, intercalate_cons_of_ne_nil (by simp), ih]
    simp

theorem flatMap_ended : before.flatMap (· ++ [newline]) = [] ∨ (before.flatMap (· ++ [newline])).getLast? = some newline := by
  induction before using List.reverseRecOn with
  | nil => exact .inl rfl
  | append_singleton before line => exact .inr (by simp)

theorem splitClose_replace {before after : List JsString} {first second close : JsString} (firstNamed : isEntityRefLine first = true)
    (secondNamed : isEntityRefLine second = true) (firstLine : newline ∉ first) (secondLine : newline ∉ second)
    (ends : second.getLast? = some carriageReturn → first.getLast? = some carriageReturn)
    (found : splitClose ([newline].intercalate (before ++ first :: after) ++ close) = some ([newline].intercalate (before ++ first :: after), close)) :
    splitClose ([newline].intercalate (before ++ second :: after) ++ close) =
      some ([newline].intercalate (before ++ second :: after), close) := by
  have closes := (splitClose_eq_some found).2
  have opened := open_of_splitClose found
  rw [intercalate_split, open_append, open_append] at opened
  obtain ⟨front, line, back⟩ := opened
  refine (splitClose_append _ closes).mpr ?_
  rw [intercalate_split, open_append, open_append]
  refine ⟨?_, (open_of_line secondLine _).mpr fun last => (open_of_line firstLine _).mp line (ends last), back⟩
  refine (open_append_congr (flatMap_ended before) ?_ ?_).mp front
  · rw [append_assoc]
    exact afterDashes_entityRefLine firstNamed _
  · rw [append_assoc]
    exact afterDashes_entityRefLine secondNamed _

structure Located (content : JsString) (location : Location) : Prop where
  opened : ∀ later, afterOpening (location.opening ++ later) = some later
  whole : content = location.opening ++ ([newline].intercalate (location.before ++ location.line :: location.after) ++ location.close)
  closed : splitClose ([newline].intercalate (location.before ++ location.line :: location.after) ++ location.close) =
    some ([newline].intercalate (location.before ++ location.line :: location.after), location.close)
  lines : ∀ line ∈ location.before ++ location.line :: location.after, newline ∉ line
  named : isEntityRefLine location.line = true
  last : ∀ line ∈ location.after, isEntityRefLine line = false
  value : location.value = trim (afterColon location.line)
  some_ : location.value ≠ []

theorem trim_withoutReturn (value : JsString) : trim (withoutReturn value) = trim value := by
  unfold withoutReturn
  split
  next ends =>
    have shape := dropLast_append_getLast? carriageReturn (of_decide_eq_true ends)
    have blank : Blank [carriageReturn] := by
      intro c member
      rw [mem_singleton.mp member]
      decide
    conv_rhs => rw [← shape]
    exact (trim_append_blank blank).symm
  next => rfl

variable {content : JsString} {location : Location}

theorem locateEntityRefLine_eq_some_iff : locateEntityRefLine content = some location ↔ Located content location := by
  constructor
  · intro found
    simp only [locateEntityRefLine, bind_eq_bind, bind_eq_some_iff] at found
    obtain ⟨rest, opening, ⟨block, close⟩, closed, ⟨before, line, after⟩, parts, found⟩ := found
    dsimp only at found
    split at found
    next => cases found
    next some_ =>
      cases found
      obtain ⟨pieces, named, last⟩ := splitLast_eq_some parts
      obtain ⟨whole, opened⟩ := afterOpening_eq_some opening
      obtain ⟨shape, _⟩ := splitClose_eq_some closed
      have block_eq : block = [newline].intercalate (before ++ line :: after) := by rw [← pieces, join_split]
      refine ⟨opened, ?_, ?_, ?_, named, last, trim_withoutReturn _, some_⟩
      · dsimp only
        rw [← block_eq, ← shape, whole]
      · dsimp only
        rw [← block_eq, ← shape]
        exact closed
      · exact fun line member => not_mem_of_mem_split (pieces ▸ member)
  · rintro ⟨opened, whole, closed, lines, named, last, value, some_⟩
    obtain ⟨opening, before, line, after, _, close⟩ := location
    have pieces : split newline ([newline].intercalate (before ++ line :: after)) = before ++ line :: after :=
      splitOn_intercalate newline lines (by simp)
    have front : content.take (content.length - ([newline].intercalate (before ++ line :: after) ++ close).length) = opening := by
      rw [whole, length_append, Nat.add_sub_cancel, take_left]
    have start : afterOpening content = some ([newline].intercalate (before ++ line :: after) ++ close) := whole ▸ opened _
    have found : trim (withoutReturn (afterColon line)) ≠ [] := by
      rw [trim_withoutReturn, ← value]
      exact some_
    simp only [locateEntityRefLine, start, bind_eq_bind, bind_some, closed, pieces, splitLast_append before named last, front]
    rw [if_neg found, trim_withoutReturn, ← value]

theorem getLast?_entityRefLine (line : JsString) (free : carriageReturn ∉ value)
    (last : (entityRefLine line value).getLast? = some carriageReturn) : line.getLast? = some carriageReturn := by
  by_contra other
  rw [entityRefLine, if_neg (by simpa [endsWith] using other), append_nil] at last
  cases value with
  | nil =>
    have key : (text "entityRef: ").getLast? = some space := rfl
    rw [append_nil, getLast?_append, key, some_or] at last
    exact absurd last (by decide)
  | cons c value =>
    rw [getLast?_append, getLast?_eq_some_getLast (cons_ne_nil c value)] at last
    exact free (some.inj last ▸ getLast_mem _)

theorem located_withEntityRef (located : Located content location) (line : newline ∉ value) (free : carriageReturn ∉ value)
    (some_ : trim value ≠ []) : Located (location.withEntityRef value)
      { location with line := entityRefLine location.line value, value := trim value } := by
  have blankReturn : Blank (if endsWith location.line carriageReturn then [carriageReturn] else []) := by
    intro c member
    split at member
    · rw [mem_singleton.mp member]
      decide
    · cases member
  have indent : Blank (location.line.takeWhile isWhiteSpace) := fun c => mem_takeWhile_imp
  have shape : entityRefLine location.line value = location.line.takeWhile isWhiteSpace ++ (entityRefKey ++ ([] ++ colon ::
      ([space] ++ (value ++ if endsWith location.line carriageReturn then [carriageReturn] else [])))) := by
    simp [entityRefLine, entityRefKey, text, encodeChar, colon, space]
  have named : isEntityRefLine (entityRefLine location.line value) = true := by
    rw [shape]
    exact isEntityRefLine_append indent fun _ member => nomatch member
  have inFile : newline ∉ location.line := located.lines location.line (by simp)
  have oneLine : newline ∉ entityRefLine location.line value := by
    have ended : newline ∉ (if endsWith location.line carriageReturn then [carriageReturn] else []) := by split <;> decide
    have inKey : newline ∉ text "entityRef: " := by decide
    simp only [entityRefLine, mem_append, not_or]
    exact ⟨⟨⟨fun member => inFile (takeWhile_subset _ member), inKey⟩, line⟩, ended⟩
  refine ⟨located.opened, by rw [Location.withEntityRef, append_assoc], ?_, ?_, named, located.last, ?_, some_⟩
  · exact splitClose_replace located.named named inFile oneLine (getLast?_entityRefLine location.line free) located.closed
  · intro other member
    rcases mem_append.mp member with before | rest
    · exact located.lines other (mem_append_left _ before)
    · rcases mem_cons.mp rest with rfl | after
      · exact oneLine
      · exact located.lines other (mem_append_right _ (mem_cons_of_mem _ after))
  · have keyFree : colon ∉ location.line.takeWhile isWhiteSpace ++ entityRefKey := by
      rw [mem_append, not_or]
      exact ⟨colon_notMem_of_blank indent, by decide⟩
    have joined : entityRefLine location.line value = (location.line.takeWhile isWhiteSpace ++ entityRefKey) ++ colon ::
        ([space] ++ (value ++ if endsWith location.line carriageReturn then [carriageReturn] else [])) := by
      rw [shape, nil_append, append_assoc]
    have blankSpace : Blank [space] := by
      intro c member
      rw [mem_singleton.mp member]
      decide
    dsimp only
    rw [joined, afterColon_append keyFree, trim_blank_append blankSpace, trim_append_blank blankReturn]

def fieldsAround (location : Location) : List (JsString × JsString) × List (JsString × JsString) :=
  ((collapseFrom 0 location.before).filterMap fieldOfLine, (collapseFrom 0 location.after).filterMap fieldOfLine)

theorem parseFrontmatter_of_located (located : Located content location) : ∃ body, afterClose location.close = some body ∧
    parseFrontmatter content = some ⟨(fieldsAround location).1 ++ (entityRefKey, location.value) :: (fieldsAround location).2, trim body⟩ := by
  obtain ⟨colonIn, key⟩ := (isEntityRefLine_iff location.line).mp located.named
  have start : afterOpening content = some ([newline].intercalate (location.before ++ location.line :: location.after) ++ location.close) :=
    located.whole ▸ located.opened _
  obtain ⟨body, closes⟩ := isSome_iff_exists.mp (splitClose_eq_some located.closed).2
  have pieces : split newline ([newline].intercalate (location.before ++ location.line :: location.after)) =
      location.before ++ location.line :: location.after := splitOn_intercalate newline located.lines (by simp)
  have valued : opensSequence location.line = false := by
    rw [opensSequence, ← located.value]
    simp [located.some_]
  have field : fieldOfLine location.line = some (entityRefKey, location.value) := by rw [fieldOfLine, if_pos colonIn, key, located.value]
  have fields : fieldsOf ([newline].intercalate (location.before ++ location.line :: location.after)) =
      (fieldsAround location).1 ++ (entityRefKey, location.value) :: (fieldsAround location).2 := by
    rw [fieldsOf, pieces, collapseFrom_append (itemOf_entityRefLine located.named) valued _ _ (Nat.zero_le _), filterMap_append,
      filterMap_cons, field]
    rfl
  refine ⟨body, closes, ?_⟩
  simp only [parseFrontmatter, start, bind_eq_bind, bind_some, located.closed, closes, fields]

theorem key_ne_of_mem_after (located : Located content location) {field : JsString × JsString} (member : field ∈ (fieldsAround location).2) :
    field.1 ≠ entityRefKey := by
  obtain ⟨line, collapsed, read⟩ := mem_filterMap.mp member
  obtain ⟨original, listed, same, colonIn⟩ := exists_of_mem_collapseFrom collapsed
  unfold fieldOfLine at read
  split at read
  next inside =>
    intro key
    rw [← some.inj read, same] at key
    have named := (isEntityRefLine_iff original).mpr ⟨colonIn inside, key⟩
    rw [located.last original listed] at named
    cases named
  next => cases read

theorem field_of_located (located : Located content location) (body : JsString) :
    (⟨(fieldsAround location).1 ++ (entityRefKey, location.value) :: (fieldsAround location).2, body⟩ : Parsed).field entityRefKey =
      some location.value := by
  have none : (fieldsAround location).2.reverse.find? (fun field => field.1 = entityRefKey) = Option.none := by
    rw [find?_eq_none]
    exact fun field member => by simpa using key_ne_of_mem_after located (mem_reverse.mp member)
  rw [Parsed.field, reverse_append, reverse_cons, append_assoc, find?_append, none]
  simp

theorem field_of_other {key : JsString} (other : key ≠ entityRefKey) {before after : List (JsString × JsString)} {first second body : JsString} :
    (⟨before ++ (entityRefKey, first) :: after, body⟩ : Parsed).field key = (⟨before ++ (entityRefKey, second) :: after, body⟩ : Parsed).field key := by
  simp only [Parsed.field, reverse_append, reverse_cons, append_assoc, find?_append]
  simp [Ne.symm other]

theorem entityRef_of_located (located : Located content location) (body : JsString) :
    (⟨(fieldsAround location).1 ++ (entityRefKey, location.value) :: (fieldsAround location).2, body⟩ : Parsed).entityRef = some location.value := by
  rw [Parsed.entityRef, field_of_located located]
  simp [located.some_]

theorem trim_of_entityRef {parsed : Parsed} (found : parseFrontmatter content = some parsed)
    (named : parsed.entityRef = some value) : trim value = value := by
  simp only [parseFrontmatter, bind_eq_bind, bind_eq_some_iff] at found
  obtain ⟨rest, _, ⟨block, close⟩, _, body, _, same⟩ := found
  cases same
  obtain ⟨held, _⟩ := filter_eq_some_iff.mp named
  obtain ⟨⟨key, read⟩, member, rfl⟩ := map_eq_some_iff.mp held
  obtain ⟨line, _, field⟩ := mem_filterMap.mp (mem_reverse.mp (mem_of_find?_eq_some member))
  unfold fieldOfLine at field
  split at field
  next =>
    cases field
    exact trim_trim _
  next => cases field

end rewrite

end Remnic.Memory.FrontmatterLines
