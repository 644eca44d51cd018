import Remnic.CodingGraph.GitParsers
import Remnic.Library.AppendNew

/-!
When the parsers give back what git printed. Names must be plain, those of a patch without
spaces, those of a log no commit ids, and no added line may pass for the header of another file.
-/

namespace Remnic.CodingGraph.GitRoundTrip

open Text.CodeUnits Text.Decimal Text.JsonText Text.Lines Text.Utf8 GitFormat GitParsers Library.AppendNew List

section names

variable {name : Name} {lead : JsString}

theorem quote_of_plain (lead : JsString) (plain : name.isPlain = true) : quote lead name = lead ++ name.path := by
  rw [quote, if_pos plain, Name.path, decode_ascii]
  intro byte member
  have quiet : needsQuote byte = false := by
    rw [Name.isPlain, Bool.not_eq_true', any_eq_false] at plain
    simpa using plain byte member
  simp only [needsQuote, Bool.or_eq_false_iff, decide_eq_false_iff_not] at quiet
  omega

theorem length_quote (lead : JsString) (special : name.isPlain = false) :
    lead.length + name.path.length + 2 ≤ (quote lead name).length := by
  have escapes : ∀ bytes : List Byte, bytes.length ≤ (bytes.flatMap escapeByte).length := by
    intro bytes
    induction bytes with
    | nil => exact Nat.le_refl _
    | cons byte rest ih =>
      have one : 1 ≤ (escapeByte byte).length := by
        unfold escapeByte
        split
        · split <;> simp
        · exact Nat.le_refl _
      rw [flatMap_cons, length_append, length_cons]
      omega
  have decoded := length_decode_le name.bytes
  have escaped := escapes name.bytes
  rw [quote, if_neg (by simp [special]), Name.path]
  simp only [length_cons, length_append, length_nil]
  omega

theorem quote_eq_path_iff : quote [] name = name.path ↔ name.isPlain = true := by
  constructor
  · intro same
    by_contra special
    have isSpecial : name.isPlain = false := by simpa using special
    have longer := length_quote [] isSpecial
    rw [same] at longer
    simp only [length_nil] at longer
    omega
  · exact quote_of_plain []

theorem path_ne_nil (name : Name) : name.path ≠ [] := decode_ne_nil name.nonempty

theorem printable_escapeByte (byte : Byte) : ∀ c ∈ escapeByte byte, 0x20 ≤ c.val ∧ c.val < 0x7F := by
  have small : ∀ value : Nat, value < 0x7F → (unit value).val = value := fun value less => Nat.mod_eq_of_lt (by omega)
  intro c member
  unfold escapeByte at member
  split at member
  · rcases letter : escapeLetter byte with _ | found
    · rw [letter] at member
      simp only [octal, mem_cons, not_mem_nil, or_false] at member
      rcases member with rfl | rfl | rfl | rfl
      · decide
      · rw [small _ (by omega)]
        omega
      · rw [small _ (by omega)]
        omega
      · rw [small _ (by omega)]
        omega
    · rw [letter] at member
      have listed : c = backslash ∨ c = found := by simpa using member
      rcases listed with rfl | rfl
      · decide
      · unfold escapeLetter at letter
        split at letter <;> cases letter <;> decide
  next quiet =>
    rw [mem_singleton.mp member]
    simp only [needsQuote, Bool.or_eq_true, decide_eq_true_eq, not_or] at quiet
    rw [small _ (by omega)]
    omega

variable {c : CodeUnit}

theorem printable_quote (member : c ∈ quote lead name) : c ∈ lead ∨ 0x20 ≤ c.val ∧ c.val < 0x7F := by
  unfold quote at member
  split at member
  next plain =>
    rcases mem_append.mp member with before | inside
    · exact .inl before
    · obtain ⟨byte, listed, rfl⟩ := mem_map.mp inside
      have quiet : needsQuote byte = false := by
        rw [Name.isPlain, Bool.not_eq_true', any_eq_false] at plain
        simpa using plain byte listed
      refine .inr (printable_escapeByte byte _ ?_)
      rw [escapeByte, if_neg (by simp [quiet])]
      exact mem_singleton_self _
  next =>
    simp only [cons_append, mem_cons, mem_append, mem_flatMap, not_mem_nil, or_false] at member
    rcases member with rfl | (before | ⟨byte, _, inside⟩) | rfl
    · exact .inr (by decide)
    · exact .inl before
    · exact .inr (printable_escapeByte byte c inside)
    · exact .inr (by decide)

theorem control_notMem_quote (control : c.val < 0x20) (free : c ∉ lead) : c ∉ quote lead name := by
  intro member
  rcases printable_quote member with before | ⟨least, _⟩
  · exact free before
  · omega

theorem quote_ne_nil (lead : JsString) (name : Name) : quote lead name ≠ [] := by
  unfold quote
  split
  · intro empty
    exact name.nonempty (map_eq_nil_iff.mp (append_eq_nil_iff.mp empty).2)
  · exact cons_ne_nil _ _

end names

section nameStatus

variable {c : CodeUnit} (entries : List NameStatus)

theorem cutAt_append {front : JsString} (free : c ∉ front) (rest : JsString) : cutAt c (front ++ c :: rest) = some (front, rest) := by
  have all : ∀ other ∈ front, decide (other ≠ c) = true := fun other member => decide_eq_true fun same => free (same ▸ member)
  rw [cutAt, if_pos (by simp), takeWhile_append_of_pos all, dropWhile_append_of_pos all]
  simp

/-- What git names in a line of `--name-status`. -/
def NameStatus.entry : NameStatus → NameStatusEntry
  | .changed change path => ⟨change.letter, path.path, none⟩
  | .moved copied score oldPath newPath => ⟨(NameStatus.moved copied score oldPath newPath).status, newPath.path, some oldPath.path⟩

def NameStatus.names : NameStatus → List Name
  | .changed _ path => [path]
  | .moved _ _ oldPath newPath => [oldPath, newPath]

/-- What the parser reads in it: the names as they are quoted. -/
def NameStatus.quoted : NameStatus → NameStatusEntry
  | .changed change path => ⟨change.letter, quote [] path, none⟩
  | .moved copied score oldPath newPath =>
      ⟨(NameStatus.moved copied score oldPath newPath).status, quote [] newPath, some (quote [] oldPath)⟩

theorem printable_status (entry : NameStatus) : ∀ c ∈ entry.status, 0x20 ≤ c.val ∧ c.val < 0x7F := by
  have printable : ∀ {letters : JsString}, letters.all (fun c => decide (0x20 ≤ c.val ∧ c.val < 0x7F)) = true →
      ∀ c ∈ letters, 0x20 ≤ c.val ∧ c.val < 0x7F :=
    fun all c member => of_decide_eq_true (all_eq_true.mp all c member)
  cases entry with
  | changed change path =>
    have letters : change.letter.all (fun c => decide (0x20 ≤ c.val ∧ c.val < 0x7F)) = true := by cases change <;> decide
    exact printable letters
  | moved copied score oldPath newPath =>
    intro c member
    have letters : ∀ c ∈ text (if copied then "C" else "R"), 0x20 ≤ c.val ∧ c.val < 0x7F := printable (by cases copied <;> decide)
    rcases mem_append.mp member with letter | digit
    · exact letters c letter
    · simp only [mem_cons, not_mem_nil, or_false] at digit
      have digits : ∀ value : Nat, 0x20 ≤ (unit (0x30 + value % 10)).val ∧ (unit (0x30 + value % 10)).val < 0x7F := by
        intro value
        have small : (unit (0x30 + value % 10)).val = 0x30 + value % 10 := Nat.mod_eq_of_lt (by omega)
        omega
      rcases digit with rfl | rfl | rfl
      · exact digits _
      · exact digits _
      · exact digits _

theorem control_notMem_status (control : c.val < 0x20) (entry : NameStatus) : c ∉ entry.status :=
  fun member => absurd (printable_status entry c member).1 (by omega)

theorem parseNameStatusLine_line (entry : NameStatus) : parseNameStatusLine entry.line = some (NameStatus.quoted entry) := by
  have cut := fun rest => cutAt_append (control_notMem_status (show tab.val < 0x20 by decide) entry) rest
  cases entry with
  | changed change path =>
    have other : (startsWith change.letter (text "R") || startsWith change.letter (text "C")) = false := by cases change <;> decide
    have status : (NameStatus.changed change path).status = change.letter := rfl
    rw [parseNameStatusLine, NameStatus.line, cut, status]
    dsimp only
    rw [other, if_neg Bool.false_ne_true]
    dsimp only
    rw [if_pos (quote_ne_nil _ _)]
    rfl
  | moved copied score oldPath newPath =>
    have moved : (startsWith (NameStatus.moved copied score oldPath newPath).status (text "R") ||
        startsWith (NameStatus.moved copied score oldPath newPath).status (text "C")) = true := by
      unfold NameStatus.status startsWith
      cases copied <;> simp [text, encodeChar]
    have line : (NameStatus.moved copied score oldPath newPath).line =
        (NameStatus.moved copied score oldPath newPath).status ++ tab :: (quote [] oldPath ++ tab :: quote [] newPath) := by
      simp [NameStatus.line]
    rw [parseNameStatusLine, line, cut]
    dsimp only
    rw [moved, if_pos rfl, cutAt_append (control_notMem_quote (by decide) not_mem_nil)]
    dsimp only
    rw [if_pos ⟨quote_ne_nil _ _, quote_ne_nil _ _⟩]
    rfl

theorem newline_notMem_line (entry : NameStatus) : newline ∉ entry.line := by
  have status := control_notMem_status (show newline.val < 0x20 by decide) entry
  have free : ∀ name : Name, newline ∉ quote [] name := fun name => control_notMem_quote (by decide) not_mem_nil
  have differs : newline ≠ tab := by decide
  cases entry with
  | changed change path => simp [NameStatus.line, status, free, differs]
  | moved copied score oldPath newPath => simp [NameStatus.line, status, free, differs]

theorem parseNameStatus_print : parseNameStatus (printNameStatus entries) = entries.map NameStatus.quoted := by
  rw [parseNameStatus, printNameStatus, split_unlines, filterMap_append, filterMap_map]
  · have each : parseNameStatusLine ∘ NameStatus.line = some ∘ NameStatus.quoted := by
      funext entry
      exact parseNameStatusLine_line entry
    have blank : [([] : JsString)].filterMap parseNameStatusLine = [] := rfl
    rw [each, blank, append_nil, ← filterMap_eq_map]
  · intro line member
    obtain ⟨entry, _, rfl⟩ := mem_map.mp member
    exact newline_notMem_line entry

theorem parseNameStatus_iff : parseNameStatus (printNameStatus entries) = entries.map NameStatus.entry ↔
    ∀ entry ∈ entries, ∀ name ∈ NameStatus.names entry, name.isPlain = true := by
  rw [parseNameStatus_print, map_inj_left]
  refine forall₂_congr fun entry _ => ?_
  cases entry <;>
    simp [NameStatus.quoted, NameStatus.entry, NameStatus.names, quote_eq_path_iff, and_comm]

end nameStatus

section hunks

def Hunk.newRange (path : JsString) (hunk : Hunk) : DiffHunk := ⟨path, hunk.newStart, hunk.newStart + max hunk.added.length 1⟩

/-- What a patch changes: the hunks of a file are those of its new side. -/
def FilePatch.changes : FilePatch → List DiffHunk
  | .patched _ newPath _ _ hunks => hunks.map (Hunk.newRange newPath.path)
  | .deleted .. => []
  | .binary .. => []

def readHeaders (current : Option JsString) (lines : List JsString) : Option JsString :=
  lines.foldl (fun current line => if startsWith line (text "+++ ") then headerPath line else current) current

/-- The last line that comes in some hunks and begins as a header does. -/
def lastHeader (hunks : List Hunk) : Option JsString :=
  ((hunks.flatMap fun hunk => hunk.added.map addedLine).filter fun line => startsWith line (text "+++ ")).getLast?

/-- The new side is printed as it is, and what comes before a hunk does not read as another file. -/
def FilePatch.Followed : FilePatch → Prop
  | .patched _ newPath _ _ hunks => hunks ≠ [] →
      (newPath.isPlain = true ∧ space ∉ newPath.path) ∧ ∀ before hunk after, hunks = before ++ hunk :: after →
        ∀ line, lastHeader before = some line → headerPath line = some newPath.path
  | .deleted .. => True
  | .binary .. => True

theorem plusses : text "+++ " = [unit 0x2B, unit 0x2B, unit 0x2B, space] := rfl

theorem ats : text "@@ " = [unit 0x40, unit 0x40, space] := rfl

variable {c : CodeUnit} (value : Nat) (hunk : Hunk) (header : ExtendedHeader) (oldPath : Name) (file : FilePatch)
  (files : List FilePatch) (current : Option JsString) (newPath : Name) (hunks : List Hunk) (state : HunkState)

theorem parseHunkLine_other {line : JsString} {rest : JsString} (starts : line = c :: rest) (plus : c ≠ unit 0x2B)
    (at_ : c ≠ unit 0x40) (state : HunkState) : parseHunkLine state line = state := by
  have first : startsWith line (text "+++ ") = false := by
    rw [starts, plusses]
    simp [plus.symm]
  have second : startsWith line (text "@@ ") = false := by
    rw [starts, ats]
    simp [at_.symm]
  rw [parseHunkLine, if_neg (by simp [first]), if_neg (by simp [second])]

theorem foldl_parseHunkLine_other {lines : List JsString} (other : ∀ line ∈ lines, ∃ c rest, line = c :: rest ∧ c ≠ unit 0x2B ∧ c ≠ unit 0x40)
    (state : HunkState) : lines.foldl parseHunkLine state = state := by
  induction lines with
  | nil => rfl
  | cons line lines ih =>
    obtain ⟨c, rest, starts, plus, at_⟩ := other line mem_cons_self
    rw [foldl_cons, parseHunkLine_other starts plus at_, ih fun later member => other later (mem_cons_of_mem _ member)]

theorem foldl_addedLines (lines : List Line) (state : HunkState) :
    (lines.map addedLine).foldl parseHunkLine state = { state with currentPath := readHeaders state.currentPath (lines.map addedLine) } := by
  induction lines generalizing state with
  | nil => rfl
  | cons line lines ih =>
    have notHunk : startsWith (addedLine line) (text "@@ ") = false := by
      rw [addedLine, ats, startsWith_cons_cons]
      rfl
    have one : parseHunkLine state (addedLine line) =
        ⟨if startsWith (addedLine line) (text "+++ ") then headerPath (addedLine line) else state.currentPath, state.out⟩ := by
      unfold parseHunkLine
      split
      · rfl
      · rw [if_neg (by simp [notHunk])]
    rw [map_cons, foldl_cons, one, ih]
    rfl

theorem matchNewRange_skip {front : JsString} (free : unit 0x2B ∉ front) (rest : JsString) : matchNewRange (front ++ rest) = matchNewRange rest := by
  induction front with
  | nil => rfl
  | cons c front ih =>
    rw [mem_cons, not_or] at free
    rw [cons_append, matchNewRange, if_neg (fun found => free.1 found.1.symm), ih free.2]

theorem takeWhile_decimal (ends : isDigit c = false) (rest : JsString) :
    (decimal value ++ c :: rest).takeWhile isDigit = decimal value ∧ (decimal value ++ c :: rest).dropWhile isDigit = c :: rest := by
  have all : ∀ c ∈ decimal value, isDigit c = true := fun c member => isDigit_of_mem_decimal member
  rw [takeWhile_append_of_pos all, dropWhile_append_of_pos all, takeWhile_cons_of_neg (by simp [ends]),
    dropWhile_cons_of_neg (by simp [ends]), append_nil]
  exact ⟨rfl, rfl⟩

theorem matchNewRange_printRange (start count : Nat) (rest : JsString) :
    matchNewRange (unit 0x2B :: (printRange start count ++ space :: rest)) =
      some (decimal start, if count = 1 then [] else decimal count) := by
  by_cases one : count = 1
  · obtain ⟨digits, after⟩ := takeWhile_decimal start (show isDigit space = false by decide) rest
    rw [printRange, if_pos one, if_pos one, append_nil, matchNewRange, digits, if_pos ⟨rfl, decimal_ne_nil start⟩, after]
    rfl
  · obtain ⟨digits, after⟩ := takeWhile_decimal start (show isDigit (unit 0x2C) = false by decide) (decimal count ++ space :: rest)
    obtain ⟨more, _⟩ := takeWhile_decimal count (show isDigit space = false by decide) rest
    rw [printRange, if_neg one, if_neg one, append_assoc, cons_append, matchNewRange, digits,
      if_pos ⟨rfl, decimal_ne_nil start⟩, after]
    dsimp only
    rw [if_pos rfl, more]

theorem notMem_printRange (digit : isDigit c = false) (comma : c ≠ unit 0x2C) (start count : Nat) : c ∉ printRange start count := by
  have free : ∀ value, c ∉ decimal value := fun value member => by simp [isDigit_of_mem_decimal member] at digit
  unfold printRange
  split <;> simp [free, comma]

theorem matchNewRange_header : matchNewRange hunk.header =
    some (decimal hunk.newStart, if hunk.added.length = 1 then [] else decimal hunk.added.length) := by
  have shape : ∃ rest, hunk.header = (text "@@ -" ++ printRange hunk.oldStart hunk.removed.length ++ [space]) ++
      (unit 0x2B :: (printRange hunk.newStart hunk.added.length ++ space :: rest)) := by
    refine ⟨text "@@" ++ if hunk.heading.val = [] then [] else space :: hunk.heading.val, ?_⟩
    simp [Hunk.header, text, encodeChar, space]
  obtain ⟨rest, same⟩ := shape
  rw [same, matchNewRange_skip ?_, matchNewRange_printRange]
  have range := notMem_printRange (show isDigit (unit 0x2B) = false by decide) (by decide) hunk.oldStart hunk.removed.length
  simp only [mem_append, not_or]
  exact ⟨⟨by decide, range⟩, by decide⟩

def push (current : Option JsString) (hunk : Hunk) : List DiffHunk :=
  match current with
  | some path => if path = [] then [] else [Hunk.newRange path hunk]
  | none => []

theorem parseHunkLine_header : parseHunkLine state hunk.header = { state with out := state.out ++ push state.currentPath hunk } := by
  have starts : ∃ rest, hunk.header = text "@@ " ++ rest :=
    ⟨unit 0x2D :: _, by simp only [Hunk.header, append_assoc]; rfl⟩
  obtain ⟨rest, same⟩ := starts
  have first : startsWith hunk.header (text "+++ ") = false := by
    rw [same, ats, plusses]
    rfl
  have second : startsWith hunk.header (text "@@ ") = true := by
    rw [same, ats]
    simp
  have range : ∀ path, rangeAt path (decimal hunk.newStart) (if hunk.added.length = 1 then [] else decimal hunk.added.length) =
      Hunk.newRange path hunk := by
    intro path
    unfold rangeAt Hunk.newRange
    split
    next one => simp [one, readDecimal_decimal]
    next => simp [decimal_ne_nil, readDecimal_decimal]
  rw [parseHunkLine, if_neg (by simp [first]), if_pos second, matchNewRange_header]
  unfold push
  obtain ⟨current, out⟩ := state
  cases current with
  | none => simp
  | some path =>
    dsimp only
    rw [range]
    split <;> simp

theorem foldl_hunk : hunk.lines.foldl parseHunkLine state =
    ⟨readHeaders state.currentPath (hunk.added.map addedLine), state.out ++ push state.currentPath hunk⟩ := by
  have marks : ∀ unended, ∀ line ∈ unendedMark unended, ∃ c rest, line = c :: rest ∧ c ≠ unit 0x2B ∧ c ≠ unit 0x40 := by
    intro unended line member
    cases unended with
    | false => cases member
    | true =>
      rw [mem_singleton.mp member]
      exact ⟨backslash, _, rfl, by decide, by decide⟩
  have removed : ∀ line ∈ hunk.removed.map removedLine, ∃ c rest, line = c :: rest ∧ c ≠ unit 0x2B ∧ c ≠ unit 0x40 := by
    intro line member
    obtain ⟨removed, _, rfl⟩ := mem_map.mp member
    exact ⟨unit 0x2D, _, rfl, by decide, by decide⟩
  rw [Hunk.lines, foldl_cons, parseHunkLine_header, foldl_append, foldl_append, foldl_append,
    foldl_parseHunkLine_other removed, foldl_parseHunkLine_other (marks _), foldl_addedLines, foldl_parseHunkLine_other (marks _)]

/-- What the parser reads in the hunks of a file. -/
def readHunks : Option JsString → List Hunk → List DiffHunk
  | _, [] => []
  | current, hunk :: hunks => push current hunk ++ readHunks (readHeaders current (hunk.added.map addedLine)) hunks

theorem foldl_hunks : ∃ current,
    (hunks.flatMap Hunk.lines).foldl parseHunkLine state = ⟨current, state.out ++ readHunks state.currentPath hunks⟩ := by
  induction hunks generalizing state with
  | nil => exact ⟨state.currentPath, by simp [readHunks]⟩
  | cons hunk hunks ih =>
    rw [flatMap_cons, foldl_append, foldl_hunk]
    obtain ⟨current, rest⟩ := ih ⟨readHeaders state.currentPath (hunk.added.map addedLine), state.out ++ push state.currentPath hunk⟩
    exact ⟨current, by rw [rest, readHunks, append_assoc]⟩

def FilePatch.read : FilePatch → List DiffHunk
  | .patched _ newPath _ _ hunks => readHunks (headerPath (newSideLine newPath)) hunks
  | .deleted .. => []
  | .binary .. => []

theorem starts_newSideLine : startsWith (newSideLine newPath) (text "+++ ") = true := by
  simp [newSideLine, startsWith]

theorem starts_extended : ∃ c rest, header.line = c :: rest ∧ c ≠ unit 0x2B ∧ c ≠ unit 0x40 := by
  cases header <;> exact ⟨_, _, rfl, by decide, by decide⟩

theorem starts_gitLine : ∃ c rest, gitLine oldPath newPath = c :: rest ∧ c ≠ unit 0x2B ∧ c ≠ unit 0x40 :=
  ⟨_, _, rfl, by decide, by decide⟩

theorem foldl_preamble (extended : List ExtendedHeader) (state : HunkState) :
    (gitLine oldPath newPath :: extended.map ExtendedHeader.line).foldl parseHunkLine state = state := by
  refine foldl_parseHunkLine_other (fun line member => ?_) state
  rcases mem_cons.mp member with rfl | listed
  · exact starts_gitLine oldPath newPath
  · obtain ⟨header, _, rfl⟩ := mem_map.mp listed
    exact starts_extended header

theorem foldl_file : ∃ current, file.lines.foldl parseHunkLine state = ⟨current, state.out ++ FilePatch.read file⟩ := by
  cases file with
  | deleted path extended removed unended =>
    rw [FilePatch.lines, cons_append, ← cons_append, foldl_append, foldl_preamble]
    by_cases empty : removed = []
    · exact ⟨state.currentPath, by rw [if_pos empty, foldl_nil, FilePatch.read, append_nil]⟩
    · have oldSide : parseHunkLine state (text "--- " ++ label "a/" path) = state :=
        parseHunkLine_other (show _ = unit 0x2D :: _ from rfl) (by decide) (by decide) state
      have newSide : parseHunkLine state (text "+++ " ++ devNull) = { state with currentPath := none } := rfl
      rw [if_neg empty, foldl_append, foldl_cons, foldl_cons, foldl_nil, oldSide, newSide, foldl_hunk]
      exact ⟨_, rfl⟩
  | binary oldPath newPath extended =>
    rw [FilePatch.lines, cons_append, ← cons_append, foldl_append, foldl_preamble]
    refine ⟨state.currentPath, ?_⟩
    rw [foldl_cons, foldl_nil, FilePatch.read, append_nil]
    exact parseHunkLine_other (show _ = unit 0x42 :: _ from rfl) (by decide) (by decide) state
  | patched oldPath newPath created extended hunks =>
    rw [FilePatch.lines, cons_append, ← cons_append, foldl_append, foldl_preamble]
    by_cases empty : hunks = []
    · exact ⟨state.currentPath, by rw [if_pos empty, foldl_nil, FilePatch.read, empty, readHunks, append_nil]⟩
    · have oldSide : parseHunkLine state (text "--- " ++ if created = true then devNull else label "a/" oldPath) = state :=
        parseHunkLine_other (show _ = unit 0x2D :: _ from rfl) (by decide) (by decide) state
      have newSide : parseHunkLine state (newSideLine newPath) = { state with currentPath := headerPath (newSideLine newPath) } :=
        if_pos (starts_newSideLine newPath)
      rw [if_neg empty, foldl_append, foldl_cons, foldl_cons, foldl_nil, oldSide, newSide]
      exact foldl_hunks hunks _

theorem newline_notMem_quote (lead : String) (free : newline ∉ text lead) (name : Name) : newline ∉ quote (text lead) name :=
  control_notMem_quote (by decide) free

theorem newline_notMem_label (lead : String) (free : newline ∉ text lead) (name : Name) : newline ∉ label lead name := by
  have quoted := newline_notMem_quote lead free name
  have differs : newline ≠ tab := by decide
  unfold label
  dsimp only
  split <;> simp [quoted, differs]

theorem newline_notMem_decimal : newline ∉ decimal value :=
  fun member => absurd (isDigit_of_mem_decimal member) (by decide)

theorem newline_notMem_hunk : ∀ line ∈ hunk.lines, newline ∉ line := by
  have range := notMem_printRange (show isDigit newline = false by decide) (show newline ≠ unit 0x2C by decide)
  have marks : ∀ unended, ∀ line ∈ unendedMark unended, newline ∉ line := by
    intro unended line member
    cases unended with
    | false => cases member
    | true =>
      rw [mem_singleton.mp member]
      decide
  have signed : ∀ (sign : CodeUnit), newline ≠ sign → ∀ line : Line, newline ∉ sign :: line.val := by
    intro sign differs line member
    rcases mem_cons.mp member with same | inside
    · exact differs same
    · exact line.property inside
  intro line member
  simp only [Hunk.lines, mem_cons, mem_append, mem_map] at member
  rcases member with rfl | (((⟨removed, _, rfl⟩ | mark) | ⟨added, _, rfl⟩) | mark)
  · have heading : newline ∉ (if hunk.heading.val = [] then [] else space :: hunk.heading.val) := by
      split
      · exact not_mem_nil
      · exact signed space (by decide) hunk.heading
    simp only [Hunk.header, mem_append, not_or]
    exact ⟨⟨⟨⟨⟨by decide, range _ _⟩, by decide⟩, range _ _⟩, by decide⟩, heading⟩
  · exact signed _ (by decide) removed
  · exact marks _ line mark
  · exact signed _ (by decide) added
  · exact marks _ line mark

theorem newline_notMem_extended : newline ∉ header.line := by
  have quoted : ∀ name : Name, newline ∉ quote [] name := newline_notMem_quote "" (by decide)
  have digits := newline_notMem_decimal
  cases header with
  | index hashes =>
    rw [ExtendedHeader.line, mem_append, not_or]
    exact ⟨by decide, hashes.property⟩
  | similarityIndex percent =>
    simp only [ExtendedHeader.line, mem_append, not_or]
    exact ⟨⟨by decide, digits _⟩, by decide⟩
  | dissimilarityIndex percent =>
    simp only [ExtendedHeader.line, mem_append, not_or]
    exact ⟨⟨by decide, digits _⟩, by decide⟩
  | oldMode mode | newMode mode | newFileMode mode | deletedFileMode mode =>
    simp only [ExtendedHeader.line, mem_append, not_or]
    exact ⟨by decide, digits _⟩
  | copyFrom name | copyTo name | renameFrom name | renameTo name =>
    simp only [ExtendedHeader.line, mem_append, not_or]
    exact ⟨by decide, quoted _⟩

theorem newline_notMem_file : ∀ line ∈ file.lines, newline ∉ line := by
  have old := newline_notMem_quote "a/" (by decide)
  have new := newline_notMem_quote "b/" (by decide)
  have oldLabel := newline_notMem_label "a/" (by decide)
  have newLabel := newline_notMem_label "b/" (by decide)
  have git : ∀ oldPath newPath, newline ∉ gitLine oldPath newPath := by
    intro oldPath newPath
    have differs : newline ≠ space := by decide
    simp only [gitLine, mem_append, mem_cons, not_or]
    exact ⟨⟨by decide, old _⟩, differs, new _⟩
  have preamble : ∀ oldPath newPath (extended : List ExtendedHeader), ∀ line ∈ gitLine oldPath newPath :: extended.map ExtendedHeader.line, newline ∉ line := by
    intro oldPath newPath extended line member
    rcases mem_cons.mp member with rfl | listed
    · exact git oldPath newPath
    · obtain ⟨header, _, rfl⟩ := mem_map.mp listed
      exact newline_notMem_extended header
  intro line member
  cases file with
  | deleted path extended removed unended =>
    rw [FilePatch.lines, cons_append, ← cons_append] at member
    rcases mem_append.mp member with before | sides
    · exact preamble _ _ _ line before
    · split at sides
      · cases sides
      · simp only [cons_append, nil_append, mem_cons] at sides
        rcases sides with rfl | rfl | inside
        · rw [mem_append, not_or]
          exact ⟨by decide, oldLabel _⟩
        · decide
        · exact newline_notMem_hunk _ line inside
  | binary oldPath newPath extended =>
    rw [FilePatch.lines, cons_append, ← cons_append] at member
    rcases mem_append.mp member with before | only
    · exact preamble _ _ _ line before
    · rw [mem_singleton.mp only]
      simp only [mem_append, not_or]
      exact ⟨⟨⟨⟨by decide, old _⟩, by decide⟩, new _⟩, by decide⟩
  | patched oldPath newPath created extended hunks =>
    rw [FilePatch.lines, cons_append, ← cons_append] at member
    rcases mem_append.mp member with before | sides
    · exact preamble _ _ _ line before
    · split at sides
      · cases sides
      · simp only [cons_append, nil_append, mem_cons, mem_flatMap] at sides
        rcases sides with rfl | rfl | ⟨hunk, _, inside⟩
        · rw [mem_append, not_or]
          refine ⟨by decide, ?_⟩
          split
          · decide
          · exact oldLabel _
        · rw [newSideLine, mem_append, not_or]
          exact ⟨by decide, newLabel _⟩
        · exact newline_notMem_hunk hunk line inside

theorem parseHunks_print : parseHunks (printPatch files) = files.flatMap FilePatch.read := by
  have folded : ∀ (files : List FilePatch) (state : HunkState), ∃ current,
      (files.flatMap FilePatch.lines).foldl parseHunkLine state = ⟨current, state.out ++ files.flatMap FilePatch.read⟩ := by
    intro files
    induction files with
    | nil => exact fun state => ⟨state.currentPath, by simp⟩
    | cons file files ih =>
      intro state
      rw [flatMap_cons, foldl_append]
      obtain ⟨middle, one⟩ := foldl_file file state
      obtain ⟨last, rest⟩ := ih ⟨middle, state.out ++ FilePatch.read file⟩
      exact ⟨last, by rw [one, rest, flatMap_cons, append_assoc]⟩
  obtain ⟨current, done⟩ := folded files ⟨none, []⟩
  rw [parseHunks, printPatch, split_unlines, foldl_append, done]
  · rfl
  · intro line member
    obtain ⟨file, _, inside⟩ := mem_flatMap.mp member
    exact newline_notMem_file file line inside

theorem headerPath_newSide_iff :
    headerPath (newSideLine newPath) = some newPath.path ↔ newPath.isPlain = true ∧ space ∉ newPath.path := by
  have drop : (newSideLine newPath).drop 4 = label "b/" newPath := rfl
  by_cases plain : newPath.isPlain = true
  · have quoted := quote_of_plain (text "b/") plain
    have spaced : space ∈ quote (text "b/") newPath ↔ space ∈ newPath.path := by
      rw [quoted, mem_append]
      exact or_iff_right (by decide)
    have lead : ∃ rest, label "b/" newPath = text "b/" ++ rest ∧ (rest = newPath.path ↔ space ∉ newPath.path) := by
      unfold label
      dsimp only
      split
      next inside =>
        refine ⟨newPath.path ++ [tab], by rw [quoted, append_assoc], iff_of_false (fun same => ?_) (not_not.mpr (spaced.mp inside))⟩
        have longer := congrArg List.length same
        simp at longer
      next outside => exact ⟨newPath.path, quoted, iff_of_true rfl fun inside => outside (spaced.mpr inside)⟩
    obtain ⟨rest, same, iff⟩ := lead
    have kept : startsWith (newSideLine newPath) (text "+++ /dev/null") = false := by
      rw [newSideLine, same]
      rfl
    have stripped : startsWith (text "b/" ++ rest) (text "b/") = true := by simp [startsWith]
    rw [headerPath, if_neg (by simp [kept]), drop, same]
    dsimp only
    rw [if_pos stripped, Option.some.injEq, and_iff_right plain]
    exact iff
  · have special : newPath.isPlain = false := by simpa using plain
    have longer : newPath.path.length < (label "b/" newPath).length := by
      have quoted := length_quote (text "b/") special
      unfold label
      dsimp only
      split
      · rw [length_append]
        omega
      · omega
    have lead : ∃ rest, label "b/" newPath = doubleQuote :: rest := by
      unfold label
      rw [quote, if_neg plain]
      dsimp only
      split <;> exact ⟨_, rfl⟩
    obtain ⟨rest, same⟩ := lead
    have kept : startsWith (newSideLine newPath) (text "+++ /dev/null") = false := by
      rw [newSideLine, same]
      rfl
    have whole : startsWith (doubleQuote :: rest) (text "b/") = false := rfl
    rw [headerPath, if_neg (by simp [kept]), drop, same]
    dsimp only
    rw [if_neg (by simp [whole]), Option.some.injEq]
    refine iff_of_false (fun equal => ?_) fun both => plain both.1
    rw [← equal, same] at longer
    exact Nat.lt_irrefl _ longer

theorem readHeaders_eq (lines : List JsString) : readHeaders current lines =
    ((lines.filter fun line => startsWith line (text "+++ ")).getLast?).elim current headerPath := by
  unfold readHeaders
  induction lines generalizing current with
  | nil => rfl
  | cons line lines ih =>
    rw [foldl_cons, ih, filter_cons]
    split
    next => rw [getLast?_cons]; cases (lines.filter fun line => startsWith line (text "+++ ")).getLast? <;> rfl
    next => rfl

theorem length_readHunks : (readHunks current hunks).length ≤ hunks.length := by
  induction hunks generalizing current with
  | nil => exact Nat.le_refl _
  | cons hunk hunks ih =>
    have one : (push current hunk).length ≤ 1 := by
      unfold push
      split
      · split <;> simp
      · simp
    have rest := ih (readHeaders current (hunk.added.map addedLine))
    rw [readHunks, length_append, length_cons]
    omega

theorem readHeaders_added :
    readHeaders current (hunks.flatMap fun hunk => hunk.added.map addedLine) = (lastHeader hunks).elim current headerPath :=
  readHeaders_eq _ _

theorem readHunks_eq_iff {path : JsString} (nonempty : path ≠ []) (current : Option JsString) (hunks : List Hunk) :
    readHunks current hunks = hunks.map (Hunk.newRange path) ↔ ∀ before hunk after, hunks = before ++ hunk :: after →
      readHeaders current (before.flatMap fun hunk => hunk.added.map addedLine) = some path := by
  have joined : ∀ current hunk (before : List Hunk), readHeaders current ((hunk :: before).flatMap fun hunk => hunk.added.map addedLine) =
      readHeaders (readHeaders current (hunk.added.map addedLine)) (before.flatMap fun hunk => hunk.added.map addedLine) := by
    intro current hunk before
    rw [flatMap_cons, readHeaders, foldl_append]
    rfl
  induction hunks generalizing current with
  | nil =>
    refine iff_of_true rfl fun before hunk after same => ?_
    exact absurd same.symm (by simp)
  | cons hunk hunks ih =>
    rw [readHunks, map_cons]
    constructor
    · intro same
      have pushed : current = some path := by
        have rest := length_readHunks (readHeaders current (hunk.added.map addedLine)) hunks
        cases current with
        | none =>
          have lengths := congrArg List.length same
          rw [push, nil_append, length_cons, length_map] at lengths
          omega
        | some other =>
          rw [push] at same
          by_cases empty : other = []
          · have lengths := congrArg List.length same
            rw [if_pos empty, nil_append, length_cons, length_map] at lengths
            omega
          · rw [if_neg empty, singleton_append, List.cons.injEq] at same
            exact congrArg some (congrArg DiffHunk.path same.1)
      have one : push current hunk = [Hunk.newRange path hunk] := by
        rw [pushed]
        exact if_neg nonempty
      rw [one, singleton_append, List.cons.injEq, and_iff_right rfl] at same
      intro before other after shape
      cases before with
      | nil => exact pushed
      | cons first before =>
        obtain ⟨rfl, later⟩ := List.cons.inj shape
        rw [joined]
        exact (ih _).mp same before other after later
    · intro holds
      have pushed : current = some path := holds [] hunk hunks rfl
      have one : push current hunk = [Hunk.newRange path hunk] := by
        rw [pushed]
        exact if_neg nonempty
      rw [one, singleton_append, List.cons.injEq, and_iff_right rfl]
      refine (ih _).mpr fun before other after shape => ?_
      rw [← joined]
      exact holds (hunk :: before) other after (by rw [shape, cons_append])

theorem read_eq_iff : FilePatch.read file = FilePatch.changes file ↔ FilePatch.Followed file := by
  cases file with
  | deleted => exact iff_of_true rfl trivial
  | binary => exact iff_of_true rfl trivial
  | patched oldPath newPath created extended hunks =>
    rw [FilePatch.read, FilePatch.changes, readHunks_eq_iff (path_ne_nil newPath), FilePatch.Followed]
    constructor
    · intro holds nonempty
      obtain ⟨hunk, after, rfl⟩ := exists_cons_of_ne_nil nonempty
      have side := holds [] hunk after rfl
      refine ⟨(headerPath_newSide_iff newPath).mp side, fun before other rest shape line last => ?_⟩
      have read := holds before other rest shape
      rwa [readHeaders_added, last] at read
    · rintro followed before hunk after rfl
      obtain ⟨side, last⟩ := followed (by simp)
      rw [readHeaders_added]
      cases header : lastHeader before with
      | none => exact (headerPath_newSide_iff newPath).mpr side
      | some line => exact last before hunk after rfl line header

theorem flatMap_eq_iff {Item Value : Type} {read given : Item → List Value} (short : ∀ item, (read item).length ≤ (given item).length)
    (items : List Item) : items.flatMap read = items.flatMap given ↔ ∀ item ∈ items, read item = given item := by
  have total : ∀ items : List Item, (items.flatMap read).length ≤ (items.flatMap given).length := by
    intro items
    induction items with
    | nil => exact Nat.le_refl _
    | cons item items ih =>
      rw [flatMap_cons, flatMap_cons, length_append, length_append]
      exact Nat.add_le_add (short item) ih
  induction items with
  | nil => simp
  | cons item items ih =>
    rw [flatMap_cons, flatMap_cons, forall_mem_cons]
    refine Iff.trans ?_ (and_congr_right fun _ => ih)
    constructor
    · intro same
      have lengths := congrArg List.length same
      rw [length_append, length_append] at lengths
      have one := short item
      have rest := total items
      exact append_inj same (by omega)
    · rintro ⟨one, rest⟩
      rw [one, rest]

theorem parseHunks_iff : parseHunks (printPatch files) = files.flatMap FilePatch.changes ↔
    ∀ file ∈ files, FilePatch.Followed file := by
  rw [parseHunks_print, flatMap_eq_iff]
  · exact forall₂_congr fun file _ => read_eq_iff file
  · intro file
    cases file with
    | deleted => exact Nat.le_refl _
    | binary => exact Nat.le_refl _
    | patched oldPath newPath created extended hunks =>
      rw [FilePatch.read, FilePatch.changes, length_map]
      exact length_readHunks _ hunks

end hunks

section log

def Commit.entry (commit : Commit) : LogFilesEntry := ⟨commit.sha.val, commit.files.map Name.path⟩

theorem length_flush_foldl (lines : List JsString) (state : LogState) :
    (flush (lines.foldl parseLogLine state)).length = (flush state).length + lines.countP isSha := by
  induction lines generalizing state with
  | nil => rfl
  | cons line lines ih =>
    rw [foldl_cons, ih, countP_cons]
    unfold parseLogLine
    by_cases sha : isSha line = true
    · rw [if_pos sha, if_pos sha]
      simp only [flush, length_append, length_singleton]
      omega
    · rw [if_neg sha, if_neg sha]
      split
      · simp only [flush]
        split <;> simp
      · rfl

theorem isSha_nil : isSha [] = false := rfl

theorem foldl_files {files : List JsString} (plain : ∀ line ∈ files, isSha line = false ∧ line ≠ []) (out : List LogFilesEntry)
    (sha : JsString) (known : List JsString) :
    files.foldl parseLogLine ⟨out, some sha, known⟩ = ⟨out, some sha, appendNew known files⟩ := by
  induction files generalizing known with
  | nil => rfl
  | cons line files ih =>
    obtain ⟨notSha, nonempty⟩ := plain line mem_cons_self
    have later := fun other member => plain other (mem_cons_of_mem line member)
    rw [foldl_cons, parseLogLine, if_neg (by simp [notSha]), appendNew_cons]
    by_cases listed : line ∈ known
    · rw [if_neg fun ⟨_, _, fresh⟩ => fresh listed, ih later, if_pos listed]
    · rw [if_pos ⟨nonempty, rfl, listed⟩, ih later, if_neg listed]

theorem foldl_commit {commit : Commit} (plain : ∀ name ∈ commit.files, isSha (quote [] name) = false) (gap : List JsString)
    (blank : ∀ line ∈ gap, line = []) (state : LogState) : (commit.lines ++ gap).foldl parseLogLine state =
      ⟨flush state, some commit.sha.val, appendNew [] (commit.files.map (quote []))⟩ := by
  have skip : ∀ (lines : List JsString) (state : LogState), (∀ line ∈ lines, line = []) → lines.foldl parseLogLine state = state := by
    intro lines
    induction lines with
    | nil => exact fun _ _ => rfl
    | cons line lines ih =>
      intro state empty
      rw [foldl_cons, empty line mem_cons_self]
      exact ih state fun later member => empty later (mem_cons_of_mem _ member)
  have first : parseLogLine state commit.sha.val = ⟨flush state, some commit.sha.val, []⟩ := if_pos commit.sha.property
  rw [foldl_append, skip gap _ blank, Commit.lines, foldl_cons, first]
  by_cases none : commit.files = []
  · rw [if_pos none, none]
    rfl
  · rw [if_neg none, foldl_cons]
    refine foldl_files (fun line member => ?_) (flush state) commit.sha.val []
    obtain ⟨name, listed, rfl⟩ := mem_map.mp member
    exact ⟨plain name listed, quote_ne_nil [] name⟩

def printedLines (separated : Bool) (commit : Commit) : List JsString := commit.lines ++ if separated then [[]] else []

variable {commits : List Commit} (separated : Bool) (commit : Commit)

theorem flush_foldl_commits {separated : Bool}
    (plain : ∀ commit ∈ commits, ∀ name ∈ commit.files, isSha (quote [] name) = false) (state : LogState) :
    flush ((commits.flatMap (printedLines separated)).foldl parseLogLine state) =
      flush state ++ commits.map fun commit => ⟨commit.sha.val, appendNew [] (commit.files.map (quote []))⟩ := by
  induction commits generalizing state with
  | nil => exact (append_nil _).symm
  | cons commit commits ih =>
    have blank : ∀ line ∈ (if separated then [([] : JsString)] else []), line = [] := by
      intro line member
      split at member
      · exact mem_singleton.mp member
      · cases member
    rw [flatMap_cons, foldl_append, printedLines, foldl_commit (plain commit mem_cons_self) _ blank,
      ih fun other member => plain other (mem_cons_of_mem _ member), map_cons]
    simp [flush]

theorem parseLogFiles_print (commits : List Commit) : parseLogFiles (printLog separated commits) =
    flush ((commits.flatMap (printedLines separated)).foldl parseLogLine ⟨[], none, []⟩) := by
  rw [parseLogFiles, printLog, split_unlines, foldl_append]
  · rfl
  · intro line member
    obtain ⟨commit, _, inside⟩ := mem_flatMap.mp member
    have shaFree : newline ∉ commit.sha.val := by
      intro found
      have all := commit.sha.property
      rw [isSha, Bool.and_eq_true, all_eq_true] at all
      exact absurd (all.2 newline found) (by decide)
    rcases mem_append.mp inside with own | gap
    · rcases mem_cons.mp own with rfl | files
      · exact shaFree
      · split at files
        · cases files
        · rcases mem_cons.mp files with rfl | file
          · exact not_mem_nil
          · obtain ⟨name, _, rfl⟩ := mem_map.mp file
            exact control_notMem_quote (by decide) not_mem_nil
    · split at gap
      · rw [mem_singleton.mp gap]
        exact not_mem_nil
      · cases gap

theorem countP_printedLines : (printedLines separated commit).countP isSha = 1 + (commit.files.map (quote [])).countP isSha := by
  have gap : (if separated then [([] : JsString)] else []).countP isSha = 0 := by cases separated <;> rfl
  rw [printedLines, countP_append, gap, Commit.lines, countP_cons, if_pos commit.sha.property]
  split
  next none => rw [none]; rfl
  next => rw [countP_cons, if_neg (by simp [isSha_nil])]; omega

theorem sha_free_of_length {separated : Bool} (same : (commits.flatMap (printedLines separated)).countP isSha = commits.length) :
    ∀ commit ∈ commits, ∀ name ∈ commit.files, isSha (quote [] name) = false := by
  have least : ∀ commits : List Commit, commits.length ≤ (commits.flatMap (printedLines separated)).countP isSha := by
    intro commits
    induction commits with
    | nil => exact Nat.le_refl _
    | cons commit commits ih =>
      rw [flatMap_cons, countP_append, countP_printedLines, length_cons]
      omega
  induction commits with
  | nil => exact fun _ member => nomatch member
  | cons commit commits ih =>
    have rest := least commits
    rw [flatMap_cons, countP_append, countP_printedLines, length_cons] at same
    rw [forall_mem_cons]
    refine ⟨fun name member => ?_, ih (by omega)⟩
    have none : (commit.files.map (quote [])).countP isSha = 0 := by omega
    have all := countP_eq_zero.mp none (quote [] name) (mem_map_of_mem member)
    simpa using all

theorem quoted_files_iff :
    appendNew [] (commit.files.map (quote [])) = commit.files.map Name.path ↔ ∀ name ∈ commit.files, name.isPlain = true := by
  constructor
  · intro same
    obtain ⟨new, part, whole⟩ := exists_sublist_appendNew [] (commit.files.map (quote []))
    rw [nil_append, same] at whole
    have all : new = commit.files.map (quote []) := part.eq_of_length (by rw [← whole, length_map, length_map])
    rw [← whole, map_inj_left] at all
    exact fun name member => quote_eq_path_iff.mp (all name member).symm
  · intro plain
    have quoted : commit.files.map (quote []) = commit.files.map Name.path :=
      map_congr_left fun name member => quote_eq_path_iff.mpr (plain name member)
    have apart : (commit.files.map Name.path).Nodup := by
      have paths : commit.files.map Name.path = (commit.files.map Name.bytes).map decode := by rw [map_map]; rfl
      rw [paths]
      refine Nodup.map_on (fun one oneListed two twoListed same => ?_) commit.distinct
      obtain ⟨first, firstListed, rfl⟩ := mem_map.mp oneListed
      obtain ⟨second, secondListed, rfl⟩ := mem_map.mp twoListed
      have units : first.bytes.map (fun byte => unit byte.val) = second.bytes.map fun byte => unit byte.val := by
        have one := (quote_eq_path_iff.mpr (plain first firstListed)).trans same
        have both := one.trans (quote_eq_path_iff.mpr (plain second secondListed)).symm
        rwa [quote, if_pos (plain first firstListed), quote, if_pos (plain second secondListed)] at both
      refine map_injective_iff.mpr (fun a b equal => Fin.ext ?_) units
      have value := congrArg Fin.val equal
      exact (Nat.mod_eq_of_lt (by omega)).symm.trans (value.trans (Nat.mod_eq_of_lt (by omega)))
    rw [quoted, appendNew_eq_append [] (by simpa using apart), nil_append]

theorem parseLogFiles_iff (commits : List Commit) :
    parseLogFiles (printLog separated commits) = commits.map Commit.entry ↔
      ∀ commit ∈ commits, ∀ name ∈ commit.files, name.isPlain = true ∧ isSha name.path = false := by
  rw [parseLogFiles_print]
  constructor
  · intro same
    have counted : (commits.flatMap (printedLines separated)).countP isSha = commits.length := by
      have lengths := congrArg List.length same
      rw [length_flush_foldl, length_map] at lengths
      simpa [flush] using lengths
    have free := sha_free_of_length counted
    rw [flush_foldl_commits free, flush, nil_append, map_inj_left] at same
    intro commit member name listed
    have plain := (quoted_files_iff commit).mp (congrArg LogFilesEntry.files (same commit member)) name listed
    exact ⟨plain, quote_eq_path_iff.mpr plain ▸ free commit member name listed⟩
  · intro holds
    have free : ∀ commit ∈ commits, ∀ name ∈ commit.files, isSha (quote [] name) = false := by
      intro commit member name listed
      obtain ⟨plain, other⟩ := holds commit member name listed
      rwa [quote_eq_path_iff.mpr plain]
    rw [flush_foldl_commits free, flush, nil_append, map_inj_left]
    intro commit member
    rw [Commit.entry, (quoted_files_iff commit).mpr fun name listed => (holds commit member name listed).1]

end log

/-- The parsers return what was printed exactly when each name is printed as it is and nothing passes for a header. -/
theorem parsers_invert_iff (statuses : List NameStatus) (files : List FilePatch) (separated : Bool) (commits : List Commit) :
    (parseNameStatus (printNameStatus statuses) = statuses.map NameStatus.entry ∧
      parseHunks (printPatch files) = files.flatMap FilePatch.changes ∧
      parseLogFiles (printLog separated commits) = commits.map Commit.entry) ↔
      (∀ status ∈ statuses, ∀ name ∈ NameStatus.names status, name.isPlain = true) ∧ (∀ file ∈ files, FilePatch.Followed file) ∧
        ∀ commit ∈ commits, ∀ name ∈ commit.files, name.isPlain = true ∧ isSha name.path = false := by
  rw [parseNameStatus_iff, parseHunks_iff, parseLogFiles_iff]

/-- `é.ts` -/
def accented : Name := ⟨[0xC3, 0xA9, 0x2E, 0x74, 0x73], by decide, by simp⟩

/-- `a.ts` -/
def ascii : Name := ⟨[0x61, 0x2E, 0x74, 0x73], by decide, by simp⟩

/-- Two hunks in `a.ts`, the first with the new line `++ b/other.ts`. -/
def plussesPatch : FilePatch :=
  .patched ascii ascii false []
    [⟨3, 4, ⟨[], not_mem_nil⟩, [], [⟨text "++ b/other.ts", by decide +kernel⟩], false, false⟩,
      ⟨9, 11, ⟨[], not_mem_nil⟩, [], [⟨text "x", by decide⟩], false, false⟩]

/-- A name comes back quoted, and a changed line is taken for the header of another file. -/
theorem quoted_and_misread :
    (accented.path = text "é.ts" ∧
        parseNameStatus (printNameStatus [.changed .modified accented]) = [⟨text "M", text "\"\\303\\251.ts\"", none⟩]) ∧
      (FilePatch.changes plussesPatch = [⟨text "a.ts", 4, 5⟩, ⟨text "a.ts", 11, 12⟩] ∧
        parseHunks (printPatch [plussesPatch]) = [⟨text "a.ts", 4, 5⟩, ⟨text "other.ts", 11, 12⟩]) ∧
      ¬ ∀ (statuses : List NameStatus) (files : List FilePatch) (separated : Bool) (commits : List Commit),
        parseNameStatus (printNameStatus statuses) = statuses.map NameStatus.entry ∧
          parseHunks (printPatch files) = files.flatMap FilePatch.changes ∧
          parseLogFiles (printLog separated commits) = commits.map Commit.entry := by
  have read : parseHunks (printPatch [plussesPatch]) = [⟨text "a.ts", 4, 5⟩, ⟨text "other.ts", 11, 12⟩] := by decide +kernel
  refine ⟨⟨by decide +kernel, by decide +kernel⟩, ⟨by decide +kernel, read⟩, fun inverts => ?_⟩
  have hunks := (inverts [] [plussesPatch] false []).2.1
  rw [read] at hunks
  exact absurd hunks (by decide +kernel)

end Remnic.CodingGraph.GitRoundTrip
