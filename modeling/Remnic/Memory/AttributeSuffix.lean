import Remnic.Text.Lines

/-! The line of attributes that a stored body ends in, as it is written and as it is taken off again. -/

namespace Remnic.Memory.AttributeSuffix

open List Text.CodeUnits Text.Trim

def closing : CodeUnit := unit 0x5D

def marker : JsString := text "\n[Attributes: "

def trimEnd (value : JsString) : JsString := value.rdropWhile isWhiteSpace

def lastIndexOf (pattern : JsString) : JsString → Option Nat
  | [] => if pattern = [] then some 0 else none
  | c :: rest =>
    match lastIndexOf pattern rest with
    | some index => some (index + 1)
    | none => if startsWith (c :: rest) pattern then some 0 else none

def stripAttributesSuffix (content : JsString) : JsString :=
  let trimmed := trimEnd content
  if !endsWith trimmed closing then trim content
  else
    match lastIndexOf marker trimmed with
    | none => trim content
    | some markerIndex =>
      let inner := (trimmed.drop (markerIndex + marker.length)).dropLast
      if inner.contains closing || inner.contains newline then trim content else trim (trimmed.take markerIndex)

/-- The entries of the map, in the order of its keys. -/
def normalizeAttributePairs (tables : UnicodeTables) (pairs : List (JsString × JsString)) : JsString :=
  let normalized := pairs.map fun pair => (tables.toLowerCase (trim pair.1), trim pair.2)
  (text "; ").intercalate ((normalized.insertionSort fun a b => tables.localeLe a.1 b.1 = true).map
    fun pair => pair.1 ++ text ": " ++ pair.2)

structure InjectionPattern where
  source : JsString
  test : JsString → Bool

structure SanitizeResult where
  clean : Bool
  text : JsString
  violations : List JsString

def sanitizeMemoryContent (patterns : List InjectionPattern) (source : JsString) : SanitizeResult :=
  let violations := (patterns.filter (·.test source)).map (·.source)
  if violations.isEmpty then ⟨true, source, []⟩ else ⟨false, text "[content removed: unsafe memory text]", violations⟩

def enriched (tables : UnicodeTables) (content : JsString) (attributes : List (JsString × JsString)) : JsString :=
  if 0 < attributes.length then content ++ marker ++ normalizeAttributePairs tables attributes ++ [closing] else content

def assemblePersistedBody (tables : UnicodeTables) (patterns : List InjectionPattern) (content : JsString)
    (attributes : List (JsString × JsString)) : SanitizeResult :=
  sanitizeMemoryContent patterns (enriched tables content attributes)

/-- Nothing that ends the line of attributes before its end. -/
def Inline (value : JsString) : Prop := closing ∉ value ∧ newline ∉ value

instance (value : JsString) : Decidable (Inline value) := inferInstanceAs (Decidable (_ ∧ _))

/-- The last line that is not blank is a line of attributes, and not the first. -/
def EndsInAttributeLine (content : JsString) : Prop :=
  ∃ front inner, Inline inner ∧ trimEnd content = front ++ marker ++ inner ++ [closing]

/-- Lower-casing neither makes nor takes away what could end the line. -/
def KeepsInline (tables : UnicodeTables) : Prop := ∀ value, Inline (tables.toLowerCase value) ↔ Inline value

section Index

variable {pattern value : JsString} {index : Nat}

theorem lastIndexOf_isPrefix (found : lastIndexOf pattern value = some index) : pattern <+: value.drop index := by
  induction value generalizing index with
  | nil =>
    rw [lastIndexOf] at found
    split at found
    next empty => exact empty ▸ nil_prefix
    next => cases found
  | cons c rest ih =>
    rw [lastIndexOf] at found
    split at found
    next later same =>
      rw [← Option.some.inj found]
      exact ih same
    next =>
      split at found
      next starts =>
        rw [← Option.some.inj found]
        exact isPrefixOf_iff_prefix.mp starts
      next => cases found

theorem le_lastIndexOf (some : pattern ≠ []) (occurs : pattern <+: value.drop index) :
    ∃ last, lastIndexOf pattern value = Option.some last ∧ index ≤ last := by
  induction value generalizing index with
  | nil =>
    rw [drop_nil] at occurs
    exact absurd (prefix_nil.mp occurs) some
  | cons c rest ih =>
    rw [lastIndexOf]
    split
    next later same =>
      refine ⟨later + 1, rfl, ?_⟩
      cases index with
      | zero => exact Nat.zero_le _
      | succ index =>
        obtain ⟨last, found, after⟩ := ih occurs
        rw [same, Option.some.injEq] at found
        omega
    next none =>
      cases index with
      | zero => exact ⟨0, if_pos ( isPrefixOf_iff_prefix.mpr occurs), le_rfl⟩
      | succ index =>
        obtain ⟨last, found, _⟩ := ih occurs
        rw [none] at found
        cases found

end Index

theorem countP_trim (value : JsString) :
    (trim value).countP (fun c => !isWhiteSpace c) = value.countP fun c => !isWhiteSpace c := by
  have nothing {blank : JsString} (only : Blank blank) : blank.countP (fun c => !isWhiteSpace c) = 0 := by
    rw [countP_eq_zero]
    intro c member
    simp [only c member]
  obtain ⟨front, back, parts, before, after⟩ := exists_blanks value
  conv_rhs => rw [parts, countP_append, countP_append, nothing before, nothing after]
  rw [Nat.zero_add, Nat.add_zero]

theorem trim_append_ne (content : JsString) {more : JsString} {c : CodeUnit} (member : c ∈ more)
    (solid : isWhiteSpace c = false) : trim (content ++ more) ≠ trim content := by
  intro same
  have counts := congrArg (List.countP fun c => !isWhiteSpace c) same
  rw [countP_trim, countP_trim, countP_append, Nat.add_eq_left, countP_eq_zero] at counts
  simpa [solid] using counts c member

theorem not_mem_intercalate {separator : JsString} {c : CodeUnit} (apart : c ∉ separator) (values : List JsString) :
    c ∉ separator.intercalate values ↔ ∀ value ∈ values, c ∉ value := by
  induction values with
  | nil => simp
  | cons value values ih =>
    cases values with
    | nil => simp
    | cons next values => simpa [intercalate_cons_cons, apart] using fun _ => ih

theorem inline_normalizeAttributePairs {tables : UnicodeTables} (keeps : KeepsInline tables)
    (pairs : List (JsString × JsString)) :
    Inline (normalizeAttributePairs tables pairs) ↔ ∀ pair ∈ pairs, Inline (trim pair.1) ∧ Inline (trim pair.2) := by
  have separators : closing ∉ text "; " ∧ newline ∉ text "; " ∧ closing ∉ text ": " ∧ newline ∉ text ": " := by decide
  have written {c : CodeUnit} (outer : c ∉ text "; ") (between : c ∉ text ": ") :
      c ∉ normalizeAttributePairs tables pairs ↔
        ∀ pair ∈ pairs, c ∉ tables.toLowerCase (trim pair.1) ∧ c ∉ trim pair.2 := by
    rw [normalizeAttributePairs, not_mem_intercalate outer]
    simp only [mem_map, mem_insertionSort, forall_exists_index, and_imp, forall_apply_eq_imp_iff₂, mem_append,
      between, or_false, not_or]
  unfold Inline
  rw [written separators.1 separators.2.2.1, written separators.2.1 separators.2.2.2]
  constructor
  · intro clean pair member
    exact ⟨(keeps _).mp ⟨(clean.1 pair member).1, (clean.2 pair member).1⟩, (clean.1 pair member).2, (clean.2 pair member).2⟩
  · intro clean
    have keys pair member := (keeps _).mpr (clean pair member).1
    exact ⟨fun pair member => ⟨(keys pair member).1, (clean pair member).2.1⟩,
      fun pair member => ⟨(keys pair member).2, (clean pair member).2.2⟩⟩

theorem stripAttributesSuffix_plain {content : JsString} (plain : ¬ EndsInAttributeLine content) :
    stripAttributesSuffix content = trim content := by
  unfold stripAttributesSuffix
  dsimp only
  split
  next => rfl
  next ends =>
    split
    next => rfl
    next index found =>
      split
      next => rfl
      next clean =>
        refine absurd ?_ plain
        obtain ⟨rest, parts⟩ := lastIndexOf_isPrefix found
        have whole : trimEnd content = (trimEnd content).take index ++ marker ++ rest := by
          rw [append_assoc, parts, take_append_drop]
        have last : (trimEnd content).getLast? = some closing := by simpa [endsWith] using ends
        have some : rest ≠ [] := by
          rintro rfl
          rw [whole, append_nil, getLast?_append_of_ne_nil _ (by decide)] at last
          exact absurd last (by decide)
        have close : rest.getLast some = closing := by
          rw [whole, getLast?_append_of_ne_nil _ some, getLast?_eq_some_getLast some] at last
          exact Option.some.inj last
        have inner : (trimEnd content).drop (index + marker.length) = rest := by
          rw [← drop_drop, ← parts, drop_left]
        rw [inner] at clean
        refine ⟨(trimEnd content).take index, rest.dropLast, by simpa [Inline] using clean, ?_⟩
        rw [← close, append_assoc, dropLast_append_getLast, ← whole]

/-- The last marker of a body is the one before its attributes, or one inside them. -/
theorem stripAttributesSuffix_written (content rendered : JsString) :
    stripAttributesSuffix (content ++ (marker ++ (rendered ++ [closing]))) = trim content ↔ Inline rendered := by
  have trimmed : trimEnd (content ++ (marker ++ (rendered ++ [closing]))) = content ++ (marker ++ (rendered ++ [closing])) := by
    rw [← append_assoc, ← append_assoc]
    exact rdropWhile_concat_neg _ _ _ (by decide)
  have ends : endsWith (content ++ (marker ++ (rendered ++ [closing]))) closing = true := by simp [endsWith]
  have longer : trim (content ++ (marker ++ (rendered ++ [closing]))) ≠ trim content :=
    trim_append_ne content (c := closing) (by simp) (by decide)
  have occurs : marker <+: (content ++ (marker ++ (rendered ++ [closing]))).drop content.length := by
    rw [drop_left]
    exact prefix_append _ _
  obtain ⟨index, found, after⟩ := le_lastIndexOf (by decide) occurs
  have there := lastIndexOf_isPrefix found
  obtain ⟨more, rfl⟩ := Nat.exists_eq_add_of_le after
  have opens : marker = newline :: unit 0x5B :: text "Attributes: " := by decide
  rw [drop_length_add_append, opens] at there
  unfold stripAttributesSuffix
  simp only [trimmed, ends, found, Bool.not_true, Bool.false_eq_true, if_false, Nat.add_assoc, drop_length_add_append,
    take_length_add_append]
  match more with
  | 0 =>
    rw [Nat.zero_add, drop_left, dropLast_concat, take_zero, append_nil]
    unfold Inline
    split
    next broken => exact iff_of_false longer (by simpa [imp_iff_not_or] using broken)
    next clean => exact iff_of_true rfl (by simpa using clean)
  | 1 => exact absurd (cons_prefix_cons.mp there).1 (by decide)
  | more + 2 =>
    have inside : newline ∈ rendered := by
      have member : newline ∈ (text "Attributes: " ++ (rendered ++ [closing])).drop more := there.subset mem_cons_self
      have outside : newline ∉ text "Attributes: " ∧ newline ≠ closing := by decide
      simpa [outside] using mem_of_mem_drop member
    refine iff_of_false ?_ fun clean => clean.2 inside
    split
    · exact longer
    · rw [opens]
      exact trim_append_ne content (mem_cons_of_mem _ mem_cons_self) (by decide)

theorem strips_attributes_iff {tables : UnicodeTables} {patterns : List InjectionPattern} {content : JsString}
    {attributes : List (JsString × JsString)} (keeps : KeepsInline tables) (plain : ¬ EndsInAttributeLine content)
    (unchanged : (sanitizeMemoryContent patterns (enriched tables content attributes)).text =
      enriched tables content attributes) :
    stripAttributesSuffix (assemblePersistedBody tables patterns content attributes).text = trim content ↔
      ∀ pair ∈ attributes, Inline (trim pair.1) ∧ Inline (trim pair.2) := by
  rw [assemblePersistedBody, unchanged, enriched]
  split
  next =>
    rw [append_assoc, append_assoc, stripAttributesSuffix_written, inline_normalizeAttributePairs keeps]
  next none =>
    rw [length_eq_zero_iff.mp (Nat.eq_zero_of_not_pos none)]
    exact iff_of_true (stripAttributesSuffix_plain plain) nofun

theorem plain_of_getLast? {content : JsString} (last : (trimEnd content).getLast? ≠ some closing) :
    ¬ EndsInAttributeLine content := by
  rintro ⟨front, inner, _, same⟩
  rw [same, getLast?_concat] at last
  exact last rfl

theorem strips_attributes_iff_sample : stripAttributesSuffix (assemblePersistedBody plainTables [] (text "Tea")
    [(text "cup", text "b"), (text "at", text "a")]).text = trim (text "Tea") :=
  (strips_attributes_iff (fun _ => Iff.rfl) (plain_of_getLast? (by decide)) rfl).mpr (by decide +kernel)

theorem bracket_keeps_attributes : ¬ EndsInAttributeLine (text "Tea") ∧
    (sanitizeMemoryContent [] (enriched plainTables (text "Tea") [(text "cup", text "a]b")])).clean = true ∧
    stripAttributesSuffix (assemblePersistedBody plainTables [] (text "Tea") [(text "cup", text "a]b")]).text ≠
      trim (text "Tea") :=
  ⟨plain_of_getLast? (by decide), rfl, by decide +kernel⟩

end Remnic.Memory.AttributeSuffix
