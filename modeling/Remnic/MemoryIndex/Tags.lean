import Remnic.Library.AppendNew
import Remnic.Memory.SupersessionKey
import Remnic.Text.Replace

/-!
Tag strings, their canonical form and their aliases. The canonical form and the key of an
alias are normal: to normalize them again changes nothing.
-/

namespace Remnic.MemoryIndex.Tags

open Text.CodeUnits Text.Replace Library.AppendNew Memory.SupersessionKey List

def isAlphanumeric (c : CodeUnit) : Bool := (0x61 ≤ c.val && c.val ≤ 0x7A) || (0x30 ≤ c.val && c.val ≤ 0x39)

def underscore : CodeUnit := unit 0x5F

def isTagSeparator (c : CodeUnit) : Bool := c ∈ text ">:|."

def isAliasSeparator (c : CodeUnit) : Bool := c ∈ text "/_.:-"

variable (tables : UnicodeTables)

def normalizeTagSegment (segment : JsString) : JsString :=
  let lower := tables.toLowerCase (trim segment)
  let dashed := replaceRuns (fun c => c = underscore || isWhiteSpace c) hyphen lower
  let plain := dashed.map fun c => if isAlphanumeric c || c = hyphen then c else hyphen
  stripTrailing (stripLeading (replaceRuns (· = hyphen) hyphen plain))

def normalizeCanonicalTag (tag : JsString) : JsString :=
  let lower := tables.toLowerCase (trim tag)
  let slashed := replaceAround (· = slash) false slash (replaceAround isTagSeparator true slash lower)
  [slash].intercalate (((split slash slashed).map (normalizeTagSegment tables)).filter (· ≠ []))

def normalizeAliasKey (tag : JsString) : JsString :=
  let lower := tables.toLowerCase (trim tag)
  let spaced := replaceRuns (· = hyphen) space (replaceRuns isAliasSeparator space lower)
  let plain := replaceRuns (fun c => !isAlphanumeric c && !isWhiteSpace c) space spaced
  trim (replaceRuns isWhiteSpace space plain)

def singularizeAlias (key : JsString) : Option JsString :=
  if endsWith key (unit 0x73) = false ∨ key.length ≤ 3 then none else some key.dropLast

def deriveParentTags (canonical : JsString) : List JsString :=
  let parts := (split slash canonical).filter (· ≠ [])
  (List.range' 1 (parts.length - 1)).reverse.map fun count => [slash].intercalate (parts.take count)

/-- A name and its singular, if it has one; none for an empty name. -/
def aliasForms (candidate : JsString) : List JsString :=
  if candidate = [] then [] else candidate :: (singularizeAlias candidate).toList

def deriveTagAliases (rawTag canonical : JsString) : List JsString :=
  let leaf := (split slash canonical).getLast?.getD canonical
  appendNew [] ([canonical, rawTag, leaf].flatMap fun name => aliasForms (normalizeAliasKey tables name))

def LowersAscii : Prop := ∀ value, (∀ c ∈ value, c.val < 0x80) → tables.toLowerCase value = asciiLower value

/-- A segment of a canonical tag: letters, digits and single hyphens within. -/
structure Segment (value : JsString) : Prop where
  plain : ∀ c ∈ value, isAlphanumeric c = true ∨ c = hyphen
  apart : Apart (· = hyphen) value
  starts : value.head? ≠ some hyphen
  ends : value.getLast? ≠ some hyphen
  some : value ≠ []

def CanonicalTag (value : JsString) : Prop := ∀ piece ∈ split slash value, Segment piece

structure AliasKey (value : JsString) : Prop where
  plain : ∀ c ∈ value, isAlphanumeric c = true ∨ c = space
  apart : Apart isWhiteSpace value
  trimmed : trim value = value

variable {tables} {c : CodeUnit} {value : JsString}

theorem alphanumeric_ascii (letter : isAlphanumeric c = true) :
    c.val < 0x80 ∧ isWhiteSpace c = false ∧ c ≠ hyphen ∧ c ≠ slash ∧ c ≠ underscore ∧ isTagSeparator c = false ∧
      isAliasSeparator c = false ∧ asciiLowerUnit c = c := by
  revert c
  have all : ((List.range 128).all fun code => isAlphanumeric (unit code) = false ||
      (decide ((unit code).val < 0x80) && (isWhiteSpace (unit code) = false) && decide (unit code ≠ hyphen) &&
        decide (unit code ≠ slash) && decide (unit code ≠ underscore) && (isTagSeparator (unit code) = false) &&
        (isAliasSeparator (unit code) = false) && decide (asciiLowerUnit (unit code) = unit code))) = true := by decide
  intro c letter
  have small : c.val < 128 := by
    unfold isAlphanumeric at letter
    simp only [Bool.or_eq_true, Bool.and_eq_true, decide_eq_true_eq] at letter
    omega
  have same : unit c.val = c := Fin.ext (Nat.mod_eq_of_lt c.isLt)
  have found := all_eq_true.mp all c.val (mem_range.mpr small)
  rw [same, letter] at found
  simpa [and_assoc] using found

theorem lower_eq (lowers : LowersAscii tables)
    (plain : ∀ c ∈ value, isAlphanumeric c = true ∨ c = hyphen ∨ c = slash ∨ c = space) : tables.toLowerCase value = value := by
  have fixed : ∀ c ∈ value, c.val < 0x80 ∧ asciiLowerUnit c = c := by
    intro c member
    rcases plain c member with letter | rfl | rfl | rfl
    · exact ⟨(alphanumeric_ascii letter).1, (alphanumeric_ascii letter).2.2.2.2.2.2.2⟩
    all_goals decide
  rw [lowers value fun c member => (fixed c member).1]
  exact (map_congr_left fun c member => (fixed c member).2).trans (map_id value)

theorem trim_solid (solid : ∀ c ∈ value, isWhiteSpace c = false) : trim value = value := by
  have front : value.dropWhile isWhiteSpace = value := by
    rw [dropWhile_eq_self_iff]
    intro longer blank
    exact absurd blank (by simp [solid _ (getElem_mem longer)])
  rw [trim_eq_rdropWhile, front, rdropWhile_eq_self_iff]
  intro some blank
  exact absurd blank (by simp [solid _ (getLast_mem some)])

theorem stripLeading_suffix (value : JsString) : stripLeading value <:+ value := by
  unfold stripLeading
  split_ifs
  · exact tail_suffix value
  · exact suffix_rfl

theorem stripTrailing_starts (value : JsString) : stripTrailing value <+: value := by
  unfold stripTrailing
  split_ifs
  · exact dropLast_prefix value
  · exact prefix_rfl

theorem head_stripLeading (apart : Apart (· = hyphen) value) : (stripLeading value).head? ≠ some hyphen := by
  cases value with
  | nil => exact nofun
  | cons first rest =>
    unfold stripLeading
    split_ifs with dashed
    · intro again
      have both := (isChain_cons.mp apart).1 hyphen again
      exact both ⟨by simpa using dashed, by simp⟩
    · exact dashed

theorem head_of_prefix {start : JsString} (begins : start <+: value) (other : value.head? ≠ some hyphen) :
    start.head? ≠ some hyphen := by
  obtain ⟨rest, rfl⟩ := begins
  cases start with
  | nil => exact nofun
  | cons first start => exact other

theorem getLast_stripTrailing (apart : Apart (· = hyphen) value) : (stripTrailing value).getLast? ≠ some hyphen := by
  unfold stripTrailing
  split_ifs with dashed
  · intro again
    have some : value.dropLast ≠ [] := by
      rintro empty
      rw [empty] at again
      cases again
    have whole : value ≠ [] := by
      rintro rfl
      exact some rfl
    have both := apart.rel_getLast_dropLast some
    rw [getLast?_eq_some_getLast some] at again
    rw [getLast?_eq_some_getLast whole] at dashed
    exact both ⟨by simpa using Option.some.inj again, by simpa using Option.some.inj dashed⟩
  · exact dashed

theorem segment_normalizeTagSegment (segment : JsString) (some : normalizeTagSegment tables segment ≠ []) :
    Segment (normalizeTagSegment tables segment) := by
  unfold normalizeTagSegment
  extract_lets lower dashed plain
  have apart : Apart (· = hyphen) (replaceRuns (· = hyphen) hyphen plain) := apart_replaceRuns
  have within : stripTrailing (stripLeading (replaceRuns (· = hyphen) hyphen plain)) <:+:
      replaceRuns (· = hyphen) hyphen plain :=
    (stripTrailing_starts _).isInfix.trans (stripLeading_suffix _).isInfix
  refine ⟨fun c member => ?_, IsChain.infix apart within, head_of_prefix (stripTrailing_starts _) (head_stripLeading apart),
    getLast_stripTrailing ( IsChain.infix apart (stripLeading_suffix _).isInfix), some⟩
  rcases mem_replaceRuns (within.subset member) with dash | ⟨kept, _⟩
  · exact .inr dash
  · obtain ⟨origin, _, rfl⟩ := mem_map.mp kept
    split_ifs with letter
    · simpa using letter
    · exact .inr rfl

theorem Segment.solid (segment : Segment value) : ∀ c ∈ value, isWhiteSpace c = false := by
  intro c member
  rcases segment.plain c member with letter | rfl
  · exact (alphanumeric_ascii letter).2.1
  · decide

theorem Segment.eq_self (lowers : LowersAscii tables) (segment : Segment value) : normalizeTagSegment tables value = value := by
  have lower : tables.toLowerCase (trim value) = value := by
    rw [trim_solid segment.solid, lower_eq lowers fun c member => (segment.plain c member).imp_right .inl]
  have dashed : replaceRuns (fun c => decide (c = underscore) || isWhiteSpace c) hyphen value = value := by
    apply replaceRuns_absent
    intro c member
    have other : c ≠ underscore := by
      rcases segment.plain c member with letter | rfl
      · exact (alphanumeric_ascii letter).2.2.2.2.1
      · decide
    simp [other, segment.solid c member]
  have plain : value.map (fun c => if isAlphanumeric c || decide (c = hyphen) then c else hyphen) = value := by
    refine (map_congr_left fun c member => ?_).trans (map_id value)
    exact if_pos (by simpa using segment.plain c member)
  have single : replaceRuns (· = hyphen) hyphen value = value :=
    replaceRuns_eq_self (fun c _ dash => by simpa using dash) segment.apart
  unfold normalizeTagSegment
  simp only [lower, dashed, plain, single]
  rw [stripLeading, if_neg segment.starts, stripTrailing, if_neg segment.ends]

theorem mem_of_mem_intercalate {separator : CodeUnit} {pieces : List JsString}
    (member : c ∈ [separator].intercalate pieces) : c = separator ∨ ∃ piece ∈ pieces, c ∈ piece := by
  induction pieces with
  | nil => cases member
  | cons piece pieces ih =>
    cases pieces with
    | nil => exact .inr ⟨piece, mem_cons_self, by simpa using member⟩
    | cons second pieces =>
      rw [intercalate_cons_of_ne_nil (by simp), mem_append, mem_append, mem_singleton] at member
      rcases member with (here | rfl) | later
      · exact .inr ⟨piece, mem_cons_self, here⟩
      · exact .inl rfl
      · exact (ih later).imp_right fun ⟨found, listed, inside⟩ => ⟨found, mem_cons_of_mem _ listed, inside⟩

theorem CanonicalTag.mem (canonical : CanonicalTag value) (member : c ∈ value) :
    isAlphanumeric c = true ∨ c = hyphen ∨ c = slash := by
  rw [← join_split slash value] at member
  rcases mem_of_mem_intercalate member with rfl | ⟨piece, listed, inside⟩
  · exact .inr (.inr rfl)
  · exact ((canonical piece listed).plain c inside).imp_right .inl

theorem canonical_normalizeCanonicalTag (tag : JsString) (some : normalizeCanonicalTag tables tag ≠ []) :
    CanonicalTag (normalizeCanonicalTag tables tag) := by
  unfold normalizeCanonicalTag
  extract_lets lower slashed
  have segments : ∀ piece ∈ ((split slash slashed).map (normalizeTagSegment tables)).filter (· ≠ []), Segment piece := by
    intro piece member
    obtain ⟨listed, nonempty⟩ := mem_filter.mp member
    obtain ⟨raw, _, rfl⟩ := mem_map.mp listed
    exact segment_normalizeTagSegment raw (by simpa using nonempty)
  have free : ∀ piece ∈ ((split slash slashed).map (normalizeTagSegment tables)).filter (· ≠ []), slash ∉ piece := by
    intro piece member found
    rcases (segments piece member).plain slash found with letter | dash
    · exact absurd letter (by decide)
    · exact absurd dash (by decide)
  have pieces : ((split slash slashed).map (normalizeTagSegment tables)).filter (· ≠ []) ≠ [] := by
    intro none
    exact some (congrArg [slash].intercalate none)
  intro piece member
  rw [split, splitOn_intercalate slash free pieces] at member
  exact segments piece member

theorem CanonicalTag.eq_self (lowers : LowersAscii tables) (canonical : CanonicalTag value) :
    normalizeCanonicalTag tables value = value := by
  have solid : ∀ c ∈ value, isWhiteSpace c = false := by
    intro c member
    rcases canonical.mem member with letter | rfl | rfl
    · exact (alphanumeric_ascii letter).2.1
    all_goals decide
  have lower : tables.toLowerCase (trim value) = value := by
    rw [trim_solid solid, lower_eq lowers fun c member => (canonical.mem member).imp_right fun other => other.imp_right .inl]
  have unseparated : replaceAround isTagSeparator true slash value = value := by
    apply replaceAround_absent
    intro c member
    rcases canonical.mem member with letter | rfl | rfl
    · exact (alphanumeric_ascii letter).2.2.2.2.2.1
    all_goals decide
  have slashed : replaceAround (· = slash) false slash value = value :=
    replaceAround_eq_self (fun c _ found => by simpa using found) solid
  have pieces : ((split slash value).map (normalizeTagSegment tables)).filter (· ≠ []) = split slash value := by
    have same : (split slash value).map (normalizeTagSegment tables) = split slash value :=
      (map_congr_left fun piece member => (canonical piece member).eq_self lowers).trans (map_id _)
    rw [same, filter_eq_self]
    exact fun piece member => by simpa using (canonical piece member).some
  unfold normalizeCanonicalTag
  simp only [lower, unseparated, slashed, pieces]
  exact join_split slash value

theorem aliasKey_normalizeAliasKey (tag : JsString) : AliasKey (normalizeAliasKey tables tag) := by
  unfold normalizeAliasKey
  extract_lets lower spaced plain
  have within : trim (replaceRuns isWhiteSpace space plain) <:+: replaceRuns isWhiteSpace space plain :=
    ( rdropWhile_prefix _ _).isInfix.trans (dropWhile_suffix _).isInfix
  refine ⟨fun c member => ?_, IsChain.infix apart_replaceRuns within, trim_trim _⟩
  rcases mem_replaceRuns (within.subset member) with blank | ⟨kept, solid⟩
  · exact .inr blank
  · rcases mem_replaceRuns kept with blank | ⟨_, other⟩
    · exact .inr blank
    · left
      simpa [solid] using other

theorem AliasKey.eq_self (lowers : LowersAscii tables) (key : AliasKey value) : normalizeAliasKey tables value = value := by
  have lower : tables.toLowerCase (trim value) = value := by
    rw [key.trimmed, lower_eq lowers fun c member => (key.plain c member).imp_right fun blank => .inr (.inr blank)]
  have separated : replaceRuns isAliasSeparator space value = value := by
    apply replaceRuns_absent
    intro c member
    rcases key.plain c member with letter | rfl
    · exact (alphanumeric_ascii letter).2.2.2.2.2.2.1
    · decide
  have dashed : replaceRuns (· = hyphen) space value = value := by
    apply replaceRuns_absent
    intro c member
    rcases key.plain c member with letter | rfl
    · simpa using (alphanumeric_ascii letter).2.2.1
    · decide
  have plain : replaceRuns (fun c => !isAlphanumeric c && !isWhiteSpace c) space value = value := by
    apply replaceRuns_absent
    intro c member
    rcases key.plain c member with letter | rfl
    · simp [letter]
    · decide
  have spaced : replaceRuns isWhiteSpace space value = value := by
    refine replaceRuns_eq_self (fun c member blank => ?_) key.apart
    rcases key.plain c member with letter | rfl
    · exact absurd blank (by simp [(alphanumeric_ascii letter).2.1])
    · rfl
  unfold normalizeAliasKey
  simp only [lower, separated, dashed, plain, spaced]
  exact key.trimmed

example : normalizeCanonicalTag plainTables (text " Work > Notes_2 / .. ") = text "ork/otes-2" := by decide

end Remnic.MemoryIndex.Tags
