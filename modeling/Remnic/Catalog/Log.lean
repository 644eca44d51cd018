import Remnic.Catalog.Record

/-!
The catalog log folded into its current state, and what an appended row and a rewrite do
to the fold.
-/

namespace Remnic.Catalog.Log

open Text.CodeUnits Text.JsonText Library Record List OrderedMap

abbrev Records := OrderedMap JsString NamespaceRecord

structure Compacted where
  records : Records
  malformedLines : List JsString
  deriving DecidableEq

/-- The records after one more; an earlier record of the namespace gives its newer touch fields. -/
def foldRecord (host : Host) (records : Records) (record : NamespaceRecord) : Records :=
  records.set record.name
    (match records.lookup record.name with
    | some prior => mergeNewerTouchFields host record prior
    | none => record)

def readLine (host : Host) (line : JsString) : Option NamespaceRecord := (parse line).bind (coerceRecord host)

def foldLine (host : Host) (state : Compacted) (line : JsString) : Compacted :=
  if trim line = [] then state
  else
    match readLine host (trim line) with
    | some record => { state with records := foldRecord host state.records record }
    | none => { state with malformedLines := state.malformedLines ++ [trim line] }

/-- The whole log, last record first in rank. -/
def foldLog (host : Host) (content : JsString) : Compacted :=
  (split newline content).foldl (foldLine host) ⟨OrderedMap.empty, []⟩

def Compacted.incomplete (compacted : Compacted) : Option JsString :=
  if compacted.malformedLines = [] then none
  else some (text (toString compacted.malformedLines.length) ++ text " malformed catalog line(s) skipped")

/-- The records by their names, as `new Map` takes them. -/
def recordsOf (records : List NamespaceRecord) : Records :=
  records.foldl (fun records record => records.set record.name record) OrderedMap.empty

def rewriteBody (records : List NamespaceRecord) : JsString :=
  [newline].intercalate (records.map serializeRecord) ++ if records = [] then [] else [newline]

def Ended (content : JsString) : Prop := trim ((split newline content).getLast?.getD []) = []

instance (content : JsString) : Decidable (Ended content) := inferInstanceAs (Decidable (_ = _))

variable {host : Host} {content line : JsString} {record : NamespaceRecord}

theorem foldLine_blank (state : Compacted) {line : JsString} (blank : trim line = []) : foldLine host state line = state := by
  rw [foldLine, if_pos blank]

variable {blanks : JsString} {records : Records}

theorem dropWhile_blank (blank : trim blanks = []) : blanks.dropWhile isWhiteSpace = [] := by
  rw [trim_eq_rdropWhile, rdropWhile_eq_nil_iff] at blank
  by_contra some
  obtain ⟨c, rest, whole⟩ := exists_cons_of_ne_nil some
  have head := blank c (by rw [whole]; exact mem_cons_self)
  have first := head?_dropWhile_not isWhiteSpace blanks
  rw [whole] at first
  simp [head] at first

theorem trim_append_of_blank (blank : trim blanks = []) (line : JsString) : trim (blanks ++ line) = trim line := by
  unfold trim
  rw [dropWhile_append, dropWhile_blank blank]
  rfl

theorem intercalate_concat (lines : List JsString) (last line : JsString) :
    [newline].intercalate (lines ++ [last ++ line]) = [newline].intercalate (lines ++ [last]) ++ line := by
  induction lines with
  | nil => simp
  | cons first lines ih =>
    rw [cons_append, cons_append, intercalate_cons_of_ne_nil (by simp),
      intercalate_cons_of_ne_nil (by simp), ih, append_assoc (first ++ [newline])]

theorem split_append {lines : List JsString} {last : JsString} (pieces : split newline content = lines ++ [last])
    (one : newline ∉ line) : split newline (content ++ line) = lines ++ [last ++ line] := by
  have free : ∀ piece ∈ lines ++ [last ++ line], newline ∉ piece := by
    intro piece member
    rcases mem_append.mp member with before | itself
    · exact not_mem_of_mem_split (pieces ▸ mem_append_left _ before)
    · rw [mem_singleton.mp itself, mem_append]
      exact fun found => found.elim (not_mem_of_mem_split (pieces ▸ mem_append_right _ (mem_singleton_self _))) one
  have whole : content ++ line = [newline].intercalate (lines ++ [last ++ line]) := by
    rw [intercalate_concat, ← pieces, join_split]
  rw [whole]
  exact splitOn_intercalate newline free (by simp)

theorem exists_last_line (content : JsString) : ∃ lines last, split newline content = lines ++ [last] := by
  have some := split_ne_nil newline content
  exact ⟨_, _, (dropLast_append_getLast some).symm⟩

theorem foldLog_append (ended : Ended content) (one : newline ∉ line) :
    foldLog host (content ++ (line ++ [newline])) = foldLine host (foldLog host content) line := by
  obtain ⟨lines, last, pieces⟩ := exists_last_line content
  have blank : trim last = [] := by
    rw [Ended, pieces] at ended
    simpa using ended
  have appended : split newline (content ++ (line ++ [newline])) = lines ++ [last ++ line] ++ [[]] := by
    rw [← append_assoc, ← split_append pieces one]
    exact splitOn_append_cons_self (content ++ line) []
  rw [foldLog, foldLog, appended, pieces]
  have empty : trim ([] : JsString) = [] := rfl
  simp only [foldl_append, foldl_cons, foldl_nil, foldLine_blank _ blank, foldLine_blank _ empty]
  unfold foldLine
  rw [trim_append_of_blank blank]

theorem newline_not_mem_serializeRecord (record : NamespaceRecord) : newline ∉ serializeRecord record :=
  fun member => absurd (printable_serializeRecord record newline member) (by decide)

theorem trim_serializeRecord (record : NamespaceRecord) : trim (serializeRecord record) = serializeRecord record := by
  have front : isWhiteSpace openBrace = false := by decide
  have back : isWhiteSpace closeBrace = false := by decide
  unfold serializeRecord objectText trim
  simp [front, back]

theorem foldLine_serializeRecord (canonical : Canonical host record) (state : Compacted) :
    foldLine host state (serializeRecord record) = { state with records := foldRecord host state.records record } := by
  have some : serializeRecord record ≠ [] := cons_ne_nil _ _
  have read : readLine host (serializeRecord record) = .some record := by
    rw [readLine, parse_serializeRecord]
    exact coerceRecord_recordJson canonical
  rw [foldLine, trim_serializeRecord, if_neg some, read]

theorem foldl_rows (records : List NamespaceRecord) (canonical : ∀ record ∈ records, Canonical host record)
    (state : Compacted) : (records.map serializeRecord).foldl (foldLine host) state =
      { state with records := records.foldl (foldRecord host) state.records } := by
  induction records generalizing state with
  | nil => rfl
  | cons record records ih =>
    rw [map_cons, foldl_cons, foldLine_serializeRecord (canonical record mem_cons_self),
      ih fun other member => canonical other (mem_cons_of_mem _ member)]
    rfl

theorem split_rewriteBody (records : List NamespaceRecord) :
    split newline (rewriteBody records) = records.map serializeRecord ++ [[]] := by
  unfold rewriteBody
  split_ifs with empty
  · rw [empty]
    rfl
  · have free : ∀ line ∈ records.map serializeRecord, newline ∉ line := by
      intro line member
      obtain ⟨record, _, rfl⟩ := mem_map.mp member
      exact newline_not_mem_serializeRecord record
    have lines : split newline ([newline].intercalate (records.map serializeRecord)) = records.map serializeRecord :=
      splitOn_intercalate newline free (by simpa using empty)
    rw [← lines, join_split]
    exact splitOn_append_cons_self _ []

theorem foldl_foldRecord {records : List NamespaceRecord} (distinct : (records.map NamespaceRecord.name).Nodup)
    {start : Records} (fresh : ∀ record ∈ records, start.lookup record.name = none) :
    records.foldl (foldRecord host) start = records.foldl (fun records record => records.set record.name record) start := by
  induction records generalizing start with
  | nil => rfl
  | cons record records ih =>
    obtain ⟨alone, rest⟩ := nodup_cons.mp distinct
    have first : foldRecord host start record = start.set record.name record := by
      rw [foldRecord, fresh record mem_cons_self]
    rw [foldl_cons, foldl_cons, first]
    apply ih rest
    intro other member
    rw [lookup_set_of_ne]
    · exact fresh other (mem_cons_of_mem _ member)
    · exact fun same => alone (mem_map.mpr ⟨other, member, same⟩)

theorem foldLog_rewriteBody {records : List NamespaceRecord} (canonical : ∀ record ∈ records, Canonical host record)
    (distinct : (records.map NamespaceRecord.name).Nodup) : foldLog host (rewriteBody records) = ⟨recordsOf records, []⟩ := by
  have empty : trim ([] : JsString) = [] := rfl
  rw [foldLog, split_rewriteBody, foldl_append, foldl_rows records canonical, foldl_cons, foldl_nil,
    foldLine_blank _ empty, foldl_foldRecord distinct fun record _ => rfl]
  rfl

/-- Every record stands under its name, and is canonical. -/
def Sane (host : Host) (records : Records) : Prop :=
  ∀ name record, records.lookup name = some record → record.name = name ∧ Canonical host record

theorem sane_empty : Sane host OrderedMap.empty := nofun

theorem Sane.set (sane : Sane host records) (canonical : Canonical host record) : Sane host (records.set record.name record) := by
  intro name found held
  rw [lookup_set] at held
  split_ifs at held with same
  · cases held
    exact ⟨same.symm, canonical⟩
  · exact sane name found held

theorem Sane.foldRecord (sane : Sane host records) (canonical : Canonical host record) :
    Sane host (foldRecord host records record) := by
  unfold Log.foldRecord
  cases held : records.lookup record.name with
  | none => exact sane.set canonical
  | some prior =>
    have merged : Canonical host (mergeNewerTouchFields host record prior) := canonical.merge (sane _ _ held).2
    exact sane.set merged

theorem Sane.foldLine (normalizes : Normalizes host) {state : Compacted} (sane : Sane host state.records) (line : JsString) :
    Sane host (foldLine host state line).records := by
  unfold Log.foldLine
  split_ifs
  · exact sane
  · split
    · rename_i record read
      obtain ⟨value, _, coerced⟩ := Option.bind_eq_some_iff.mp read
      exact sane.foldRecord (canonical_coerceRecord normalizes coerced)
    · exact sane

theorem sane_foldLog (normalizes : Normalizes host) (content : JsString) : Sane host (foldLog host content).records := by
  unfold foldLog
  have lines : ∀ (lines : List JsString) (state : Compacted), Sane host state.records →
      Sane host (lines.foldl (Log.foldLine host) state).records := by
    intro lines
    induction lines with
    | nil => exact fun _ sane => sane
    | cons line lines ih => exact fun state sane => ih _ (sane.foldLine normalizes line)
  exact lines _ _ sane_empty

def values (records : Records) : List NamespaceRecord := records.entries.map Prod.snd

theorem Sane.of_mem_values (sane : Sane host records) (member : record ∈ values records) :
    records.lookup record.name = some record ∧ Canonical host record := by
  obtain ⟨name, held⟩ := (mem_values_iff records record).mp member
  obtain ⟨same, canonical⟩ := sane name record held
  exact ⟨same ▸ held, canonical⟩

theorem Sane.names_values (sane : Sane host records) : (values records).map NamespaceRecord.name = records.keys := by
  unfold values OrderedMap.keys
  rw [map_map]
  apply map_congr_left
  intro entry member
  exact (sane entry.1 entry.2 ((lookup_eq_some_iff records entry.1 entry.2).mpr member)).1

end Remnic.Catalog.Log
