import Remnic.Library.InsertionSet
import Remnic.Text.CodeUnits

/-!
The text of the content-hash index: a version header and one hash a line. What
is written is read back, and a file without the header holds no hash.
-/

namespace Remnic.ContentHash.IndexFile

open Library.InsertionSet Text.CodeUnits List

/-- A string that survives as a line of the index file, as every SHA-256 hash does. -/
def IsIndexLine (line : JsString) : Prop := line ≠ [] ∧ trim line = line ∧ newline ∉ line

instance (line : JsString) : Decidable (IsIndexLine line) := inferInstanceAs (Decidable (_ ∧ _))

abbrev IndexHash := { line : JsString // IsIndexLine line }

/-- `CONTENT_HASH_INDEX_FORMAT_HEADER`. -/
def formatHeader : JsString := text "# remnic-content-hash-index:v2"

def readLine (raw : JsString) : Option IndexHash :=
  if isLine : IsIndexLine (trim raw) then some ⟨trim raw, isLine⟩ else none

def indexLines (raw : JsString) : List IndexHash := (split newline raw).filterMap readLine

abbrev HashSet := OrderedSet IndexHash

structure ParsedIndex where
  versioned : Bool
  hashes : HashSet
  deriving DecidableEq

def parseHashIndex (raw : JsString) : ParsedIndex :=
  match indexLines raw with
  | header :: hashes =>
    if header.val = formatHeader then { versioned := true, hashes := OrderedSet.empty.addAll hashes }
    else { versioned := false, hashes := .empty }
  | [] => { versioned := false, hashes := .empty }

def serializeLines (hashes : List IndexHash) : JsString :=
  formatHeader ++ [newline] ++ [newline].intercalate (hashes.map (·.val)) ++ [newline]

def serializeHashIndex (hashes : HashSet) : JsString := serializeLines hashes.items

theorem readLine_val (hash : IndexHash) : readLine hash.val = some hash := by
  have isLine : IsIndexLine (trim hash.val) := by
    rw [hash.property.2.1]
    exact hash.property
  rw [readLine, dif_pos isLine]
  exact congrArg some (Subtype.ext hash.property.2.1)

variable {lines : List JsString} (hashes : List IndexHash)

theorem filterMap_readLine : (hashes.map (·.val)).filterMap readLine = hashes := by
  induction hashes with
  | nil => rfl
  | cons hash hashes ih => rw [map_cons, filterMap_cons, readLine_val, ih]

theorem isIndexLine_formatHeader : IsIndexLine formatHeader := by decide

theorem split_joined (nonempty : lines ≠ []) (clean : ∀ line ∈ lines, newline ∉ line) :
    split newline ([newline].intercalate lines) = lines :=
  splitOn_intercalate newline clean nonempty

theorem serializeLines_nil :
    serializeLines [] = [newline].intercalate [formatHeader, [], []] := by decide

theorem intercalate_concat_nil (nonempty : lines ≠ []) :
    [newline].intercalate (lines ++ [[]]) = [newline].intercalate lines ++ [newline] := by
  induction lines with
  | nil => exact absurd rfl nonempty
  | cons line lines ih =>
    by_cases last : lines = []
    · subst last
      simp [List.intercalate]
    · rw [cons_append, intercalate_cons_of_ne_nil (by simp), ih last, intercalate_cons_of_ne_nil last]
      simp only [append_assoc]

theorem split_serializeLines {hashes : List IndexHash} (some : hashes ≠ []) :
    split newline (serializeLines hashes) = formatHeader :: (hashes.map (·.val) ++ [[]]) := by
  have listed : hashes.map (·.val) ≠ [] := fun none => some (map_eq_nil_iff.mp none)
  have lines : serializeLines hashes = [newline].intercalate (formatHeader :: (hashes.map (·.val) ++ [[]])) := by
    rw [intercalate_cons_of_ne_nil (by simp), intercalate_concat_nil listed, serializeLines]
    simp only [append_assoc]
  rw [lines]
  apply split_joined (cons_ne_nil _ _)
  intro line member
  rw [mem_cons, mem_append, mem_map, mem_singleton] at member
  rcases member with first | ⟨hash, _, same⟩ | last
  · rw [first]
    exact isIndexLine_formatHeader.2.2
  · rw [← same]
    exact hash.property.2.2
  · rw [last]
    exact not_mem_nil

theorem readLine_nil : readLine [] = none := dif_neg (by decide)

theorem readLine_formatHeader : readLine formatHeader = some ⟨formatHeader, isIndexLine_formatHeader⟩ :=
  readLine_val ⟨formatHeader, isIndexLine_formatHeader⟩

theorem indexLines_serializeLines : indexLines (serializeLines hashes) = ⟨formatHeader, isIndexLine_formatHeader⟩ :: hashes := by
  rw [indexLines]
  by_cases none : hashes = []
  · subst none
    rw [serializeLines_nil, split_joined (by simp) (by decide)]
    simp only [filterMap_cons, readLine_formatHeader, readLine_nil, filterMap_nil]
  · rw [split_serializeLines none, filterMap_cons, readLine_formatHeader, filterMap_append,
      filterMap_readLine]
    simp only [filterMap_cons, readLine_nil, filterMap_nil, append_nil]

theorem parse_serializeHashIndex (hashes : HashSet) :
    parseHashIndex (serializeHashIndex hashes) = { versioned := true, hashes } := by
  rw [parseHashIndex, serializeHashIndex, indexLines_serializeLines]
  simp only [if_true, addAll_empty hashes.once]

end Remnic.ContentHash.IndexFile
