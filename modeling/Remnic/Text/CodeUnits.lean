import Mathlib.Data.List.DropRight
import Remnic.Library.OrderedMap

/-!
Strings as JavaScript holds them: finite sequences of UTF-16 code units, which
may contain unpaired surrogates and are compared unit by unit.
-/

namespace Remnic.Text.CodeUnits

open List

abbrev CodeUnit := Fin 65536

abbrev JsString := List CodeUnit

instance neZero_codeUnits : NeZero 65536 := ⟨by decide⟩

instance neZero_bytes : NeZero 256 := ⟨by decide⟩

instance lawfulBEq_codeUnit : LawfulBEq CodeUnit := inferInstance

instance lawfulBEq_jsString : LawfulBEq JsString := inferInstance

def unit (code : Nat) : CodeUnit := Fin.ofNat 65536 code

def encodeChar (c : Char) : JsString :=
  if c.toNat < 0x10000 then [unit c.toNat]
  else [unit (0xD800 + (c.toNat - 0x10000) / 0x400), unit (0xDC00 + (c.toNat - 0x10000) % 0x400)]

/-- A source literal as the code units JavaScript stores for it. -/
def text (literal : String) : JsString := literal.toList.flatMap encodeChar

def slash : CodeUnit := unit 0x2F

def backslash : CodeUnit := unit 0x5C

def dot : CodeUnit := unit 0x2E

def space : CodeUnit := unit 0x20

def newline : CodeUnit := unit 0x0A

def split (separator : CodeUnit) (value : JsString) : List JsString := value.splitOn separator

def startsWith (value start : JsString) : Bool := start.isPrefixOf value

def endsWith (value : JsString) (last : CodeUnit) : Bool := value.getLast? = some last

/-- `String.prototype.trim`: white space and line terminators of the language. -/
def isWhiteSpace (c : CodeUnit) : Bool :=
  (9 ≤ c.val && c.val ≤ 13) || c.val = 0x20 || c.val = 0xA0 || c.val = 0x1680 ||
  (0x2000 ≤ c.val && c.val ≤ 0x200A) || c.val = 0x2028 || c.val = 0x2029 || c.val = 0x202F ||
  c.val = 0x205F || c.val = 0x3000 || c.val = 0xFEFF

def trim (value : JsString) : JsString :=
  ((value.dropWhile isWhiteSpace).reverse.dropWhile isWhiteSpace).reverse

def asciiLowerUnit (c : CodeUnit) : CodeUnit :=
  if 0x41 ≤ c.val ∧ c.val ≤ 0x5A then unit (c.val + 0x20) else c

/-- `toLowerCase` on the ASCII strings that reach it after a hexadecimal check. -/
def asciiLower (value : JsString) : JsString := value.map asciiLowerUnit

def isHighSurrogate (c : CodeUnit) : Bool := 0xD800 ≤ c.val && c.val ≤ 0xDBFF

def isLowSurrogate (c : CodeUnit) : Bool := 0xDC00 ≤ c.val && c.val ≤ 0xDFFF

/-- `LONE_SURROGATE`, given whether the unit before the rest is a high surrogate. -/
def loneSurrogateAfter : Bool → JsString → Bool
  | _, [] => false
  | afterHigh, c :: rest =>
    (isHighSurrogate c && !(rest.head?.any isLowSurrogate)) || (isLowSurrogate c && !afterHigh) ||
      loneSurrogateAfter (isHighSurrogate c) rest

def hasLoneSurrogate (value : JsString) : Bool := loneSurrogateAfter false value

def hexDigit (value : Nat) : CodeUnit := if value < 10 then unit (0x30 + value) else unit (0x57 + value)

def unicodeEscape (c : CodeUnit) : JsString :=
  text "\\u" ++ [hexDigit (c.val / 4096), hexDigit (c.val / 256 % 16), hexDigit (c.val / 16 % 16),
    hexDigit (c.val % 16)]

def quoteUnit (c : CodeUnit) : JsString :=
  if c.val = 0x22 then text "\\\""
  else if c.val = 0x5C then text "\\\\"
  else if c.val = 0x08 then text "\\b"
  else if c.val = 0x0C then text "\\f"
  else if c.val = 0x0A then text "\\n"
  else if c.val = 0x0D then text "\\r"
  else if c.val = 0x09 then text "\\t"
  else if c.val < 0x20 then unicodeEscape c
  else [c]

/-- The body of `JSON.stringify`: surrogate pairs are kept, unpaired ones escaped. -/
def quoteBody : JsString → JsString
  | [] => []
  | [c] => if isHighSurrogate c || isLowSurrogate c then unicodeEscape c else quoteUnit c
  | c :: next :: rest =>
    if isHighSurrogate c && isLowSurrogate next then c :: next :: quoteBody rest
    else if isHighSurrogate c || isLowSurrogate c then unicodeEscape c ++ quoteBody (next :: rest)
    else quoteUnit c ++ quoteBody (next :: rest)

def jsonStringify (value : JsString) : JsString := text "\"" ++ quoteBody value ++ text "\""

/-- The Unicode tables behind `normalize`, `toUpperCase`, `toLowerCase` and `localeCompare`. -/
structure UnicodeTables where
  normalizeNfc : JsString → JsString
  toUpperCase : JsString → JsString
  toLowerCase : JsString → JsString
  localeLe : JsString → JsString → Bool

/-- Tables that leave every string alone, exact on lower-case ASCII. -/
def plainTables : UnicodeTables := ⟨id, id, id, fun a b => a ≤ b⟩

variable (separator : CodeUnit) (value : JsString)

theorem split_ne_nil : split separator value ≠ [] :=
  splitOn_ne_nil separator value

theorem join_split : [separator].intercalate (split separator value) = value :=
  intercalate_splitOn separator

theorem not_mem_of_mem_split {separator : CodeUnit} {value piece : JsString} (member : piece ∈ split separator value) :
    separator ∉ piece := by
  unfold split at member
  induction value generalizing piece with
  | nil =>
    rw [splitOn_nil, mem_singleton] at member
    rw [member]
    exact not_mem_nil
  | cons head value ih =>
    rw [splitOn_cons_eq_if_modifyHead] at member
    split at member
    next =>
      rcases mem_cons.mp member with first | later
      · rw [first]
        exact not_mem_nil
      · exact ih later
    next other =>
      obtain ⟨first, rest, pieces⟩ := exists_cons_of_ne_nil (splitOn_ne_nil separator value)
      rw [pieces] at ih member
      rw [modifyHead_cons] at member
      rcases mem_cons.mp member with same | later
      · rw [same, mem_cons]
        intro found
        rcases found with equal | inside
        · exact other (by simp [equal])
        · exact ih mem_cons_self inside
      · exact ih (mem_cons_of_mem _ later)

theorem trim_eq_rdropWhile : trim value = (value.dropWhile isWhiteSpace).rdropWhile isWhiteSpace := rfl

theorem trim_trim : trim (trim value) = trim value := by
  have front : (trim value).dropWhile isWhiteSpace = trim value := by
    rw [dropWhile_eq_self_iff]
    intro nonempty blank
    have start : trim value <+: value.dropWhile isWhiteSpace := rdropWhile_prefix _ _
    have longer : 0 < (value.dropWhile isWhiteSpace).length := Nat.lt_of_lt_of_le nonempty start.length_le
    have same := start.getElem (i := 0) nonempty
    have kept := dropWhile_get_zero_not isWhiteSpace value longer
    simp only [get_eq_getElem] at blank kept
    rw [same] at blank
    exact kept blank
  rw [trim_eq_rdropWhile (trim value), front, trim_eq_rdropWhile, rdropWhile_idempotent]

example : trim (text " a b\n") = text "a b" := by decide

example : hasLoneSurrogate [unit 0xD83D, unit 0xDE00] = false ∧ hasLoneSurrogate [unit 0xDE00] = true := by decide

end Remnic.Text.CodeUnits
