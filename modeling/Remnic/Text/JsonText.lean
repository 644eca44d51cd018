import Remnic.Text.CodeUnits

/-!
`JSON.parse` on code units, and the objects that are written as text and read back.
-/

namespace Remnic.Text.JsonText

open CodeUnits List Option Bool

/-- A JSON value. A number is kept as its text, an object with every member in the order of the text. -/
inductive Json where
  | null
  | bool (value : Bool)
  | number (numeral : JsString)
  | string (value : JsString)
  | array (items : List Json)
  | object (members : List (JsString × Json))

/-- A property of an object; the last member with a key is the one that counts. -/
def Json.get (value : Json) (key : JsString) : Option Json :=
  match value with
  | .object members => (members.reverse.find? fun member => member.1 = key).map Prod.snd
  | _ => none

def quotation : CodeUnit := unit 0x22

def comma : CodeUnit := unit 0x2C

def colon : CodeUnit := unit 0x3A

def openBracket : CodeUnit := unit 0x5B

def closeBracket : CodeUnit := unit 0x5D

def openBrace : CodeUnit := unit 0x7B

def closeBrace : CodeUnit := unit 0x7D

def isSpace (c : CodeUnit) : Bool := c.val = 0x20 || c.val = 0x09 || c.val = 0x0A || c.val = 0x0D

def skipSpace (value : JsString) : JsString := value.dropWhile isSpace

def isDigit (c : CodeUnit) : Bool := 0x30 ≤ c.val && c.val ≤ 0x39

def hexValue (c : CodeUnit) : Option Nat :=
  if 0x30 ≤ c.val ∧ c.val ≤ 0x39 then some (c.val - 0x30)
  else if 0x61 ≤ c.val ∧ c.val ≤ 0x66 then some (c.val - 0x57)
  else if 0x41 ≤ c.val ∧ c.val ≤ 0x46 then some (c.val - 0x37)
  else none

/-- The code unit of `\uXXXX`. -/
def hexUnit (first second third fourth : CodeUnit) : Option CodeUnit :=
  match hexValue first, hexValue second, hexValue third, hexValue fourth with
  | some a, some b, some c, some d => some (unit (a * 4096 + b * 256 + c * 16 + d))
  | _, _, _, _ => none

/-- The code unit that a letter after a backslash stands for. -/
def escapedUnit (letter : CodeUnit) : Option CodeUnit :=
  if letter.val = 0x22 ∨ letter.val = 0x5C ∨ letter.val = 0x2F then some letter
  else if letter.val = 0x62 then some (unit 0x08)
  else if letter.val = 0x66 then some (unit 0x0C)
  else if letter.val = 0x6E then some (unit 0x0A)
  else if letter.val = 0x72 then some (unit 0x0D)
  else if letter.val = 0x74 then some (unit 0x09)
  else none

def consUnit (c : CodeUnit) (read : JsString × JsString) : JsString × JsString := (c :: read.1, read.2)

/-- A string after its quotation mark, and the text after it. -/
def parseString : JsString → Option (JsString × JsString)
  | [] => none
  | c :: rest =>
    if c = quotation then some ([], rest)
    else if c = backslash then
      match rest with
      | [] => none
      | letter :: rest =>
        if letter.val = 0x75 then
          match rest with
          | first :: second :: third :: fourth :: rest =>
            match hexUnit first second third fourth with
            | some value => (parseString rest).map (consUnit value)
            | none => none
          | _ => none
        else
          match escapedUnit letter with
          | some value => (parseString rest).map (consUnit value)
          | none => none
    else if c.val < 0x20 then none
    else (parseString rest).map (consUnit c)
termination_by structural value => value

/-- The text after at least one digit. -/
def skipDigits (value : JsString) : Option JsString :=
  if (value.takeWhile isDigit).isEmpty then none else some (value.dropWhile isDigit)

def skipInteger : JsString → Option JsString
  | [] => none
  | c :: rest => if c.val = 0x30 then some rest else skipDigits (c :: rest)

def skipFraction : JsString → Option JsString
  | [] => some []
  | c :: rest => if c = dot then skipDigits rest else some (c :: rest)

def skipSign : JsString → JsString
  | [] => []
  | c :: rest => if c.val = 0x2B ∨ c.val = 0x2D then rest else c :: rest

def skipExponent : JsString → Option JsString
  | [] => some []
  | c :: rest => if c.val = 0x65 ∨ c.val = 0x45 then skipDigits (skipSign rest) else some (c :: rest)

def skipMinus : JsString → JsString
  | [] => []
  | c :: rest => if c.val = 0x2D then rest else c :: rest

def parseNumber (value : JsString) : Option (Json × JsString) :=
  (((skipInteger (skipMinus value)).bind skipFraction).bind skipExponent).map fun rest =>
    (.number (value.take (value.length - rest.length)), rest)

/-- A value that is neither a string nor has parts. -/
def parseAtom (value : JsString) : Option (Json × JsString) :=
  if startsWith value (text "null") then some (.null, value.drop 4)
  else if startsWith value (text "true") then some (.bool true, value.drop 4)
  else if startsWith value (text "false") then some (.bool false, value.drop 5)
  else parseNumber value

mutual

/-- The value that a text starts with, and the text after it. -/
def parseValue : Nat → JsString → Option (Json × JsString)
  | 0, _ => none
  | fuel + 1, value =>
    match skipSpace value with
    | [] => none
    | c :: rest =>
      if c = quotation then (parseString rest).map fun read => (.string read.1, read.2)
      else if c = openBracket then
        match skipSpace rest with
        | [] => none
        | d :: after =>
          if d = closeBracket then some (.array [], after)
          else (parseItems fuel (d :: after)).map fun read => (.array read.1, read.2)
      else if c = openBrace then
        match skipSpace rest with
        | [] => none
        | d :: after =>
          if d = closeBrace then some (.object [], after)
          else (parseMembers fuel (d :: after)).map fun read => (.object read.1, read.2)
      else parseAtom (c :: rest)

def parseItems : Nat → JsString → Option (List Json × JsString)
  | 0, _ => none
  | fuel + 1, value =>
    match parseValue fuel value with
    | none => none
    | some (item, rest) =>
      match skipSpace rest with
      | [] => none
      | c :: rest =>
        if c = comma then (parseItems fuel rest).map fun read => (item :: read.1, read.2)
        else if c = closeBracket then some ([item], rest)
        else none

def parseMembers : Nat → JsString → Option (List (JsString × Json) × JsString)
  | 0, _ => none
  | fuel + 1, value =>
    match skipSpace value with
    | [] => none
    | c :: rest =>
      if c = quotation then
        match parseString rest with
        | none => none
        | some (key, rest) =>
          match skipSpace rest with
          | [] => none
          | d :: rest =>
            if d = colon then
              match parseValue fuel rest with
              | none => none
              | some (member, rest) =>
                match skipSpace rest with
                | [] => none
                | e :: rest =>
                  if e = comma then (parseMembers fuel rest).map fun read => ((key, member) :: read.1, read.2)
                  else if e = closeBrace then some ([(key, member)], rest)
                  else none
            else none
      else none

end

/-- `JSON.parse`; nothing where it throws. -/
def parse (value : JsString) : Option Json :=
  match parseValue (2 * value.length + 1) value with
  | some (json, rest) => if skipSpace rest = [] then some json else none
  | none => none

/-- The members of an object, without its braces; their values are already written. -/
def membersText (members : List (JsString × JsString)) : JsString :=
  [comma].intercalate (members.map fun member => jsonStringify member.1 ++ colon :: member.2)

def objectText (members : List (JsString × JsString)) : JsString := openBrace :: (membersText members ++ [closeBrace])

/-- A value is read from a text, whatever follows. -/
def Reads (json : Json) (value : JsString) : Prop :=
  ∀ rest fuel, 2 * value.length < fuel → parseValue fuel (value ++ rest) = some (json, rest)

theorem unit_val (c : CodeUnit) : unit c.val = c := Fin.ext (Nat.mod_eq_of_lt c.isLt)

variable {json : Json} {c : CodeUnit} {fuel : Nat} {value : JsString} (first : JsString × JsString) (rest : JsString)

theorem eq_unit {code : Nat} (value : c.val = code) : c = unit code := by
  rw [← value, unit_val]

theorem hexValue_hexDigit {value : Nat} (small : value < 16) : hexValue (hexDigit value) = some value := by
  have all : ∀ digit < 16, hexValue (hexDigit digit) = some digit := by decide
  exact all value small

theorem parseString_end : parseString (quotation :: rest) = some ([], rest) := by
  rw [parseString.eq_def]
  rfl

theorem parseString_escaped {letter value : CodeUnit} (other : letter.val ≠ 0x75) (stands : escapedUnit letter = some value) :
    parseString (backslash :: letter :: rest) = (parseString rest).map (consUnit value) := by
  rw [parseString.eq_def]
  have slash : backslash ≠ quotation := by decide
  simp only [if_neg slash, if_true, if_neg other, stands]

theorem parseString_hexadecimal {first second third fourth value : CodeUnit}
    (stands : hexUnit first second third fourth = some value) :
    parseString (backslash :: unit 0x75 :: first :: second :: third :: fourth :: rest) =
      (parseString rest).map (consUnit value) := by
  rw [parseString.eq_def]
  have slash : backslash ≠ quotation := by decide
  have letter : (unit 0x75).val = 0x75 := by decide
  simp only [if_neg slash, if_true, letter, stands]

theorem parseString_unicodeEscape (c : CodeUnit) (rest : JsString) :
    parseString (unicodeEscape c ++ rest) = (parseString rest).map (consUnit c) := by
  have bound := c.isLt
  have digits : hexUnit (hexDigit (c.val / 4096)) (hexDigit (c.val / 256 % 16)) (hexDigit (c.val / 16 % 16))
      (hexDigit (c.val % 16)) = some c := by
    unfold hexUnit
    rw [hexValue_hexDigit (by omega), hexValue_hexDigit (by omega), hexValue_hexDigit (by omega),
      hexValue_hexDigit (by omega)]
    have sum : c.val / 4096 * 4096 + c.val / 256 % 16 * 256 + c.val / 16 % 16 * 16 + c.val % 16 = c.val := by omega
    simp only [sum, unit_val]
  have letters : text "\\u" = [backslash, unit 0x75] := by decide
  rw [unicodeEscape, letters]
  exact parseString_hexadecimal rest digits

theorem parseString_plain (plain : c ≠ quotation ∧ c ≠ backslash ∧ ¬ c.val < 0x20) :
    parseString (c :: rest) = (parseString rest).map (consUnit c) := by
  rw [parseString.eq_def]
  simp only [if_neg plain.1, if_neg plain.2.1, if_neg plain.2.2]

theorem parseString_quoteUnit (c : CodeUnit) (rest : JsString) :
    parseString (quoteUnit c ++ rest) = (parseString rest).map (consUnit c) := by
  unfold quoteUnit
  split_ifs with quotes slashes backspaces feeds newlines returns tabs controls
  · have letters : text "\\\"" = [backslash, unit 0x22] := by decide
    rw [eq_unit quotes, letters]
    exact parseString_escaped rest (by decide) (by decide)
  · have letters : text "\\\\" = [backslash, unit 0x5C] := by decide
    rw [eq_unit slashes, letters]
    exact parseString_escaped rest (by decide) (by decide)
  · have letters : text "\\b" = [backslash, unit 0x62] := by decide
    rw [eq_unit backspaces, letters]
    exact parseString_escaped rest (by decide) (by decide)
  · have letters : text "\\f" = [backslash, unit 0x66] := by decide
    rw [eq_unit feeds, letters]
    exact parseString_escaped rest (by decide) (by decide)
  · have letters : text "\\n" = [backslash, unit 0x6E] := by decide
    rw [eq_unit newlines, letters]
    exact parseString_escaped rest (by decide) (by decide)
  · have letters : text "\\r" = [backslash, unit 0x72] := by decide
    rw [eq_unit returns, letters]
    exact parseString_escaped rest (by decide) (by decide)
  · have letters : text "\\t" = [backslash, unit 0x74] := by decide
    rw [eq_unit tabs, letters]
    exact parseString_escaped rest (by decide) (by decide)
  · exact parseString_unicodeEscape c rest
  · apply parseString_plain rest
    refine ⟨fun same => quotes ?_, fun same => slashes ?_, controls⟩
    · rw [same]
      rfl
    · rw [same]
      rfl

theorem parseString_surrogate (high : 0xD800 ≤ c.val) : parseString (c :: rest) = (parseString rest).map (consUnit c) := by
  apply parseString_plain rest
  refine ⟨?_, ?_, by omega⟩
  · rintro rfl
    exact absurd high (by decide)
  · rintro rfl
    exact absurd high (by decide)

theorem isHighSurrogate_le (high : isHighSurrogate c = true) : 0xD800 ≤ c.val := by
  simp only [isHighSurrogate, and_eq_true, decide_eq_true_eq] at high
  exact high.1

theorem isLowSurrogate_le (low : isLowSurrogate c = true) : 0xD800 ≤ c.val := by
  simp only [isLowSurrogate, and_eq_true, decide_eq_true_eq] at low
  omega

theorem parseString_quoteBody (value rest : JsString) :
    parseString (quoteBody value ++ quotation :: rest) = some (value, rest) := by
  fun_induction quoteBody value with
  | case1 => exact parseString_end rest
  | case2 c surrogate =>
    rw [parseString_unicodeEscape, parseString_end]
    rfl
  | case3 c plain =>
    rw [parseString_quoteUnit, parseString_end]
    rfl
  | case4 c next tail pair ih =>
    rw [and_eq_true] at pair
    rw [cons_append, parseString_surrogate _ (isHighSurrogate_le pair.1), cons_append,
      parseString_surrogate _ (isLowSurrogate_le pair.2), ih]
    rfl
  | case5 c next tail pair surrogate ih =>
    rw [append_assoc, parseString_unicodeEscape, ih]
    rfl
  | case6 c next tail pair plain ih =>
    rw [append_assoc, parseString_quoteUnit, ih]
    rfl

theorem text_quotation : text "\"" = [quotation] := by decide

theorem reads_string (value : JsString) : Reads (.string value) (jsonStringify value) := by
  intro rest fuel enough
  cases fuel with
  | zero => omega
  | succ fuel =>
    have opened : skipSpace (jsonStringify value ++ rest) = quotation :: (quoteBody value ++ quotation :: rest) := by
      simp only [jsonStringify, text_quotation, append_assoc, cons_append, nil_append]
      rfl
    rw [parseValue, opened]
    simp only [if_true, parseString_quoteBody, map_some]

theorem parseMembers_member {key : JsString} (reads : Reads json value) (rest : JsString) (enough : 2 * value.length < fuel) :
    parseMembers (fuel + 1) (jsonStringify key ++ colon :: (value ++ rest)) =
      match skipSpace rest with
      | [] => none
      | e :: rest =>
        if e = comma then (parseMembers fuel rest).map fun read => ((key, json) :: read.1, read.2)
        else if e = closeBrace then some ([(key, json)], rest)
        else none := by
  have opened : skipSpace (jsonStringify key ++ colon :: (value ++ rest)) =
      quotation :: (quoteBody key ++ quotation :: (colon :: (value ++ rest))) := by
    simp only [jsonStringify, text_quotation, append_assoc, cons_append, nil_append]
    rfl
  have spaced : skipSpace (colon :: (value ++ rest)) = colon :: (value ++ rest) := rfl
  rw [parseMembers, opened]
  simp only [if_true, parseString_quoteBody, spaced, reads rest fuel enough]

theorem membersText_cons (second : JsString × JsString) (members : List (JsString × JsString)) :
    membersText (first :: second :: members) =
      jsonStringify first.1 ++ colon :: (first.2 ++ comma :: membersText (second :: members)) := by
  simp [membersText, List.intercalate]

theorem membersText_singleton (member : JsString × JsString) :
    membersText [member] = jsonStringify member.1 ++ colon :: member.2 := by
  simp [membersText, List.intercalate]

theorem membersText_head (members : List (JsString × JsString)) : ∃ tail, membersText (first :: members) = quotation :: tail := by
  cases members with
  | nil => exact ⟨_, by rw [membersText_singleton, jsonStringify, text_quotation]; rfl⟩
  | cons second members => exact ⟨_, by rw [membersText_cons, jsonStringify, text_quotation]; rfl⟩

theorem parseMembers_membersText (members : List (JsString × Json × JsString)) (rest : JsString) (nonempty : members ≠ [])
    (reads : ∀ member ∈ members, Reads member.2.1 member.2.2) (fuel : Nat)
    (enough : 2 * (membersText (members.map fun member => (member.1, member.2.2))).length < fuel) :
    parseMembers fuel (membersText (members.map fun member => (member.1, member.2.2)) ++ closeBrace :: rest) =
      some (members.map fun member => (member.1, member.2.1), rest) := by
  induction members generalizing fuel with
  | nil => exact absurd rfl nonempty
  | cons member members ih =>
    cases fuel with
    | zero => omega
    | succ fuel =>
      have first := reads member mem_cons_self
      cases members with
      | nil =>
        simp only [map_cons, map_nil, membersText_singleton, length_append, length_cons] at enough ⊢
        rw [append_assoc, cons_append, parseMembers_member first _ (by omega)]
        rfl
      | cons second members =>
        simp only [map_cons, membersText_cons, length_append, length_cons] at enough ⊢
        have later := ih (by simp) (fun other found => reads other (mem_cons_of_mem _ found)) fuel
          (by simp only [map_cons]; omega)
        rw [append_assoc, cons_append, append_assoc, cons_append,
          parseMembers_member first _ (by omega)]
        have spaced (tail : JsString) : skipSpace (comma :: tail) = comma :: tail := rfl
        simp only [map_cons] at later
        simp only [spaced, if_true, later, map_some]

theorem reads_object (members : List (JsString × Json × JsString))
    (reads : ∀ member ∈ members, Reads member.2.1 member.2.2) :
    Reads (.object (members.map fun member => (member.1, member.2.1)))
      (objectText (members.map fun member => (member.1, member.2.2))) := by
  intro rest fuel enough
  cases fuel with
  | zero => omega
  | succ fuel =>
    have opened : skipSpace (objectText (members.map fun member => (member.1, member.2.2)) ++ rest) =
        openBrace :: (membersText (members.map fun member => (member.1, member.2.2)) ++ closeBrace :: rest) := by
      simp only [objectText, cons_append, append_assoc, nil_append]
      rfl
    have quotes : openBrace ≠ quotation := by decide
    have brackets : openBrace ≠ openBracket := by decide
    rw [parseValue, opened]
    simp only [if_neg quotes, if_neg brackets, if_true]
    cases members with
    | nil => rfl
    | cons member members =>
      have parsed := parseMembers_membersText (member :: members) rest (by simp) reads fuel
        (by simp only [objectText, length_cons, length_append] at enough ⊢; omega)
      obtain ⟨tail, starts⟩ := membersText_head (member.1, member.2.2) (members.map fun member => (member.1, member.2.2))
      simp only [map_cons] at parsed ⊢
      rw [starts, cons_append] at parsed ⊢
      have spaced (after : JsString) : skipSpace (quotation :: after) = quotation :: after := rfl
      have braces : quotation ≠ closeBrace := by decide
      simp only [spaced, if_neg braces, parsed, map_some]

theorem parse_of_reads (reads : Reads json value) : parse value = some json := by
  have whole := reads [] (2 * value.length + 1) (by omega)
  rw [append_nil] at whole
  rw [parse, whole]
  rfl

/-- No control character stands in a text. -/
def Printable (value : JsString) : Prop := ∀ c ∈ value, 0x20 ≤ c.val

instance (value : JsString) : Decidable (Printable value) :=
  decidable_of_iff (value.all fun c => 0x20 ≤ c.val) (by simp [Printable])

theorem Printable.append {first second : JsString} (one : Printable first) (other : Printable second) :
    Printable (first ++ second) := by
  intro c member
  exact (mem_append.mp member).elim (one c) (other c)

theorem Printable.cons (one : 0x20 ≤ c.val) (other : Printable value) : Printable (c :: value) := by
  intro d member
  rcases mem_cons.mp member with rfl | later
  · exact one
  · exact other d later

theorem printable_nil : Printable [] := nofun

theorem hexDigit_le {value : Nat} (small : value < 16) : 0x20 ≤ (hexDigit value).val := by
  have all : ∀ digit < 16, 0x20 ≤ (hexDigit digit).val := by decide
  exact all value small

theorem printable_unicodeEscape (c : CodeUnit) : Printable (unicodeEscape c) := by
  have bound := c.isLt
  have letters : Printable (text "\\u") := by decide
  apply letters.append
  exact .cons (hexDigit_le (by omega)) (.cons (hexDigit_le (by omega)) (.cons (hexDigit_le (by omega))
    (.cons (hexDigit_le (by omega)) printable_nil)))

theorem printable_quoteUnit (c : CodeUnit) : Printable (quoteUnit c) := by
  unfold quoteUnit
  split_ifs with quotes slashes backspaces feeds newlines returns tabs controls
  · decide
  · decide
  · decide
  · decide
  · decide
  · decide
  · decide
  · exact printable_unicodeEscape c
  · exact .cons (by omega) printable_nil

theorem printable_quoteBody (value : JsString) : Printable (quoteBody value) := by
  fun_induction quoteBody value with
  | case1 => exact printable_nil
  | case2 c surrogate => exact printable_unicodeEscape c
  | case3 c plain => exact printable_quoteUnit c
  | case4 c next tail pair ih =>
    rw [and_eq_true] at pair
    have high := isHighSurrogate_le pair.1
    have low := isLowSurrogate_le pair.2
    exact .cons (by omega) (.cons (by omega) ih)
  | case5 c next tail pair surrogate ih => exact (printable_unicodeEscape c).append ih
  | case6 c next tail pair plain ih => exact (printable_quoteUnit c).append ih

theorem printable_jsonStringify (value : JsString) : Printable (jsonStringify value) := by
  have mark : Printable (text "\"") := by decide
  exact (mark.append (printable_quoteBody value)).append mark

theorem printable_membersText {members : List (JsString × JsString)} (values : ∀ member ∈ members, Printable member.2) :
    Printable (membersText members) := by
  induction members with
  | nil => exact printable_nil
  | cons member members ih =>
    have first : Printable (jsonStringify member.1 ++ colon :: member.2) :=
      (printable_jsonStringify member.1).append (.cons (by decide) (values member mem_cons_self))
    cases members with
    | nil =>
      rw [membersText_singleton]
      exact first
    | cons second members =>
      have later := ih fun other found => values other (mem_cons_of_mem _ found)
      rw [membersText_cons, ← cons_append, ← append_assoc]
      exact first.append (.cons (by decide) later)

theorem printable_objectText {members : List (JsString × JsString)} (values : ∀ member ∈ members, Printable member.2) :
    Printable (objectText members) :=
  .cons (by decide) ((printable_membersText values).append (.cons (by decide) printable_nil))

theorem length_skipSpace (value : JsString) : (skipSpace value).length ≤ value.length :=
  (dropWhile_sublist _).length_le

theorem length_parseString (value : JsString) (read : JsString × JsString) (parsed : parseString value = some read) :
    read.2.length < value.length := by
  fun_induction parseString value generalizing read with
  | case1 | case3 | case5 | case6 | case8 | case9 => cases parsed
  | case2 =>
    cases parsed
    exact Nat.lt_succ_self _
  | case4 _ _ _ _ _ _ rest _ _ _ ih | case7 _ rest _ _ _ _ ih | case10 _ rest _ _ _ ih =>
    obtain ⟨found, read', rfl⟩ := map_eq_some_iff.mp parsed
    have shorter := ih found read'
    simp only [length_cons, consUnit]
    omega

theorem length_skipDigits {rest : JsString} (skipped : skipDigits value = some rest) : rest.length < value.length := by
  unfold skipDigits at skipped
  split_ifs at skipped with none
  cases skipped
  have whole := congrArg List.length (takeWhile_append_dropWhile (p := isDigit) (l := value))
  have some : 0 < (value.takeWhile isDigit).length := length_pos_iff.mpr fun empty => none (by rw [empty]; rfl)
  rw [length_append] at whole
  omega

theorem length_skipInteger {rest : JsString} (skipped : skipInteger value = some rest) : rest.length < value.length := by
  cases value with
  | nil => cases skipped
  | cons c value =>
    simp only [skipInteger] at skipped
    split_ifs at skipped with zero
    · cases skipped
      exact Nat.lt_succ_self _
    · exact length_skipDigits skipped

theorem length_skipFraction {rest : JsString} (skipped : skipFraction value = some rest) : rest.length ≤ value.length := by
  cases value with
  | nil =>
    cases skipped
    exact le_refl _
  | cons c value =>
    simp only [skipFraction] at skipped
    split_ifs at skipped with point
    · have fewer := length_skipDigits skipped
      rw [length_cons]
      omega
    · cases skipped
      exact le_refl _

theorem length_skipSign (value : JsString) : (skipSign value).length ≤ value.length := by
  cases value with
  | nil => exact le_refl _
  | cons c value =>
    simp only [skipSign]
    split_ifs
    · exact Nat.le_succ _
    · exact le_refl _

theorem length_skipExponent {rest : JsString} (skipped : skipExponent value = some rest) : rest.length ≤ value.length := by
  cases value with
  | nil =>
    cases skipped
    exact le_refl _
  | cons c value =>
    simp only [skipExponent] at skipped
    split_ifs at skipped with letter
    · have fewer := length_skipDigits skipped
      have sign := length_skipSign value
      rw [length_cons]
      omega
    · cases skipped
      exact le_refl _

theorem length_skipMinus (value : JsString) : (skipMinus value).length ≤ value.length := by
  cases value with
  | nil => exact le_refl _
  | cons c value =>
    simp only [skipMinus]
    split_ifs
    · exact Nat.le_succ _
    · exact le_refl _

theorem length_drop_of_startsWith {start : JsString} (starts : startsWith value start = true) (some : start ≠ []) :
    (value.drop start.length).length < value.length := by
  have fits := ( isPrefixOf_iff_prefix.mp starts).length_le
  have positive := length_pos_iff.mpr some
  rw [length_drop]
  omega

theorem length_parseAtom {read : Json × JsString} (parsed : parseAtom value = some read) : read.2.length < value.length := by
  unfold parseAtom at parsed
  split_ifs at parsed with null true' false'
  · cases parsed
    exact length_drop_of_startsWith null (by decide)
  · cases parsed
    exact length_drop_of_startsWith true' (by decide)
  · cases parsed
    exact length_drop_of_startsWith false' (by decide)
  · obtain ⟨rest, exponent, rfl⟩ := map_eq_some_iff.mp parsed
    obtain ⟨second, fraction, last⟩ := bind_eq_some_iff.mp exponent
    obtain ⟨first, integer, middle⟩ := bind_eq_some_iff.mp fraction
    have one := length_skipInteger integer
    have two := length_skipFraction middle
    have three := length_skipExponent last
    have zero := length_skipMinus value
    show rest.length < value.length
    omega

/-- What a parser leaves is shorter, and enough fuel gives the same. -/
structure Settles {α : Type} (parser : Nat → JsString → Option (α × JsString)) (slack : Nat) (value : JsString)
    (read : α × JsString) : Prop where
  shorter : read.2.length < value.length
  again : ∀ fuel, 2 * value.length + slack < fuel → parser fuel value = some read

theorem length_of_skipSpace {rest : JsString} (skipped : skipSpace value = c :: rest) : rest.length < value.length := by
  have whole := length_skipSpace value
  rw [skipped, length_cons] at whole
  omega

theorem Settles.enclosed {α : Type} {parser : Nat → JsString → Option (α × JsString)} {slack : Nat} {part : JsString}
    {read : α × JsString} (settles : Settles parser slack part read) (few : slack ≤ 1) (shorter : part.length < value.length)
    (enough : 2 * value.length < fuel + 1) : parser fuel part = some read :=
  settles.again fuel (by omega)

theorem settles_parseValue (items : ∀ value read, parseItems fuel value = some read → Settles parseItems 1 value read)
    (members : ∀ value read, parseMembers fuel value = some read → Settles parseMembers 0 value read) (value : JsString)
    (read : Json × JsString) (parsed : parseValue (fuel + 1) value = some read) : Settles parseValue 0 value read := by
  have refuel : ∀ result, (∀ more, 2 * value.length < more + 1 → parseValue (more + 1) value = some result) →
      ∀ more, 2 * value.length + 0 < more → parseValue more value = some result := by
    intro result all more enough
    cases more with
    | zero => omega
    | succ more => exact all more (by omega)
  simp only [parseValue] at parsed
  split at parsed
  · cases parsed
  · rename_i c rest skipped
    have inner := length_of_skipSpace skipped
    split_ifs at parsed with quotes brackets braces
    · obtain ⟨found, string, rfl⟩ := map_eq_some_iff.mp parsed
      have shorter := length_parseString rest found string
      refine ⟨shorter.trans inner, refuel _ fun more _ => ?_⟩
      simp only [parseValue, skipped, if_pos quotes, string, map_some]
    · split at parsed
      · cases parsed
      · rename_i d after opened
        have deeper := length_of_skipSpace opened
        split_ifs at parsed with closed
        · cases parsed
          refine ⟨deeper.trans inner, refuel _ fun more _ => ?_⟩
          simp only [parseValue, skipped, if_neg quotes, if_pos brackets, opened, if_pos closed]
        · obtain ⟨found, list, rfl⟩ := map_eq_some_iff.mp parsed
          have settles := items _ found list
          have whole := length_skipSpace rest
          rw [opened] at whole
          have shorter := settles.shorter
          refine ⟨by show found.2.length < _; omega, refuel _ fun more enough => ?_⟩
          simp only [parseValue, skipped, if_neg quotes, if_pos brackets, opened, if_neg closed,
            settles.enclosed (le_refl 1) (whole.trans_lt inner) enough, map_some]
    · split at parsed
      · cases parsed
      · rename_i d after opened
        have deeper := length_of_skipSpace opened
        split_ifs at parsed with closed
        · cases parsed
          refine ⟨deeper.trans inner, refuel _ fun more _ => ?_⟩
          simp only [parseValue, skipped, if_neg quotes, if_neg brackets, if_pos braces, opened, if_pos closed]
        · obtain ⟨found, list, rfl⟩ := map_eq_some_iff.mp parsed
          have settles := members _ found list
          have whole := length_skipSpace rest
          rw [opened] at whole
          have shorter := settles.shorter
          refine ⟨by show found.2.length < _; omega, refuel _ fun more enough => ?_⟩
          simp only [parseValue, skipped, if_neg quotes, if_neg brackets, if_pos braces, opened, if_neg closed,
            settles.enclosed (Nat.zero_le 1) (whole.trans_lt inner) enough, map_some]
    · have whole := length_skipSpace value
      rw [skipped] at whole
      refine ⟨(length_parseAtom parsed).trans_le whole, refuel _ fun more _ => ?_⟩
      simp only [parseValue, skipped, if_neg quotes, if_neg brackets, if_neg braces, parsed]

theorem settles_parseItems (values : ∀ value read, parseValue fuel value = some read → Settles parseValue 0 value read)
    (items : ∀ value read, parseItems fuel value = some read → Settles parseItems 1 value read) (value : JsString)
    (read : List Json × JsString) (parsed : parseItems (fuel + 1) value = some read) : Settles parseItems 1 value read := by
  simp only [parseItems] at parsed
  split at parsed
  · cases parsed
  · rename_i item rest first
    have settled := values value (item, rest) first
    split at parsed
    · cases parsed
    · rename_i c after skipped
      have inner := (length_of_skipSpace skipped).trans settled.shorter
      split_ifs at parsed with commas closed
      · obtain ⟨found, list, rfl⟩ := map_eq_some_iff.mp parsed
        have settles := items after found list
        refine ⟨settles.shorter.trans inner, fun more enough => ?_⟩
        cases more with
        | zero => omega
        | succ more =>
          simp only [parseItems, settled.again more (by omega), skipped, if_pos commas, settles.again more (by omega),
            map_some]
      · cases parsed
        refine ⟨inner, fun more enough => ?_⟩
        cases more with
        | zero => omega
        | succ more =>
          simp only [parseItems, settled.again more (by omega), skipped, if_neg commas, if_pos closed]

theorem settles_parseMembers (values : ∀ value read, parseValue fuel value = some read → Settles parseValue 0 value read)
    (members : ∀ value read, parseMembers fuel value = some read → Settles parseMembers 0 value read) (value : JsString)
    (read : List (JsString × Json) × JsString) (parsed : parseMembers (fuel + 1) value = some read) :
    Settles parseMembers 0 value read := by
  simp only [parseMembers] at parsed
  split at parsed
  · cases parsed
  · rename_i c rest skipped
    have inner := length_of_skipSpace skipped
    split_ifs at parsed with quotes
    split at parsed
    · cases parsed
    · rename_i key afterKey string
      have keyed : afterKey.length < rest.length := length_parseString rest (key, afterKey) string
      split at parsed
      · cases parsed
      · rename_i d afterColon spaced
        have deeper := length_of_skipSpace spaced
        split_ifs at parsed with colons
        split at parsed
        · cases parsed
        · rename_i member afterValue first
          have settled := values afterColon (member, afterValue) first
          have shorter : afterValue.length < afterColon.length := settled.shorter
          split at parsed
          · cases parsed
          · rename_i e after closing
            have last := length_of_skipSpace closing
            split_ifs at parsed with commas closed
            · obtain ⟨found, list, rfl⟩ := map_eq_some_iff.mp parsed
              have settles := members after found list
              have fewer := settles.shorter
              refine ⟨by show found.2.length < _; omega, fun more enough => ?_⟩
              cases more with
              | zero => omega
              | succ more =>
                simp only [parseMembers, skipped, if_pos quotes, string, spaced, if_pos colons,
                  settled.again more (by omega), closing, if_pos commas, settles.again more (by omega), map_some]
            · cases parsed
              refine ⟨by show after.length < _; omega, fun more enough => ?_⟩
              cases more with
              | zero => omega
              | succ more =>
                simp only [parseMembers, skipped, if_pos quotes, string, spaced, if_pos colons,
                  settled.again more (by omega), closing, if_neg commas, if_pos closed]

theorem settles (fuel : Nat) :
    (∀ value read, parseValue fuel value = some read → Settles parseValue 0 value read) ∧
      (∀ value read, parseItems fuel value = some read → Settles parseItems 1 value read) ∧
      ∀ value read, parseMembers fuel value = some read → Settles parseMembers 0 value read := by
  induction fuel with
  | zero => exact ⟨nofun, nofun, nofun⟩
  | succ fuel ih =>
    exact ⟨settles_parseValue ih.2.1 ih.2.2, settles_parseItems ih.1 ih.2.1, settles_parseMembers ih.1 ih.2.2⟩

theorem parse_of_parseValue {rest : JsString} (parsed : parseValue fuel value = some (json, rest)) (ends : skipSpace rest = []) :
    parse value = some json := by
  have settled := ((settles fuel).1 value (json, rest) parsed).again (2 * value.length + 1) (by omega)
  rw [parse, settled]
  exact if_pos ends

end Remnic.Text.JsonText
