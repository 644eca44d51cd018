import Remnic.Text.JsonText
import Remnic.Text.Utf8Encode

/-!
`JSON.stringify` of any value, and `JSON.parse` of what it writes, also over UTF-8. A number is the
text that it is written as.
-/

namespace Remnic.Text.JsonPrint

open CodeUnits JsonText Utf8 Utf8Encode List Option

mutual

def stringify : Json → JsString
  | .null => text "null"
  | .bool value => if value then text "true" else text "false"
  | .number numeral => numeral
  | .string value => jsonStringify value
  | .array items => openBracket :: (itemsText items ++ [closeBracket])
  | .object members => openBrace :: (pairsText members ++ [closeBrace])

def itemsText : List Json → JsString
  | [] => []
  | item :: items => stringify item ++ laterItems items

def laterItems : List Json → JsString
  | [] => []
  | item :: items => comma :: (stringify item ++ laterItems items)

def pairsText : List (JsString × Json) → JsString
  | [] => []
  | (key, value) :: members => jsonStringify key ++ colon :: (stringify value ++ laterPairs members)

def laterPairs : List (JsString × Json) → JsString
  | [] => []
  | (key, value) :: members => comma :: (jsonStringify key ++ colon :: (stringify value ++ laterPairs members))

end

def isNumeral (value : JsString) : Bool :=
  match ((skipInteger (skipMinus value)).bind skipFraction).bind skipExponent with
  | some rest => rest.isEmpty
  | none => false

mutual

def isWritten : Json → Bool
  | .number numeral => isNumeral numeral
  | .array items => areWritten items
  | .object members => haveWritten members
  | _ => true

def areWritten : List Json → Bool
  | [] => true
  | item :: items => isWritten item && areWritten items

def haveWritten : List (JsString × Json) → Bool
  | [] => true
  | (_, value) :: members => isWritten value && haveWritten members

end

abbrev Message := { json : Json // isWritten json = true }

/-- What may stand after a value inside of another, or after the whole. -/
def Ends (rest : JsString) : Prop := ∀ c ∈ rest.head?, c = comma ∨ c = closeBracket ∨ c = closeBrace

section numerals

variable {value rest : JsString}

theorem Ends.head (ends : Ends rest) : ∀ c ∈ rest.head?, isDigit c = false ∧ c ≠ dot ∧ c.val ≠ 0x65 ∧ c.val ≠ 0x45 ∧ c.val ≠ 0x2B ∧ c.val ≠ 0x2D ∧ c.val ≠ 0x30 := by
  intro c starts
  rcases ends c starts with rfl | rfl | rfl <;> decide

theorem skipDigits_append (ends : Ends rest) : skipDigits (value ++ rest) = (skipDigits value).map (· ++ rest) := by
  have stops : rest.takeWhile isDigit = [] ∧ rest.dropWhile isDigit = rest := by
    cases rest with
    | nil => exact ⟨rfl, rfl⟩
    | cons c rest =>
      have head := (ends.head c rfl).1
      rw [takeWhile_cons, dropWhile_cons, head]
      exact ⟨rfl, rfl⟩
  have taken : (value ++ rest).takeWhile isDigit = value.takeWhile isDigit ∧ (value ++ rest).dropWhile isDigit = value.dropWhile isDigit ++ rest := by
    induction value with
    | nil => exact stops
    | cons c value ih =>
      rw [cons_append, takeWhile_cons, dropWhile_cons, takeWhile_cons, dropWhile_cons]
      split_ifs
      · exact ⟨congrArg _ ih.1, ih.2⟩
      · exact ⟨rfl, rfl⟩
  unfold skipDigits
  rw [taken.1, taken.2]
  split_ifs <;> rfl

theorem skipInteger_append (ends : Ends rest) : skipInteger (value ++ rest) = (skipInteger value).map (· ++ rest) := by
  cases value with
  | nil =>
    cases rest with
    | nil => rfl
    | cons c rest =>
      have other := (ends.head c rfl).2.2.2.2.2.2
      have digits : skipDigits ([] ++ c :: rest) = (skipDigits []).map (· ++ c :: rest) := skipDigits_append ends
      exact (if_neg other).trans digits
  | cons c value =>
    rw [cons_append, skipInteger, skipInteger, ← cons_append, skipDigits_append ends]
    split_ifs <;> rfl

theorem skipFraction_append (ends : Ends rest) : skipFraction (value ++ rest) = (skipFraction value).map (· ++ rest) := by
  cases value with
  | nil =>
    cases rest with
    | nil => rfl
    | cons c rest => exact if_neg (ends.head c rfl).2.1
  | cons c value =>
    rw [cons_append, skipFraction, skipFraction, skipDigits_append ends]
    split_ifs <;> rfl

theorem skipSign_append (ends : Ends rest) : skipSign (value ++ rest) = skipSign value ++ rest := by
  cases value with
  | nil =>
    cases rest with
    | nil => rfl
    | cons c rest =>
      obtain ⟨_, _, _, _, plus, minus, _⟩ := ends.head c rfl
      exact if_neg fun either => either.elim plus minus
  | cons c value =>
    rw [cons_append, skipSign, skipSign]
    split_ifs <;> rfl

theorem skipExponent_append (ends : Ends rest) : skipExponent (value ++ rest) = (skipExponent value).map (· ++ rest) := by
  cases value with
  | nil =>
    cases rest with
    | nil => rfl
    | cons c rest =>
      obtain ⟨_, _, lower, upper, _⟩ := ends.head c rfl
      exact if_neg fun either => either.elim lower upper
  | cons c value =>
    rw [cons_append, skipExponent, skipExponent, skipSign_append ends, skipDigits_append ends]
    split_ifs <;> rfl

theorem skipMinus_append (some : value ≠ []) : skipMinus (value ++ rest) = skipMinus value ++ rest := by
  cases value with
  | nil => exact absurd rfl some
  | cons c value =>
    rw [cons_append, skipMinus, skipMinus]
    split_ifs <;> rfl

theorem isNumeral_head (numeral : isNumeral value = true) : ∃ c tail, value = c :: tail ∧ (c.val = 0x2D ∨ isDigit c = true) := by
  cases value with
  | nil => cases numeral
  | cons c tail =>
    refine ⟨c, tail, rfl, ?_⟩
    by_cases minus : c.val = 0x2D
    · exact .inl minus
    · by_contra neither
      rw [not_or, Bool.not_eq_true] at neither
      have zero : c.val ≠ 0x30 := by
        intro same
        have digit := neither.2
        unfold isDigit at digit
        simp [same] at digit
      unfold isNumeral skipMinus skipInteger skipDigits at numeral
      simp [minus, zero, neither.2] at numeral

theorem parseNumber_append (numeral : isNumeral value = true) (ends : Ends rest) : parseNumber (value ++ rest) = some (.number value, rest) := by
  obtain ⟨c, tail, starts, _⟩ := isNumeral_head numeral
  have whole : ((skipInteger (skipMinus value)).bind skipFraction).bind skipExponent = some [] := by
    unfold isNumeral at numeral
    split at numeral
    next remains read => rw [read, isEmpty_iff.mp numeral]
    next => cases numeral
  obtain ⟨second, fraction, exponent⟩ := bind_eq_some_iff.mp whole
  obtain ⟨first, integer, middle⟩ := bind_eq_some_iff.mp fraction
  unfold parseNumber
  rw [skipMinus_append (by rw [starts]; exact cons_ne_nil _ _), skipInteger_append ends, integer, map_some, bind_some,
    skipFraction_append ends, middle, map_some, bind_some, skipExponent_append ends, exponent, map_some, map_some,
    nil_append, length_append, Nat.add_sub_cancel, take_left]

end numerals

section reading

variable {json item : Json} {items : List Json} {members : List (JsString × Json)} {key rest : JsString}

theorem stringify_head (written : isWritten json = true) : ∃ c tail, stringify json = c :: tail ∧ isSpace c = false ∧ c ≠ closeBracket := by
  cases json with
  | null => exact ⟨_, _, rfl, by decide, by decide⟩
  | bool value => cases value <;> exact ⟨_, _, rfl, by decide, by decide⟩
  | number numeral =>
    unfold isWritten at written
    obtain ⟨c, tail, starts, head⟩ := isNumeral_head written
    unfold isDigit at head
    simp only [Bool.and_eq_true, decide_eq_true_eq] at head
    refine ⟨c, tail, by rw [stringify, starts], ?_, ?_⟩
    · unfold isSpace
      simp only [Bool.or_eq_false_iff, decide_eq_false_iff_not]
      omega
    · rintro rfl
      revert head
      decide
  | string value => exact ⟨quotation, _, by rw [stringify, jsonStringify, text_quotation]; rfl, by decide, by decide⟩
  | array items => exact ⟨openBracket, _, by rw [stringify], by decide, by decide⟩
  | object members => exact ⟨openBrace, _, by rw [stringify], by decide, by decide⟩

theorem skipSpace_stringify (written : isWritten json = true) (rest : JsString) : skipSpace (stringify json ++ rest) = stringify json ++ rest := by
  obtain ⟨c, tail, starts, solid, _⟩ := stringify_head written
  rw [starts, cons_append]
  unfold skipSpace
  rw [dropWhile_cons, solid]
  rfl

theorem ends_laterItems (items : List Json) (rest : JsString) : Ends (laterItems items ++ closeBracket :: rest) := by
  intro c starts
  cases items with
  | nil =>
    cases starts
    exact .inr (.inl rfl)
  | cons item items =>
    rw [laterItems] at starts
    cases starts
    exact .inl rfl

theorem ends_laterPairs (members : List (JsString × Json)) (rest : JsString) : Ends (laterPairs members ++ closeBrace :: rest) := by
  intro c starts
  cases members with
  | nil =>
    cases starts
    exact .inr (.inr rfl)
  | cons member members =>
    rw [laterPairs] at starts
    cases starts
    exact .inl rfl

theorem parseAtom_number {numeral : JsString} (written : isNumeral numeral = true) (ends : Ends rest) :
    parseAtom (numeral ++ rest) = some (.number numeral, rest) := by
  obtain ⟨c, tail, starts, head⟩ := isNumeral_head written
  unfold isDigit at head
  simp only [Bool.and_eq_true, decide_eq_true_eq] at head
  have other (literal : JsString) (first : CodeUnit) (more : JsString) (shape : literal = first :: more) (apart : first.val ≥ 0x61) :
      startsWith (numeral ++ rest) literal = false := by
    rw [starts, shape, cons_append]
    unfold startsWith
    rw [isPrefixOf_cons_cons]
    have different : (first == c) = false := by
      rw [beq_eq_false_iff_ne]
      rintro rfl
      omega
    rw [different, Bool.false_and]
  unfold parseAtom
  rw [other (text "null") (unit 0x6E) _ rfl (by decide), other (text "true") (unit 0x74) _ rfl (by decide),
    other (text "false") (unit 0x66) _ rfl (by decide)]
  exact parseNumber_append written ends

def IsRead (json : Json) : Prop := ∀ rest, Ends rest → ∃ fuel, parseValue fuel (stringify json ++ rest) = some (json, rest)

theorem IsRead.enough (read : IsRead json) (ends : Ends rest) {fuel : Nat} (enough : 2 * (stringify json ++ rest).length < fuel) :
    parseValue fuel (stringify json ++ rest) = some (json, rest) := by
  obtain ⟨some, parsed⟩ := read rest ends
  exact ((settles some).1 _ _ parsed).again fuel enough

theorem isRead_atom (written : isWritten json = true) (apart : ∀ c ∈ (stringify json).head?, c ≠ quotation ∧ c ≠ openBracket ∧ c ≠ openBrace)
    (atom : ∀ rest, Ends rest → parseAtom (stringify json ++ rest) = some (json, rest)) : IsRead json := by
  intro rest ends
  refine ⟨1, ?_⟩
  have spaced := skipSpace_stringify written rest
  have read := atom rest ends
  obtain ⟨c, tail, starts, _⟩ := stringify_head written
  obtain ⟨quotes, brackets, braces⟩ := apart c (by rw [starts]; rfl)
  rw [starts, cons_append] at spaced read ⊢
  rw [parseValue, spaced]
  simp only [if_neg quotes, if_neg brackets, if_neg braces]
  exact read

theorem parseItems_itemsText (written : areWritten (item :: items) = true) (read : ∀ other ∈ item :: items, IsRead other) (rest : JsString) :
    ∃ fuel, parseItems fuel (itemsText (item :: items) ++ closeBracket :: rest) = some (item :: items, rest) := by
  induction items generalizing item with
  | nil =>
    let value := stringify item ++ closeBracket :: rest
    have parsed := (read item mem_cons_self).enough (ends_laterItems [] rest) (Nat.lt_succ_self _)
    refine ⟨2 * value.length + 1 + 1, ?_⟩
    rw [itemsText, laterItems, append_nil, parseItems]
    have closed : closeBracket ≠ comma := by decide
    have spaced : skipSpace (closeBracket :: rest) = closeBracket :: rest := rfl
    simp only [laterItems, nil_append] at parsed
    simp only [value, parsed, spaced, if_neg closed, if_true]
  | cons second items ih =>
    rw [areWritten, Bool.and_eq_true] at written
    obtain ⟨some, later⟩ := ih written.2 fun other member => read other (mem_cons_of_mem _ member)
    let value := stringify item ++ (laterItems (second :: items) ++ closeBracket :: rest)
    have parsed := (read item mem_cons_self).enough (ends_laterItems (second :: items) rest)
      (show 2 * value.length < 2 * value.length + 2 by omega)
    have after := ((settles some).2.1 _ _ later).again (2 * value.length + 2) (by
      simp only [value, laterItems, itemsText, length_append, length_cons]
      omega)
    refine ⟨2 * value.length + 2 + 1, ?_⟩
    rw [itemsText, append_assoc, parseItems]
    simp only [parsed]
    have spaced : skipSpace (laterItems (second :: items) ++ closeBracket :: rest) =
        comma :: (itemsText (second :: items) ++ closeBracket :: rest) := by
      rw [laterItems, itemsText, cons_append]
      rfl
    simp only [spaced, if_true, after, map_some]

theorem parseMembers_pair {value : Json} {after : JsString} {fuel : Nat}
    (parsed : parseValue fuel (stringify value ++ after) = some (value, after)) :
    parseMembers (fuel + 1) (jsonStringify key ++ colon :: (stringify value ++ after)) =
      match skipSpace after with
      | [] => none
      | e :: rest =>
        if e = comma then (parseMembers fuel rest).map fun read => ((key, value) :: read.1, read.2)
        else if e = closeBrace then some ([(key, value)], rest)
        else none := by
  have opened : skipSpace (jsonStringify key ++ colon :: (stringify value ++ after)) =
      quotation :: (quoteBody key ++ quotation :: (colon :: (stringify value ++ after))) := by
    simp only [jsonStringify, text_quotation, append_assoc, cons_append, nil_append]
    rfl
  have spaced : skipSpace (colon :: (stringify value ++ after)) = colon :: (stringify value ++ after) := rfl
  rw [parseMembers, opened]
  simp only [if_true, parseString_quoteBody, spaced, parsed] <;> rfl

theorem parseMembers_pairsText {value : Json} (read : ∀ member ∈ (key, value) :: members, IsRead member.2) (rest : JsString) :
    ∃ fuel, parseMembers fuel (pairsText ((key, value) :: members) ++ closeBrace :: rest) = some ((key, value) :: members, rest) := by
  induction members generalizing key value with
  | nil =>
    let after := laterPairs [] ++ closeBrace :: rest
    have parsed := (read (key, value) mem_cons_self).enough (ends_laterPairs [] rest)
      (show 2 * (stringify value ++ after).length < 2 * (stringify value ++ after).length + 1 by omega)
    refine ⟨2 * (stringify value ++ after).length + 1 + 1, ?_⟩
    rw [pairsText, append_assoc, cons_append, append_assoc]
    exact parseMembers_pair parsed
  | cons second members ih =>
    obtain ⟨some, later⟩ : ∃ fuel, parseMembers fuel (pairsText ((second.1, second.2) :: members) ++ closeBrace :: rest) =
        some ((second.1, second.2) :: members, rest) := ih fun member listed => read member (mem_cons_of_mem _ listed)
    let after := laterPairs (second :: members) ++ closeBrace :: rest
    have parsed := (read (key, value) mem_cons_self).enough (ends_laterPairs (second :: members) rest)
      (show 2 * (stringify value ++ after).length < 2 * (stringify value ++ after).length + 1 by omega)
    have follows := ((settles some).2.2 _ _ later).again (2 * (stringify value ++ after).length + 1) (by
      simp only [after, laterPairs, pairsText, length_append, length_cons]
      omega)
    have spaced : skipSpace after = comma :: (pairsText ((second.1, second.2) :: members) ++ closeBrace :: rest) := by
      simp only [after]
      rw [laterPairs, pairsText, cons_append]
      rfl
    refine ⟨2 * (stringify value ++ after).length + 1 + 1, ?_⟩
    rw [pairsText, append_assoc, cons_append, append_assoc]
    refine (parseMembers_pair parsed).trans ?_
    simp only [after] at spaced follows ⊢
    simp only [spaced, if_true, follows, map_some]

theorem mem_areWritten (written : areWritten items = true) (member : item ∈ items) : isWritten item = true := by
  induction items with
  | nil => cases member
  | cons other items ih =>
    rw [areWritten, Bool.and_eq_true] at written
    rcases mem_cons.mp member with rfl | later
    · exact written.1
    · exact ih written.2 later

theorem mem_haveWritten {member : JsString × Json} (written : haveWritten members = true) (listed : member ∈ members) : isWritten member.2 = true := by
  induction members with
  | nil => cases listed
  | cons other members ih =>
    rw [haveWritten, Bool.and_eq_true] at written
    rcases mem_cons.mp listed with rfl | later
    · exact written.1
    · exact ih written.2 later

theorem isRead (json : Json) (written : isWritten json = true) : IsRead json := by
  match json, written with
  | .null, written => exact isRead_atom written (by rintro c ⟨⟩; decide) fun rest _ => rfl
  | .bool true, written => exact isRead_atom written (by rintro c ⟨⟩; decide) fun rest _ => rfl
  | .bool false, written => exact isRead_atom written (by rintro c ⟨⟩; decide) fun rest _ => rfl
  | .number numeral, written =>
    have numeral' : isNumeral numeral = true := by rwa [isWritten] at written
    refine isRead_atom written ?_ fun rest ends => parseAtom_number numeral' ends
    obtain ⟨c, tail, starts, head⟩ := isNumeral_head numeral'
    intro first begins
    rw [stringify, starts] at begins
    cases begins
    refine ⟨?_, ?_, ?_⟩ <;>
    · rintro rfl
      revert head
      decide
  | .string value, written =>
    intro rest _
    exact ⟨_, reads_string value rest (2 * (jsonStringify value).length + 1) (Nat.lt_succ_self _)⟩
  | .array [], written => exact fun rest _ => ⟨1, rfl⟩
  | .array (item :: items), written =>
    rw [isWritten] at written
    intro rest _
    have each : ∀ other ∈ item :: items, IsRead other := fun other member => isRead other (mem_areWritten written member)
    obtain ⟨fuel, parsed⟩ := parseItems_itemsText written each rest
    obtain ⟨c, tail, starts, solid, apart⟩ := stringify_head (mem_areWritten written mem_cons_self)
    have shape : itemsText (item :: items) ++ closeBracket :: rest = c :: (tail ++ laterItems items ++ closeBracket :: rest) := by
      rw [itemsText, starts, cons_append, cons_append]
    have spaced : skipSpace (c :: (tail ++ laterItems items ++ closeBracket :: rest)) = c :: (tail ++ laterItems items ++ closeBracket :: rest) := by
      unfold skipSpace
      rw [dropWhile_cons, solid]
      rfl
    have opened : skipSpace (stringify (.array (item :: items)) ++ rest) = openBracket :: (itemsText (item :: items) ++ closeBracket :: rest) := by
      rw [stringify, cons_append, append_assoc]
      rfl
    have quotes : openBracket ≠ quotation := by decide
    refine ⟨fuel + 1, ?_⟩
    rw [parseValue, opened]
    rw [shape] at parsed ⊢
    simp only [if_neg quotes, if_true, spaced, if_neg apart, parsed, map_some]
  | .object [], written => exact fun rest _ => ⟨1, rfl⟩
  | .object ((key, value) :: members), written =>
    rw [isWritten] at written
    intro rest _
    have each : ∀ member ∈ (key, value) :: members, IsRead member.2 := fun member listed => isRead member.2 (mem_haveWritten written listed)
    obtain ⟨fuel, parsed⟩ := parseMembers_pairsText each rest
    have shape : pairsText ((key, value) :: members) ++ closeBrace :: rest =
        quotation :: (quoteBody key ++ quotation :: colon :: (stringify value ++ laterPairs members) ++ closeBrace :: rest) := by
      simp only [pairsText, jsonStringify, text_quotation, append_assoc, cons_append, nil_append]
    have spaced (tail : JsString) : skipSpace (quotation :: tail) = quotation :: tail := rfl
    have opened : skipSpace (stringify (.object ((key, value) :: members)) ++ rest) =
        openBrace :: (pairsText ((key, value) :: members) ++ closeBrace :: rest) := by
      rw [stringify, cons_append, append_assoc]
      rfl
    have quotes : openBrace ≠ quotation := by decide
    have brackets : openBrace ≠ openBracket := by decide
    have braces : quotation ≠ closeBrace := by decide
    refine ⟨fuel + 1, ?_⟩
    rw [parseValue, opened]
    rw [shape] at parsed ⊢
    simp only [if_neg quotes, if_neg brackets, if_true, spaced, if_neg braces, parsed, map_some]
termination_by sizeOf json
decreasing_by
  · have smaller := sizeOf_lt_of_mem member
    rw [Json.array.sizeOf_spec]
    omega
  · have smaller := sizeOf_lt_of_mem listed
    have part : sizeOf member.2 < sizeOf member := by
      cases member
      simp
    rw [Json.object.sizeOf_spec]
    omega

theorem parse_stringify (message : Message) : parse (stringify message.val) = some message.val := by
  obtain ⟨fuel, parsed⟩ := isRead message.val message.property [] (by rintro c ⟨⟩)
  rw [append_nil] at parsed
  exact parse_of_parseValue parsed rfl

end reading

section bytes

variable {value rest : JsString}

/-- Each unit of a text is ASCII, or in what is left of it. -/
def IsAsciiBefore (value rest : JsString) : Prop := ∀ c ∈ value, c ∈ rest ∨ c.val < 0x80

theorem isAsciiBefore_skipDigits (skipped : skipDigits value = some rest) : IsAsciiBefore value rest := by
  unfold skipDigits at skipped
  split_ifs at skipped
  cases skipped
  intro c member
  rw [← takeWhile_append_dropWhile (p := isDigit) (l := value), mem_append] at member
  refine member.symm.imp_right fun digit => ?_
  have small := mem_takeWhile_imp digit
  simp only [isDigit, Bool.and_eq_true, decide_eq_true_eq] at small
  omega

theorem isAsciiBefore_cons {c : CodeUnit} (small : c.val < 0x80) (before : IsAsciiBefore value rest) : IsAsciiBefore (c :: value) rest := by
  intro other member
  rcases mem_cons.mp member with rfl | member
  · exact .inr small
  · exact before other member

theorem isAsciiBefore_self {value : JsString} : IsAsciiBefore value value := fun _ member => .inl member

theorem isAsciiBefore_skipMinus (value : JsString) : IsAsciiBefore value (skipMinus value) := by
  cases value with
  | nil => exact isAsciiBefore_self
  | cons c value =>
    simp only [skipMinus]
    split_ifs with minus
    · exact isAsciiBefore_cons (by omega) isAsciiBefore_self
    · exact isAsciiBefore_self

theorem isAsciiBefore_skipInteger (skipped : skipInteger value = some rest) : IsAsciiBefore value rest := by
  cases value with
  | nil => cases skipped
  | cons c value =>
    simp only [skipInteger] at skipped
    split_ifs at skipped with zero
    · cases skipped
      exact isAsciiBefore_cons (by omega) isAsciiBefore_self
    · exact isAsciiBefore_skipDigits skipped

theorem isAsciiBefore_skipFraction (skipped : skipFraction value = some rest) : IsAsciiBefore value rest := by
  cases value with
  | nil =>
    cases skipped
    exact isAsciiBefore_self
  | cons c value =>
    simp only [skipFraction] at skipped
    split_ifs at skipped with point
    · exact isAsciiBefore_cons (by rw [point]; decide) (isAsciiBefore_skipDigits skipped)
    · cases skipped
      exact isAsciiBefore_self

theorem isAsciiBefore_skipExponent (skipped : skipExponent value = some rest) : IsAsciiBefore value rest := by
  cases value with
  | nil =>
    cases skipped
    exact isAsciiBefore_self
  | cons c value =>
    simp only [skipExponent] at skipped
    split_ifs at skipped with letter
    · refine isAsciiBefore_cons (by omega) ?_
      cases value with
      | nil => exact isAsciiBefore_skipDigits skipped
      | cons d value =>
        simp only [skipSign] at skipped
        split_ifs at skipped with sign
        · exact isAsciiBefore_cons (by omega) (isAsciiBefore_skipDigits skipped)
        · exact isAsciiBefore_skipDigits skipped
    · cases skipped
      exact isAsciiBefore_self

theorem IsAsciiBefore.trans {after : JsString} (first : IsAsciiBefore value rest) (second : IsAsciiBefore rest after) : IsAsciiBefore value after :=
  fun c member => (first c member).elim (second c) .inr

theorem isNumeral_ascii (numeral : isNumeral value = true) : ∀ c ∈ value, c.val < 0x80 := by
  unfold isNumeral at numeral
  split at numeral
  next remains whole =>
    obtain ⟨second, fraction, exponent⟩ := bind_eq_some_iff.mp whole
    obtain ⟨first, integer, middle⟩ := bind_eq_some_iff.mp fraction
    have before := (isAsciiBefore_skipMinus value).trans ((isAsciiBefore_skipInteger integer).trans
      ((isAsciiBefore_skipFraction middle).trans (isAsciiBefore_skipExponent exponent)))
    rw [isEmpty_iff.mp numeral] at before
    exact fun c member => (before c member).resolve_left not_mem_nil
  next => cases numeral

/-- A text that is well-formed, whatever follows it. -/
def Closed (value : JsString) : Prop := ∀ rest, wellFormed (value ++ rest) = value ++ wellFormed rest

theorem Closed.append {more : JsString} (first : Closed value) (second : Closed more) : Closed (value ++ more) := by
  intro rest
  rw [append_assoc, first, second, append_assoc]

theorem closed_nil : Closed [] := fun _ => rfl

theorem Closed.cons {c : CodeUnit} (plain : isHighSurrogate c = false ∧ isLowSurrogate c = false) (closed : Closed value) : Closed (c :: value) := by
  intro rest
  have own : alone c = c := by
    unfold alone
    rw [plain.1, plain.2]
    rfl
  rw [cons_append]
  cases more : value ++ rest with
  | nil =>
    obtain ⟨rfl, rfl⟩ := append_eq_nil_iff.mp more
    exact congrArg (fun unit => [unit]) own
  | cons next tail =>
    rw [wellFormed, plain.1, Bool.false_and, if_neg Bool.false_ne_true, own, ← more, closed]
    rfl

theorem closed_ascii (ascii : ∀ c ∈ value, c.val < 0x80) : Closed value := by
  induction value with
  | nil => exact closed_nil
  | cons c value ih =>
    have small := ascii c mem_cons_self
    refine Closed.cons ⟨?_, ?_⟩ (ih fun other member => ascii other (mem_cons_of_mem _ member))
    · unfold isHighSurrogate
      rw [Bool.and_eq_false_iff, decide_eq_false_iff_not]
      exact .inl (by omega)
    · unfold isLowSurrogate
      rw [Bool.and_eq_false_iff, decide_eq_false_iff_not]
      exact .inl (by omega)

theorem closed_literal (ascii : value.all (fun c => decide (c.val < 0x80)) = true) : Closed value :=
  closed_ascii fun c member => of_decide_eq_true (all_eq_true.mp ascii c member)

theorem hexDigit_ascii (value : Nat) (small : value < 16) : (hexDigit value).val < 0x80 := by
  have all : ∀ digit < 16, (hexDigit digit).val < 0x80 := by decide
  exact all value small

theorem closed_unicodeEscape (c : CodeUnit) : Closed (unicodeEscape c) := by
  have bound := c.isLt
  refine closed_ascii fun other member => ?_
  rcases mem_append.mp member with letters | digits
  · have small : (text "\\u").all (fun c => decide (c.val < 0x80)) = true := rfl
    exact of_decide_eq_true (all_eq_true.mp small other letters)
  · simp only [mem_cons, not_mem_nil, or_false] at digits
    rcases digits with rfl | rfl | rfl | rfl <;> exact hexDigit_ascii _ (by omega)

theorem closed_quoteUnit {c : CodeUnit} (plain : isHighSurrogate c = false ∧ isLowSurrogate c = false) : Closed (quoteUnit c) := by
  unfold quoteUnit
  split_ifs
  · exact closed_literal rfl
  · exact closed_literal rfl
  · exact closed_literal rfl
  · exact closed_literal rfl
  · exact closed_literal rfl
  · exact closed_literal rfl
  · exact closed_literal rfl
  · exact closed_unicodeEscape c
  · exact closed_nil.cons plain

theorem closed_quoteBody (value : JsString) : Closed (quoteBody value) := by
  fun_induction quoteBody value with
  | case1 => exact closed_nil
  | case2 c surrogate => exact closed_unicodeEscape c
  | case3 c plain =>
    rw [Bool.or_eq_true, not_or, Bool.not_eq_true, Bool.not_eq_true] at plain
    exact closed_quoteUnit plain
  | case4 c next tail pair ih =>
    intro rest
    rw [cons_append, cons_append, wellFormed, if_pos pair, ih]
    rfl
  | case5 c next tail pair surrogate ih => exact (closed_unicodeEscape c).append ih
  | case6 c next tail pair plain ih =>
    rw [Bool.or_eq_true, not_or, Bool.not_eq_true, Bool.not_eq_true] at plain
    exact (closed_quoteUnit plain).append ih

theorem closed_jsonStringify (value : JsString) : Closed (jsonStringify value) :=
  ((closed_literal rfl).append (closed_quoteBody value)).append (closed_literal rfl)

mutual

theorem closed_stringify : ∀ json : Json, isWritten json = true → Closed (stringify json)
  | .null, _ => closed_literal rfl
  | .bool true, _ => closed_literal rfl
  | .bool false, _ => closed_literal rfl
  | .number numeral, written => closed_ascii (isNumeral_ascii (by rwa [isWritten] at written))
  | .string value, _ => closed_jsonStringify value
  | .array [], _ => closed_literal rfl
  | .array (item :: items), written => by
      rw [isWritten, areWritten, Bool.and_eq_true] at written
      rw [stringify, itemsText]
      exact Closed.cons (by decide) (((closed_stringify item written.1).append (closed_laterItems items written.2)).append (closed_literal rfl))
  | .object [], _ => closed_literal rfl
  | .object ((key, value) :: members), written => by
      rw [isWritten, haveWritten, Bool.and_eq_true] at written
      rw [stringify, pairsText]
      exact Closed.cons (by decide) (((closed_jsonStringify key).append (Closed.cons (by decide)
        ((closed_stringify value written.1).append (closed_laterPairs members written.2)))).append (closed_literal rfl))

theorem closed_laterItems : ∀ items : List Json, areWritten items = true → Closed (laterItems items)
  | [], _ => closed_nil
  | item :: items, written => by
      rw [areWritten, Bool.and_eq_true] at written
      rw [laterItems]
      exact Closed.cons (by decide) ((closed_stringify item written.1).append (closed_laterItems items written.2))

theorem closed_laterPairs : ∀ members : List (JsString × Json), haveWritten members = true → Closed (laterPairs members)
  | [], _ => closed_nil
  | (key, value) :: members, written => by
      rw [haveWritten, Bool.and_eq_true] at written
      rw [laterPairs]
      exact Closed.cons (by decide) ((closed_jsonStringify key).append (Closed.cons (by decide)
        ((closed_stringify value written.1).append (closed_laterPairs members written.2))))

end

theorem decode_encode_stringify (message : Message) : decode (encode (stringify message.val)) = stringify message.val := by
  have closed := closed_stringify message.val message.property []
  rw [append_nil] at closed
  rw [decode_encode, closed, wellFormed, append_nil]

end bytes

end Remnic.Text.JsonPrint
