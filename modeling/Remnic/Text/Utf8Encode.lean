import Remnic.Text.Utf8

/-!
UTF-8 as a text is written: a surrogate that stands alone is written as a replacement.
-/

namespace Remnic.Text.Utf8Encode

open CodeUnits Utf8 List

def byte (value : Nat) : Byte := Fin.ofNat 256 value

def encodePoint (point : Nat) : List Byte :=
  if point < 0x80 then [byte point]
  else if point < 0x800 then [byte (0xC0 + point / 0x40), byte (0x80 + point % 0x40)]
  else if point < 0x10000 then
    [byte (0xE0 + point / 0x1000), byte (0x80 + point / 0x40 % 0x40), byte (0x80 + point % 0x40)]
  else
    [byte (0xF0 + point / 0x40000), byte (0x80 + point / 0x1000 % 0x40), byte (0x80 + point / 0x40 % 0x40), byte (0x80 + point % 0x40)]

/-- A unit that is not part of a pair. -/
def alone (c : CodeUnit) : CodeUnit := if isHighSurrogate c || isLowSurrogate c then replacement else c

def pairPoint (high low : CodeUnit) : Nat := 0x10000 + (high.val - 0xD800) * 0x400 + (low.val - 0xDC00)

def encode : JsString → List Byte
  | [] => []
  | [c] => encodePoint (alone c).val
  | high :: low :: rest =>
    if isHighSurrogate high && isLowSurrogate low then encodePoint (pairPoint high low) ++ encode rest
    else encodePoint (alone high).val ++ encode (low :: rest)

/-- A text with a replacement for each surrogate that stands alone. -/
def wellFormed : JsString → JsString
  | [] => []
  | [c] => [alone c]
  | high :: low :: rest =>
    if isHighSurrogate high && isLowSurrogate low then high :: low :: wellFormed rest
    else alone high :: wellFormed (low :: rest)

theorem val_byte {value : Nat} (small : value < 256) : (byte value).val = value := Nat.mod_eq_of_lt small

variable (c : CodeUnit)

theorem unit_val : unit c.val = c := Fin.ext (Nat.mod_eq_of_lt c.isLt)

theorem isHighSurrogate_iff : isHighSurrogate c = true ↔ 0xD800 ≤ c.val ∧ c.val ≤ 0xDBFF := by
  simp [isHighSurrogate]

theorem isLowSurrogate_iff : isLowSurrogate c = true ↔ 0xDC00 ≤ c.val ∧ c.val ≤ 0xDFFF := by
  simp [isLowSurrogate]

theorem val_alone : (alone c).val < 0xD800 ∨ 0xDFFF < (alone c).val := by
  unfold alone
  split
  next => exact .inr (by decide)
  next plain =>
    rw [Bool.or_eq_true, isHighSurrogate_iff, isLowSurrogate_iff] at plain
    omega

theorem alone_alone : alone (alone c) = alone c := by
  have plain := val_alone c
  rw [alone, if_neg]
  rw [Bool.or_eq_true, isHighSurrogate_iff, isLowSurrogate_iff]
  omega

theorem isHighSurrogate_alone : isHighSurrogate (alone c) = false := by
  have plain := val_alone c
  refine Bool.eq_false_iff.mpr fun high => ?_
  rw [isHighSurrogate_iff] at high
  omega

section points

variable {point value : Nat} {sequence : Sequence}

theorem decodeFrom_next (low : sequence.lower ≤ value) (high : value ≤ sequence.upper) (small : value < 256) (more : sequence.needed ≠ 1)
    (rest : List Byte) : decodeFrom (some sequence) (byte value :: rest) =
      decodeFrom (some ⟨sequence.needed - 1, 0x80, 0xBF, sequence.point * 0x40 + value % 0x40⟩) rest := by
  rw [decodeFrom, val_byte small, if_pos ⟨low, high⟩, if_neg more]

theorem decodeFrom_last (low : sequence.lower ≤ value) (high : value ≤ sequence.upper) (small : value < 256) (last : sequence.needed = 1)
    (rest : List Byte) : decodeFrom (some sequence) (byte value :: rest) =
      pointUnits (sequence.point * 0x40 + value % 0x40) ++ decodeFrom none rest := by
  rw [decodeFrom, val_byte small, if_pos ⟨low, high⟩, if_pos last]

theorem begin_two (low : 0xC2 ≤ value) (high : value ≤ 0xDF) : begin (byte value) = ([], some ⟨1, 0x80, 0xBF, value % 0x20⟩) := by
  unfold begin
  dsimp only
  rw [val_byte (by omega), if_neg (by omega), if_pos ⟨low, high⟩]

theorem begin_three (low : 0xE0 ≤ value) (high : value ≤ 0xEF) : begin (byte value) =
    ([], some ⟨2, if value = 0xE0 then 0xA0 else 0x80, if value = 0xED then 0x9F else 0xBF, value % 0x10⟩) := by
  unfold begin
  dsimp only
  rw [val_byte (by omega), if_neg (by omega), if_neg (by omega), if_pos ⟨low, high⟩]

theorem begin_four (low : 0xF0 ≤ value) (high : value ≤ 0xF4) : begin (byte value) =
    ([], some ⟨3, if value = 0xF0 then 0x90 else 0x80, if value = 0xF4 then 0x8F else 0xBF, value % 0x08⟩) := by
  unfold begin
  dsimp only
  rw [val_byte (by omega), if_neg (by omega), if_neg (by omega), if_neg (by omega), if_pos ⟨low, high⟩]

theorem decodeFrom_encodePoint (scalar : point < 0xD800 ∨ 0xDFFF < point) (bound : point < 0x110000) (rest : List Byte) :
    decodeFrom none (encodePoint point ++ rest) = pointUnits point ++ decodeFrom none rest := by
  unfold encodePoint
  split_ifs with one two three
  · have ascii : begin (byte point) = ([unit point], none) := by
      unfold begin
      dsimp only
      rw [val_byte (by omega), if_pos one]
    rw [singleton_append, decodeFrom, ascii, pointUnits, if_pos (by omega)]
  · rw [cons_append, singleton_append, decodeFrom, begin_two (by omega) (by omega), nil_append,
      decodeFrom_last (by dsimp only; omega) (by dsimp only; omega) (by omega) rfl]
    congr 2
    dsimp only
    omega
  · rw [cons_append, cons_append, singleton_append, decodeFrom, begin_three (by omega) (by omega), nil_append,
      decodeFrom_next (by dsimp only; split <;> omega) (by dsimp only; split <;> omega) (by omega) (by dsimp only; omega),
      decodeFrom_last (by dsimp only; omega) (by dsimp only; omega) (by omega) rfl]
    congr 2
    dsimp only
    omega
  · rw [cons_append, cons_append, cons_append, singleton_append, decodeFrom, begin_four (by omega) (by omega),
      nil_append, decodeFrom_next (by dsimp only; split <;> omega) (by dsimp only; split <;> omega) (by omega) (by dsimp only; omega),
      decodeFrom_next (by dsimp only; omega) (by dsimp only; omega) (by omega) (by dsimp only; omega),
      decodeFrom_last (by dsimp only; omega) (by dsimp only; omega) (by omega) rfl]
    congr 2
    dsimp only
    omega

theorem pointUnits_alone (c : CodeUnit) : pointUnits (alone c).val = [alone c] := by
  rw [pointUnits, if_pos (alone c).isLt, unit_val]

theorem pairPoint_bound {high low : CodeUnit} (pair : (isHighSurrogate high && isLowSurrogate low) = true) :
    0x10000 ≤ pairPoint high low ∧ pairPoint high low < 0x110000 := by
  rw [Bool.and_eq_true, isHighSurrogate_iff, isLowSurrogate_iff] at pair
  unfold pairPoint
  omega

theorem pointUnits_pairPoint {high low : CodeUnit} (pair : (isHighSurrogate high && isLowSurrogate low) = true) :
    pointUnits (pairPoint high low) = [high, low] := by
  have bound := pairPoint_bound pair
  rw [Bool.and_eq_true, isHighSurrogate_iff, isLowSurrogate_iff] at pair
  have first : 0xD800 + (pairPoint high low - 0x10000) / 0x400 = high.val := by
    unfold pairPoint
    omega
  have second : 0xDC00 + (pairPoint high low - 0x10000) % 0x400 = low.val := by
    unfold pairPoint
    omega
  rw [pointUnits, if_neg (by omega), first, second, unit_val, unit_val]

end points

theorem decode_encode (value : JsString) : decode (encode value) = wellFormed value := by
  unfold decode
  induction value using encode.induct with
  | case1 => rfl
  | case2 c =>
    have read := decodeFrom_encodePoint (val_alone c) (by omega) []
    rw [append_nil] at read
    rw [encode, wellFormed, read, pointUnits_alone]
    rfl
  | case3 high low rest pair ih =>
    have bound := pairPoint_bound pair
    rw [encode, wellFormed, if_pos pair, if_pos pair, decodeFrom_encodePoint (.inr (by omega)) bound.2, pointUnits_pairPoint pair, ih]
    rfl
  | case4 high low rest pair ih =>
    rw [encode, wellFormed, if_neg pair, if_neg pair, decodeFrom_encodePoint (val_alone high) (by omega), pointUnits_alone, ih]
    rfl

theorem encode_cons {c : CodeUnit} (plain : isHighSurrogate c = false) (rest : JsString) :
    encode (c :: rest) = encodePoint (alone c).val ++ encode rest := by
  cases rest with
  | nil => rw [encode, encode, append_nil]
  | cons low rest =>
    rw [encode, plain, Bool.false_and, if_neg Bool.false_ne_true]

theorem encode_wellFormed (value : JsString) : encode (wellFormed value) = encode value := by
  induction value using encode.induct with
  | case1 => rfl
  | case2 c => rw [wellFormed, encode, encode, alone_alone]
  | case3 high low rest pair ih => rw [wellFormed, if_pos pair, encode, if_pos pair, ih, encode, if_pos pair]
  | case4 high low rest pair ih =>
    rw [wellFormed, if_neg pair, encode_cons (isHighSurrogate_alone high), alone_alone, ih, encode, if_neg pair]

theorem encode_decode_encode (value : JsString) : encode (decode (encode value)) = encode value := by
  rw [decode_encode, encode_wellFormed]

theorem wellFormed_append_cons {c : CodeUnit} (plain : (isHighSurrogate c || isLowSurrogate c) = false) (value rest : JsString) :
    wellFormed (value ++ c :: rest) = wellFormed value ++ c :: wellFormed rest := by
  obtain ⟨high, low⟩ := Bool.or_eq_false_iff.mp plain
  have own : alone c = c := if_neg (by rw [plain]; exact Bool.false_ne_true)
  have first : wellFormed (c :: rest) = c :: wellFormed rest := by
    cases rest with
    | nil => simp only [wellFormed, own]
    | cons next rest => simp [wellFormed, high, own]
  induction value using wellFormed.induct with
  | case1 => exact first
  | case2 last => simp [wellFormed, low, first]
  | case3 one other rest pair ih => rw [cons_append, cons_append, wellFormed, if_pos pair, ih, wellFormed, if_pos pair, cons_append, cons_append]
  | case4 one other rest pair ih => rw [cons_append, cons_append, wellFormed, if_neg pair, ← cons_append, ih, wellFormed, if_neg pair, cons_append]

theorem encode_eq_iff (one other : JsString) : encode one = encode other ↔ wellFormed one = wellFormed other := by
  refine ⟨fun same => ?_, fun same => ?_⟩
  · rw [← decode_encode, same, decode_encode]
  · rw [← encode_wellFormed, same, encode_wellFormed]

end Remnic.Text.Utf8Encode
