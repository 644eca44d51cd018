import Remnic.Text.CodeUnits

/-!
UTF-8 as it is decoded where what is not valid is replaced.
-/

namespace Remnic.Text.Utf8

open CodeUnits List

abbrev Byte := Fin 256

/-- A sequence that is not complete: how many bytes it lacks, the range of the next one, and its bits. -/
structure Sequence where
  needed : Nat
  lower : Nat
  upper : Nat
  point : Nat

def replacement : CodeUnit := unit 0xFFFD

/-- A byte between sequences is a unit of its own or begins a sequence. -/
def begin (byte : Byte) : JsString × Option Sequence :=
  let b := byte.val
  if b < 0x80 then ([unit b], none)
  else if 0xC2 ≤ b ∧ b ≤ 0xDF then ([], some ⟨1, 0x80, 0xBF, b % 0x20⟩)
  else if 0xE0 ≤ b ∧ b ≤ 0xEF then
    ([], some ⟨2, if b = 0xE0 then 0xA0 else 0x80, if b = 0xED then 0x9F else 0xBF, b % 0x10⟩)
  else if 0xF0 ≤ b ∧ b ≤ 0xF4 then
    ([], some ⟨3, if b = 0xF0 then 0x90 else 0x80, if b = 0xF4 then 0x8F else 0xBF, b % 0x08⟩)
  else ([replacement], none)

def pointUnits (point : Nat) : JsString :=
  if point < 0x10000 then [unit point] else [unit (0xD800 + (point - 0x10000) / 0x400), unit (0xDC00 + (point - 0x10000) % 0x400)]

/-- A byte that a sequence cannot go on with begins anew, after a replacement for the sequence. -/
def decodeFrom : Option Sequence → List Byte → JsString
  | none, [] => []
  | some _, [] => [replacement]
  | none, byte :: rest => (begin byte).1 ++ decodeFrom (begin byte).2 rest
  | some sequence, byte :: rest =>
      if sequence.lower ≤ byte.val ∧ byte.val ≤ sequence.upper then
        let point := sequence.point * 0x40 + byte.val % 0x40
        if sequence.needed = 1 then pointUnits point ++ decodeFrom none rest
        else decodeFrom (some ⟨sequence.needed - 1, 0x80, 0xBF, point⟩) rest
      else replacement :: (begin byte).1 ++ decodeFrom (begin byte).2 rest

def decode (bytes : List Byte) : JsString := decodeFrom none bytes

theorem decode_ascii {bytes : List Byte} (ascii : ∀ byte ∈ bytes, byte.val < 0x80) : decode bytes = bytes.map fun byte => unit byte.val := by
  unfold decode
  induction bytes with
  | nil => rfl
  | cons byte rest ih =>
    have single : begin byte = ([unit byte.val], none) := if_pos (ascii byte mem_cons_self)
    rw [decodeFrom, single, ih fun other member => ascii other (mem_cons_of_mem _ member)]
    rfl

theorem length_pointUnits (point : Nat) : (pointUnits point).length ≤ 2 := by
  unfold pointUnits
  split <;> simp

theorem length_begin (byte : Byte) : (begin byte).1.length + (begin byte).2.elim 0 (fun _ => 1) ≤ 1 := by
  unfold begin
  dsimp only
  split_ifs <;> simp

theorem length_decodeFrom (bytes : List Byte) (sequence : Option Sequence) :
    (decodeFrom sequence bytes).length ≤ bytes.length + sequence.elim 0 fun _ => 1 := by
  induction bytes generalizing sequence with
  | nil => cases sequence <;> simp [decodeFrom]
  | cons byte rest ih =>
    have start := length_begin byte
    have anew := ih (begin byte).2
    cases sequence with
    | none =>
      rw [decodeFrom, length_append, length_cons, Option.elim_none]
      omega
    | some sequence =>
      rw [decodeFrom]
      rw [Option.elim_some, length_cons]
      split_ifs with fits last
      · have whole := length_pointUnits (sequence.point * 0x40 + byte.val % 0x40)
        have rest := ih none
        rw [length_append]
        simp only [Option.elim_none] at rest
        omega
      · exact Nat.le_trans (ih _) (by simp)
      · rw [length_append, length_cons]
        omega

theorem length_decode_le (bytes : List Byte) : (decode bytes).length ≤ bytes.length := length_decodeFrom bytes none

theorem pointUnits_ne_nil (point : Nat) : pointUnits point ≠ [] := by
  unfold pointUnits
  split <;> simp

theorem decodeFrom_ne_nil (sequence : Sequence) (bytes : List Byte) : decodeFrom (some sequence) bytes ≠ [] := by
  induction bytes generalizing sequence with
  | nil => exact cons_ne_nil _ _
  | cons byte rest ih =>
    rw [decodeFrom]
    split_ifs
    · exact append_ne_nil_of_left_ne_nil (pointUnits_ne_nil _) _
    · exact ih _
    · exact cons_ne_nil _ _

theorem begin_ne_nil (byte : Byte) : (begin byte).1 ≠ [] ∨ ∃ sequence, (begin byte).2 = some sequence := by
  unfold begin
  dsimp only
  split_ifs <;> simp

theorem decode_ne_nil {bytes : List Byte} (nonempty : bytes ≠ []) : decode bytes ≠ [] := by
  obtain ⟨byte, rest, rfl⟩ := exists_cons_of_ne_nil nonempty
  rw [decode, decodeFrom]
  rcases begin_ne_nil byte with units | ⟨sequence, begun⟩
  · exact append_ne_nil_of_left_ne_nil units _
  · rw [begun]
    exact append_ne_nil_of_right_ne_nil _ (decodeFrom_ne_nil sequence rest)

end Remnic.Text.Utf8
