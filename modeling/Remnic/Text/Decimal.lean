import Remnic.Text.JsonText

/-!
Whole numbers in decimal, as a number is printed and read back.
-/

namespace Remnic.Text.Decimal

open CodeUnits JsonText List

def decimal (value : Nat) : JsString := text (toString value)

/-- `parseInt` of a string of digits. -/
def readDecimal (digits : JsString) : Nat := digits.foldl (fun value c => 10 * value + (c.val - 0x30)) 0

private theorem digit_toNat {c : Char} (digit : c.isDigit = true) : 48 ≤ c.toNat ∧ c.toNat ≤ 57 := by
  simp only [Char.isDigit, Bool.and_eq_true, decide_eq_true_eq] at digit
  exact ⟨digit.1, digit.2⟩

private theorem digits_toDigits (value : Nat) : ∀ c ∈ Nat.toDigits 10 value, 48 ≤ c.toNat ∧ c.toNat ≤ 57 :=
  fun _ member => digit_toNat (Nat.isDigit_of_mem_toDigits (by decide) (by decide) member)

theorem decimal_eq (value : Nat) : decimal value = (Nat.toDigits 10 value).map fun c => unit c.toNat := by
  have plain : ∀ digits : List Char, (∀ c ∈ digits, 48 ≤ c.toNat ∧ c.toNat ≤ 57) →
      digits.flatMap encodeChar = digits.map fun c => unit c.toNat := by
    intro digits ascii
    induction digits with
    | nil => rfl
    | cons c digits ih =>
      have small := ascii c mem_cons_self
      rw [flatMap_cons, map_cons, ih fun other member => ascii other (mem_cons_of_mem _ member), encodeChar,
        if_pos (by omega), singleton_append]
  unfold decimal text
  rw [Nat.toString_eq_ofList_toDigits, String.toList_ofList]
  exact plain _ (digits_toDigits value)

theorem isDigit_of_mem_decimal {value : Nat} {c : CodeUnit} (member : c ∈ decimal value) : isDigit c = true := by
  rw [decimal_eq] at member
  obtain ⟨digit, listed, rfl⟩ := mem_map.mp member
  obtain ⟨least, most⟩ := digits_toDigits value digit listed
  have small : (unit digit.toNat).val = digit.toNat := Nat.mod_eq_of_lt (by omega)
  rw [isDigit, small, Bool.and_eq_true]
  exact ⟨decide_eq_true least, decide_eq_true most⟩

theorem decimal_ne_nil (value : Nat) : decimal value ≠ [] := by
  rw [decimal_eq]
  exact fun empty => Nat.toDigits_ne_nil (map_eq_nil_iff.mp empty)

theorem readDecimal_decimal (value : Nat) : readDecimal (decimal value) = value := by
  have same : ∀ (digits : List Char) (start : Nat), (∀ c ∈ digits, 48 ≤ c.toNat ∧ c.toNat ≤ 57) →
      (digits.map fun c => unit c.toNat).foldl (fun value c => 10 * value + (c.val - 0x30)) start = Nat.ofDigitChars 10 digits start := by
    intro digits
    induction digits with
    | nil => exact fun start _ => (Nat.ofDigitChars_nil).symm
    | cons c digits ih =>
      intro start ascii
      have small : (unit c.toNat).val = c.toNat := Nat.mod_eq_of_lt (by have := ascii c mem_cons_self; omega)
      rw [map_cons, foldl_cons, ih _ fun other member => ascii other (mem_cons_of_mem _ member), small,
        Nat.ofDigitChars_cons]
      rfl
  rw [decimal_eq, readDecimal, same _ 0 (digits_toDigits value), Nat.ofDigitChars_ten_toDigits]

end Remnic.Text.Decimal
