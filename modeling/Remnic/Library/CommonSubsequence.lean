import Mathlib.Data.List.Basic

/-!
Common subsequences of two lists, and how long they can be. The rules extend both lists at the end.
-/

namespace Remnic.Library.CommonSubsequence

open List

variable {Item : Type} {first second : List Item} {one other : Item} {length longer : Nat}

def IsCommon (common first second : List Item) : Prop := common.Sublist first ∧ common.Sublist second

def Bounds (length : Nat) (first second : List Item) : Prop := ∀ common, IsCommon common first second → common.length ≤ length

def IsLongest (length : Nat) (first second : List Item) : Prop :=
  (∃ common, IsCommon common first second ∧ common.length = length) ∧ Bounds length first second

theorem isLongest_nil_left (second : List Item) : IsLongest 0 [] second :=
  ⟨⟨[], ⟨Sublist.refl _, nil_sublist _⟩, rfl⟩, fun _ common => common.1.length_le⟩

theorem isLongest_nil_right (first : List Item) : IsLongest 0 first [] :=
  ⟨⟨[], ⟨nil_sublist _, Sublist.refl _⟩, rfl⟩, fun _ common => common.2.length_le⟩

theorem sublist_concat {items : List Item} (sub : items.Sublist (first ++ [one])) :
    items.Sublist first ∨ ∃ front, items = front ++ [one] ∧ front.Sublist first := by
  obtain ⟨front, back, rfl, inFront, inBack⟩ := sublist_append_iff.mp sub
  cases back with
  | nil => exact .inl (by simpa using inFront)
  | cons item back =>
    obtain ⟨rfl, rfl⟩ : item = one ∧ back = [] := by
      have few := inBack.length_le
      have same := inBack.subset mem_cons_self
      simp only [length_cons, length_nil, Nat.add_le_add_iff_right, Nat.le_zero, length_eq_zero_iff] at few
      exact ⟨mem_singleton.mp same, few⟩
    exact .inr ⟨front, rfl, inFront⟩

theorem IsLongest.concat (longest : IsLongest length first second) (item : Item) :
    IsLongest (length + 1) (first ++ [item]) (second ++ [item]) := by
  obtain ⟨⟨common, ⟨inFirst, inSecond⟩, rfl⟩, bound⟩ := longest
  refine ⟨⟨common ++ [item], ⟨inFirst.append (Sublist.refl _), inSecond.append (Sublist.refl _)⟩, by simp⟩, ?_⟩
  intro other common
  rcases sublist_concat common.1 with inFirst | ⟨front, rfl, inFirst⟩
  · rcases sublist_concat common.2 with inSecond | ⟨front, rfl, inSecond⟩
    · exact Nat.le_succ_of_le (bound other ⟨inFirst, inSecond⟩)
    · rw [length_append]
      exact Nat.succ_le_succ (bound front ⟨(sublist_append_left _ _).trans inFirst, inSecond⟩)
  · rw [length_append]
    refine Nat.succ_le_succ (bound front ⟨inFirst, ?_⟩)
    rcases sublist_concat common.2 with inSecond | ⟨rest, same, inSecond⟩
    · exact (sublist_append_left _ _).trans inSecond
    · rwa [(append_inj_left' same rfl)]

theorem IsLongest.concat_of_ne (different : one ≠ other) (left : IsLongest length first (second ++ [other]))
    (right : IsLongest longer (first ++ [one]) second) : IsLongest (max length longer) (first ++ [one]) (second ++ [other]) := by
  refine ⟨?_, fun items common => ?_⟩
  · obtain ⟨⟨common, inLeft, rfl⟩, -⟩ := left
    obtain ⟨⟨same, inRight, rfl⟩, -⟩ := right
    rcases Nat.le_total common.length same.length with order | order
    · exact ⟨same, ⟨inRight.1, inRight.2.trans (sublist_append_left _ _)⟩, (Nat.max_eq_right order).symm⟩
    · exact ⟨common, ⟨inLeft.1.trans (sublist_append_left _ _), inLeft.2⟩, (Nat.max_eq_left order).symm⟩
  · rcases sublist_concat common.1 with inFirst | ⟨front, rfl, inFirst⟩
    · exact Nat.le_trans (left.2 items ⟨inFirst, common.2⟩) (Nat.le_max_left _ _)
    · rcases sublist_concat common.2 with inSecond | ⟨rest, same, _⟩
      · exact Nat.le_trans (right.2 _ ⟨common.1, inSecond⟩) (Nat.le_max_right _ _)
      · exact absurd (append_inj_right' same rfl) (by simpa using different)

theorem sublist_after_first [DecidableEq Item] {common items : List Item} (sub : (one :: common).Sublist items) :
    ∃ rest, items.dropWhile (fun item => decide (item ≠ one)) = one :: rest ∧ common.Sublist rest := by
  induction items with
  | nil => cases sub
  | cons item items ih =>
    by_cases found : item = one
    · subst found
      exact ⟨items, dropWhile_cons_of_neg (by simp), cons_sublist_cons.mp sub⟩
    · rw [dropWhile_cons_of_pos (by simpa using found)]
      cases sub with
      | cons _ sub => exact ih sub
      | cons_cons _ sub => exact absurd rfl found

end Remnic.Library.CommonSubsequence
