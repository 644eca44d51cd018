import Mathlib.Data.List.Induction

/-!
The last item of a list that meets a test, as the writer that wins when later
items overwrite earlier ones, and its place in a sorted list.
-/

namespace Remnic.Library.Newest

open List

variable {Item : Type} {test : Item → Bool} {items : List Item} {item : Item}

def newest (test : Item → Bool) (items : List Item) : Option Item := items.reverse.find? test

@[simp] theorem newest_nil : newest test [] = none := rfl

theorem newest_append_singleton (items : List Item) (item : Item) :
    newest test (items ++ [item]) = if test item then some item else newest test items := by
  unfold newest
  rw [reverse_append, reverse_singleton, singleton_append]
  by_cases met : test item = true
  · rw [find?_cons_of_pos met, if_pos met]
  · rw [find?_cons_of_neg met, if_neg met]

theorem newest_eq_some (found : newest test items = some item) : item ∈ items ∧ test item = true :=
  ⟨mem_reverse.mp (mem_of_find?_eq_some found), find?_some found⟩

theorem newest_eq_none_iff : newest test items = none ↔ ∀ item ∈ items, test item = false := by
  simp [newest]

theorem newest_sorted {Below : Item → Item → Prop} (refl : ∀ item, Below item item) (sorted : items.Pairwise Below)
    (found : newest test items = some item) : ∀ other ∈ items, test other = true → Below other item := by
  induction items using List.reverseRecOn with
  | nil => exact nofun
  | append_singleton items last ih =>
    obtain ⟨before, _, past⟩ := pairwise_append.mp sorted
    rw [newest_append_singleton] at found
    intro other listed met
    split_ifs at found with lastMet
    · cases found
      rcases mem_append.mp listed with earlier | same
      · exact past other earlier item (mem_singleton_self item)
      · exact mem_singleton.mp same ▸ refl _
    · rcases mem_append.mp listed with earlier | same
      · exact ih before found other earlier met
      · exact absurd (mem_singleton.mp same ▸ met) lastMet

end Remnic.Library.Newest
