import Remnic.Library.AppendNew

/-!
Finite sets that keep the order of insertion, as a list without repetition. An
item that is inserted again keeps its first place.
-/

namespace Remnic.Library.InsertionSet

open AppendNew

structure OrderedSet (Item : Type) where
  items : List Item
  once : items.Nodup
  deriving DecidableEq

variable {Item : Type}

instance : Membership Item (OrderedSet Item) := ⟨fun set item => item ∈ set.items⟩

def OrderedSet.empty : OrderedSet Item := ⟨[], List.nodup_nil⟩

variable (set : OrderedSet Item) (items : List Item) (item : Item)

theorem mem_items : item ∈ set.items ↔ item ∈ set := Iff.rfl

@[simp] theorem not_mem_empty : item ∉ (OrderedSet.empty : OrderedSet Item) := List.not_mem_nil

variable [DecidableEq Item]

instance (item : Item) (set : OrderedSet Item) : Decidable (item ∈ set) := inferInstanceAs (Decidable (item ∈ set.items))

def OrderedSet.addAll (set : OrderedSet Item) (items : List Item) : OrderedSet Item :=
  ⟨appendNew set.items items, nodup_appendNew set.once items⟩

def OrderedSet.add (set : OrderedSet Item) (item : Item) : OrderedSet Item := set.addAll [item]

def OrderedSet.deleteAll (set : OrderedSet Item) (items : List Item) : OrderedSet Item :=
  ⟨set.items.filter (· ∉ items), set.once.filter _⟩

def OrderedSet.delete (set : OrderedSet Item) (item : Item) : OrderedSet Item := set.deleteAll [item]

@[simp] theorem mem_addAll : item ∈ set.addAll items ↔ item ∈ set ∨ item ∈ items := mem_appendNew set.items items item

@[simp] theorem mem_add {added item : Item} : item ∈ set.add added ↔ item ∈ set ∨ item = added := by
  rw [OrderedSet.add, mem_addAll, List.mem_singleton]

@[simp] theorem mem_deleteAll : item ∈ set.deleteAll items ↔ item ∈ set ∧ item ∉ items := by
  rw [← mem_items, OrderedSet.deleteAll, List.mem_filter, decide_eq_true_iff]
  exact Iff.rfl

@[simp] theorem mem_delete {deleted item : Item} : item ∈ set.delete deleted ↔ item ∈ set ∧ item ≠ deleted := by
  rw [OrderedSet.delete, mem_deleteAll, List.mem_singleton]

theorem addAll_empty {items : List Item} (once : items.Nodup) : OrderedSet.empty.addAll items = ⟨items, once⟩ := by
  simp only [OrderedSet.addAll, OrderedSet.empty, appendNew_eq_append [] (by simpa using once), List.nil_append]

end Remnic.Library.InsertionSet
