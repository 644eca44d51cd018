import Mathlib.Data.List.Count
import Mathlib.Data.List.Nodup

/-!
Lists that are kept free of repetition by appending only what is new, in the
order of arrival. Together with multiset difference (`List.diff`) these are the
operations of a merge by identity.
-/

namespace Remnic.Library.AppendNew

open List

variable {Item : Type} [DecidableEq Item]

def appendNew (existing incoming : List Item) : List Item :=
  incoming.foldl (fun merged item => if item ∈ merged then merged else merged ++ [item]) existing

variable {removed items : List Item} (existing incoming : List Item) (item : Item)

@[simp] theorem appendNew_nil : appendNew existing [] = existing := rfl

theorem appendNew_cons :
    appendNew existing (item :: incoming) =
      appendNew (if item ∈ existing then existing else existing ++ [item]) incoming := rfl

@[simp] theorem mem_appendNew : item ∈ appendNew existing incoming ↔ item ∈ existing ∨ item ∈ incoming := by
  induction incoming generalizing existing with
  | nil => simp
  | cons head incoming ih =>
    rw [appendNew_cons, ih, mem_cons]
    by_cases listed : head ∈ existing
    · rw [if_pos listed]
      by_cases same : item = head
      · simp [same, listed]
      · simp [same]
    · rw [if_neg listed, mem_append, mem_singleton, or_assoc]

theorem sublist_appendNew : existing.Sublist (appendNew existing incoming) := by
  induction incoming generalizing existing with
  | nil => exact Sublist.refl existing
  | cons head incoming ih =>
    rw [appendNew_cons]
    by_cases listed : head ∈ existing
    · rw [if_pos listed]
      exact ih existing
    · rw [if_neg listed]
      exact (sublist_append_left existing [head]).trans (ih _)

theorem nodup_appendNew {existing : List Item} (once : existing.Nodup) (incoming : List Item) :
    (appendNew existing incoming).Nodup := by
  induction incoming generalizing existing with
  | nil => exact once
  | cons head incoming ih =>
    rw [appendNew_cons]
    apply ih
    by_cases listed : head ∈ existing
    · rwa [if_pos listed]
    · rw [if_neg listed]
      exact once.append (nodup_singleton head) (by simpa using listed)

theorem length_appendNew_le : (appendNew existing incoming).length ≤ existing.length + incoming.length := by
  induction incoming generalizing existing with
  | nil => exact Nat.le_refl _
  | cons head incoming ih =>
    rw [appendNew_cons]
    have shorter := ih (if head ∈ existing then existing else existing ++ [head])
    rw [length_cons]
    by_cases listed : head ∈ existing
    · rw [if_pos listed] at shorter ⊢
      omega
    · rw [if_neg listed] at shorter ⊢
      rw [length_append, length_singleton] at shorter
      omega

theorem exists_sublist_appendNew : ∃ new, new.Sublist incoming ∧ appendNew existing incoming = existing ++ new := by
  induction incoming generalizing existing with
  | nil => exact ⟨[], Sublist.refl _, (append_nil existing).symm⟩
  | cons head incoming ih =>
    rw [appendNew_cons]
    by_cases listed : head ∈ existing
    · obtain ⟨new, part, whole⟩ := ih existing
      rw [if_pos listed]
      exact ⟨new, part.cons _, whole⟩
    · obtain ⟨new, part, whole⟩ := ih (existing ++ [head])
      rw [if_neg listed]
      exact ⟨head :: new, part.cons_cons _, by rw [whole, append_assoc]; rfl⟩

theorem appendNew_eq_append {incoming : List Item} (once : (existing ++ incoming).Nodup) :
    appendNew existing incoming = existing ++ incoming := by
  induction incoming generalizing existing with
  | nil => exact (append_nil existing).symm
  | cons head incoming ih =>
    have fresh : head ∉ existing := fun listed => (nodup_append'.mp once).2.2 listed mem_cons_self
    have regrouped : existing ++ head :: incoming = (existing ++ [head]) ++ incoming := by simp
    rw [appendNew_cons, if_neg fresh, regrouped]
    exact ih _ (regrouped ▸ once)

theorem mem_diff_iff_count (items removed : List Item) (item : Item) :
    item ∈ items.diff removed ↔ removed.count item < items.count item := by
  rw [← count_pos_iff, count_diff]
  omega

theorem mem_diff_of_not_mem {item : Item} (fresh : item ∉ removed) : item ∈ items.diff removed ↔ item ∈ items :=
  ⟨fun member => diff_subset _ _ member, fun member => mem_diff_of_mem member fresh⟩

theorem diff_eq_self_of_disjoint (apart : items.Disjoint removed) : items.diff removed = items := by
  induction removed with
  | nil => rfl
  | cons head removed ih =>
    have parts := disjoint_cons_right.mp apart
    rw [diff_cons, erase_of_not_mem parts.1, ih parts.2]

end Remnic.Library.AppendNew
