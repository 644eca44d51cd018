import Mathlib.Data.List.Induction
import Mathlib.Data.List.Perm.Basic
import Remnic.Library.OrderedMap

/-!
Items gathered into groups by a key, the groups in the order in which their keys first
arrive and the items of a group in their own order.
-/

namespace Remnic.Library.Grouping

open List Option

variable {Item Key Group : Type} [DecidableEq Key]

def place (key : Item → Key) (create : Item → Group) (push : Group → Item → Group) (groups : OrderedMap Key Group) (item : Item) :
    OrderedMap Key Group :=
  groups.set (key item) ((groups.lookup (key item)).elim (create item) (push · item))

def groupBy (key : Item → Key) (create : Item → Group) (push : Group → Item → Group) (items : List Item) : OrderedMap Key Group :=
  items.foldl (place key create push) OrderedMap.empty

def gather (create : Item → Group) (push : Group → Item → Group) : List Item → Option Group
  | [] => none
  | first :: rest => some (rest.foldl push (create first))

variable {key : Item → Key} {create : Item → Group} {push : Group → Item → Group}

theorem gather_append_singleton (items : List Item) (item : Item) :
    gather create push (items ++ [item]) = some ((gather create push items).elim (create item) (push · item)) := by
  cases items with
  | nil => rfl
  | cons first rest => simp [gather]

theorem groupBy_append_singleton (items : List Item) (item : Item) :
    groupBy key create push (items ++ [item]) = place key create push (groupBy key create push items) item :=
  foldl_concat _ _ _ _

theorem lookup_groupBy (items : List Item) (wanted : Key) :
    (groupBy key create push items).lookup wanted = gather create push (items.filter fun item => key item = wanted) := by
  induction items using List.reverseRecOn with
  | nil => rfl
  | append_singleton items item ih =>
    rw [groupBy_append_singleton, place, OrderedMap.lookup_set, filter_append]
    by_cases same : wanted = key item
    · subst same
      rw [if_pos rfl, ih, filter_singleton, decide_eq_true rfl, cond_true, gather_append_singleton]
    · rw [if_neg same, ih, filter_singleton, decide_eq_false (Ne.symm same), cond_false, append_nil]

variable {group : Group} (items : Group → List Item)

theorem items_gather (created : ∀ item, items (create item) = [item])
    (pushed : ∀ group item, items (push group item) = items group ++ [item]) {members : List Item}
    (gathered : gather create push members = some group) : items group = members := by
  induction members using List.reverseRecOn generalizing group with
  | nil => cases gathered
  | append_singleton members item ih =>
    rw [gather_append_singleton] at gathered
    cases some.inj gathered
    cases before : gather create push members with
    | none =>
      cases members with
      | nil => exact created item
      | cons => cases before
    | some group => rw [elim_some, pushed, ih before]

theorem mark_gather {Mark : Type} (mark : Group → Mark) (pushed : ∀ group item, mark (push group item) = mark group)
    {first : Item} {rest : List Item} (gathered : gather create push (first :: rest) = some group) :
    mark group = mark (create first) := by
  cases some.inj gathered
  clear gathered
  induction rest using List.reverseRecOn with
  | nil => rfl
  | append_singleton rest item ih => rw [foldl_concat, pushed, ih]

theorem flatMap_assign_perm {wanted : Key} {before after : Group} {item : Item} (grown : items after = items before ++ [item])
    (entries : List (Key × Group)) (distinct : (entries.map Prod.fst).Nodup) (held : (wanted, before) ∈ entries) :
    ((entries.map fun entry => if entry.1 = wanted then (wanted, after) else entry).flatMap fun entry => items entry.2).Perm
      ((entries.flatMap fun entry => items entry.2) ++ [item]) := by
  induction entries with
  | nil => cases held
  | cons entry entries ih =>
    rw [map_cons, nodup_cons] at distinct
    rw [map_cons, flatMap_cons, flatMap_cons]
    by_cases same : entry.1 = wanted
    · have others : (entries.map fun other => if other.1 = wanted then (wanted, after) else other) = entries := by
        refine (map_congr_left fun other member => ?_).trans (map_id entries)
        have foreign : other.1 ≠ wanted := by
          intro again
          rw [same, ← again] at distinct
          exact distinct.1 (mem_map_of_mem member)
        exact if_neg foreign
      have first : entry = (wanted, before) := by
        rcases mem_cons.mp held with first | later
        · exact first.symm
        · exact absurd (same ▸ mem_map_of_mem later : entry.1 ∈ entries.map Prod.fst) distinct.1
      rw [if_pos same, others, first]
      show (items after ++ _).Perm _
      rw [grown, append_assoc, append_assoc]
      exact (perm_append_comm).append_left _
    · have later : (wanted, before) ∈ entries := by
        rcases mem_cons.mp held with first | later
        · exact absurd (congrArg Prod.fst first).symm same
        · exact later
      rw [if_neg same, append_assoc]
      exact (ih distinct.2 later).append_left _

theorem groupBy_perm (created : ∀ item, items (create item) = [item])
    (pushed : ∀ group item, items (push group item) = items group ++ [item]) (all : List Item) :
    ((groupBy key create push all).entries.flatMap fun entry => items entry.2).Perm all := by
  induction all using List.reverseRecOn with
  | nil => exact .nil
  | append_singleton all item ih =>
    rw [groupBy_append_singleton, place]
    refine Perm.trans ?_ (ih.append_right [item])
    cases found : (groupBy key create push all).lookup (key item) with
    | none =>
      rw [OrderedMap.entries_set_fresh _ _ _ found, flatMap_append, flatMap_singleton, elim_none, created]
    | some group =>
      have held := (OrderedMap.lookup_eq_some_iff _ _ _).mp found
      have known : key item ∈ (groupBy key create push all).entries.map Prod.fst := mem_map_of_mem held
      simp only [OrderedMap.set, OrderedMap.assign, if_pos known, elim_some]
      exact flatMap_assign_perm items (pushed group item) _ (groupBy key create push all).keysNodup held

end Remnic.Library.Grouping
