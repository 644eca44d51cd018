import Mathlib.Data.List.Sort
import Mathlib.Data.List.Lex
import Mathlib.Tactic.Linarith

/-!
Finite maps that remember the order in which their keys first arrived. Writing
a key that is present keeps its position, erasing it forgets the position, and
the entry list carries the proof that no key occurs twice.
-/

namespace Remnic.Library

open List

/-- An insertion-ordered map with at most one entry for each key. -/
structure OrderedMap (Key Value : Type) where
  entries : List (Key × Value)
  keysNodup : (entries.map Prod.fst).Nodup
deriving DecidableEq

namespace OrderedMap

variable {Key Value : Type}

def keys (map : OrderedMap Key Value) : List Key := map.entries.map Prod.fst

def empty : OrderedMap Key Value := ⟨[], nodup_nil⟩

@[simp] theorem entries_empty : (empty : OrderedMap Key Value).entries = [] := rfl

@[ext] theorem ext_entries (first second : OrderedMap Key Value) (same : first.entries = second.entries) :
    first = second := by
  cases first
  cases second
  cases same
  rfl

variable [DecidableEq Key]

def lookup (map : OrderedMap Key Value) (key : Key) : Option Value :=
  (map.entries.find? (fun entry => entry.1 = key)).map Prod.snd

def contains (map : OrderedMap Key Value) (key : Key) : Bool := (map.lookup key).isSome

/-- Overwrite in place, or append a key that was absent. -/
def assign (entries : List (Key × Value)) (key : Key) (value : Value) : List (Key × Value) :=
  if key ∈ entries.map Prod.fst then
    entries.map (fun entry => if entry.1 = key then (key, value) else entry)
  else entries ++ [(key, value)]

variable (map : OrderedMap Key Value) (entries : List (Key × Value)) (key other : Key) (value : Value)

private theorem fst_overwrite :
    (entries.map (fun entry => if entry.1 = key then (key, value) else entry)).map Prod.fst =
      entries.map Prod.fst := by
  rw [map_map]
  apply map_congr_left
  intro entry _
  by_cases same : entry.1 = key
  · simp only [Function.comp_apply, same, if_true]
  · simp only [Function.comp_apply, if_neg same]

theorem assign_nodup (distinct : (entries.map Prod.fst).Nodup) : ((assign entries key value).map Prod.fst).Nodup := by
  unfold assign
  split_ifs with known
  · rw [fst_overwrite]
    exact distinct
  · rw [map_append, nodup_append]
    refine ⟨distinct, by simp, ?_⟩
    intro old present new isNew same
    simp only [map_cons, map_nil, mem_singleton] at isNew
    exact known (isNew ▸ same ▸ present)

def set (map : OrderedMap Key Value) (key : Key) (value : Value) : OrderedMap Key Value :=
  ⟨assign map.entries key value, assign_nodup map.entries key value map.keysNodup⟩

def erase (map : OrderedMap Key Value) (key : Key) : OrderedMap Key Value :=
  ⟨map.entries.filter (fun entry => entry.1 ≠ key),
    (filter_sublist.map Prod.fst).nodup map.keysNodup⟩

@[simp] theorem lookup_empty : (empty : OrderedMap Key Value).lookup key = none := rfl

theorem lookup_eq_some_iff : map.lookup key = some value ↔ (key, value) ∈ map.entries := by
  constructor
  · intro found
    obtain ⟨entry, located, rfl⟩ := Option.map_eq_some_iff.mp found
    have sameKey : entry.1 = key := by simpa using find?_some located
    rw [← sameKey]
    exact mem_of_find?_eq_some located
  · intro present
    have hit : (map.entries.find? (fun entry => entry.1 = key)).isSome := by
      rw [find?_isSome]
      exact ⟨(key, value), present, by simp⟩
    obtain ⟨entry, located⟩ := Option.isSome_iff_exists.mp hit
    have sameKey : entry.1 = key := by simpa using find?_some located
    have same : entry = (key, value) :=
      inj_on_of_nodup_map map.keysNodup (mem_of_find?_eq_some located) present sameKey
    rw [lookup, located, same, Option.map_some]

theorem lookup_eq_none_iff : map.lookup key = none ↔ key ∉ map.keys := by
  rw [lookup, Option.map_eq_none_iff, find?_eq_none, keys, mem_map]
  constructor
  · rintro absent ⟨entry, present, rfl⟩
    exact absent entry present (by simp)
  · intro absent entry present sameKey
    exact absent ⟨entry, present, by simpa using sameKey⟩

theorem mem_keys_iff : key ∈ map.keys ↔ ∃ value, map.lookup key = some value := by
  rw [← Option.isSome_iff_exists, ← not_iff_not, Option.not_isSome_iff_eq_none, lookup_eq_none_iff]

theorem entries_set_fresh (fresh : map.lookup key = none) : (map.set key value).entries = map.entries ++ [(key, value)] := by
  have absent := (lookup_eq_none_iff map key).mp fresh
  simp only [set, assign]
  exact if_neg absent

theorem lookup_set_self : (map.set key value).lookup key = some value := by
  rw [lookup_eq_some_iff]
  simp only [set, assign]
  split_ifs with known
  · obtain ⟨entry, present, sameKey⟩ := mem_map.mp known
    exact mem_map.mpr ⟨entry, present, if_pos sameKey⟩
  · exact mem_append_right _ (mem_singleton_self _)

theorem lookup_set_of_ne (different : other ≠ key) : (map.set key value).lookup other = map.lookup other := by
  apply Option.ext
  intro found
  rw [lookup_eq_some_iff, lookup_eq_some_iff]
  simp only [set, assign]
  split_ifs with known
  · constructor
    · intro present
      obtain ⟨entry, member, rewritten⟩ := mem_map.mp present
      by_cases sameKey : entry.1 = key
      · rw [if_pos sameKey] at rewritten
        exact absurd (congrArg Prod.fst rewritten).symm different
      · rw [if_neg sameKey] at rewritten
        exact rewritten ▸ member
    · intro present
      exact mem_map.mpr ⟨(other, found), present, if_neg different⟩
  · rw [mem_append, mem_singleton]
    constructor
    · rintro (present | added)
      · exact present
      · exact absurd (congrArg Prod.fst added) different
    · exact Or.inl

theorem lookup_set : (map.set key value).lookup other = if other = key then some value else map.lookup other := by
  split_ifs with same
  · rw [same, lookup_set_self]
  · exact lookup_set_of_ne map key other value same

theorem lookup_erase : (map.erase key).lookup other = if other = key then none else map.lookup other := by
  apply Option.ext
  intro found
  rw [lookup_eq_some_iff]
  simp only [erase, mem_filter, decide_eq_true_eq]
  split_ifs with same
  · simp [same]
  · rw [lookup_eq_some_iff]
    exact and_iff_left same

theorem set_held {map : OrderedMap Key Value} {key : Key} {value : Value} (held : map.lookup key = some value) :
    map.set key value = map := by
  apply ext_entries
  have known : key ∈ map.entries.map Prod.fst := (mem_keys_iff map key).mpr ⟨value, held⟩
  have entries : (map.set key value).entries = assign map.entries key value := rfl
  rw [entries, assign, if_pos known]
  refine (map_congr_left fun entry member => ?_).trans (map_id _)
  split
  next same =>
    have found := (lookup_eq_some_iff map entry.1 entry.2).mpr member
    rw [same, held] at found
    exact Prod.ext same.symm (Option.some.inj found)
  next different => rfl

theorem erase_absent {map : OrderedMap Key Value} {key : Key} (absent : map.lookup key = none) : map.erase key = map := by
  apply ext_entries
  refine filter_eq_self.mpr fun entry member => decide_eq_true fun same => ?_
  have known : key ∈ map.entries.map Prod.fst := same ▸ mem_map_of_mem member
  exact (lookup_eq_none_iff map key).mp absent known

theorem mem_values_iff : value ∈ map.entries.map Prod.snd ↔ ∃ key, map.lookup key = some value := by
  rw [mem_map]
  constructor
  · rintro ⟨⟨key, held⟩, present, rfl⟩
    exact ⟨key, (lookup_eq_some_iff map key held).mpr present⟩
  · rintro ⟨key, found⟩
    exact ⟨(key, value), (lookup_eq_some_iff map key value).mp found, rfl⟩

/-- Every entry is kept with a new value, or erased. -/
def filterMap (map : OrderedMap Key Value) (change : Key → Value → Option Value) : OrderedMap Key Value :=
  ⟨map.entries.filterMap fun entry => (change entry.1 entry.2).map (Prod.mk entry.1), by
    have sub : ∀ entries : List (Key × Value),
        ((entries.filterMap fun entry => (change entry.1 entry.2).map (Prod.mk entry.1)).map Prod.fst).Sublist
          (entries.map Prod.fst) := by
      intro entries
      induction entries with
      | nil => exact Sublist.refl _
      | cons entry entries ih =>
        rw [filterMap_cons]
        cases change entry.1 entry.2 with
        | none => exact ih.cons entry.1
        | some value => exact ih.cons_cons entry.1
    exact (sub map.entries).nodup map.keysNodup⟩

theorem lookup_filterMap (change : Key → Value → Option Value) (key : Key) :
    (map.filterMap change).lookup key = (map.lookup key).bind (change key) := by
  apply Option.ext
  intro value
  rw [lookup_eq_some_iff, Option.bind_eq_some_iff]
  show (key, value) ∈ map.entries.filterMap _ ↔ _
  rw [mem_filterMap]
  constructor
  · rintro ⟨entry, member, changed⟩
    obtain ⟨new, found, same⟩ := Option.map_eq_some_iff.mp changed
    cases same
    exact ⟨entry.2, (lookup_eq_some_iff map entry.1 entry.2).mpr member, found⟩
  · rintro ⟨old, held, changed⟩
    exact ⟨(key, old), (lookup_eq_some_iff map key old).mp held, congrArg (Option.map (Prod.mk key)) changed⟩

end OrderedMap

end Remnic.Library
