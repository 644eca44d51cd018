import Remnic.Library.OrderedMap

/-!
Operations on many rows of a map at once: the rows that meet a condition are kept, the rows
of some keys are erased, the rows of another map are written over.
-/

namespace Remnic.Library.OrderedMap

open List

variable {Key Value : Type}

def keep (map : OrderedMap Key Value) (wanted : Key → Value → Bool) : OrderedMap Key Value :=
  map.filterMap fun key value => if wanted key value then some value else none

variable {wanted : Key → Value → Bool} (map : OrderedMap Key Value)

theorem entries_keep (wanted : Key → Value → Bool) :
    (map.keep wanted).entries = map.entries.filter fun entry => wanted entry.1 entry.2 := by
  show (map.entries.filterMap fun entry => (if wanted entry.1 entry.2 then some entry.2 else none).map (Prod.mk entry.1)) = _
  rw [← filterMap_eq_filter]
  refine filterMap_congr fun entry _ => ?_
  cases kept : wanted entry.1 entry.2 <;> simp [Option.guard, kept]

theorem countP_keep {map : OrderedMap Key Value} {counted : Key × Value → Bool}
    (kept : ∀ entry, counted entry = true → wanted entry.1 entry.2 = true) :
    (map.keep wanted).entries.countP counted = map.entries.countP counted := by
  rw [entries_keep, countP_filter]
  refine countP_congr fun entry _ => ?_
  rw [Bool.and_eq_true]
  exact ⟨And.left, fun met => ⟨met, kept entry met⟩⟩

variable [DecidableEq Key]

def eraseAll (map : OrderedMap Key Value) (keys : List Key) : OrderedMap Key Value := keys.foldl erase map

/-- The rows of both maps, those of the second one first. -/
def overwrite (map other : OrderedMap Key Value) : OrderedMap Key Value :=
  other.entries.foldl (fun merged entry => merged.set entry.1 entry.2) map

@[simp] theorem lookup_keep {wanted : Key → Value → Bool} {key : Key} :
    (map.keep wanted).lookup key = (map.lookup key).filter (wanted key) := by
  rw [keep, lookup_filterMap]
  cases map.lookup key with
  | none => rfl
  | some value => cases kept : wanted key value <;> simp [kept, Option.filter]

theorem lookup_keep_eq_some {map : OrderedMap Key Value} {key : Key} {value : Value} :
    (map.keep wanted).lookup key = some value ↔ map.lookup key = some value ∧ wanted key value = true := by
  rw [lookup_keep, Option.filter_eq_some_iff]

theorem lookup_eraseAll (keys : List Key) (key : Key) :
    (map.eraseAll keys).lookup key = if key ∈ keys then none else map.lookup key := by
  unfold eraseAll
  induction keys generalizing map with
  | nil => simp
  | cons first rest ih =>
    rw [foldl_cons, ih, lookup_erase]
    by_cases same : key = first <;> simp [same]

theorem lookup_foldl_rows {Item : Type} {step : OrderedMap Key Value → Key × Item → OrderedMap Key Value}
    (outcome : Key → Item → Option Value → Option Value)
    (rows : ∀ map entry key, (step map entry).lookup key =
      if key = entry.1 then outcome entry.1 entry.2 (map.lookup key) else map.lookup key)
    (items : OrderedMap Key Item) (map : OrderedMap Key Value) (key : Key) :
    (items.entries.foldl step map).lookup key =
      (items.lookup key).elim (map.lookup key) fun item => outcome key item (map.lookup key) := by
  obtain ⟨entries, once⟩ := items
  show (entries.foldl step map).lookup key =
    ((entries.find? fun entry => entry.1 = key).map Prod.snd).elim (map.lookup key) fun item => outcome key item (map.lookup key)
  induction entries generalizing map with
  | nil => rfl
  | cons entry entries ih =>
    rw [map_cons, nodup_cons] at once
    rw [foldl_cons, ih _ once.2, find?_cons]
    by_cases same : entry.1 = key
    · have absent : entries.find? (fun entry => entry.1 = key) = none := by
        rw [find?_eq_none]
        intro later member found
        exact once.1 (same ▸ of_decide_eq_true found ▸ mem_map_of_mem member)
      simp [absent, same, rows]
    · simp [same, rows, Ne.symm same]

theorem lookup_overwrite (other : OrderedMap Key Value) (key : Key) :
    (map.overwrite other).lookup key = (other.lookup key).or (map.lookup key) := by
  rw [overwrite, lookup_foldl_rows (fun _ value _ => some value) fun map entry key => lookup_set map entry.1 key entry.2]
  cases other.lookup key <;> rfl

theorem contains_iff (key : Key) : map.contains key = true ↔ ∃ value, map.lookup key = some value := by
  rw [contains, Option.isSome_iff_exists]

end Remnic.Library.OrderedMap
