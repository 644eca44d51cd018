import Mathlib.Data.Finset.Card
import Remnic.Text.IsoDate

/-!
The records of the idempotency store: one entry for each key, of which the newest 512 are
retained.
-/

namespace Remnic.Idempotency.Records

open Library Text.CodeUnits Text.IsoDate List

variable {Response : Type}

/-- `AccessIdempotencyEntry`, with the time whose ISO text the source holds and compares. -/
structure AccessIdempotencyEntry (Response : Type) where
  recordedAt : Nat
  requestHash : JsString
  response : Response
  deriving DecidableEq, Repr

abbrev Entry (Response : Type) := JsString × AccessIdempotencyEntry Response

/-- The object under `this.state`, and the object that the state file holds. -/
abbrev State (Response : Type) := OrderedMap JsString (AccessIdempotencyEntry Response)

def retentionLimit : Nat := 512

/-- The number that a key spells if an object lists it among the indices. -/
def arrayIndex (key : JsString) : Option Nat :=
  if key ≠ [] ∧ key.all (fun c => 0x30 ≤ c.val ∧ c.val ≤ 0x39) ∧ (key = text "0" ∨ key.head? ≠ some (digit 0)) ∧
      number key < 4294967295 then some (number key).toNat
  else none

/-- `Object.entries`: the indices in ascending order, then the other keys as they arrived. -/
def objectEntries (state : State Response) : List (Entry Response) :=
  (state.entries.filter fun entry => (arrayIndex entry.1).isSome).insertionSort
      (fun left right => (arrayIndex left.1).getD 0 ≤ (arrayIndex right.1).getD 0) ++
    state.entries.filter fun entry => !(arrayIndex entry.1).isSome

def newestFirst (state : State Response) : List (Entry Response) :=
  (objectEntries state).insertionSort fun left right => right.2.recordedAt ≤ left.2.recordedAt

def prune (state : State Response) : State Response :=
  if state.entries.length ≤ retentionLimit then state
  else ((newestFirst state).drop retentionLimit).foldl (fun state entry => state.erase entry.1) state

/-- `{ ...parsed, ...state }` -/
def merge (parsed state : State Response) : State Response :=
  (objectEntries state).foldl (fun merged entry => merged.set entry.1 entry.2) parsed

def proto : JsString := text "__proto__"

/-- `state[key] = entry`: the setter of `__proto__` makes no property. -/
def assignProperty (state : State Response) (key : JsString) (entry : AccessIdempotencyEntry Response) : State Response :=
  if key = proto then state else state.set key entry

def objectPrototype : List JsString :=
  [text "constructor", text "__defineGetter__", text "__defineSetter__", text "hasOwnProperty", text "__lookupGetter__",
    text "__lookupSetter__", text "isPrototypeOf", text "propertyIsEnumerable", text "toString", text "valueOf", proto,
    text "toLocaleString"]

structure Answer (Response : Type) where
  response : Option Response
  conflict : Bool
  deriving DecidableEq, Repr

/-- The answer of `get` from the state it has reloaded. An inherited property has no request hash. -/
def answer (state : State Response) (key requestHash : JsString) : Answer Response :=
  match state.lookup key with
  | none => ⟨none, key ∈ objectPrototype⟩
  | some entry => if entry.requestHash ≠ requestHash then ⟨none, true⟩ else ⟨some entry.response, false⟩

/-- The other keys that have been recorded no earlier. -/
def since (history : List (Entry Response)) (key : JsString) (entry : AccessIdempotencyEntry Response) : Finset JsString :=
  ((history.filter fun record => record.1 ≠ key ∧ entry.recordedAt ≤ record.2.recordedAt).map Prod.fst).toFinset

/-- A record to be kept: its key has no other record as late, and fewer other keys than the limit do. -/
structure Kept (history : List (Entry Response)) (key : JsString) (entry : AccessIdempotencyEntry Response) : Prop where
  last : ∀ other, (key, other) ∈ history → other = entry ∨ other.recordedAt < entry.recordedAt
  retained : (since history key entry).card < retentionLimit

variable {history later : List (Entry Response)} {state parsed : State Response} {key : JsString}
  {entry : AccessIdempotencyEntry Response}

variable {other : JsString} {record : AccessIdempotencyEntry Response}

theorem mem_since (listed : (other, record) ∈ history) (different : other ≠ key) (since_ : entry.recordedAt ≤ record.recordedAt) :
    other ∈ since history key entry := by
  refine mem_toFinset.mpr (mem_map.mpr ⟨(other, record), mem_filter.mpr ⟨listed, ?_⟩, rfl⟩)
  simpa using ⟨different, since_⟩

theorem Kept.mono (kept : Kept later key entry) (grown : history ⊆ later) : Kept history key entry where
  last other listed := kept.last other (grown listed)
  retained := by
    refine Nat.lt_of_le_of_lt (Finset.card_le_card fun other listed => ?_) kept.retained
    obtain ⟨record, filtered, named⟩ := mem_map.mp (mem_toFinset.mp listed)
    obtain ⟨member, late⟩ := mem_filter.mp filtered
    simp only [ne_eq, decide_eq_true_eq] at late
    exact named ▸ mem_since (grown member) late.1 late.2

theorem objectEntries_perm (state : State Response) : (objectEntries state).Perm state.entries :=
  ((perm_insertionSort _ _).append_right _).trans (filter_append_perm _ _)

theorem newestFirst_perm (state : State Response) : (newestFirst state).Perm state.entries :=
  (perm_insertionSort _ _).trans (objectEntries_perm state)

theorem lookup_eraseAll (dropped : List (Entry Response)) (state : State Response) (key : JsString) :
    (dropped.foldl (fun state entry => state.erase entry.1) state).lookup key =
      if key ∈ dropped.map Prod.fst then none else state.lookup key := by
  induction dropped generalizing state with
  | nil => rfl
  | cons first rest ih =>
    rw [foldl_cons, ih, OrderedMap.lookup_erase, map_cons]
    by_cases listed : key ∈ rest.map Prod.fst
    · rw [if_pos listed, if_pos (mem_cons_of_mem _ listed)]
    · rw [if_neg listed]
      by_cases same : key = first.1
      · rw [if_pos same, if_pos (mem_cons.mpr (.inl same))]
      · rw [if_neg same, if_neg (not_mem_cons_of_ne_of_not_mem same listed)]

theorem lookup_of_prune (found : (prune state).lookup key = some entry) : state.lookup key = some entry := by
  unfold prune at found
  split_ifs at found
  · exact found
  · rw [lookup_eraseAll] at found
    split_ifs at found
    exact found

theorem lookup_prune (kept : Kept history key entry) (known : state.entries ⊆ history)
    (held : state.lookup key = some entry) : (prune state).lookup key = some entry := by
  unfold prune
  split_ifs
  · exact held
  · rw [lookup_eraseAll, if_neg, held]
    intro dropped
    have distinct : ((newestFirst state).map Prod.fst).Nodup :=
      ((newestFirst_perm state).map Prod.fst).nodup_iff.mpr state.keysNodup
    obtain ⟨⟨name, record⟩, late, named⟩ := mem_map.mp dropped
    have listed : (name, record) ∈ state.entries := (newestFirst_perm state).subset (mem_of_mem_drop late)
    have itself : record = entry := by
      have again := (OrderedMap.lookup_eq_some_iff state name record).mpr listed
      rw [show name = key from named, held] at again
      exact (Option.some.inj again).symm
    have sorted : (newestFirst state).Pairwise fun left right => right.2.recordedAt ≤ left.2.recordedAt :=
      pairwise_insertionSort _ _
    rw [← take_append_drop retentionLimit (newestFirst state)] at sorted distinct
    have newer : ∀ other ∈ (newestFirst state).take retentionLimit, other.1 ∈ since history key entry := by
      intro other taken
      apply mem_since (known ((newestFirst_perm state).subset (mem_of_mem_take taken)))
      · intro same
        rw [map_append] at distinct
        exact (nodup_append.mp distinct).2.2 other.1 (mem_map_of_mem taken) name
          (mem_map_of_mem late) (same.trans named.symm)
      · rw [← itself]
        exact (pairwise_append.mp sorted).2.2 other taken (name, record) late
    have many : ((newestFirst state).take retentionLimit).length = retentionLimit := by
      rw [length_take, Nat.min_eq_left]
      have some_ := length_pos_of_mem late
      rw [length_drop] at some_
      omega
    have names : (((newestFirst state).take retentionLimit).map Prod.fst).Nodup := by
      rw [map_append] at distinct
      exact (nodup_append.mp distinct).1
    have card : retentionLimit ≤ (since history key entry).card := by
      rw [← many, ← length_map Prod.fst, ← toFinset_card_of_nodup names]
      apply Finset.card_le_card
      intro other listed
      obtain ⟨record, taken, same⟩ := mem_map.mp (mem_toFinset.mp listed)
      exact same ▸ newer record taken
    exact Nat.not_lt.mpr card kept.retained

theorem entries_prune (known : state.entries ⊆ history) : (prune state).entries ⊆ history := by
  intro record listed
  have found := lookup_of_prune ((OrderedMap.lookup_eq_some_iff _ record.1 record.2).mpr listed)
  exact known ((OrderedMap.lookup_eq_some_iff _ record.1 record.2).mp found)

theorem lookup_setEntries (entries : List (Entry Response)) (distinct : (entries.map Prod.fst).Nodup)
    (state : State Response) (key : JsString) (entry : AccessIdempotencyEntry Response) :
    (entries.foldl (fun merged entry => merged.set entry.1 entry.2) state).lookup key = some entry ↔
      (key, entry) ∈ entries ∨ key ∉ entries.map Prod.fst ∧ state.lookup key = some entry := by
  induction entries generalizing state with
  | nil => simp
  | cons first rest ih =>
    obtain ⟨fresh, distinct⟩ := nodup_cons.mp distinct
    rw [foldl_cons, ih distinct, OrderedMap.lookup_set, map_cons, mem_cons, mem_cons, not_or]
    by_cases same : key = first.1
    · rw [if_pos same]
      have outside : key ∉ rest.map Prod.fst := same ▸ fresh
      have absent : (key, entry) ∉ rest := fun listed => outside (mem_map_of_mem listed)
      constructor
      · intro found
        rcases found with listed | ⟨_, held⟩
        · exact absurd listed absent
        · exact .inl (.inl (Prod.ext same (Option.some.inj held).symm))
      · intro found
        rcases found with (itself | listed) | ⟨⟨different, _⟩, _⟩
        · exact .inr ⟨outside, congrArg (fun record => some record.2) itself.symm⟩
        · exact absurd listed absent
        · exact absurd same different
    · rw [if_neg same]
      have other : (key, entry) ≠ first := fun itself => same (congrArg Prod.fst itself)
      simp only [other, same, false_or, not_false_eq_true, true_and]

theorem lookup_merge (parsed state : State Response) (key : JsString) (entry : AccessIdempotencyEntry Response) :
    (merge parsed state).lookup key = some entry ↔
      state.lookup key = some entry ∨ state.lookup key = none ∧ parsed.lookup key = some entry := by
  have distinct : ((objectEntries state).map Prod.fst).Nodup :=
    ((objectEntries_perm state).map Prod.fst).nodup_iff.mpr state.keysNodup
  unfold merge
  rw [lookup_setEntries _ distinct, (objectEntries_perm state).mem_iff, ((objectEntries_perm state).map Prod.fst).mem_iff,
    ← OrderedMap.lookup_eq_some_iff, OrderedMap.lookup_eq_none_iff]
  rfl

theorem entries_merge (known : state.entries ⊆ history) (parsedKnown : parsed.entries ⊆ history) :
    (merge parsed state).entries ⊆ history := by
  intro record listed
  rcases (lookup_merge parsed state _ _).mp ((OrderedMap.lookup_eq_some_iff _ record.1 record.2).mpr listed) with mine | ⟨_, theirs⟩
  · exact known ((OrderedMap.lookup_eq_some_iff _ record.1 record.2).mp mine)
  · exact parsedKnown ((OrderedMap.lookup_eq_some_iff _ record.1 record.2).mp theirs)

/-- No record in memory is older than the one of its key in the file. -/
def NoOlder (parsed state : State Response) : Prop :=
  ∀ record ∈ state.entries, ∀ other ∈ parsed.entries, other.1 = record.1 → other.2.recordedAt ≤ record.2.recordedAt

theorem lookup_merge_parsed (kept : Kept history key entry) (known : state.entries ⊆ history) (newer : NoOlder parsed state)
    (held : parsed.lookup key = some entry) : (merge parsed state).lookup key = some entry := by
  rw [lookup_merge]
  cases mine : state.lookup key with
  | none => exact .inr ⟨rfl, held⟩
  | some record =>
    have listed := (OrderedMap.lookup_eq_some_iff state key record).mp mine
    have late := newer (key, record) listed (key, entry) ((OrderedMap.lookup_eq_some_iff parsed key entry).mp held) rfl
    rcases kept.last record (known listed) with same | earlier
    · exact .inl (congrArg some same)
    · exact absurd late (Nat.not_le.mpr earlier)

theorem lookup_assignProperty_self (named : key ≠ proto) : (assignProperty state key entry).lookup key = some entry := by
  rw [assignProperty, if_neg named, OrderedMap.lookup_set_self]

theorem entries_assignProperty (known : state.entries ⊆ history) (listed : (key, entry) ∈ history) :
    (assignProperty state key entry).entries ⊆ history := by
  unfold assignProperty
  split_ifs
  · exact known
  · intro record member
    have found := (OrderedMap.lookup_eq_some_iff _ record.1 record.2).mpr member
    rw [OrderedMap.lookup_set] at found
    split_ifs at found with same
    · have itself : record = (key, entry) := Prod.ext same (Option.some.inj found).symm
      exact itself ▸ listed
    · exact known ((OrderedMap.lookup_eq_some_iff _ record.1 record.2).mp found)

theorem lookup_assignProperty (kept : Kept history key entry) (listed : (other, record) ∈ history)
    (late : entry.recordedAt ≤ record.recordedAt) (held : state.lookup key = some entry) :
    (assignProperty state other record).lookup key = some entry := by
  unfold assignProperty
  split_ifs
  · exact held
  · rw [OrderedMap.lookup_set]
    split_ifs with same
    · rcases kept.last record (same ▸ listed) with itself | earlier
      · exact congrArg some itself
      · exact absurd late (Nat.not_le.mpr earlier)
    · exact held

theorem answer_found {requestHash : JsString} (held : state.lookup key = some entry) (same : entry.requestHash = requestHash) :
    answer state key requestHash = ⟨some entry.response, false⟩ := by
  unfold answer
  rw [held]
  exact if_neg fun different => different same

end Remnic.Idempotency.Records
