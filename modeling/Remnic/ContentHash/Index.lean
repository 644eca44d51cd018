import Remnic.ContentHash.IndexFile

/-!
The content-hash index of one process: the membership set, its fact-only
partition and the deltas that no save has published yet.
-/

namespace Remnic.ContentHash.Index

open Library.InsertionSet Text.CodeUnits IndexFile

structure ContentHashIndex where
  hashes : HashSet
  factHashes : HashSet
  dirty : Bool
  formatMigrationRequired : Bool
  removed : HashSet
  added : HashSet
  deriving DecidableEq

/-- `new ContentHashIndex(...)`. -/
def fresh : ContentHashIndex :=
  { hashes := .empty, factHashes := .empty, dirty := false, formatMigrationRequired := false, removed := .empty,
    added := .empty }

/-- `addByHash`, and `add` of the content with this hash. -/
def addByHash (index : ContentHashIndex) (hash : IndexHash) : ContentHashIndex :=
  { index with
    removed := index.removed.delete hash
    hashes := index.hashes.add hash
    added := index.added.add hash
    dirty := true }

def addFactByHash (index : ContentHashIndex) (hash : IndexHash) : ContentHashIndex :=
  { addByHash index hash with factHashes := index.factHashes.add hash }

/-- `removeByHash`, and `remove` of the content with this hash. -/
def removeByHash (index : ContentHashIndex) (hash : IndexHash) : ContentHashIndex :=
  { index with
    added := index.added.delete hash
    removed := index.removed.add hash
    hashes := index.hashes.delete hash
    dirty := true }

def removeFactByHash (index : ContentHashIndex) (hash : IndexHash) : ContentHashIndex :=
  { index with factHashes := index.factHashes.delete hash }

def clear (index : ContentHashIndex) : ContentHashIndex :=
  { index with hashes := .empty, factHashes := .empty, added := .empty, removed := .empty, dirty := true }

/-- The rest of `load` once the file is read; `none` when there is no file. -/
def loaded (index : ContentHashIndex) (disk : Option JsString) : ContentHashIndex :=
  match disk with
  | none => index
  | some raw =>
    if (parseHashIndex raw).versioned then
      { index with formatMigrationRequired := false, hashes := index.hashes.addAll (parseHashIndex raw).hashes.items }
    else { index with formatMigrationRequired := true, hashes := .empty }

/-- The hashes of the file in the current format. -/
def diskHashes (disk : Option JsString) : HashSet := disk.elim OrderedSet.empty fun raw => (parseHashIndex raw).hashes

/-- The set `saveMergingWithDisk` writes for the deltas it publishes. -/
def mergedHashes (publishedAdded publishedRemoved : HashSet) (disk : Option JsString) : HashSet :=
  publishedAdded.addAll ((diskHashes disk).items.filter (· ∉ publishedRemoved))

/-- Both saves end by dropping the deltas they have published and no others. -/
def consume (index : ContentHashIndex) (publishedAdded publishedRemoved : HashSet) : ContentHashIndex :=
  let added := index.added.deleteAll publishedAdded.items
  let removed := index.removed.deleteAll publishedRemoved.items
  { index with
    formatMigrationRequired := false
    added
    removed
    dirty := added.items ≠ [] || removed.items ≠ [] }

/-- The rest of `saveMergingWithDisk` once the merged set is written. -/
def settle (index : ContentHashIndex) (publishedAdded publishedRemoved merged : HashSet) : ContentHashIndex :=
  let consumed := consume index publishedAdded publishedRemoved
  { consumed with hashes := (merged.addAll consumed.added.items).deleteAll consumed.removed.items }

/-- The synchronous calls that change an index. A paired removal is the sequence
that drops a fact: `removeByHash` and `removeFactByHash` without a pause. -/
inductive Mutation where
  | add (hash : IndexHash)
  | addFact (hash : IndexHash)
  | remove (hash : IndexHash)
  | removeFact (hash : IndexHash)
  | removePaired (hash : IndexHash)
  | clear
  deriving DecidableEq

def mutate (index : ContentHashIndex) : Mutation → ContentHashIndex
  | .add hash => addByHash index hash
  | .addFact hash => addFactByHash index hash
  | .remove hash => removeByHash index hash
  | .removeFact hash => removeFactByHash index hash
  | .removePaired hash => removeFactByHash (removeByHash index hash) hash
  | .clear => Index.clear index

/-- The calls that withdraw a pending addition of a hash. -/
def Mutation.Withdraws (mutation : Mutation) (hash : IndexHash) : Prop :=
  mutation = .remove hash ∨ mutation = .removePaired hash

/-- The calls that withdraw a pending removal of a hash. -/
def Mutation.Restores (mutation : Mutation) (hash : IndexHash) : Prop :=
  mutation = .add hash ∨ mutation = .addFact hash

theorem mem_mergedHashes (publishedAdded publishedRemoved : HashSet) (disk : Option JsString) (hash : IndexHash) :
    hash ∈ mergedHashes publishedAdded publishedRemoved disk ↔
      hash ∈ publishedAdded ∨ hash ∈ diskHashes disk ∧ hash ∉ publishedRemoved := by
  rw [mergedHashes, mem_addAll, List.mem_filter, decide_eq_true_iff]
  exact Iff.rfl

theorem diskHashes_serialize (hashes : HashSet) : diskHashes (some (serializeHashIndex hashes)) = hashes := by
  rw [diskHashes, Option.elim_some, parse_serializeHashIndex]

variable {hash : IndexHash} {index : ContentHashIndex} {mutation : Mutation}

theorem mem_items_ne_nil {set : HashSet} (member : hash ∈ set) : set.items ≠ [] :=
  List.ne_nil_of_mem member

theorem mutate_added (kept : mutation ≠ .clear) (pending : hash ∈ index.added) :
    hash ∈ (mutate index mutation).added ∨ mutation.Withdraws hash := by
  cases mutation with
  | add other => exact .inl ((mem_add _).mpr (.inl pending))
  | addFact other => exact .inl ((mem_add _).mpr (.inl pending))
  | removeFact other => exact .inl pending
  | clear => exact absurd rfl kept
  | remove other =>
    by_cases same : hash = other
    · exact .inr (.inl (same ▸ rfl))
    · exact .inl ((mem_delete _).mpr ⟨pending, same⟩)
  | removePaired other =>
    by_cases same : hash = other
    · exact .inr (.inr (same ▸ rfl))
    · exact .inl ((mem_delete _).mpr ⟨pending, same⟩)

theorem mutate_removed (kept : mutation ≠ .clear) (pending : hash ∈ index.removed) :
    hash ∈ (mutate index mutation).removed ∨ mutation.Restores hash := by
  cases mutation with
  | remove other => exact .inl ((mem_add _).mpr (.inl pending))
  | removePaired other => exact .inl ((mem_add _).mpr (.inl pending))
  | removeFact other => exact .inl pending
  | clear => exact absurd rfl kept
  | add other =>
    by_cases same : hash = other
    · exact .inr (.inl (same ▸ rfl))
    · exact .inl ((mem_delete _).mpr ⟨pending, same⟩)
  | addFact other =>
    by_cases same : hash = other
    · exact .inr (.inr (same ▸ rfl))
    · exact .inl ((mem_delete _).mpr ⟨pending, same⟩)

/-- No hash is pending as an addition and as a removal, and pending deltas mark
the index dirty. -/
structure Pending (index : ContentHashIndex) : Prop where
  apart : ∀ hash ∈ index.added, hash ∉ index.removed
  dirty : ∀ hash, hash ∈ index.added ∨ hash ∈ index.removed → index.dirty = true

theorem pending_fresh : Pending fresh :=
  ⟨fun hash member => absurd member (not_mem_empty hash), fun hash member => by simp [fresh] at member⟩

theorem pending_mutate (pending : Pending index) (mutation : Mutation) : Pending (mutate index mutation) := by
  have apart := pending.apart
  cases mutation with
  | add other | addFact other =>
    refine ⟨fun hash added removed => ?_, fun _ _ => rfl⟩
    simp only [mutate, addFactByHash, addByHash, mem_add, mem_delete] at added removed
    exact added.elim (fun held => apart hash held removed.1) removed.2
  | remove other | removePaired other =>
    refine ⟨fun hash added removed => ?_, fun _ _ => rfl⟩
    simp only [mutate, removeFactByHash, removeByHash, mem_add, mem_delete] at added removed
    exact removed.elim (apart hash added.1) added.2
  | removeFact other => exact ⟨apart, pending.dirty⟩
  | clear => exact ⟨fun hash member => absurd member (not_mem_empty hash), fun _ _ => rfl⟩

theorem loaded_added (index : ContentHashIndex) (disk : Option JsString) :
    (loaded index disk).added = index.added ∧ (loaded index disk).removed = index.removed ∧
      (loaded index disk).dirty = index.dirty := by
  unfold loaded
  split
  · exact ⟨rfl, rfl, rfl⟩
  · split <;> exact ⟨rfl, rfl, rfl⟩

theorem pending_loaded (pending : Pending index) (disk : Option JsString) : Pending (loaded index disk) := by
  obtain ⟨added, removed, dirty⟩ := loaded_added index disk
  constructor
  · rw [added, removed]
    exact pending.apart
  · rw [added, removed, dirty]
    exact pending.dirty

theorem pending_consume (pending : Pending index) (publishedAdded publishedRemoved : HashSet) :
    Pending (consume index publishedAdded publishedRemoved) := by
  constructor
  · intro hash added removed
    exact pending.apart hash ((mem_deleteAll _ _ _).mp added).1 ((mem_deleteAll _ _ _).mp removed).1
  · intro hash held
    rw [consume, Bool.or_eq_true, decide_eq_true_iff, decide_eq_true_iff]
    exact held.imp mem_items_ne_nil mem_items_ne_nil

theorem pending_settle (pending : Pending index) (publishedAdded publishedRemoved merged : HashSet) :
    Pending (settle index publishedAdded publishedRemoved merged) :=
  have consumed := pending_consume pending publishedAdded publishedRemoved
  ⟨consumed.apart, consumed.dirty⟩

end Remnic.ContentHash.Index
