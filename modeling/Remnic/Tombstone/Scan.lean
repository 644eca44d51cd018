import Remnic.Tombstone.Lookup

/-!
When a lookup decides as a scan of the log does: the newest tombstone at a key
hides the older ones there, also when it is revoked and they are not.
-/

namespace Remnic.Tombstone.Scan
open Library Library.Newest Text.CodeUnits Entry Lookup List

structure TombstoneStore where
  enabled : Bool
  loaded : Bool
  index : Index

/-- `loadInternal`, of the entries that the migration of legacy ones leaves. -/
def loadInternal (enabled : Bool) (migrated : List TombstoneEntry) : TombstoneStore := ⟨enabled, true, indexOf migrated⟩

def TombstoneStore.indexEntries (store : TombstoneStore) (appended : List TombstoneEntry) : TombstoneStore :=
  { store with index := indexAll store.index appended }

/-- `lookup`, without the semantic tier. -/
def TombstoneStore.lookup (store : TombstoneStore) (query : TombstoneLookupQuery) : Option TombstoneMatch :=
  if !store.enabled || !store.loaded then none else lookupEntries store.index query

section Scans

def isRevoked (entries : List TombstoneEntry) (id : JsString) : Bool :=
  entries.any fun entry => entry.kind = .revocation && entry.revokes = some id

def isCurrent (entry : TombstoneEntry) : Bool := entry.normalizerVersion = some tombstoneNormalizerVersion

/-- An entry has the hash or the text of a candidate fact, in their current form, or its entity and one of its keys. -/
def isMatch (query : TombstoneLookupQuery) (entry : TombstoneEntry) : Bool :=
  (isCurrent entry && (truthy query.contentHash).any fun hash =>
    entry.contentHash = hash || entry.currentContentHashAlias = some hash) ||
  (isCurrent entry && (truthy query.normalizedText).any fun body => entry.normalizedText = body) ||
  ((truthy query.entityRef).any fun entityRef => entry.entityRef = some entityRef &&
    (truthy entry.supersessionKey).any fun key => query.supersessionKey = some key || key ∈ query.supersessionKeys)

/-- The scan of a log: a tombstone of the namespace that no revocation names is of the candidate fact. -/
def scan (entries : List TombstoneEntry) (query : TombstoneLookupQuery) : Bool :=
  entries.any fun entry => entry.kind = .tombstone && entry.nameSpace = query.nameSpace &&
    !isRevoked entries entry.id && isMatch query entry

def newestAt (entries : List TombstoneEntry) (tier : TombstoneMatchTier) (key : JsString) : Option TombstoneEntry :=
  newest (fun entry => key ∈ tierKeysOf tier entry) entries

/-- No revocation names the entry, and the newest one with its id is of the namespace. -/
def stands (entries : List TombstoneEntry) (nameSpace : JsString) (entry : TombstoneEntry) : Bool :=
  !isRevoked entries entry.id &&
    (newest (fun other => entry.id = other.id) entries).any fun other => other.nameSpace = nameSpace

/-- Where the scan finds a tombstone, the newest one at some key of the query stands. Where it finds none, those that
stand at its keys would be of the candidate fact: their keys are no others' by a separator within a namespace or an
entity. -/
structure Unshadowed (entries : List TombstoneEntry) (query : TombstoneLookupQuery) : Prop where
  seen : scan entries query = true → ∃ tier, ∃ key ∈ queryKeys tier query, ∃ last,
    newestAt entries tier key = some last ∧ stands entries query.nameSpace last = true
  own : scan entries query = true ∨ ∀ tier, ∀ key ∈ queryKeys tier query, ∀ last, newestAt entries tier key = some last →
    stands entries query.nameSpace last = true → last.nameSpace = query.nameSpace ∧ isMatch query last = true

end Scans

section Index

variable {entries : List TombstoneEntry} {query : TombstoneLookupQuery}

theorem isRevoked_iff (id : JsString) (named : id ≠ []) :
    id ∈ (indexOf entries).revokedIds ↔ isRevoked entries id = true := by
  rw [mem_revoked_indexOf]
  unfold isRevoked
  simp only [any_eq_true, Bool.and_eq_true, decide_eq_true_eq, truthy_eq_some, named, ne_eq, not_false_eq_true, and_true]

theorem tombstone_of_key {tier : TombstoneMatchTier} {key : JsString} {entry : TombstoneEntry}
    (filed : key ∈ tierKeysOf tier entry) : entry.kind = .tombstone := by
  unfold tierKeysOf at filed
  cases kind : entry.kind with
  | tombstone => rfl
  | revocation =>
    rw [kind] at filed
    cases filed

theorem lookup_isSome_iff (named : ∀ entry ∈ entries, entry.id ≠ []) :
    (lookupEntries (indexOf entries) query).isSome = true ↔ ∃ tier, ∃ key ∈ queryKeys tier query, ∃ last,
      newestAt entries tier key = some last ∧ stands entries query.nameSpace last = true := by
  rw [lookupEntries_isSome_iff]
  have tierwise (tier : TombstoneMatchTier) (id key : JsString) :=
    lookupTier_iff (indexOf entries) query.nameSpace key id tier
  unfold BlocksBy
  constructor
  · intro found
    obtain ⟨tier, id, key, asked, won⟩ := found
    obtain ⟨⟨held, _⟩, unrevoked, entry, last, own⟩ := (tierwise tier id key).mp won
    rw [lookup_indexOf] at held
    obtain ⟨winner, filed, same⟩ := Option.map_eq_some_iff.mp held
    rw [byId_indexOf, ← same] at last
    rw [← same, isRevoked_iff _ (named winner (newest_eq_some filed).1)] at unrevoked
    refine ⟨tier, key, asked, winner, filed, ?_⟩
    unfold stands
    rw [last, Bool.and_eq_true, Bool.not_eq_true']
    exact ⟨Bool.eq_false_iff.mpr unrevoked, decide_eq_true own⟩
  · intro found
    obtain ⟨tier, key, asked, winner, filed, standing⟩ := found
    have some_ := named winner (newest_eq_some filed).1
    unfold stands at standing
    rw [Bool.and_eq_true, Bool.not_eq_true', Option.any_eq_true] at standing
    obtain ⟨unrevoked, entry, last, own⟩ := standing
    refine ⟨tier, winner.id, key, asked, (tierwise tier winner.id key).mpr ⟨⟨?_, some_⟩, ?_, entry, ?_, of_decide_eq_true own⟩⟩
    · rw [lookup_indexOf]
      exact Option.map_eq_some_iff.mpr ⟨winner, filed, rfl⟩
    · rw [isRevoked_iff _ some_, unrevoked]
      exact Bool.false_ne_true
    · rw [byId_indexOf, last]

end Index

section Separators

variable {entries : List TombstoneEntry} {query : TombstoneLookupQuery} {entry : TombstoneEntry}

theorem parts_of_separated {separator : CodeUnit} {front front_ back back_ : JsString} (free : separator ∉ front)
    (free_ : separator ∉ front_) (same : front ++ separator :: back = front_ ++ separator :: back_) :
    front = front_ ∧ back = back_ := by
  induction front generalizing front_ with
  | nil =>
    cases front_ with
    | nil => exact ⟨rfl, (List.cons.inj same).2⟩
    | cons first rest => exact absurd (mem_cons.mpr (.inl (List.cons.inj same).1)) free_
  | cons first rest ih =>
    cases front_ with
    | nil => exact absurd (mem_cons.mpr (.inl (List.cons.inj same).1.symm)) free
    | cons first_ rest_ =>
      obtain ⟨head, tail⟩ := List.cons.inj same
      obtain ⟨fronts, backs⟩ := ih (fun member => free (mem_cons_of_mem _ member))
        (fun member => free_ (mem_cons_of_mem _ member)) tail
      exact ⟨by rw [head, fronts], backs⟩

theorem mem_keysToCheck {key : JsString} (asked : key ∈ keysToCheck query) :
    query.supersessionKey = some key ∨ key ∈ query.supersessionKeys := by
  have listed (more keys : List JsString) (member : key ∈ more.foldl
      (fun keys key => if key ∈ keys then keys else keys ++ [key]) keys) : key ∈ keys ∨ key ∈ more := by
    induction more generalizing keys with
    | nil => exact .inl member
    | cons first more ih =>
      rcases ih _ member with before | later
      · dsimp only at before
        split_ifs at before
        · exact .inl before
        · rcases mem_append.mp before with held | new
          · exact .inl held
          · exact .inr (mem_cons.mpr (.inl (mem_singleton.mp new)))
      · exact .inr (mem_cons_of_mem _ later)
  rcases listed _ _ asked with single | more
  · exact .inl (truthy_eq_some.mp (Option.mem_toList.mp single)).1
  · exact .inr more

end Separators

section Samples

def sampleTombstone (id : String) : TombstoneEntry where
  id := text id
  kind := .tombstone
  reason := .correction
  sourceMemoryId := text "m"
  contentHash := text "h"
  normalizedText := text "tea"
  normalizerVersion := some 2
  nameSpace := text "default"
  createdAt := text "2026-01-01T00:00:00.000Z"
  createdBy := .userCorrection

def sampleRevocation (id revokes : String) : TombstoneEntry :=
  { sampleTombstone id with kind := .revocation, contentHash := [], normalizedText := [], revokes := some (text revokes) }

def sampleQuery : TombstoneLookupQuery := { contentHash := some (text "h"), nameSpace := text "default" }

end Samples

end Remnic.Tombstone.Scan
