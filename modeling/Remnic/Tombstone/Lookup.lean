import Remnic.Tombstone.Entry
import Remnic.Library.Newest

/-!
What an index decides, in terms of the entries it was built from: the newest
entry at a key, the newest entry with an id, and the revocations.
-/

namespace Remnic.Tombstone.Lookup

open Library Library.InsertionSet Library.Newest Text.CodeUnits Entry List

def tierMap (index : Index) : TombstoneMatchTier → OrderedMap JsString JsString
  | .exact => index.byHash
  | .normalized => index.byNormalized
  | .keyed => index.byKey

/-- The keys at which an entry is found on a tier. -/
def tierKeysOf (tier : TombstoneMatchTier) (entry : TombstoneEntry) : List JsString :=
  match entry.kind with
  | .revocation => []
  | .tombstone =>
    match tier with
    | .exact => (hashKeys entry).map (scopedKey entry.nameSpace)
    | .normalized => (normalizedKeys entry).map (scopedKey entry.nameSpace)
    | .keyed => tierKeys entry

def queryKeys (tier : TombstoneMatchTier) (query : TombstoneLookupQuery) : List JsString :=
  match tier with
  | .exact => (truthy query.contentHash).toList.map (scopedKey query.nameSpace)
  | .normalized => (truthy query.normalizedText).toList.map (scopedKey query.nameSpace)
  | .keyed =>
    match truthy query.entityRef with
    | none => []
    | some entityRef => (keysToCheck query).map (keyedTierKey query.nameSpace entityRef)

/-- A tombstone blocks a candidate fact on a tier. -/
def BlocksBy (index : Index) (query : TombstoneLookupQuery) (tier : TombstoneMatchTier) (tombstoneId : JsString) : Prop :=
  ∃ key ∈ queryKeys tier query, ∃ found,
    lookupTier index query.nameSpace tier (tierMap index tier) key = some found ∧ found.tombstoneId = tombstoneId

def indexOf (entries : List TombstoneEntry) : Index := indexAll .empty entries

variable (entries : List TombstoneEntry) (index : Index) (entry : TombstoneEntry) (id : JsString)
  (tier : TombstoneMatchTier)
  (key : JsString)

theorem indexOf_append_singleton : indexOf (entries ++ [entry]) = indexEntry (indexOf entries) entry := by
  rw [indexOf, indexAll, foldl_append]
  rfl

@[simp] theorem entries_indexOf : (indexOf entries).entries = entries := by
  rw [indexOf, entries_indexAll, Index.empty, nil_append]

theorem lookup_setAll (map : OrderedMap JsString JsString) (keys : List JsString) (id key : JsString) :
    (setAll map keys id).lookup key = if key ∈ keys then some id else map.lookup key := by
  induction keys generalizing map with
  | nil => rfl
  | cons first keys ih =>
    change (setAll (map.set first id) keys id).lookup key = _
    rw [ih, OrderedMap.lookup_set]
    by_cases listed : key ∈ keys
    · rw [if_pos listed, if_pos (mem_cons_of_mem _ listed)]
    · rw [if_neg listed]
      by_cases same : key = first
      · rw [if_pos same, if_pos (mem_cons.mpr (.inl same))]
      · rw [if_neg same, if_neg (not_mem_cons_of_ne_of_not_mem same listed)]

theorem lookup_indexEntry :
    (tierMap (indexEntry index entry) tier).lookup key =
      if key ∈ tierKeysOf tier entry then some entry.id else (tierMap index tier).lookup key := by
  unfold indexEntry tierKeysOf
  cases entry.kind with
  | revocation => cases truthy entry.revokes <;> cases tier <;> rfl
  | tombstone => cases tier <;> exact lookup_setAll _ _ _ _

theorem byId_indexEntry : (indexEntry index entry).byId.lookup id = if id = entry.id then some entry else index.byId.lookup id := by
  have set : (indexEntry index entry).byId = index.byId.set entry.id entry := by
    unfold indexEntry
    cases entry.kind with
    | revocation => cases truthy entry.revokes <;> rfl
    | tombstone => rfl
  rw [set, OrderedMap.lookup_set]

theorem mem_revoked_indexEntry :
    id ∈ (indexEntry index entry).revokedIds ↔
      id ∈ index.revokedIds ∨ entry.kind = .revocation ∧ truthy entry.revokes = some id := by
  unfold indexEntry
  cases kind : entry.kind with
  | tombstone => simp
  | revocation =>
    cases truthy entry.revokes with
    | none => simp
    | some revoked => simp [eq_comm]

theorem lookup_indexOf :
    (tierMap (indexOf entries) tier).lookup key =
      (newest (fun entry => key ∈ tierKeysOf tier entry) entries).map (·.id) := by
  induction entries using List.reverseRecOn with
  | nil => cases tier <;> rfl
  | append_singleton entries entry ih =>
    rw [indexOf_append_singleton, lookup_indexEntry, newest_append_singleton, ih]
    by_cases listed : key ∈ tierKeysOf tier entry
    · simp [listed]
    · simp [listed]

theorem byId_indexOf : (indexOf entries).byId.lookup id = newest (fun entry => id = entry.id) entries := by
  induction entries using List.reverseRecOn with
  | nil => rfl
  | append_singleton entries entry ih =>
    rw [indexOf_append_singleton, byId_indexEntry, newest_append_singleton, ih]
    simp only [decide_eq_true_eq]

theorem mem_revoked_indexOf :
    id ∈ (indexOf entries).revokedIds ↔
      ∃ entry ∈ entries, entry.kind = .revocation ∧ truthy entry.revokes = some id := by
  induction entries using List.reverseRecOn with
  | nil => simp [indexOf, indexAll, Index.empty]
  | append_singleton entries entry ih =>
    rw [indexOf_append_singleton, mem_revoked_indexEntry, ih]
    simp [or_and_right, exists_or]

theorem truthy_eq_some {value : Option JsString} {held : JsString} : truthy value = some held ↔ value = some held ∧ held ≠ [] := by
  simp [truthy, Option.filter_eq_some_iff]

theorem lookupTier_iff (nameSpace key id : JsString) (tier : TombstoneMatchTier) :
    (∃ found, lookupTier index nameSpace tier (tierMap index tier) key = some found ∧ found.tombstoneId = id) ↔
      ((tierMap index tier).lookup key = some id ∧ id ≠ []) ∧ id ∉ index.revokedIds ∧
        ∃ entry, index.byId.lookup id = some entry ∧ entry.nameSpace = nameSpace := by
  unfold lookupTier
  constructor
  · rintro ⟨found, decided, rfl⟩
    obtain ⟨id, won, rest⟩ := Option.bind_eq_some_iff.mp decided
    split_ifs at rest with revoked
    obtain ⟨entry, held, rest⟩ := Option.bind_eq_some_iff.mp rest
    split_ifs at rest with same
    cases rest
    exact ⟨truthy_eq_some.mp won, revoked, entry, held, same⟩
  · rintro ⟨won, unrevoked, entry, held, same⟩
    refine ⟨⟨id, tier, entry.reason⟩, ?_, rfl⟩
    simp only [truthy_eq_some.mpr won, held, bind, Option.bind_some, if_neg unrevoked, if_pos same]

private theorem bind_isSome_iff {Value : Type} (held : Option JsString) (scope : JsString → JsString)
    (decide : JsString → Option Value) :
    (held >>= fun value => decide (scope value)).isSome ↔ ∃ key ∈ held.toList.map scope, ∃ found, decide key = some found := by
  cases held with
  | none => simp [bind]
  | some value => simp [bind, Option.isSome_iff_exists]

theorem lookupEntries_isSome_iff (query : TombstoneLookupQuery) :
    (lookupEntries index query).isSome ↔ ∃ tier id, BlocksBy index query tier id := by
  have keyed : (truthy query.entityRef >>= fun entityRef => (keysToCheck query).findSome? fun key =>
      lookupTier index query.nameSpace .keyed index.byKey (keyedTierKey query.nameSpace entityRef key)).isSome ↔
        ∃ key ∈ queryKeys .keyed query, ∃ found, lookupTier index query.nameSpace .keyed index.byKey key = some found := by
    unfold queryKeys
    cases truthy query.entityRef with
    | none => simp [bind]
    | some entityRef =>
      simp only [bind, Option.bind_some, findSome?_isSome_iff]
      simp only [Option.isSome_iff_exists, mem_map, exists_exists_and_eq_and]
  have exact := bind_isSome_iff (truthy query.contentHash) (scopedKey query.nameSpace)
    (lookupTier index query.nameSpace .exact index.byHash)
  have normalized := bind_isSome_iff (truthy query.normalizedText) (scopedKey query.nameSpace)
    (lookupTier index query.nameSpace .normalized index.byNormalized)
  have tiers : (lookupEntries index query).isSome ↔
      ∃ tier, ∃ key ∈ queryKeys tier query, ∃ found,
        lookupTier index query.nameSpace tier (tierMap index tier) key = some found := by
    unfold lookupEntries
    rw [Option.isSome_or, Option.isSome_or, Bool.or_eq_true, Bool.or_eq_true, exact, normalized, keyed]
    constructor
    · rintro ((found | found) | found)
      · exact ⟨.exact, found⟩
      · exact ⟨.normalized, found⟩
      · exact ⟨.keyed, found⟩
    · rintro ⟨tier, found⟩
      cases tier with
      | exact => exact .inl (.inl found)
      | normalized => exact .inl (.inr found)
      | keyed => exact .inr found
  rw [tiers]
  constructor
  · rintro ⟨tier, key, listed, found, decided⟩
    exact ⟨tier, found.tombstoneId, key, listed, found, decided, rfl⟩
  · rintro ⟨tier, id, key, listed, found, decided, _⟩
    exact ⟨tier, key, listed, found, decided⟩

theorem ne_nil_of_mem_hashKeys {entry : TombstoneEntry} {hash : JsString} (held : hash ∈ hashKeys entry) : hash ≠ [] := by
  unfold hashKeys at held
  split_ifs at held
  · rcases mem_append.mp held with primary | aliased
    · exact (truthy_eq_some.mp (Option.mem_toList.mp primary)).2
    · exact (truthy_eq_some.mp (Option.mem_toList.mp aliased)).2
  · contradiction

theorem ne_nil_of_mem_normalizedKeys {entry : TombstoneEntry} {body : JsString} (held : body ∈ normalizedKeys entry) :
    body ≠ [] := by
  unfold normalizedKeys at held
  split_ifs at held
  · exact (truthy_eq_some.mp (Option.mem_toList.mp held)).2
  · contradiction

/-- Every key of an entry is the only key of some candidate fact. -/
theorem exists_query {tier : TombstoneMatchTier} {entry : TombstoneEntry} {key : JsString}
    (listed : key ∈ tierKeysOf tier entry) :
    ∃ query : TombstoneLookupQuery, query.nameSpace = entry.nameSpace ∧ queryKeys tier query = [key] := by
  unfold tierKeysOf at listed
  cases kind : entry.kind with
  | revocation => simp [kind] at listed
  | tombstone =>
    simp only [kind] at listed
    cases tier with
    | exact =>
      obtain ⟨hash, held, rfl⟩ := mem_map.mp listed
      refine ⟨{ contentHash := some hash, nameSpace := entry.nameSpace }, rfl, ?_⟩
      rw [queryKeys, truthy_eq_some.mpr ⟨rfl, ne_nil_of_mem_hashKeys held⟩]
      rfl
    | normalized =>
      obtain ⟨body, held, rfl⟩ := mem_map.mp listed
      refine ⟨{ normalizedText := some body, nameSpace := entry.nameSpace }, rfl, ?_⟩
      rw [queryKeys, truthy_eq_some.mpr ⟨rfl, ne_nil_of_mem_normalizedKeys held⟩]
      rfl
    | keyed =>
      simp only [tierKeys] at listed
      split at listed
      next entityRef supersessionKey refHeld keyHeld =>
        rw [mem_singleton] at listed
        subst listed
        refine ⟨{ entityRef := some entityRef, supersessionKey := some supersessionKey, nameSpace := entry.nameSpace },
          rfl, ?_⟩
        have refs := truthy_eq_some.mpr ⟨rfl, (truthy_eq_some.mp refHeld).2⟩
        have keys := truthy_eq_some.mpr ⟨rfl, (truthy_eq_some.mp keyHeld).2⟩
        rw [queryKeys, refs, keysToCheck, keys]
        rfl
      next => contradiction

end Remnic.Tombstone.Lookup
