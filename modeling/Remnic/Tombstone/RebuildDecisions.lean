import Remnic.Tombstone.Rebuild
import Remnic.Tombstone.Lookup

/-!
When a rebuilt log decides as the log before it.
-/

namespace Remnic.Tombstone.RebuildDecisions

open Library Library.InsertionSet Library.Newest Text.CodeUnits Entry Lookup Rebuild List

/-- A log whose entries have ids of their own. -/
structure TombstoneLog where
  entries : List TombstoneEntry
  named : ∀ entry ∈ entries, entry.id ≠ []
  distinct : (entries.map (·.id)).Nodup

structure Stands (entries : List TombstoneEntry) (nameSpace : JsString) (entry : TombstoneEntry) : Prop where
  listed : entry ∈ entries
  tombstone : entry.kind = .tombstone
  own : entry.nameSpace = nameSpace
  unrevoked : entry.id ∉ (indexOf entries).revokedIds

/-- An unrevoked tombstone of a namespace whose source memory is still retired. -/
structure Kept (log : TombstoneLog) (nameSpace : JsString) (memories : List StoredMemory) (entry : TombstoneEntry) : Prop where
  stands : Stands log.entries nameSpace entry
  retired : ∃ memory ∈ memories, memory.id = entry.sourceMemoryId ∧ isRetired memory = true

/-- The decisions of a log and of the one that replaces it are the same for the
tombstones that are kept, revocations stay, and so do the entries of other namespaces. -/
structure Preserves (log : TombstoneLog) (nameSpace : JsString) (memories : List StoredMemory)
    (after : List TombstoneEntry) : Prop where
  lookup : ∀ kept, Kept log nameSpace memories kept → ∀ query : TombstoneLookupQuery, query.nameSpace = nameSpace →
    ∀ tier, BlocksBy (indexOf log.entries) query tier kept.id ↔ BlocksBy (indexOf after) query tier kept.id
  exactEntry : ∀ kept, Kept log nameSpace memories kept → ∀ query : ExactEntryQuery,
    query.sourceMemoryId = kept.sourceMemoryId →
      hasExactEntry (indexOf log.entries) nameSpace query = hasExactEntry (indexOf after) nameSpace query
  revocations : ∀ id, id ∈ (indexOf log.entries).revokedIds ↔ id ∈ (indexOf after).revokedIds
  foreign : ∀ entry, entry.nameSpace ≠ nameSpace → (entry ∈ log.entries ↔ entry ∈ after)

/-- An entry has every value that another one has. -/
structure Covers (entry other : TombstoneEntry) : Prop where
  source : entry.sourceMemoryId = other.sourceMemoryId
  contentHash : entry.contentHash = other.contentHash
  createdAt : entry.createdAt = other.createdAt
  entityRef : ∀ value ∈ other.entityRef, entry.entityRef = some value
  supersessionKey : ∀ value ∈ other.supersessionKey, entry.supersessionKey = some value
  operationKey : ∀ value ∈ other.operationKey, entry.operationKey = some value

theorem agreesWith_iff (asked held : Option JsString) : agreesWith asked held = true ↔ ∀ value ∈ asked, held = some value := by
  simp [agreesWith, Option.all_eq_true]

structure Answers (query : ExactEntryQuery) (entry : TombstoneEntry) : Prop where
  source : entry.sourceMemoryId = query.sourceMemoryId
  contentHash : ∀ value ∈ query.contentHash, entry.contentHash = value
  entityRef : ∀ value ∈ query.entityRef, entry.entityRef = some value
  supersessionKey : ∀ value ∈ query.supersessionKey, entry.supersessionKey = some value
  createdAt : ∀ value ∈ query.createdAt, entry.createdAt = value
  operationKey : ∀ value ∈ query.operationKey, entry.operationKey = some value

theorem hasExactEntry_iff {entries : List TombstoneEntry} {nameSpace : JsString} {query : ExactEntryQuery} :
    hasExactEntry (indexOf entries) nameSpace query = true ↔
      ∃ entry, Stands entries nameSpace entry ∧ Answers query entry := by
  rw [hasExactEntry, entries_indexOf, any_eq_true]
  refine exists_congr fun entry => ?_
  simp only [isExactEntry, Bool.and_eq_true, decide_eq_true_eq, agreesWith_iff, Option.some.injEq]
  constructor
  · rintro ⟨listed, ⟨⟨⟨⟨⟨⟨⟨kind, unrevoked⟩, own⟩, source⟩, hash⟩, ref⟩, key⟩, time⟩, operation⟩
    exact ⟨⟨listed, kind, own, unrevoked⟩, ⟨source, hash, ref, key, time, operation⟩⟩
  · rintro ⟨⟨listed, kind, own, unrevoked⟩, ⟨source, hash, ref, key, time, operation⟩⟩
    exact ⟨listed, ⟨⟨⟨⟨⟨⟨⟨kind, unrevoked⟩, own⟩, source⟩, hash⟩, ref⟩, key⟩, time⟩, operation⟩

def fullQuery (entry : TombstoneEntry) : ExactEntryQuery where
  sourceMemoryId := entry.sourceMemoryId
  contentHash := some entry.contentHash
  entityRef := entry.entityRef
  supersessionKey := entry.supersessionKey
  createdAt := some entry.createdAt
  operationKey := entry.operationKey

theorem answers_fullQuery_iff (entry other : TombstoneEntry) : Answers (fullQuery other) entry ↔ Covers entry other := by
  constructor
  · intro answers
    exact ⟨answers.source, answers.contentHash _ rfl, answers.createdAt _ rfl, answers.entityRef, answers.supersessionKey,
      answers.operationKey⟩
  · intro covers
    refine ⟨covers.source, ?_, covers.entityRef, covers.supersessionKey, ?_, covers.operationKey⟩
    · rintro value ⟨⟩
      exact covers.contentHash
    · rintro value ⟨⟩
      exact covers.createdAt

theorem Answers.of_covers {query : ExactEntryQuery} {entry other : TombstoneEntry} (answers : Answers query other)
    (covers : Covers entry other) : Answers query entry where
  source := covers.source.trans answers.source
  contentHash value asked := covers.contentHash.trans (answers.contentHash value asked)
  entityRef value asked := covers.entityRef value (answers.entityRef value asked)
  supersessionKey value asked := covers.supersessionKey value (answers.supersessionKey value asked)
  createdAt value asked := covers.createdAt.trans (answers.createdAt value asked)
  operationKey value asked := covers.operationKey value (answers.operationKey value asked)

/-- One log answers every exact query about a source that another one answers exactly if
it covers its unrevoked tombstones of that source. -/
theorem answers_more_iff {first second : List TombstoneEntry} {nameSpace source : JsString} :
    (∀ query : ExactEntryQuery, query.sourceMemoryId = source → hasExactEntry (indexOf first) nameSpace query = true →
        hasExactEntry (indexOf second) nameSpace query = true) ↔
      ∀ entry, Stands first nameSpace entry → entry.sourceMemoryId = source →
        ∃ other, Stands second nameSpace other ∧ Covers other entry := by
  constructor
  · intro more entry stands same
    have own : Answers (fullQuery entry) entry := (answers_fullQuery_iff entry entry).mpr
      ⟨rfl, rfl, rfl, fun _ => id, fun _ => id, fun _ => id⟩
    obtain ⟨other, standsOther, answers⟩ := hasExactEntry_iff.mp
      (more (fullQuery entry) same (hasExactEntry_iff.mpr ⟨entry, stands, own⟩))
    exact ⟨other, standsOther, (answers_fullQuery_iff other entry).mp answers⟩
  · intro covered query same answered
    obtain ⟨entry, stands, answers⟩ := hasExactEntry_iff.mp answered
    obtain ⟨other, standsOther, covers⟩ := covered entry stands (answers.source.trans same)
    exact hasExactEntry_iff.mpr ⟨other, standsOther, answers.of_covers covers⟩

variable {host : RebuildHost} {nameSpace : JsString} {newTombstoneId : Nat → JsString} {entries : List TombstoneEntry}
variable {records : List RetiredMemoryRecord} {entry : TombstoneEntry}

theorem of_mem_restored (listed : entry ∈ restored host nameSpace newTombstoneId entries records) :
    entry.kind = .tombstone ∧ entry.nameSpace = nameSpace ∧ entry.operationKey = none := by
  obtain ⟨position, inside, rfl⟩ := mem_mapIdx.mp listed
  exact ⟨rfl, rfl, rfl⟩

theorem mem_rebuild : entry ∈ rebuild host nameSpace newTombstoneId entries records ↔
    entry ∈ restored host nameSpace newTombstoneId entries records ∨
      entry ∈ entries ∧ (entry.kind = .revocation ∨ isForeign nameSpace entry = true) := by
  simp only [rebuild, mem_insertionSort, mem_append, mem_filter, decide_eq_true_eq]
  rw [or_assoc, ← and_or_left]

theorem mem_revoked_rebuild (id : JsString) :
    id ∈ (indexOf (rebuild host nameSpace newTombstoneId entries records)).revokedIds ↔ id ∈ (indexOf entries).revokedIds := by
  rw [mem_revoked_indexOf, mem_revoked_indexOf]
  refine exists_congr fun entry => ?_
  rw [mem_rebuild]
  constructor
  · rintro ⟨restored | ⟨listed, _⟩, kind, revokes⟩
    · rw [(of_mem_restored restored).1] at kind
      contradiction
    · exact ⟨listed, kind, revokes⟩
  · rintro ⟨listed, kind, revokes⟩
    exact ⟨.inr ⟨listed, .inl kind⟩, kind, revokes⟩

theorem stands_rebuild_iff : Stands (rebuild host nameSpace newTombstoneId entries records) nameSpace entry ↔
    entry ∈ restored host nameSpace newTombstoneId entries records ∧ entry.id ∉ (indexOf entries).revokedIds := by
  constructor
  · intro stands
    refine ⟨?_, fun revoked => stands.unrevoked ((mem_revoked_rebuild _).mpr revoked)⟩
    rcases mem_rebuild.mp stands.listed with restored | ⟨_, revocation | foreign⟩
    · exact restored
    · rw [stands.tombstone] at revocation
      contradiction
    · simp [isForeign, stands.own] at foreign
  · rintro ⟨listed, unrevoked⟩
    obtain ⟨kind, own, _⟩ := of_mem_restored listed
    exact ⟨mem_rebuild.mpr (.inl listed), kind, own, fun revoked => unrevoked ((mem_revoked_rebuild _).mp revoked)⟩

theorem notAfter_total (first second : TombstoneEntry) : notAfter first second ∨ notAfter second first := by
  unfold notAfter
  rcases lt_trichotomy first.createdAt second.createdAt with before | same | later
  · exact .inl (.inl before)
  · rcases le_total first.id second.id with below | above
    · exact .inl (.inr ⟨same, below⟩)
    · exact .inr (.inr ⟨same.symm, above⟩)
  · exact .inr (.inl later)

theorem notAfter_trans {first second third : TombstoneEntry} (before : notAfter first second)
    (next : notAfter second third) : notAfter first third := by
  rcases before with before | ⟨same, below⟩
  · rcases next with next | ⟨again, _⟩
    · exact .inl (before.trans next)
    · exact .inl (again ▸ before)
  · rcases next with next | ⟨again, further⟩
    · exact .inl (same ▸ next)
    · exact .inr ⟨same.trans again, below.trans further⟩

theorem id_eq_of_notAfter {first second : TombstoneEntry} (before : notAfter first second)
    (after : notAfter second first) : first.id = second.id := by
  rcases before with before | ⟨same, below⟩
  · rcases after with after | ⟨same, _⟩
    · exact absurd after before.not_gt
    · exact absurd same before.ne'
  · rcases after with after | ⟨_, above⟩
    · exact absurd same after.ne'
    · exact le_antisymm below above

theorem rebuild_sorted : (rebuild host nameSpace newTombstoneId entries records).Pairwise notAfter := by
  have : Std.Total notAfter := ⟨notAfter_total⟩
  have : IsTrans TombstoneEntry notAfter := ⟨fun _ _ _ => notAfter_trans⟩
  exact pairwise_insertionSort notAfter _

/-- Of the tombstones that a rebuild restores or keeps, the one with an id is the last at a
key by time and id. -/
def NewestRestored (host : RebuildHost) (nameSpace : JsString) (newTombstoneId : Nat → JsString)
    (entries : List TombstoneEntry) (records : List RetiredMemoryRecord) (tier : TombstoneMatchTier) (key id : JsString) :
    Prop :=
  ∃ entry ∈ restored host nameSpace newTombstoneId entries records ++ entries.filter (isForeign nameSpace),
    entry.id = id ∧ key ∈ tierKeysOf tier entry ∧
      ∀ other ∈ restored host nameSpace newTombstoneId entries records ++ entries.filter (isForeign nameSpace),
        key ∈ tierKeysOf tier other → notAfter other entry

theorem mem_rebuild_of_key {tier : TombstoneMatchTier} {key : JsString} (held : key ∈ tierKeysOf tier entry) :
    entry ∈ rebuild host nameSpace newTombstoneId entries records ↔
      entry ∈ restored host nameSpace newTombstoneId entries records ++ entries.filter (isForeign nameSpace) := by
  have kind : entry.kind ≠ .revocation := by
    intro revocation
    simp [tierKeysOf, revocation] at held
  rw [mem_rebuild, mem_append, mem_filter]
  simp [kind]

theorem newest_rebuild_iff (tier : TombstoneMatchTier) (key id : JsString) :
    (∃ entry, newest (fun entry => key ∈ tierKeysOf tier entry) (rebuild host nameSpace newTombstoneId entries records) =
        some entry ∧ entry.id = id) ↔
      NewestRestored host nameSpace newTombstoneId entries records tier key id := by
  have refl (entry : TombstoneEntry) : notAfter entry entry := or_self_iff.mp (notAfter_total entry entry)
  constructor
  · rintro ⟨entry, found, rfl⟩
    obtain ⟨listed, met⟩ := newest_eq_some found
    have held := of_decide_eq_true met
    refine ⟨entry, (mem_rebuild_of_key held).mp listed, rfl, held, fun other listedOther heldOther => ?_⟩
    exact newest_sorted refl rebuild_sorted found other ((mem_rebuild_of_key heldOther).mpr listedOther)
      (decide_eq_true heldOther)
  · rintro ⟨entry, listed, rfl, held, last⟩
    have inside := (mem_rebuild_of_key held).mpr listed
    cases found : newest (fun entry => key ∈ tierKeysOf tier entry)
        (rebuild host nameSpace newTombstoneId entries records) with
    | none => exact absurd (newest_eq_none_iff.mp found entry inside) (by simp [held])
    | some winner =>
      obtain ⟨listedWinner, met⟩ := newest_eq_some found
      have heldWinner := of_decide_eq_true met
      refine ⟨winner, rfl, id_eq_of_notAfter (last winner ((mem_rebuild_of_key heldWinner).mp listedWinner) heldWinner) ?_⟩
      exact newest_sorted refl rebuild_sorted found entry inside (decide_eq_true held)

variable {log : TombstoneLog} {memories : List StoredMemory}

theorem newest_id_log (stands : Stands log.entries nameSpace entry) :
    newest (fun other => entry.id = other.id) log.entries = some entry := by
  cases found : newest (fun other => entry.id = other.id) log.entries with
  | none => exact absurd (newest_eq_none_iff.mp found entry stands.listed) (by simp)
  | some other =>
    obtain ⟨listed, met⟩ := newest_eq_some found
    exact congrArg some (inj_on_of_nodup_map log.distinct listed stands.listed (of_decide_eq_true met).symm)

theorem blocks_log_iff (stands : Stands log.entries nameSpace entry) (tier : TombstoneMatchTier) (key : JsString) :
    (∃ found, lookupTier (indexOf log.entries) nameSpace tier (tierMap (indexOf log.entries) tier) key = some found ∧
        found.tombstoneId = entry.id) ↔
      newest (fun other => key ∈ tierKeysOf tier other) log.entries = some entry := by
  rw [lookupTier_iff, lookup_indexOf, byId_indexOf, newest_id_log stands]
  constructor
  · rintro ⟨⟨won, _⟩, _⟩
    obtain ⟨winner, found, same⟩ := Option.map_eq_some_iff.mp won
    rw [found, inj_on_of_nodup_map log.distinct (newest_eq_some found).1 stands.listed same]
  · intro won
    exact ⟨⟨by rw [won, Option.map_some], log.named entry stands.listed⟩, stands.unrevoked, entry, rfl, stands.own⟩

theorem blocks_rebuild_iff (stands : Stands log.entries nameSpace entry) (tier : TombstoneMatchTier) (key : JsString) :
    (∃ found, lookupTier (indexOf (rebuild host nameSpace newTombstoneId log.entries records)) nameSpace tier
        (tierMap (indexOf (rebuild host nameSpace newTombstoneId log.entries records)) tier) key = some found ∧
        found.tombstoneId = entry.id) ↔
      NewestRestored host nameSpace newTombstoneId log.entries records tier key entry.id := by
  rw [lookupTier_iff, lookup_indexOf, byId_indexOf, mem_revoked_rebuild, ← newest_rebuild_iff]
  constructor
  · rintro ⟨⟨won, _⟩, _⟩
    exact Option.map_eq_some_iff.mp won
  · rintro ⟨winner, found, same⟩
    refine ⟨⟨by rw [found, Option.map_some, same], log.named entry stands.listed⟩, stands.unrevoked, ?_⟩
    cases holder : newest (fun other => entry.id = other.id)
        (rebuild host nameSpace newTombstoneId log.entries records) with
    | none => exact absurd (newest_eq_none_iff.mp holder winner (newest_eq_some found).1) (by simp [same])
    | some other =>
      refine ⟨other, rfl, ?_⟩
      obtain ⟨listed, met⟩ := newest_eq_some holder
      have sameId := of_decide_eq_true met
      rcases mem_rebuild.mp listed with restored | ⟨old, _⟩
      · exact (of_mem_restored restored).2.1
      · rw [inj_on_of_nodup_map log.distinct old stands.listed sameId.symm]
        exact stands.own

/-- When a rebuild restores what the log decides: for each kept tombstone the retired facts
give one with its values and no operation key is lost, what they give for its memory was
in the log, and it is the newest one at a key of the log exactly if it is the last one
restored there by time and id. -/
structure Reproduced (host : RebuildHost) (nameSpace : JsString) (newTombstoneId : Nat → JsString) (log : TombstoneLog)
    (memories : List StoredMemory) : Prop where
  given : ∀ kept, Kept log nameSpace memories kept →
    ∃ entry ∈ restored host nameSpace newTombstoneId log.entries (collectRetiredMemoriesForRebuild host memories),
      entry.id ∉ (indexOf log.entries).revokedIds ∧ Covers entry kept
  known : ∀ kept, Kept log nameSpace memories kept →
    ∀ entry ∈ restored host nameSpace newTombstoneId log.entries (collectRetiredMemoriesForRebuild host memories),
      entry.id ∉ (indexOf log.entries).revokedIds → entry.sourceMemoryId = kept.sourceMemoryId →
        ∃ other, Stands log.entries nameSpace other ∧ Covers other entry
  newest : ∀ kept, Kept log nameSpace memories kept → ∀ tier key,
    newest (fun entry => key ∈ tierKeysOf tier entry) log.entries = some kept ↔
      NewestRestored host nameSpace newTombstoneId log.entries (collectRetiredMemoriesForRebuild host memories) tier key
        kept.id

theorem lookup_same_iff (stands : Stands log.entries nameSpace entry) :
    (∀ query : TombstoneLookupQuery, query.nameSpace = nameSpace → ∀ tier,
        BlocksBy (indexOf log.entries) query tier entry.id ↔
          BlocksBy (indexOf (rebuild host nameSpace newTombstoneId log.entries records)) query tier entry.id) ↔
      ∀ tier key, newest (fun other => key ∈ tierKeysOf tier other) log.entries = some entry ↔
        NewestRestored host nameSpace newTombstoneId log.entries records tier key entry.id := by
  constructor
  · intro same tier key
    have single {holder : TombstoneEntry} (own : holder.nameSpace = nameSpace) (held : key ∈ tierKeysOf tier holder) :
        newest (fun other => key ∈ tierKeysOf tier other) log.entries = some entry ↔
          NewestRestored host nameSpace newTombstoneId log.entries records tier key entry.id := by
      obtain ⟨query, scope, keys⟩ := exists_query held
      have decided := same query (scope.trans own) tier
      simp only [BlocksBy, keys, mem_singleton, exists_eq_left, scope.trans own] at decided
      rwa [blocks_log_iff stands, blocks_rebuild_iff stands] at decided
    constructor
    · intro won
      exact (single stands.own (of_decide_eq_true (newest_eq_some won).2)).mp won
    · intro won
      have first := won
      obtain ⟨holder, listed, sameId, held, _⟩ := first
      refine (single ?_ held).mpr won
      rcases mem_append.mp listed with restored | foreign
      · exact (of_mem_restored restored).2.1
      · rw [inj_on_of_nodup_map log.distinct (mem_filter.mp foreign).1 stands.listed sameId]
        exact stands.own
  · intro same query own tier
    unfold BlocksBy
    refine exists_congr fun key => and_congr_right fun _ => ?_
    rw [own, blocks_log_iff stands, blocks_rebuild_iff stands]
    exact same tier key

/-- Texts that are their own hash and normal form. -/
def plainHost : RebuildHost where
  hashContent := id
  normalizeText := id
  sha256 := id
  normalizeLegacyContent := id
  stripCitation := id
  tables := plainTables

/-- The tombstone of a fact that an operation has retired. -/
def operationTombstone : TombstoneEntry where
  id := text "tomb-1"
  kind := .tombstone
  reason := .supersession
  sourceMemoryId := text "fact-1"
  contentHash := text "tea"
  normalizedText := text "tea"
  normalizerVersion := some tombstoneNormalizerVersion
  operationKey := some (text "op-1")
  nameSpace := text "home"
  createdAt := text "2026-01-01T00:00:00.000Z"
  createdBy := .supersession

def operationLog : TombstoneLog := ⟨[operationTombstone], by decide, by decide⟩

def supersededFact : StoredMemory where
  id := text "fact-1"
  status := some .superseded
  isFact := true
  contentHash := some (text "tea")
  updated := some (text "2026-01-01T00:00:00.000Z")
  content := text "tea"
  clock := []

end Remnic.Tombstone.RebuildDecisions
