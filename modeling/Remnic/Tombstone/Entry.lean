import Remnic.Text.CodeUnits
import Remnic.Library.InsertionSet

/-!
Entries of the tombstone log, the index a store keeps of them, and the decisions
it takes from the index. The newest entry at a key wins.
-/

namespace Remnic.Tombstone.Entry

open Library Library.InsertionSet Text.CodeUnits

inductive TombstoneReason where
  | correction
  | supersession
  | retraction
  | contradictionResolution
  deriving DecidableEq, Repr

inductive TombstoneCreatedBy where
  | userCorrection
  | contradictionResolution
  | supersession
  | chat
  deriving DecidableEq, Repr

inductive TombstoneMatchTier where
  | exact
  | normalized
  | keyed
  deriving DecidableEq, Repr

inductive EntryKind where
  | tombstone
  | revocation
  deriving DecidableEq, Repr

structure TombstoneEntry where
  id : JsString
  kind : EntryKind
  reason : TombstoneReason
  sourceMemoryId : JsString
  contentHash : JsString
  currentContentHashAlias : Option JsString := none
  normalizedText : JsString
  normalizerVersion : Option Int := none
  entityRef : Option JsString := none
  supersessionKey : Option JsString := none
  operationKey : Option JsString := none
  nameSpace : JsString
  createdAt : JsString
  createdBy : TombstoneCreatedBy
  revokes : Option JsString := none
  deriving DecidableEq, Repr

structure Host where
  hashContent : JsString → JsString
  normalizeText : JsString → JsString

/-- `TOMBSTONE_NORMALIZER_VERSION`. -/
def tombstoneNormalizerVersion : Int := 2

/-- The entries that a load reads again from their source memories. -/
def isLegacy (entry : TombstoneEntry) : Bool :=
  entry.kind = .tombstone && entry.normalizerVersion ≠ some tombstoneNormalizerVersion

def nul : CodeUnit := unit 0

def scopedKey (nameSpace key : JsString) : JsString := nameSpace ++ nul :: key

def keyedTierKey (nameSpace entityRef supersessionKey : JsString) : JsString :=
  nameSpace ++ nul :: (entityRef ++ nul :: supersessionKey)

/-- An optional text that is present and not empty. -/
def truthy (value : Option JsString) : Option JsString := value.filter (· ≠ [])

structure Index where
  entries : List TombstoneEntry
  byHash : OrderedMap JsString JsString
  byNormalized : OrderedMap JsString JsString
  byKey : OrderedMap JsString JsString
  revokedIds : OrderedSet JsString
  byId : OrderedMap JsString TombstoneEntry
  deriving DecidableEq

def Index.empty : Index := ⟨[], .empty, .empty, .empty, .empty, .empty⟩

/-- The hashes at which an entry is found on the exact tier, the last one written last. -/
def hashKeys (entry : TombstoneEntry) : List JsString :=
  if entry.normalizerVersion = some tombstoneNormalizerVersion then
    (truthy (some entry.contentHash)).toList ++ (truthy entry.currentContentHashAlias).toList
  else []

def normalizedKeys (entry : TombstoneEntry) : List JsString :=
  if entry.normalizerVersion = some tombstoneNormalizerVersion then (truthy (some entry.normalizedText)).toList else []

def tierKeys (entry : TombstoneEntry) : List JsString :=
  match truthy entry.entityRef, truthy entry.supersessionKey with
  | some entityRef, some supersessionKey => [keyedTierKey entry.nameSpace entityRef supersessionKey]
  | _, _ => []

def setAll (map : OrderedMap JsString JsString) (keys : List JsString) (id : JsString) : OrderedMap JsString JsString :=
  keys.foldl (fun map key => map.set key id) map

def indexEntry (index : Index) (entry : TombstoneEntry) : Index :=
  let listed := { index with entries := index.entries ++ [entry], byId := index.byId.set entry.id entry }
  match entry.kind with
  | .revocation =>
    match truthy entry.revokes with
    | some revoked => { listed with revokedIds := index.revokedIds.add revoked }
    | none => listed
  | .tombstone =>
    { listed with
      byHash := setAll index.byHash ((hashKeys entry).map (scopedKey entry.nameSpace)) entry.id
      byNormalized := setAll index.byNormalized ((normalizedKeys entry).map (scopedKey entry.nameSpace)) entry.id
      byKey := setAll index.byKey (tierKeys entry) entry.id }

def indexAll (index : Index) (entries : List TombstoneEntry) : Index := entries.foldl indexEntry index

structure TombstoneMatch where
  tombstoneId : JsString
  matchedTier : TombstoneMatchTier
  reason : TombstoneReason
  deriving DecidableEq, Repr

structure TombstoneLookupQuery where
  contentHash : Option JsString := none
  normalizedText : Option JsString := none
  entityRef : Option JsString := none
  supersessionKey : Option JsString := none
  supersessionKeys : List JsString := []
  nameSpace : JsString
  deriving DecidableEq, Repr

/-- One tier: the newest id at a key, unless it is revoked or of another namespace. -/
def lookupTier (index : Index) (nameSpace : JsString) (tier : TombstoneMatchTier) (map : OrderedMap JsString JsString)
    (key : JsString) : Option TombstoneMatch := do
  let id ← truthy (map.lookup key)
  if id ∈ index.revokedIds then none
  else
    let entry ← index.byId.lookup id
    if entry.nameSpace = nameSpace then some ⟨id, tier, entry.reason⟩ else none

/-- The keys of the keyed tier in the order in which they are tried. -/
def keysToCheck (query : TombstoneLookupQuery) : List JsString :=
  query.supersessionKeys.foldl (fun keys key => if key ∈ keys then keys else keys ++ [key])
    (truthy query.supersessionKey).toList

def lookupEntries (index : Index) (query : TombstoneLookupQuery) : Option TombstoneMatch :=
  let exact := do
    let contentHash ← truthy query.contentHash
    lookupTier index query.nameSpace .exact index.byHash (scopedKey query.nameSpace contentHash)
  let normalized := do
    let normalizedText ← truthy query.normalizedText
    lookupTier index query.nameSpace .normalized index.byNormalized (scopedKey query.nameSpace normalizedText)
  let keyed := do
    let entityRef ← truthy query.entityRef
    (keysToCheck query).findSome? fun key =>
      lookupTier index query.nameSpace .keyed index.byKey (keyedTierKey query.nameSpace entityRef key)
  (exact.or normalized).or keyed

structure ExactEntryQuery where
  sourceMemoryId : JsString
  contentHash : Option JsString := none
  entityRef : Option JsString := none
  supersessionKey : Option JsString := none
  createdAt : Option JsString := none
  operationKey : Option JsString := none
  deriving DecidableEq, Repr

def agreesWith (asked : Option JsString) (held : Option JsString) : Bool := asked.all fun value => held = some value

def isExactEntry (index : Index) (nameSpace : JsString) (query : ExactEntryQuery) (entry : TombstoneEntry) : Bool :=
  entry.kind = .tombstone && entry.id ∉ index.revokedIds && entry.nameSpace = nameSpace &&
    entry.sourceMemoryId = query.sourceMemoryId && agreesWith query.contentHash entry.contentHash &&
    agreesWith query.entityRef entry.entityRef && agreesWith query.supersessionKey entry.supersessionKey &&
    agreesWith query.createdAt entry.createdAt && agreesWith query.operationKey entry.operationKey

def hasExactEntry (index : Index) (nameSpace : JsString) (query : ExactEntryQuery) : Bool :=
  index.entries.any (isExactEntry index nameSpace query)

@[simp] theorem entries_indexEntry (index : Index) (entry : TombstoneEntry) :
    (indexEntry index entry).entries = index.entries ++ [entry] := by
  unfold indexEntry
  cases entry.kind with
  | tombstone => rfl
  | revocation => cases truthy entry.revokes <;> rfl

@[simp] theorem entries_indexAll (index : Index) (entries : List TombstoneEntry) :
    (indexAll index entries).entries = index.entries ++ entries := by
  induction entries generalizing index with
  | nil => exact (List.append_nil _).symm
  | cons entry entries ih =>
    change (indexAll (indexEntry index entry) entries).entries = _
    rw [ih, entries_indexEntry, List.append_assoc, List.singleton_append]

end Remnic.Tombstone.Entry
