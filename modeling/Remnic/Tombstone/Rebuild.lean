import Remnic.Tombstone.Entry
import Remnic.Memory.SupersessionKey

/-!
Rebuilding the tombstone log from the retired memories.
-/

namespace Remnic.Tombstone.Rebuild

open Library Text.CodeUnits Entry Memory.SupersessionKey

/-- The helpers of the pre-Unicode normal form besides those of the store. -/
structure RebuildHost extends Host where
  sha256 : JsString → JsString
  normalizeLegacyContent : JsString → JsString
  stripCitation : JsString → JsString
  tables : UnicodeTables

structure RetiredMemoryRecord where
  memoryId : JsString
  rawContent : JsString
  entityRef : Option JsString := none
  supersessionKey : Option JsString := none
  reason : TombstoneReason
  createdBy : TombstoneCreatedBy
  createdAt : JsString
  contentHash : Option JsString := none
  deriving DecidableEq, Repr

/-- A memory as the projection reads it; `clock` is what the clock reads meanwhile. -/
structure StoredMemory where
  id : JsString
  status : Option MemoryStatus := none
  isFact : Bool
  contentHash : Option JsString := none
  entityRef : Option JsString := none
  structuredAttributes : Option Attributes := none
  updated : Option JsString := none
  created : Option JsString := none
  content : JsString
  clock : JsString
  deriving DecidableEq

def isRetired (memory : StoredMemory) : Bool :=
  memory.status = some .superseded || memory.status = some .rejected || memory.status = some .forgotten

variable (host : RebuildHost)

def computeLegacyContentHash (content : JsString) : JsString := host.sha256 (host.normalizeLegacyContent content)

def isUnambiguousLegacyContentHash (content contentHash currentNormalizedText : JsString) : Bool :=
  host.normalizeLegacyContent content ≠ [] && host.normalizeLegacyContent content = currentNormalizedText &&
    host.sha256 (host.normalizeLegacyContent content) = contentHash

def retirementReason : Option MemoryStatus → TombstoneReason
  | some .superseded => .supersession
  | some .forgotten => .retraction
  | _ => .correction

def retirementAuthor : TombstoneReason → TombstoneCreatedBy
  | .supersession => .supersession
  | _ => .userCorrection

def retiredKeys (memory : StoredMemory) : List JsString :=
  match truthy memory.entityRef with
  | none => []
  | some entityRef => supersessionKeysForFact host.tables (some entityRef) memory.structuredAttributes

/-- One record for each key, or one without a key. -/
def keysToEmit (keys : List JsString) : List (Option JsString) := if keys = [] then [none] else keys.map some

def recordsOf (memory : StoredMemory) : List RetiredMemoryRecord :=
  if isRetired memory && memory.isFact then
    (keysToEmit (retiredKeys host memory)).map fun key =>
      { memoryId := memory.id
        rawContent := host.stripCitation memory.content
        contentHash := memory.contentHash
        entityRef := truthy memory.entityRef
        supersessionKey := truthy key
        reason := retirementReason memory.status
        createdBy := retirementAuthor (retirementReason memory.status)
        createdAt := ((truthy memory.updated).or (truthy memory.created)).getD memory.clock }
  else []

def collectRetiredMemoriesForRebuild (memories : List StoredMemory) : List RetiredMemoryRecord :=
  memories.flatMap (recordsOf host)

/-- The key under which the id of an old tombstone is used again. -/
def slot (sourceMemoryId : JsString) (supersessionKey : Option JsString) : JsString :=
  sourceMemoryId ++ nul :: supersessionKey.getD []

def existingBySource (entries : List TombstoneEntry) : OrderedMap JsString JsString :=
  (entries.filter (·.kind = .tombstone)).foldl
    (fun ids entry => ids.set (slot entry.sourceMemoryId entry.supersessionKey) entry.id) .empty

/-- Whether a persisted hash stays the primary identity beside the hash of the body. -/
def preserveOverride (record : RetiredMemoryRecord) : Option JsString :=
  record.contentHash.filter fun persistedHash =>
    persistedHash ≠ host.hashContent record.rawContent &&
      !(host.normalizeLegacyContent record.rawContent = [] &&
        persistedHash = computeLegacyContentHash host record.rawContent) &&
      !isUnambiguousLegacyContentHash host record.rawContent persistedHash (host.normalizeText record.rawContent)

def restoredId (entries : List TombstoneEntry) (record : RetiredMemoryRecord) (mint : JsString) : JsString :=
  ((existingBySource entries).lookup (slot record.memoryId record.supersessionKey)).getD mint

def restoredEntry (nameSpace : JsString) (record : RetiredMemoryRecord) (id : JsString) : TombstoneEntry where
  id
  kind := .tombstone
  reason := record.reason
  sourceMemoryId := record.memoryId
  contentHash := (preserveOverride host record).getD (host.hashContent record.rawContent)
  currentContentHashAlias := (preserveOverride host record).map fun _ => host.hashContent record.rawContent
  normalizedText := host.normalizeText record.rawContent
  normalizerVersion := some tombstoneNormalizerVersion
  entityRef := truthy record.entityRef
  supersessionKey := truthy record.supersessionKey
  nameSpace
  createdAt := record.createdAt
  createdBy := record.createdBy

/-- The new tombstones; `newTombstoneId` gives an id for each position. -/
def restored (nameSpace : JsString) (newTombstoneId : Nat → JsString) (entries : List TombstoneEntry)
    (records : List RetiredMemoryRecord) : List TombstoneEntry :=
  records.mapIdx fun position record =>
    restoredEntry host nameSpace record (restoredId entries record (newTombstoneId position))

/-- The order of the rebuilt log: by `createdAt`, then by id. -/
def notAfter (first second : TombstoneEntry) : Prop :=
  first.createdAt < second.createdAt ∨ first.createdAt = second.createdAt ∧ first.id ≤ second.id

instance : DecidableRel notAfter := fun _ _ => inferInstanceAs (Decidable (_ ∨ _))

def isForeign (nameSpace : JsString) (entry : TombstoneEntry) : Bool :=
  entry.kind = .tombstone && entry.nameSpace ≠ nameSpace

def rebuild (nameSpace : JsString) (newTombstoneId : Nat → JsString) (entries : List TombstoneEntry)
    (records : List RetiredMemoryRecord) : List TombstoneEntry :=
  ((restored host nameSpace newTombstoneId entries records).insertionSort notAfter ++
    entries.filter (·.kind = .revocation) ++ entries.filter (isForeign nameSpace)).insertionSort notAfter

end Remnic.Tombstone.Rebuild
