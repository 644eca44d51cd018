import Remnic.Reconcile.Census
import Remnic.Revision.InvalidationStore

/-!
The metadata file of deletion revisions and the operations that replace it, with
the failures that the file system and the lock may bring in.
-/

namespace Remnic.Revision.DeletionStore
open Library Text.CodeUnits InvalidationStore
open Reconcile.Census (CensusMtime MtimeValue censusMaxMtimeMs posixNormalize)

/-- A value after `JSON.parse`; a number whose text overflows is not finite. -/
inductive Json where
  | null
  | boolean (value : Bool)
  | number (value : ℚ)
  | infinite
  | string (value : JsString)
  | array (items : List Json)
  | object (fields : List (JsString × Json))

def Json.keys (fields : List (JsString × Json)) : JsString :=
  (text ",").intercalate ((fields.map Prod.fst).insertionSort fun left right => left ≤ right)

def Json.get (fields : List (JsString × Json)) (key : JsString) : Option Json :=
  (fields.find? fun field => field.1 = key).map Prod.snd

/-- `DELETION_REVISION_MAX_MTIME_MS` bounds the revisions. -/
abbrev Revisions := OrderedMap JsString CensusMtime

def invalidDeletions : JsString := text "Deletion revision metadata is invalid."

def unavailableDeletions : JsString := text "Deletion revision metadata is unavailable."

def invalidTimestamp : JsString := text "Deletion revision timestamp is invalid."

def invalidPath : JsString := text "Deletion revision path is invalid."

def isValidManagedStoragePath (value : JsString) : Bool :=
  value ≠ [] && !value.contains backslash && !value.contains (unit 0) && !startsWith value [slash] &&
    posixNormalize value = value && value ≠ text "." && value ≠ text ".." && !startsWith value (text "../")

def deletionRevisionPathIdentity (tables : UnicodeTables) (value : JsString) : JsString :=
  tables.toLowerCase (tables.toUpperCase (tables.normalizeNfc value))

def validMtime (value : ℚ) : Option CensusMtime :=
  if inRange : 0 ≤ value ∧ value ≤ censusMaxMtimeMs then some ⟨value, inRange⟩ else none

/-- The revisions read so far and the path that claimed each identity. -/
structure DeletionEntries where
  revisions : Revisions
  pathByIdentity : OrderedMap JsString JsString

def DeletionEntries.empty : DeletionEntries := ⟨OrderedMap.empty, OrderedMap.empty⟩

/-- An entry whose two fields are read. -/
def addDeletion (tables : UnicodeTables) (entries : DeletionEntries) (path : JsString) (mtimeMs : CensusMtime) :
    Except JsString DeletionEntries :=
  let identity := deletionRevisionPathIdentity tables path
  if entries.revisions.contains path then .error invalidDeletions
  else if entries.pathByIdentity.contains identity then .error invalidDeletions
  else .ok ⟨entries.revisions.set path mtimeMs, entries.pathByIdentity.set identity path⟩

def parseDeletion (tables : UnicodeTables) (entries : DeletionEntries) (raw : Json) : Except JsString DeletionEntries :=
  match raw with
  | .object fields =>
    if Json.keys fields ≠ text "mtimeMs,path" then .error invalidDeletions
    else match Json.get fields (text "path"), Json.get fields (text "mtimeMs") with
      | some (.string path), some (.number ms) =>
        if !isValidManagedStoragePath path then .error invalidDeletions
        else match validMtime ms with
          | none => .error invalidDeletions
          | some mtimeMs => addDeletion tables entries path mtimeMs
      | _, _ => .error invalidDeletions
  | _ => .error invalidDeletions

theorem byPath_nodup (revisions : Revisions) :
    ((revisions.entries.insertionSort fun left right => left.1 ≤ right.1).map Prod.fst).Nodup :=
  ((List.perm_insertionSort _ _).map _).nodup_iff.mpr revisions.keysNodup

/-- The revisions in the order of their paths' code units. -/
def sortRevisions (revisions : Revisions) : Revisions :=
  ⟨revisions.entries.insertionSort fun left right => left.1 ≤ right.1, byPath_nodup revisions⟩

/-- What the file holds: nothing that `JSON.parse` accepts, or a value. -/
def parseDeletionRevisionMetadata (tables : UnicodeTables) (raw : Option Json) : Except JsString Revisions :=
  match raw with
  | some (.object fields) =>
    if Json.keys fields ≠ text "deletions,version" then .error invalidDeletions
    else match Json.get fields (text "version"), Json.get fields (text "deletions") with
      | some (.number version), some (.array items) =>
        if version ≠ 1 then .error invalidDeletions
        else do
          let entries ← items.foldlM (parseDeletion tables) DeletionEntries.empty
          return sortRevisions entries.revisions
      | _, _ => .error invalidDeletions
  | _ => .error invalidDeletions

inductive DeletionFile where
  | absent
  | present (raw : Option Json)

def parseFile (tables : UnicodeTables) (file : DeletionFile) : Except JsString Revisions :=
  match file with
  | .absent => .ok OrderedMap.empty
  | .present raw => parseDeletionRevisionMetadata tables raw

def deletionEntry (entry : JsString × CensusMtime) : Json :=
  .object [(text "path", .string entry.1), (text "mtimeMs", .number entry.2.val)]

/-- The value that `JSON.stringify` writes and `JSON.parse` gives back. -/
def deletionMetadataOf (revisions : Revisions) : Json :=
  .object [(text "version", .number 1),
    (text "deletions", .array ((sortRevisions revisions).entries.map deletionEntry))]

inductive FsError where
  | enoent
  | other (reason : JsString)
deriving DecidableEq

/-- What may fail in a call: the lock and the metadata file, the file itself, and the write that puts the
metadata back. -/
structure DeletionIo where
  metadata : Io
  written : Except JsString Unit
  found : Except FsError Unit
  unlinked : Except FsError Unit
  restored : Except JsString Unit

/-- The maps that a call has written to the file, in order, and how it ends. -/
structure Outcome (Result : Type) where
  written : List Revisions
  result : Except JsString Result

namespace Outcome

variable {Result : Type}

def refused (reason : JsString) : Outcome Result := ⟨[], .error reason⟩

def done (result : Result) : Outcome Result := ⟨[], .ok result⟩

/-- `writeDeletionRevisionMetadata`, which leaves the file alone where it fails, and what comes after it. -/
def writing (replaced : Except JsString Unit) (revisions : Revisions) (next : Outcome Result) : Outcome Result :=
  match replaced with
  | .error reason => refused reason
  | .ok () => ⟨revisions :: next.written, next.result⟩

def after (outcome : Outcome Result) (file : DeletionFile) : DeletionFile :=
  (outcome.written.getLast?).elim file fun revisions => .present (some (deletionMetadataOf revisions))

end Outcome

section Operations

variable {Result : Type}

def locked (io : Io) (task : Outcome Result) : Outcome Result :=
  if io.acquired then task else .refused unavailableLock

/-- `readDeletionRevisionMetadata` and what a call does with the map. -/
def reading (tables : UnicodeTables) (io : Io) (file : DeletionFile) (task : Revisions → Outcome Result) :
    Outcome Result :=
  if !io.readable then .refused unavailableDeletions
  else match parseFile tables file with
    | .error reason => .refused reason
    | .ok revisions => task revisions

/-- The first path with the identity of another. -/
def existingPath (tables : UnicodeTables) (revisions : Revisions) (relativePath : JsString) : Option JsString :=
  revisions.keys.find? fun candidate =>
    deletionRevisionPathIdentity tables candidate = deletionRevisionPathIdentity tables relativePath

def withoutExisting (tables : UnicodeTables) (revisions : Revisions) (relativePath : JsString) : Revisions :=
  (existingPath tables revisions relativePath).elim revisions revisions.erase

def existingMtime (tables : UnicodeTables) (revisions : Revisions) (relativePath : JsString) : Option CensusMtime :=
  (existingPath tables revisions relativePath).bind revisions.lookup

def recordReplicatedDeletionRevision (tables : UnicodeTables) (io : DeletionIo) (file : DeletionFile)
    (relativePath : JsString) (mtimeMs : MtimeValue) : Outcome Unit :=
  match mtimeMs with
  | .absent => .refused invalidTimestamp
  | .notFinite => .refused invalidTimestamp
  | .finite ms =>
    match validMtime ms with
    | none => .refused invalidTimestamp
    | some revision =>
      if !isValidManagedStoragePath relativePath then .refused invalidPath
      else locked io.metadata (reading tables io.metadata file fun revisions =>
        if (existingMtime tables revisions relativePath).any fun known => revision.val ≤ known.val then .done ()
        else .writing io.metadata.replaced
          ((withoutExisting tables revisions relativePath).set relativePath revision) (.done ()))

def writeManagedStorageFile (tables : UnicodeTables) (io : DeletionIo) (file : DeletionFile)
    (relativePath : JsString) : Outcome Unit :=
  if !isValidManagedStoragePath relativePath then .refused invalidPath
  else locked io.metadata (reading tables io.metadata file fun before =>
    match io.written with
    | .error reason => .refused reason
    | .ok () =>
      match existingPath tables before relativePath with
      | none => .done ()
      | some known => .writing io.metadata.replaced (before.erase known) (.done ()))

/-- The `deletionMtimeMs` of a call: `undefined` for the clock, `null` for no revision, or a time. -/
inductive RequestedMtime where
  | clock
  | nothing
  | time (value : ℚ)
  | notFinite

def requestedRevision (requested : RequestedMtime) (now : CensusMtime) : Option (Option CensusMtime) :=
  match requested with
  | .clock => some (some now)
  | .nothing => some none
  | .time value => (validMtime value).map some
  | .notFinite => none

/-- Whether the entry of a path has to change for a revision. -/
def deletionChanges (tables : UnicodeTables) (before : Revisions) (relativePath : JsString)
    (revision : Option CensusMtime) : Bool :=
  (existingPath tables before relativePath).any (· ≠ relativePath) ||
    existingMtime tables before relativePath ≠ revision

/-- The removal of the file; where it fails, a changed map is put back. -/
def unlinking (io : DeletionIo) (changed : Bool) (before : Revisions) : Outcome Bool :=
  match io.unlinked with
  | .ok () => .done true
  | .error failure =>
    let failed : Outcome Bool := match failure with
      | .enoent => .done false
      | .other reason => .refused reason
    if changed then .writing io.restored before failed else failed

def deleteManagedStorageFile (tables : UnicodeTables) (io : DeletionIo) (file : DeletionFile)
    (relativePath : JsString) (requested : RequestedMtime) (now : CensusMtime) : Outcome Bool :=
  match requestedRevision requested now with
  | none => .refused invalidTimestamp
  | some revision =>
    locked io.metadata (match io.found with
      | .error .enoent => .done false
      | .error (.other reason) => .refused reason
      | .ok () =>
        if !isValidManagedStoragePath relativePath then .refused invalidPath
        else reading tables io.metadata file fun before =>
          let updated := (withoutExisting tables before relativePath)
          let updated := revision.elim updated fun time => updated.set relativePath time
          if deletionChanges tables before relativePath revision then
            .writing io.metadata.replaced updated (unlinking io true before)
          else unlinking io false before)

end Operations

structure Stores where
  deletions : DeletionFile
  proofs : DeletionRevisionStore

inductive Action where
  | replicate (io : DeletionIo) (relativePath : JsString) (mtimeMs : MtimeValue)
  | write (io : DeletionIo) (relativePath : JsString)
  | delete (io : DeletionIo) (relativePath : JsString) (requested : RequestedMtime) (now : CensusMtime)
  | record (io : Io) (memory : Memory) (now : Int)
  | clear (io : Io) (memory : Memory) (now : Int)

/-- The maps that an action writes to the file of deletion revisions. -/
def writtenBy (tables : UnicodeTables) (stores : Stores) : Action → List Revisions
  | .replicate io relativePath mtimeMs =>
    (recordReplicatedDeletionRevision tables io stores.deletions relativePath mtimeMs).written
  | .write io relativePath => (writeManagedStorageFile tables io stores.deletions relativePath).written
  | .delete io relativePath requested now =>
    (deleteManagedStorageFile tables io stores.deletions relativePath requested now).written
  | .record _ _ _ => []
  | .clear _ _ _ => []

def proofsAfter (proofs : DeletionRevisionStore) : Action → DeletionRevisionStore
  | .record io memory now =>
    match recordCommittedInvalidation io now proofs memory with
    | .ok recorded => recorded
    | .error _ => proofs
  | .clear io memory now => (clearCommittedInvalidation io now proofs memory).1
  | _ => proofs

def step (tables : UnicodeTables) (stores : Stores) (action : Action) : Option Stores :=
  some {
    deletions := ((writtenBy tables stores action).getLast?).elim stores.deletions fun revisions =>
      .present (some (deletionMetadataOf revisions))
    proofs := proofsAfter stores.proofs action }

end Remnic.Revision.DeletionStore
