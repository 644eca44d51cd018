import Remnic.Library.AppendNew
import Remnic.Library.LocalSteps
import Remnic.OfflineSync.SyncRoot

/-!
The changeset of a push: how it is built from a base and the files of a root,
how the receiver checks it, and how it is applied to the receiver's root.
-/

namespace Remnic.OfflineSync.Changeset
open Library Library.AppendNew Library.LocalSteps Text.CodeUnits Reconcile.Census Paths SyncRoot

variable {Content : Type}

structure OfflineSyncDeletionRevision where
  path : JsString
  mtimeMs : CensusMtime
deriving DecidableEq

inductive OfflineSyncChange (Content : Type) where
  | upsert (path : JsString) (baseSha256 : Option Sha256) (file : OfflineSyncFileState) (content : Content)
  | delete (path : JsString) (baseSha256 : Sha256) (mtimeMs : Option CensusMtime)

def OfflineSyncChange.path : OfflineSyncChange Content → JsString
  | .upsert path _ _ _ => path
  | .delete path _ _ => path

structure OfflineSyncChangeset (Content : Type) where
  sourceId : JsString
  includeTranscripts : Bool
  changes : List (OfflineSyncChange Content)

inductive ConflictReason where
  | bothModified
  | localDeletedRemoteModified
  | localModifiedRemoteDeleted
  | remoteExistsForLocalCreate
  | remoteChangedForLocalUpdate
  | remoteDeletedForLocalUpdate
  | remoteChangedForLocalDelete
  | embeddingGenerationDiverged
  | embeddingGenerationManifestRequired
deriving DecidableEq

structure OfflineSyncConflict where
  path : JsString
  reason : ConflictReason
  baseSha256 : Option Sha256 := none
  localSha256 : Option Sha256 := none
  incomingSha256 : Option Sha256 := none
  conflictPath : Option JsString := none
deriving DecidableEq

/-- What a root's node brings: its Unicode tables, the digests, and the clock that names conflict copies. -/
structure Environment (Content : Type) where
  tables : UnicodeTables
  hashing : Hashing Content
  hashText : JsString → JsString
  stamp : JsString → JsString
  now : CensusMtime

def indexed (field : JsString) (index : Nat) : JsString :=
  field ++ text "[" ++ text (toString index) ++ text "]"

def normalizeRelativePath (relPath field : JsString) : Except Failure JsString :=
  throwing (validateArchiveRelativePath relPath field)

def normalizeSourceId (value field : JsString) : Except Failure JsString :=
  if (trim value).length = 0 ∨ value.length > 512 then
    .error (.message (field ++ text " must be a non-empty string no longer than 512 characters"))
  else .ok (trim value)

def normalizeFileState (file : OfflineSyncFileState) (field : JsString) : Except Failure OfflineSyncFileState := do
  let path ← normalizeRelativePath file.path (field ++ text ".path")
  return { file with path := path }

def normalizeFileStates (files : List OfflineSyncFileState) : Except Failure (List OfflineSyncFileState) :=
  files.zipIdx.mapM fun entry => normalizeFileState entry.1 (indexed (text "baseFiles") entry.2)

/-- A case-insensitive duplicate is refused, at its second path. -/
def assertUniquePaths (tables : UnicodeTables) (context : JsString) : List JsString → List JsString → Except Failure Unit
  | _, [] => .ok ()
  | seen, path :: rest =>
    if seen.contains (tables.toLowerCase path) then
      .error (.message (context ++ text " contains duplicate path: " ++ path))
    else assertUniquePaths tables context (tables.toLowerCase path :: seen) rest

def normalizeDeletionRevisions (tables : UnicodeTables) (deletions : Option (List OfflineSyncDeletionRevision))
    (field : JsString) : Except Failure (Option (List OfflineSyncDeletionRevision)) :=
  match deletions with
  | none => .ok none
  | some entries => do
    let checked ← entries.zipIdx.mapM fun entry => do
      let path ← normalizeRelativePath entry.1.path (indexed field entry.2 ++ text ".path")
      return { entry.1 with path := path }
    assertUniquePaths tables field [] (checked.map OfflineSyncDeletionRevision.path)
    return some (checked.mergeSort fun first second => tables.localeLe first.path second.path)

/-- `byPath` of states whose paths have passed their check; the last state of a path stays. -/
def byPath (files : List OfflineSyncFileState) : OrderedMap JsString OfflineSyncFileState :=
  files.foldl (fun out file => out.set file.path file) OrderedMap.empty

def filterBaseFilesForMode (files : List OfflineSyncFileState) (includeTranscripts : Bool) :
    List OfflineSyncFileState :=
  files.filter fun file => !shouldExcludeRelPath file.path includeTranscripts

/-- The keys of all maps, each once, in the order of their code units. -/
def unionPaths (keys : List (List JsString)) : List JsString :=
  (appendNew [] keys.flatten).mergeSort fun first second => first ≤ second

def changedWhileBuilding (relPath : JsString) : Failure :=
  .message (text "offline sync file changed while building changeset: " ++ relPath)

/-- One path of `buildOfflineSyncSnapshotForPaths`: its state and content, if a regular file is there. -/
def snapshotForPath (hashing : Hashing Content) (excluded : JsString → Bool) (tree : SyncTree Content)
    (rawPath : JsString) : Except Failure (Option (OfflineSyncFileState × Content)) := do
  let relPath ← normalizeRelativePath rawPath (text "paths[]")
  if excluded relPath then
    .error (.message (text "offline sync snapshot path is excluded: " ++ relPath))
  else
    let target ← resolveSafeArchiveTarget tree (text "buildOfflineSyncSnapshotForPaths") relPath
    match ← tree.lstat target with
    | .absent => return none
    | .directory => return none
    | .regular stored => return some (hashing.stateOf relPath stored, stored.content)

structure BuildOptions where
  sourceId : JsString
  currentFiles : List OfflineSyncFileState
  baseFiles : List OfflineSyncFileState := []
  deletions : Option (List OfflineSyncDeletionRevision) := none
  excludePaths : List JsString := []
  includeTranscripts : Bool := true
  userExcludes : UserExcludes := fun _ => false

/-- The change that one path of the union contributes, if any. -/
def changeFor (env : Environment Content) (tree : SyncTree Content) (options : BuildOptions)
    (excludedPaths : List JsString) (base current : OrderedMap JsString OfflineSyncFileState)
    (deletions : Option (List OfflineSyncDeletionRevision)) (relPath : JsString) :
    Except Failure (Option (OfflineSyncChange Content)) :=
  if excludedPaths.contains relPath then .ok none
  else if shouldExcludePushRelPath relPath options.includeTranscripts options.userExcludes then .ok none
  else if shouldPreferIncomingOfflineRuntimeFile relPath then .ok none
  else match current.lookup relPath with
    | some currentEntry =>
      if some currentEntry.sha256 ≠ (base.lookup relPath).map OfflineSyncFileState.sha256 then do
        let excluded := fun path => shouldExcludePushRelPath path options.includeTranscripts options.userExcludes
        match ← snapshotForPath env.hashing excluded tree relPath with
        | none => .error (changedWhileBuilding relPath)
        | some record =>
          if record.1.sha256 ≠ currentEntry.sha256 then .error (changedWhileBuilding relPath)
          else return some (.upsert relPath ((base.lookup relPath).map OfflineSyncFileState.sha256) record.1 record.2)
      else .ok none
    | none =>
      match base.lookup relPath with
      | none => .ok none
      | some baseEntry => do
        -- A census that misses a file which is still there has not seen it deleted.
        if ← offlineSyncRegularFilePresent tree (text "buildOfflineSyncChangesetFromSnapshot") relPath then
          return none
        else
          let recorded := (deletions.getD []).reverse.find? fun deletion => deletion.path = relPath
          return some (.delete relPath baseEntry.sha256 (recorded.map OfflineSyncDeletionRevision.mtimeMs))

def buildOfflineSyncChangesetFromSnapshot (env : Environment Content) (tree : SyncTree Content)
    (options : BuildOptions) : Except Failure (OfflineSyncChangeset Content) := do
  let excludedPaths ← options.excludePaths.mapM fun relPath => normalizeRelativePath relPath (text "excludePaths[]")
  let baseFiles ← normalizeFileStates options.baseFiles
  let base := byPath (filterBaseFilesForMode baseFiles options.includeTranscripts)
  let currentFiles ← normalizeFileStates options.currentFiles
  let current := byPath (filterBaseFilesForMode currentFiles options.includeTranscripts)
  let deletions ← normalizeDeletionRevisions env.tables options.deletions (text "deletions")
  let changes ← (unionPaths [base.keys, current.keys]).mapM
    (changeFor env tree options excludedPaths base current deletions)
  let sourceId ← normalizeSourceId options.sourceId (text "sourceId")
  return {
    sourceId := sourceId
    includeTranscripts := options.includeTranscripts
    changes := (changes.filterMap id).mergeSort fun first second => env.tables.localeLe first.path second.path }

def normalizeChange (change : OfflineSyncChange Content) (index : Nat) :
    Except Failure (OfflineSyncChange Content) :=
  let field := indexed (text "changes") index
  match change with
  | .upsert path baseSha256 file content => do
    let relPath ← normalizeRelativePath path (field ++ text ".path")
    let state ← normalizeFileState file (field ++ text ".file")
    if state.path ≠ relPath then
      .error (.message (field ++ text ".file.path must match " ++ field ++ text ".path"))
    else return .upsert relPath baseSha256 state content
  | .delete path baseSha256 mtimeMs => do
    let relPath ← normalizeRelativePath path (field ++ text ".path")
    return .delete relPath baseSha256 mtimeMs

def isTranscriptPath (path : JsString) : Bool := (split slash path)[0]? = some (text "transcripts")

def assertNoTranscripts (context : JsString) (includeTranscripts : Bool) (paths : List JsString) :
    Except Failure Unit :=
  if includeTranscripts then .ok ()
  else match paths.find? isTranscriptPath with
    | some path => .error (.message (context ++
        text " includeTranscripts is false but contains transcript path: " ++ path))
    | none => .ok ()

def assertNoExcludedPath (context : JsString) (paths : List JsString) : Except Failure Unit :=
  match paths.find? fun path => shouldExcludeRelPath path true with
  | some path => .error (.message (context ++ text " contains excluded path: " ++ path))
  | none => .ok ()

/-- The checks that follow the reading of a snapshot's or a changeset's entries. -/
def assertEntryPaths (tables : UnicodeTables) (context : JsString) (includeTranscripts : Bool)
    (paths : List JsString) : Except Failure Unit := do
  assertUniquePaths tables context [] paths
  assertNoTranscripts context includeTranscripts paths
  assertNoExcludedPath context paths

def normalizeOfflineSyncChangeset (tables : UnicodeTables) (changeset : OfflineSyncChangeset Content) :
    Except Failure (OfflineSyncChangeset Content) := do
  let sourceId ← normalizeSourceId changeset.sourceId (text "sourceId")
  let read ← changeset.changes.zipIdx.mapM fun entry => normalizeChange entry.1 entry.2
  let changes := read.filter fun change => !shouldIgnoreIncomingRuntimePath change.path
  assertEntryPaths tables (text "offline sync changeset") changeset.includeTranscripts
    (changes.map OfflineSyncChange.path)
  return {
    sourceId := sourceId
    includeTranscripts := changeset.includeTranscripts
    changes := changes.mergeSort fun first second => tables.localeLe first.path second.path }

/-- What the embedding generations of a changeset come to: the paths they settle, and the root after. -/
structure GenerationRouting (Content : Type) where
  transactionHandled : List JsString
  conflictedPaths : List JsString
  conflicts : List OfflineSyncConflict
  appliedUpserts : Nat
  appliedDeletes : Nat
  writtenStates : List OfflineSyncFileState
  removedPaths : List JsString
  tree : SyncTree Content

def GenerationRouting.none (tree : SyncTree Content) : GenerationRouting Content :=
  ⟨[], [], [], 0, 0, [], [], tree⟩

/-- `applyChangesetEmbeddingGenerations`, which has nothing to do for a changeset without generation members. -/
structure ChangesetGenerations (Content : Type) where
  route : OfflineSyncChangeset Content → OrderedMap JsString OfflineSyncFileState → SyncTree Content →
    Except Failure (GenerationRouting Content)
  idle : ∀ changeset current tree, (∀ change ∈ changeset.changes, embeddingGenerationMembership change.path = .none) →
    route changeset current tree = .ok (GenerationRouting.none tree)

/-- `recordConflict`: the report, and the incoming content kept in a copy of its own. -/
def recordConflict (env : Environment Content) (tree : SyncTree Content) (errorPrefix sourceId : JsString)
    (writeConflictCopies : Bool) (incoming : Option Content) (report : OfflineSyncConflict) :
    Except Failure (OfflineSyncConflict × SyncTree Content) :=
  match incoming with
  | none => .ok (report, tree)
  | some content =>
    if writeConflictCopies then do
      let conflictPath := syncInternalDir ++ text "/conflicts/" ++ env.stamp report.path ++ text "-" ++
        (env.hashText sourceId).take 12 ++ [slash] ++ report.path
      let next ← writeSafeFile tree errorPrefix conflictPath content env.now
      return ({ report with conflictPath := some conflictPath }, next)
    else .ok (report, tree)

/-- `verifyRecordContents` of a record that carries its content. -/
def verifyContent (hashing : Hashing Content) (context : JsString) (file : OfflineSyncFileState) (content : Content) :
    Except Failure Unit :=
  if hashing.sha256 content = file.sha256 ∧ hashing.bytes content = file.bytes then .ok ()
  else .error (.message (context ++ text ": content checksum mismatch for " ++ file.path))

structure ApplyOptions where
  currentFiles : Option (List OfflineSyncFileState) := none
  returnCurrentFiles : Bool := true
  writeConflictCopies : Bool := true

structure ApplyState (Content : Type) where
  tree : SyncTree Content
  currentMap : OrderedMap JsString OfflineSyncFileState
  conflicts : List OfflineSyncConflict
  appliedUpserts : Nat
  appliedDeletes : Nat
  skipped : Nat

namespace ApplyState

def conflicted (state : ApplyState Content) (recorded : OfflineSyncConflict × SyncTree Content) : ApplyState Content :=
  { state with tree := recorded.2, conflicts := state.conflicts ++ [recorded.1] }

def upserted (state : ApplyState Content) (path : JsString) (file : OfflineSyncFileState) (tree : SyncTree Content) :
    ApplyState Content :=
  { state with
    tree := tree
    currentMap := state.currentMap.set path file
    appliedUpserts := state.appliedUpserts + 1 }

def deleted (state : ApplyState Content) (path : JsString) (tree : SyncTree Content) : ApplyState Content :=
  { state with
    tree := tree
    currentMap := state.currentMap.erase path
    appliedDeletes := state.appliedDeletes + 1 }

def skip (state : ApplyState Content) (tree : SyncTree Content) : ApplyState Content :=
  { state with tree := tree, skipped := state.skipped + 1 }

end ApplyState

def applyPrefix : JsString := text "applyOfflineSyncChangeset"

def applyUpsertWrite (path : JsString) (file : OfflineSyncFileState) (content : Content) (state : ApplyState Content) :
    Except Failure (ApplyState Content) := do
  let tree ← writeSafeFile state.tree applyPrefix path content file.mtimeMs
  return state.upserted path file tree

def applyConflict (env : Environment Content) (sourceId : JsString) (options : ApplyOptions)
    (incoming : Option Content) (report : OfflineSyncConflict) (state : ApplyState Content) :
    Except Failure (ApplyState Content) := do
  let recorded ← recordConflict env state.tree applyPrefix sourceId options.writeConflictCopies incoming report
  return state.conflicted recorded

/-- One round of the loop over the changes. -/
def applyChange (env : Environment Content) (sourceId : JsString) (options : ApplyOptions)
    (routing : GenerationRouting Content) (change : OfflineSyncChange Content) (state : ApplyState Content) :
    Except Failure (ApplyState Content) :=
  if routing.conflictedPaths.contains change.path then .ok state
  else if routing.transactionHandled.contains change.path then .ok state
  else if isEmbeddingGenerationMarkerPath change.path then .ok (state.skip state.tree)
  else
    let currentSha := (state.currentMap.lookup change.path).map OfflineSyncFileState.sha256
    match change with
    | .upsert path baseSha256 file content =>
      if currentSha = some file.sha256 then do
        let touched ← setSafeFileMtime state.tree applyPrefix path file.mtimeMs
        if touched.1 then return state.skip touched.2
        else applyUpsertWrite path file content { state with tree := touched.2 }
      else match baseSha256, currentSha with
        | none, none => applyUpsertWrite path file content state
        | none, some present =>
          applyConflict env sourceId options (some content)
            { path := path, reason := .remoteExistsForLocalCreate, localSha256 := some present,
              incomingSha256 := some file.sha256 } state
        | some base, current =>
          if current = some base then applyUpsertWrite path file content state
          else applyConflict env sourceId options (some content)
            { path := path, baseSha256 := some base, localSha256 := current, incomingSha256 := some file.sha256,
              reason := if current.isSome then .remoteChangedForLocalUpdate else .remoteDeletedForLocalUpdate } state
    | .delete path baseSha256 _ =>
      match currentSha with
      | none => .ok (state.skip state.tree)
      | some current =>
        if current = baseSha256 then do
          let tree ← deleteSafeFile state.tree applyPrefix path
          return state.deleted path tree
        else applyConflict env sourceId options none
          { path := path, reason := .remoteChangedForLocalDelete, baseSha256 := some baseSha256,
            localSha256 := some current } state

/-- The receiver's own view of the changed paths, or the one its caller hands over. -/
def currentFilesFor (env : Environment Content) (tree : SyncTree Content) (options : ApplyOptions)
    (changeset : OfflineSyncChangeset Content) : Except Failure (List OfflineSyncFileState) :=
  match options.currentFiles with
  | some files => do
    let checked ← normalizeFileStates files
    return filterBaseFilesForMode checked changeset.includeTranscripts
  | none => do
    let excluded := fun path => shouldExcludeRelPath path changeset.includeTranscripts
    let found ← (appendNew [] (changeset.changes.map OfflineSyncChange.path)).mapM
      (snapshotForPath env.hashing excluded tree)
    return (found.filterMap id).map Prod.fst

structure ApplyChangesetResult where
  appliedUpserts : Nat
  appliedDeletes : Nat
  skipped : Nat
  conflicts : List OfflineSyncConflict
  currentFiles : List OfflineSyncFileState
  currentFilesComplete : Bool

/-- Everything `applyOfflineSyncChangeset` does before its loop. -/
def prepareChangeset (env : Environment Content) (generations : ChangesetGenerations Content)
    (tree : SyncTree Content) (options : ApplyOptions) (received : OfflineSyncChangeset Content) :
    Except Failure (OfflineSyncChangeset Content × GenerationRouting Content × ApplyState Content) := do
  let changeset ← normalizeOfflineSyncChangeset env.tables received
  changeset.changes.forM fun change => match change with
    | .upsert _ _ file content => verifyContent env.hashing (text "offline sync changeset") file content
    | .delete _ _ _ => .ok ()
  let currentFiles ← currentFilesFor env tree options changeset
  let currentMap := byPath currentFiles
  let routing ← generations.route changeset currentMap tree
  return (changeset, routing,
    ⟨routing.tree, currentMap, routing.conflicts, routing.appliedUpserts, routing.appliedDeletes, 0⟩)

def applyResult (env : Environment Content) (options : ApplyOptions) (includeTranscripts : Bool)
    (routing : GenerationRouting Content) (state : ApplyState Content) : ApplyChangesetResult :=
  let settled := (routing.writtenStates.foldl (fun map file => map.set file.path file) state.currentMap)
  let settled := routing.removedPaths.foldl (fun map path => map.erase path) settled
  { appliedUpserts := state.appliedUpserts
    appliedDeletes := state.appliedDeletes
    skipped := state.skipped
    conflicts := state.conflicts
    currentFiles :=
      if options.returnCurrentFiles then
        census env.tables env.hashing (fun path => shouldExcludeRelPath path includeTranscripts) state.tree
      else (settled.entries.map Prod.snd).mergeSort (compareByPath env.tables)
    currentFilesComplete := options.returnCurrentFiles }

/-- The receiver's root after the call, whether it returns or fails part-way, and what it returns. -/
def applyOfflineSyncChangeset (env : Environment Content) (generations : ChangesetGenerations Content)
    (tree : SyncTree Content) (options : ApplyOptions) (received : OfflineSyncChangeset Content) :
    SyncTree Content × Except Failure ApplyChangesetResult :=
  match prepareChangeset env generations tree options received with
  | .error failure => (tree, .error failure)
  | .ok (changeset, routing, start) =>
    let run := runSteps (applyChange env changeset.sourceId options routing) changeset.changes start
    match run.2 with
    | some failure => (run.1.tree, .error failure)
    | none => (run.1.tree, .ok (applyResult env options changeset.includeTranscripts routing run.1))

end Remnic.OfflineSync.Changeset
