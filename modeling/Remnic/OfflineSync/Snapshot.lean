import Remnic.OfflineSync.Changeset

/-!
The snapshot of a pull: how its receiver checks it and merges it into its own
root against a base, and the base that the next push starts from.
-/

namespace Remnic.OfflineSync.Snapshot
open Library Library.LocalSteps Text.CodeUnits Reconcile.Census Paths SyncRoot Changeset

variable {Content : Type}

/-- A file of a snapshot, whose content may travel on its own. -/
structure OfflineSyncFileRecord (Content : Type) where
  state : OfflineSyncFileState
  content : Option Content

structure OfflineSyncSnapshot (Content : Type) where
  sourceId : JsString
  includeTranscripts : Bool
  files : List (OfflineSyncFileRecord Content)
  deletions : Option (List OfflineSyncDeletionRevision) := none
  omittedEmbeddingGenerationDirs : Option (List JsString) := none

def OfflineSyncSnapshot.paths (snapshot : OfflineSyncSnapshot Content) : List JsString :=
  (snapshot.files.map OfflineSyncFileRecord.state).map OfflineSyncFileState.path

def isEmbeddingGenerationDirPath (dirPath : JsString) : Bool :=
  embeddingGenerationMembership (dirPath ++ text "/shard-0000.json") = some dirPath

def normalizeFileRecord (record : OfflineSyncFileRecord Content) (field : JsString) :
    Except Failure (OfflineSyncFileRecord Content) := do
  let state ← normalizeFileState record.state field
  return { record with state := state }

/-- The entries from an index on, each a generation directory that none before it names. -/
def uniqueGenerationDirs (seen : List JsString) : List (JsString × Nat) → Except Failure (List JsString)
  | [] => .ok seen
  | (entry, index) :: rest =>
    if !isEmbeddingGenerationDirPath entry || seen.contains entry then
      .error (.message (indexed (text "omittedEmbeddingGenerationDirs") index ++
        text " must be a unique canonical embeddings generation dir"))
    else uniqueGenerationDirs (seen ++ [entry]) rest

def normalizeOmittedDirs (tables : UnicodeTables) (dirs : Option (List JsString)) :
    Except Failure (Option (List JsString)) :=
  match dirs with
  | none => .ok none
  | some entries => do
    let seen ← uniqueGenerationDirs [] entries.zipIdx
    return some (seen.mergeSort tables.localeLe)

def normalizeOfflineSyncSnapshot (tables : UnicodeTables) (snapshot : OfflineSyncSnapshot Content) :
    Except Failure (OfflineSyncSnapshot Content) := do
  let sourceId ← normalizeSourceId snapshot.sourceId (text "sourceId")
  let read ← snapshot.files.zipIdx.mapM fun entry => normalizeFileRecord entry.1 (indexed (text "files") entry.2)
  let files := (read.filter fun record => !shouldIgnoreIncomingRuntimePath record.state.path).mergeSort
    fun first second => compareByPath tables first.state second.state
  let recorded ← normalizeDeletionRevisions tables snapshot.deletions (text "deletions")
  let deletions := recorded.map fun entries => entries.filter fun deletion =>
    !shouldIgnoreIncomingRuntimePath deletion.path
  assertEntryPaths tables (text "offline sync snapshot") snapshot.includeTranscripts
    ((files.map fun record => record.state.path) ++ (deletions.getD []).map OfflineSyncDeletionRevision.path)
  let omitted ← normalizeOmittedDirs tables snapshot.omittedEmbeddingGenerationDirs
  return {
    sourceId := sourceId
    includeTranscripts := snapshot.includeTranscripts
    files := files
    deletions := deletions
    omittedEmbeddingGenerationDirs := omitted }

/-- The contents at hand, each checked against the digest of its record. -/
def verifyRecordContents (hashing : Hashing Content) (context : JsString)
    (readIncomingFile : OfflineSyncFileState → Option Content) (records : List (OfflineSyncFileRecord Content)) :
    Except Failure (OrderedMap JsString Content) :=
  records.foldlM (fun buffers record =>
    match record.content with
    | some content => do
      verifyContent hashing context record.state content
      return buffers.set record.state.path content
    | none =>
      match readIncomingFile record.state with
      | none => .ok buffers
      | some incoming =>
        if hashing.sha256 incoming = record.state.sha256 ∧ hashing.bytes incoming = record.state.bytes then
          .ok (buffers.set record.state.path incoming)
        else .error (.message (context ++ text ": incoming content checksum mismatch for " ++ record.state.path)))
    OrderedMap.empty

structure PullOptions (Content : Type) where
  baseFiles : List OfflineSyncFileState := []
  currentFiles : Option (List OfflineSyncFileState) := none
  deferredPaths : List JsString := []
  allowMissingConflictContent : Bool := false
  readIncomingFile : OfflineSyncFileState → Option Content := fun _ => none
  writeConflictCopies : Bool := true
  recordDeletionRevision : Option (OfflineSyncDeletionRevision → Except Failure Unit) := none

/-- The three sides of a merge, and what the caller holds back. -/
structure PullInputs (Content : Type) where
  sourceId : JsString
  base : OrderedMap JsString OfflineSyncFileState
  incoming : OrderedMap JsString OfflineSyncFileState
  current : OrderedMap JsString OfflineSyncFileState
  buffers : OrderedMap JsString Content
  deletions : Option (List OfflineSyncDeletionRevision)
  omittedGenerationDirs : List JsString
  deferredPaths : List JsString

/-- What `applyEmbeddingGenerationTransaction` reports of one generation. -/
structure TransactionResult where
  shardDirRel : JsString
  deferredLocalDivergence : Bool
  upserted : Nat
  deleted : Nat
  writtenStates : List OfflineSyncFileState
  removedPaths : List JsString
  handledPaths : List JsString

/-- `divergedEmbeddingGenerationDeferrals` and `applyIncomingEmbeddingGenerations`, which have nothing to do where
no side names a generation member. -/
structure SnapshotGenerations (Content : Type) where
  diverged : PullInputs Content → List JsString
  route : PullInputs Content → SyncTree Content →
    Except Failure (List TransactionResult × List JsString × SyncTree Content)
  idle : ∀ inputs tree,
    (∀ path, path ∈ inputs.base.keys ∨ path ∈ inputs.incoming.keys ∨ path ∈ inputs.current.keys →
      embeddingGenerationMembership path = none) →
    diverged inputs = [] ∧ route inputs tree = .ok ([], inputs.deferredPaths.filterMap embeddingGenerationMembership, tree)

structure PullRouting where
  deferredPaths : List JsString
  deferredGenerationDirs : List JsString
  transactionHandled : List JsString
  nextBase : OrderedMap JsString OfflineSyncFileState
  upserted : Nat
  deleted : Nat

/-- A transaction that found the local generation diverged defers it, and any other settles its paths. -/
def PullRouting.add (routing : PullRouting) (result : TransactionResult) : PullRouting :=
  if result.deferredLocalDivergence then
    { routing with
      deferredPaths := routing.deferredPaths ++ result.handledPaths
      deferredGenerationDirs := routing.deferredGenerationDirs ++ [result.shardDirRel] }
  else
    let written := result.writtenStates.foldl (fun map file => map.set file.path file) routing.nextBase
    { routing with
      transactionHandled := routing.transactionHandled ++ result.handledPaths ++
        result.writtenStates.map OfflineSyncFileState.path ++ result.removedPaths
      nextBase := result.removedPaths.foldl (fun map path => map.erase path) written
      upserted := routing.upserted + result.upserted
      deleted := routing.deleted + result.deleted }

structure PullState (Content : Type) where
  tree : SyncTree Content
  nextBase : OrderedMap JsString OfflineSyncFileState
  conflicts : List OfflineSyncConflict
  upserted : Nat
  deleted : Nat
  skipped : Nat
  pendingLocal : Nat

namespace PullState

def restoreBase (state : PullState Content) (path : JsString) (base : Option OfflineSyncFileState) : PullState Content :=
  { state with
    nextBase := match base with
      | some file => state.nextBase.set path file
      | none => state.nextBase.erase path }

def forget (state : PullState Content) (path : JsString) : PullState Content :=
  { state with nextBase := state.nextBase.erase path }

def skip (state : PullState Content) : PullState Content := { state with skipped := state.skipped + 1 }

def pending (state : PullState Content) : PullState Content :=
  { state with pendingLocal := state.pendingLocal + 1, skipped := state.skipped + 1 }

def conflicted (state : PullState Content) (recorded : OfflineSyncConflict × SyncTree Content) : PullState Content :=
  { state with tree := recorded.2, conflicts := state.conflicts ++ [recorded.1] }

end PullState

def pullPrefix : JsString := text "applyOfflineSyncSnapshot"

def requiredBuffer (inputs : PullInputs Content) (relPath : JsString) : Except Failure Content :=
  match inputs.buffers.lookup relPath with
  | some content => .ok content
  | none => .error (.message (text "missing decoded content for " ++ relPath))

def conflictIncomingBuffer (options : PullOptions Content) (inputs : PullInputs Content) (relPath : JsString) :
    Except Failure (Option Content) :=
  if !options.writeConflictCopies then .ok none
  else match inputs.buffers.lookup relPath with
    | some content => .ok (some content)
    | none =>
      if options.allowMissingConflictContent then .ok none
      else .error (.message (text "missing decoded content for " ++ relPath))

/-- The incoming file takes the place of the local one and becomes the base. -/
def takeIncoming (inputs : PullInputs Content) (relPath : JsString) (incoming : OfflineSyncFileState)
    (state : PullState Content) : Except Failure (PullState Content) := do
  let content ← requiredBuffer inputs relPath
  let tree ← writeSafeFile state.tree pullPrefix relPath content incoming.mtimeMs
  return { state with tree := tree, nextBase := state.nextBase.set relPath incoming, upserted := state.upserted + 1 }

/-- The local file is removed, and its base with it. -/
def dropLocal (relPath : JsString) (state : PullState Content) : Except Failure (PullState Content) := do
  let tree ← deleteSafeFile state.tree pullPrefix relPath
  return { state with tree := tree, nextBase := state.nextBase.erase relPath, deleted := state.deleted + 1 }

def pullConflict (env : Environment Content) (options : PullOptions Content) (inputs : PullInputs Content)
    (report : OfflineSyncConflict) (state : PullState Content) : Except Failure (PullState Content) := do
  let buffer ← conflictIncomingBuffer options inputs report.path
  let recorded ← recordConflict env state.tree pullPrefix inputs.sourceId options.writeConflictCopies buffer report
  return state.conflicted recorded

def mergeIncoming (env : Environment Content) (options : PullOptions Content) (inputs : PullInputs Content)
    (relPath : JsString) (incoming : OfflineSyncFileState) (state : PullState Content) :
    Except Failure (PullState Content) :=
  let base := inputs.base.lookup relPath
  let current := inputs.current.lookup relPath
  if isEmbeddingGenerationMarkerPath relPath then .ok (state.forget relPath).skip
  else if current.map OfflineSyncFileState.sha256 = some incoming.sha256 then do
    let touched ← setSafeFileMtime state.tree pullPrefix relPath incoming.mtimeMs
    if touched.1 then return ({ state with tree := touched.2 }.restoreBase relPath (some incoming)).skip
    else return ({ state with tree := touched.2 }.restoreBase relPath base).pending
  else if shouldPreferIncomingOfflineRuntimeFile relPath then
    if current.isSome ∧ base.map OfflineSyncFileState.sha256 = some incoming.sha256 then
      .ok (state.restoreBase relPath base).skip
    else takeIncoming inputs relPath incoming state
  else match current, base with
    | none, some baseEntry =>
      if incoming.sha256 = baseEntry.sha256 then .ok (state.restoreBase relPath base).pending
      else do
        let next ← pullConflict env options inputs
          { path := relPath, reason := .localDeletedRemoteModified, baseSha256 := some baseEntry.sha256,
            incomingSha256 := some incoming.sha256 } state
        return next.restoreBase relPath base
    | none, none => do
      -- A census that misses a file which is still there must not have it overwritten.
      if ← offlineSyncRegularFilePresent state.tree pullPrefix relPath then return state.pending
      else takeIncoming inputs relPath incoming state
    | some currentEntry, some baseEntry =>
      if currentEntry.sha256 = baseEntry.sha256 then takeIncoming inputs relPath incoming state
      else if incoming.sha256 = baseEntry.sha256 then .ok (state.restoreBase relPath base).pending
      else do
        let next ← pullConflict env options inputs
          { path := relPath, reason := .bothModified, baseSha256 := some baseEntry.sha256,
            localSha256 := some currentEntry.sha256, incomingSha256 := some incoming.sha256 } state
        return next.restoreBase relPath base
    | some currentEntry, none =>
      pullConflict env options inputs
        { path := relPath, reason := .remoteExistsForLocalCreate, localSha256 := some currentEntry.sha256,
          incomingSha256 := some incoming.sha256 } state

def mergeAbsent (inputs : PullInputs Content) (relPath : JsString) (state : PullState Content) :
    Except Failure (PullState Content) :=
  let base := inputs.base.lookup relPath
  if matchesOfflineSyncDefaultExclude relPath then .ok (state.forget relPath).skip
  else match inputs.current.lookup relPath with
    | none => .ok (state.forget relPath).skip
    | some currentEntry =>
      if shouldPreferIncomingOfflineRuntimeFile relPath then
        if (embeddingGenerationMembership relPath).any inputs.omittedGenerationDirs.contains then .ok state.pending
        else if base.isSome ∨ shouldDeleteAbsentIncomingOfflineRuntimeFile relPath = true then dropLocal relPath state
        else .ok state.pending
      else match base with
        | none => .ok state.pending
        | some baseEntry =>
          if currentEntry.sha256 = baseEntry.sha256 then dropLocal relPath state
          else
            let report := { path := relPath, reason := .localModifiedRemoteDeleted,
                            baseSha256 := some baseEntry.sha256, localSha256 := some currentEntry.sha256 }
            .ok ((state.conflicted (report, state.tree)).restoreBase relPath base)

/-- One round of the loop over the paths of all three sides. -/
def mergePath (env : Environment Content) (options : PullOptions Content) (inputs : PullInputs Content)
    (routing : PullRouting) (relPath : JsString) (state : PullState Content) : Except Failure (PullState Content) :=
  if routing.deferredPaths.contains relPath then .ok (state.restoreBase relPath (inputs.base.lookup relPath)).skip
  else if routing.transactionHandled.contains relPath then .ok state
  else if (embeddingGenerationMembership relPath).any routing.deferredGenerationDirs.contains then
    .ok (state.restoreBase relPath (inputs.base.lookup relPath)).skip
  else match inputs.incoming.lookup relPath with
    | some incoming => mergeIncoming env options inputs relPath incoming state
    | none => mergeAbsent inputs relPath state

/-- The deletions that the snapshot carries reach the caller's record where nothing local speaks against them. -/
def recordDeletions (options : PullOptions Content) (inputs : PullInputs Content) (tree : SyncTree Content) :
    Except Failure Unit :=
  match inputs.deletions, options.recordDeletionRevision with
  | some deletions, some recordDeletionRevision => deletions.forM fun deletion =>
    if inputs.current.contains deletion.path || inputs.deferredPaths.contains deletion.path ||
        (embeddingGenerationMembership deletion.path).any inputs.omittedGenerationDirs.contains ||
        matchesOfflineSyncDefaultExclude deletion.path then .ok ()
    else do
      let _ ← resolveSafeArchiveTarget tree pullPrefix deletion.path
      recordDeletionRevision deletion
  | _, _ => .ok ()

/-- The receiver's own census, or the one its caller hands over. -/
def pullCurrentFiles (env : Environment Content) (tree : SyncTree Content) (options : PullOptions Content)
    (includeTranscripts : Bool) : Except Failure (List OfflineSyncFileState) :=
  match options.currentFiles with
  | some files => do
    let checked ← normalizeFileStates files
    return filterBaseFilesForMode checked includeTranscripts
  | none => .ok (census env.tables env.hashing (fun path => shouldExcludeRelPath path includeTranscripts) tree)

structure ApplySnapshotResult where
  upserted : Nat
  deleted : Nat
  skipped : Nat
  pendingLocal : Nat
  conflicts : List OfflineSyncConflict
  nextBaseFiles : List OfflineSyncFileState

/-- Everything `applyOfflineSyncSnapshot` does before its loop. -/
def preparePull (env : Environment Content) (generations : SnapshotGenerations Content) (tree : SyncTree Content)
    (options : PullOptions Content) (received : OfflineSyncSnapshot Content) :
    Except Failure (PullInputs Content × PullRouting × PullState Content) := do
  let snapshot ← normalizeOfflineSyncSnapshot env.tables received
  let baseFiles ← normalizeFileStates options.baseFiles
  let buffers ← verifyRecordContents env.hashing (text "offline sync snapshot") options.readIncomingFile snapshot.files
  let currentFiles ← pullCurrentFiles env tree options snapshot.includeTranscripts
  let sides : PullInputs Content := {
    sourceId := snapshot.sourceId
    base := byPath (filterBaseFilesForMode baseFiles snapshot.includeTranscripts)
    incoming := byPath (snapshot.files.map OfflineSyncFileRecord.state)
    current := byPath currentFiles
    buffers := buffers
    deletions := snapshot.deletions
    omittedGenerationDirs := snapshot.omittedEmbeddingGenerationDirs.getD []
    deferredPaths := options.deferredPaths }
  let inputs := { sides with deferredPaths := sides.deferredPaths ++ generations.diverged sides }
  recordDeletions options inputs tree
  let (results, deferredGenerationDirs, routed) ← generations.route inputs tree
  let routing := results.foldl PullRouting.add
    ⟨inputs.deferredPaths, deferredGenerationDirs, [], inputs.base, 0, 0⟩
  return (inputs, routing, ⟨routed, routing.nextBase, [], routing.upserted, routing.deleted, 0, 0⟩)

/-- The receiver's root after the call, whether it returns or fails part-way, and what it returns. -/
def applyOfflineSyncSnapshot (env : Environment Content) (generations : SnapshotGenerations Content)
    (tree : SyncTree Content) (options : PullOptions Content) (received : OfflineSyncSnapshot Content) :
    SyncTree Content × Except Failure ApplySnapshotResult :=
  match preparePull env generations tree options received with
  | .error failure => (tree, .error failure)
  | .ok (inputs, routing, start) =>
    let run := runSteps (mergePath env options inputs routing)
      (unionPaths [inputs.base.keys, inputs.incoming.keys, inputs.current.keys]) start
    match run.2 with
    | some failure => (run.1.tree, .error failure)
    | none => (run.1.tree, .ok {
        upserted := run.1.upserted
        deleted := run.1.deleted
        skipped := run.1.skipped
        pendingLocal := run.1.pendingLocal
        conflicts := run.1.conflicts
        nextBaseFiles := (run.1.nextBase.entries.map Prod.snd).mergeSort (compareByPath env.tables) })

end Remnic.OfflineSync.Snapshot
