import Remnic.CodingGraph.Heuristic

/-!
`executeReindex`: a plan from the stored head and the facts of git, one transaction that
ingests and deletes files, then two separate writes, of the paths to retry and of the head.
-/

namespace Remnic.CodingGraph.Reindex

open Text.CodeUnits Library Schema Upsert Heuristic

abbrev Bytes := List UInt8

/-- A changed file of a diff; its status is not read. -/
structure NameStatusEntry where
  path : JsString
  oldPath : Option JsString
  deriving DecidableEq, Repr

structure ReindexGitFacts where
  currentHead : Option JsString
  lastHeadReachable : Bool
  changedFiles : List NameStatusEntry

inductive ReindexPlan where
  | full (reason : JsString)
  | noop (reason : JsString)
  | incremental (changedPaths : List JsString)
  | hashScan (reason : JsString)
  deriving DecidableEq, Repr

inductive Mode where
  | full | noop | incremental | hashScan
  deriving DecidableEq, Repr

inductive ReindexResult where
  | ok (mode : Mode) (filesIngested : Nat) (head : Option JsString)
  | gitFailure (code : JsString)
  | storeError (message : JsString)
  deriving DecidableEq, Repr

def changedPathsOf (entry : NameStatusEntry) : List JsString :=
  entry.path :: (entry.oldPath.filter (· ≠ entry.path)).toList

def planReindex (lastHead : Option JsString) (facts : ReindexGitFacts) : ReindexPlan :=
  match facts.currentHead, lastHead with
  | none, _ => .noop (text "repo has no commits (HEAD is null)")
  | some _, none => .full (text "no prior last_indexed_head — first index")
  | some current, some last =>
      if last = current then .noop (text "HEAD unchanged since last index")
      else if !facts.lastHeadReachable then
        .hashScan (text "last_indexed_head " ++ last.take 12 ++ text " is unreachable (rebase/force-push)")
      else .incremental (facts.changedFiles.flatMap changedPathsOf)

/-- What the file system answers about the paths of the worktree. -/
structure Disk where
  symlinkEscapesRoot : JsString → Bool
  readFile : JsString → Except JsString Bytes

/-- How far the writes after the transaction come: a closed store drops them, a stop comes before one of them. -/
inductive Writes where
  | all | closed | stoppedBeforePending | stoppedBeforeHead
  deriving DecidableEq, Repr

/-- The failing calls of the store, with their codes. -/
structure Faults where
  lastHead : Option JsString
  fileHashes : Option JsString
  pending : Option JsString
  upsert : Option JsString
  writes : Writes

def noFaults : Faults := ⟨none, none, none, none, .all⟩

/-- What one run is given, and what git, the disk, the parser and the store answer during it. -/
structure Run where
  revParseHead : Except JsString (Option JsString)
  isReachable : JsString → Except JsString Bool
  diffNameStatus : JsString → JsString → Except JsString (List NameStatusEntry)
  candidatePaths : Option (List JsString)
  probing : Disk
  ingesting : Disk
  parseFile : JsString → Bytes → Option FileIR
  faults : Faults

structure Engine where
  host : Host
  hashContent : Bytes → JsString

/-- The graph and the two keys of the meta table; an absent set of paths to retry is empty. -/
structure Index where
  store : Store
  pendingParseFailures : List JsString
  lastIndexedHead : Option JsString

def storedHash (store : Store) (path : JsString) : Option JsString := (store.files.lookup path).map FileRow.contentHash

def isCanonicalRelativePath (path : JsString) : Bool := isCanonicalFilePath path

inductive ProbeRead where
  | present (content : Bytes)
  | missing
  | unknown
  | skip
  deriving DecidableEq, Repr

def probeRead (disk : Disk) (relPath : JsString) : ProbeRead :=
  if !isCanonicalRelativePath relPath || disk.symlinkEscapesRoot relPath then .skip
  else
    match disk.readFile relPath with
    | .ok content => .present content
    | .error code => if code = text "ENOENT" then .missing else .unknown

/-- What comes of a path that is handed to `ingestFiles`. -/
inductive Ingest where
  | parseFailed
  | escaped
  | parsed (ir : FileIR)

def ingestFile (run : Run) (relPath : JsString) : Ingest :=
  if !isCanonicalRelativePath relPath then .parseFailed
  else if run.ingesting.symlinkEscapesRoot relPath then .escaped
  else
    match run.ingesting.readFile relPath with
    | .error _ => .parseFailed
    | .ok content =>
        match run.parseFile relPath content with
        | none => .parseFailed
        | some ir => .parsed ir

def Ingest.ir? : Ingest → Option FileIR
  | .parsed ir => some ir
  | _ => none

def Ingest.isFailure : Ingest → Bool
  | .parseFailed => true
  | _ => false

def parsedFiles (run : Run) (paths : List JsString) : List FileIR := paths.filterMap fun path => (ingestFile run path).ir?

def parseFailedPaths (run : Run) (paths : List JsString) : List JsString := paths.filter fun path => (ingestFile run path).isFailure

structure Ingested where
  store : Store
  count : Nat

/-- A batch that throws rejects, without a result. -/
def ingestFiles (engine : Engine) (run : Run) (store : Store) (paths deletePaths : List JsString) :
    Except (Option ReindexResult) Ingested :=
  match deriveHeuristicEdges (parsedFiles run paths), run.faults.upsert with
  | none, _ => .error none
  | some _, some code => .error (some (.storeError (text "upsertFileBatch failed: " ++ code)))
  | some files, none =>
      match runUpsert engine.host store (files.map withHeuristicScope) deletePaths with
      | some store => .ok ⟨store, files.length⟩
      | none => .error none

/-- A path stays pending until it is ingested or deleted. -/
def computeNextPending (priorPending parseFailedPaths extraRetry ingestedCandidates deleted : List JsString) : List JsString :=
  ((priorPending ++ parseFailedPaths ++ extraRetry).eraseDups).filter fun path =>
    !(path ∈ ingestedCandidates && path ∉ parseFailedPaths) && path ∉ deleted

/-- What a plan comes down to: what is ingested, deleted and retried, and whether the head advances. -/
structure Work where
  mode : Mode
  toIngest : List JsString
  toDelete : List JsString
  nextPending : List JsString → List JsString
  advances : Bool

/-- An empty list of candidates is as little an authority as none. -/
def candidatesProvided (run : Run) : Bool := run.candidatePaths.any (· ≠ [])

def noopWork (pendingRetry : List JsString) : Work := ⟨.noop, pendingRetry, [], id, false⟩

def fullWork (index : Index) (run : Run) : Work :=
  let pendingRetry := index.pendingParseFailures
  let toIngest := (run.candidatePaths.getD [] ++ pendingRetry).eraseDups
  let fullDelete := if candidatesProvided run then index.store.files.keys.filter (· ∉ toIngest) else []
  ⟨.full, toIngest, fullDelete, fun failed => computeNextPending pendingRetry failed [] toIngest fullDelete, candidatesProvided run⟩

/-- Whether a probe finds a path that is not to be kept: it is gone, or no readable file of the repository. -/
def ProbeRead.isGone : ProbeRead → Bool
  | .missing | .skip => true
  | _ => false

def ProbeRead.isReadable : ProbeRead → Bool
  | .present _ | .unknown => true
  | _ => false

def incrementalWork (index : Index) (run : Run) (changedPaths : List JsString) : Work :=
  let pendingRetry := index.pendingParseFailures
  let seen := (changedPaths ++ pendingRetry).eraseDups
  let probe := probeRead run.probing
  let toDelete := seen.filter fun path => (probe path).isGone && index.store.files.contains path
  let toIngest := seen.filter fun path => (probe path).isReadable
  let missingNew := seen.filter fun path => probe path = .missing && !index.store.files.contains path
  ⟨.incremental, toIngest, toDelete, fun failed => computeNextPending pendingRetry failed missingNew toIngest toDelete, true⟩

def isMismatch (engine : Engine) (store : Store) (path : JsString) : ProbeRead → Bool
  | .present content => storedHash store path ≠ some (engine.hashContent content)
  | _ => false

def hashScanWork (engine : Engine) (index : Index) (run : Run) : Work :=
  let pendingRetry := index.pendingParseFailures
  let candidateSet := (run.candidatePaths.getD [] ++ index.store.files.keys ++ pendingRetry).eraseDups
  let probe := probeRead run.probing
  let toDelete := candidateSet.filter fun path => (probe path).isGone && index.store.files.contains path
  let toIngest := candidateSet.filter fun path => isMismatch engine index.store path (probe path)
  let hashScanRetry := candidateSet.filter fun path =>
    probe path = .unknown || (probe path = .missing && !index.store.files.contains path)
  ⟨.hashScan, toIngest, toDelete, fun failed => computeNextPending pendingRetry failed hashScanRetry toIngest toDelete,
    candidatesProvided run⟩

/-- The work of a plan; none when there is nothing to do. -/
def workOf (engine : Engine) (index : Index) (run : Run) : ReindexPlan → Option Work
  | .noop _ => if index.pendingParseFailures = [] then none else some (noopWork index.pendingParseFailures)
  | .full _ =>
      if run.candidatePaths.getD [] = [] ∧ index.pendingParseFailures = [] then none else some (fullWork index run)
  | .incremental changedPaths => some (incrementalWork index run changedPaths)
  | .hashScan _ => some (hashScanWork engine index run)

/-- A diff that fails counts as an unreachable head. -/
def factsSince (run : Run) (last current : JsString) (reachable : Bool) : ReindexGitFacts :=
  if reachable && last ≠ current then
    match run.diffNameStatus last current with
    | .ok entries => ⟨some current, true, entries⟩
    | .error _ => ⟨some current, false, []⟩
  else ⟨some current, reachable, []⟩

def gitFacts (lastHead : Option JsString) (run : Run) : Except JsString ReindexGitFacts := do
  let currentHead ← run.revParseHead
  match lastHead, currentHead with
  | some last, some current => (run.isReachable last).map (factsSince run last current)
  | _, _ => .ok ⟨currentHead, true, []⟩

/-- The facts and the plan; a read that fails ends the run before any write. -/
def planOf (index : Index) (run : Run) : Except ReindexResult (ReindexGitFacts × ReindexPlan) :=
  match run.faults.lastHead with
  | some code => .error (.storeError (text "read last_indexed_head: " ++ code))
  | none =>
      match gitFacts index.lastIndexedHead run with
      | .error code => .error (.gitFailure code)
      | .ok facts =>
          match run.faults.fileHashes, run.faults.pending with
          | some code, _ => .error (.storeError (text "readFileHashes: " ++ code))
          | none, some code => .error (.storeError (text "read pending_parse_failures: " ++ code))
          | none, none => .ok (facts, planReindex index.lastIndexedHead facts)

/-- What a run leaves: the index, whether the transaction was committed, and the result if it returns one. -/
structure Attempt where
  index : Index
  committed : Bool
  result : Option ReindexResult

def Index.withData (index : Index) (store : Store) : Index := { index with store := store }

def Index.withPending (index : Index) (paths : List JsString) : Index := { index with pendingParseFailures := paths }

def Index.withHead (index : Index) (head : JsString) : Index := { index with lastIndexedHead := some head }

/-- The transaction, then the two writes, as far as they come. -/
def perform (engine : Engine) (index : Index) (run : Run) (currentHead : Option JsString) (work : Work) : Attempt :=
  match ingestFiles engine run index.store work.toIngest work.toDelete with
  | .error result => ⟨index, false, result⟩
  | .ok ingested =>
      let data := index.withData ingested.store
      let retried := data.withPending (work.nextPending (parseFailedPaths run work.toIngest))
      let result := ReindexResult.ok work.mode ingested.count (if work.advances then currentHead else index.lastIndexedHead)
      match run.faults.writes with
      | .stoppedBeforePending => ⟨data, true, none⟩
      | .closed => ⟨data, true, some result⟩
      | .stoppedBeforeHead => ⟨retried, true, none⟩
      | .all => ⟨if work.advances then retried.withHead (currentHead.getD []) else retried, true, some result⟩

def executeReindex (engine : Engine) (index : Index) (run : Run) : Attempt :=
  match planOf index run with
  | .error result => ⟨index, false, some result⟩
  | .ok (facts, plan) =>
      match workOf engine index run plan with
      | none => ⟨index, false, some (.ok .noop 0 index.lastIndexedHead)⟩
      | some work => perform engine index run facts.currentHead work

end Remnic.CodingGraph.Reindex
