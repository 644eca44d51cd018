import Remnic.Reconcile.Census

/-!
The bootstrap reconciliation planner for two peers whose corpora have diverged.
It is pure: two censuses and the evidence about retractions, deletions and the
last agreed base decide one entry for each path.
-/

namespace Remnic.Reconcile.Plan
open Text.CodeUnits Library Reconcile.Census

/-- Which way a path must move for the two corpora to agree. -/
inductive ReconcileAction where
  | pull
  | push
  | identical
  | conflict
  | suppress
deriving DecidableEq

inductive ReconcileResolution where
  | localWins
  | peerWins
  | supersedeLink
  | unresolved
deriving DecidableEq

inductive ReconcileReason where
  | peerOnly
  | localOnly
  | peerChanged
  | localChanged
  | sameContent
  | semanticDuplicate
  | bothModified
  | peerDeleted
  | localDeleted
  | localModifiedPeerDeleted
  | localDeletedPeerModified
  | tombstoned
deriving DecidableEq

/-- The side holding the retracted revision of a `suppress` entry. -/
inductive SuppressSide where
  | localCopy
  | peerCopy
  | bothCopies
deriving DecidableEq

inductive ReconcileSemanticChange where
  | unchanged
  | localChanged
  | peerChanged
  | bothModified
deriving DecidableEq

structure ReconcileSemanticFileState where
  path : JsString
  sha256 : JsString
deriving DecidableEq

structure ReconcileSemanticAgreement where
  localFile : ReconcileSemanticFileState
  peerFile : ReconcileSemanticFileState
deriving DecidableEq

structure ReconcilePlanEntry where
  path : JsString
  nameSpace : JsString
  action : ReconcileAction
  reason : ReconcileReason
  localSha256 : Option Sha256 := none
  peerSha256 : Option Sha256 := none
  baseSha256 : Option Sha256 := none
  resolution : Option ReconcileResolution := none
  deletionMtimeMs : Option CensusMtime := none
  suppressSide : Option SuppressSide := none
  semanticAgreement : Option ReconcileSemanticAgreement := none
  semanticChange : Option ReconcileSemanticChange := none
deriving DecidableEq

structure ReconcileNamespaceInput where
  nameSpace : Option JsString
  localCensus : RawCollection ReconcileFileState
  peerCensus : RawCollection ReconcileFileState
  base : RawCollection ReconcileFileState
  localDeletionMtimeMs : RawCollection (JsString × MtimeValue)
  peerDeletionMtimeMs : RawCollection (JsString × MtimeValue)
  tombstonedFileSha256 : RawCollection (Option JsString)
  peerTombstonedFileSha256 : RawCollection (Option JsString)

structure ReconcileOptions where
  conflictPolicy : Option JsString
  localPlatform : Option JsString
  peerPlatform : Option JsString

def sharpS : CodeUnit := unit 0xDF

/-- The key under which two names of one file on some participant coincide. -/
def foldPath (tables : UnicodeTables) (path : JsString) : JsString :=
  (tables.toLowerCase (tables.toUpperCase (tables.normalizeNfc path))).flatMap
    (fun c => if c = sharpS then text "ss" else [c])

def assertNoPathAlias (tables : UnicodeTables) (seen : OrderedMap JsString JsString) (path nameSpace : JsString) :
    Checked (OrderedMap JsString JsString) :=
  let folded := foldPath tables path
  match seen.lookup folded with
  | some existing =>
    if existing ≠ path then
      refuse (text "reconcile: namespace " ++ nameSpace ++ text " has aliasing paths (" ++ existing ++
        text ", " ++ path ++ text "); " ++
        text "they resolve to one file on a case-insensitive or Unicode-normalizing peer")
    else .ok (seen.set folded path)
  | none => .ok (seen.set folded path)

def twiceMessage (side : CensusSide) (nameSpace path field : JsString) : JsString :=
  text "reconcile: " ++ side.label ++ text " census for namespace " ++ nameSpace ++ text " lists " ++ path ++
    text " twice with different " ++ field

/-- Duplicate paths are accepted only when they agree. -/
def rejectConflictingDuplicate (existing : Option RevisionStamp) (incoming : RevisionStamp) (path : JsString)
    (side : CensusSide) (nameSpace : JsString) : Checked Bool :=
  match existing with
  | none => .ok false
  | some known =>
    if known.sha256 ≠ incoming.sha256 then refuse (twiceMessage side nameSpace path (text "digests"))
    else if known.mtimeMs ≠ incoming.mtimeMs then refuse (twiceMessage side nameSpace path (text "mtimeMs"))
    else .ok true

def indexRound (side : CensusSide) (nameSpace : JsString) (platforms : Platforms)
    (index : OrderedMap JsString CensusRecord) (raw : ReconcileFileState) :
    Checked (OrderedMap JsString CensusRecord) := do
  let file ← assertCensusRecord raw side nameSpace platforms
  let repeated ← rejectConflictingDuplicate ((index.lookup file.path).map CensusRecord.stamp) file.stamp
    file.path side nameSpace
  if repeated then return index else return index.set file.path file

def indexByPath (files : List ReconcileFileState) (side : CensusSide) (nameSpace : JsString)
    (platforms : Platforms) : Checked (OrderedMap JsString CensusRecord) :=
  files.foldlM (indexRound side nameSpace platforms) .empty

def parseTombstonedDigests (value : RawCollection (Option JsString)) (nameSpace field : JsString) :
    Checked (List Sha256) :=
  match value with
  | .absent => .ok []
  | .bareString => refuse (text "reconcile: " ++ field ++ text " for namespace " ++ nameSpace ++
      text " must be a collection of digests, not a single string")
  | .notIterable => refuse (text "reconcile: " ++ field ++ text " for namespace " ++ nameSpace ++
      text " must be an iterable collection of digests")
  | .items values => values.mapM (fun entry => assertDigest entry (field ++ text " for namespace " ++ nameSpace))

def indexDigestsRound (side : CensusSide) (nameSpace : JsString) (platforms : Platforms)
    (index : OrderedMap JsString Sha256) (raw : ReconcileFileState) : Checked (OrderedMap JsString Sha256) := do
  let file ← assertCensusRecord raw side nameSpace platforms
  match index.lookup file.path with
  | some existing =>
    if existing ≠ file.sha256 then refuse (twiceMessage side nameSpace file.path (text "digests"))
    else return index
  | none => return index.set file.path file.sha256

/-- A census kept as path and digest only: the base is read for digests alone. -/
def indexDigestsByPath (files : List ReconcileFileState) (side : CensusSide) (nameSpace : JsString)
    (platforms : Platforms) : Checked (OrderedMap JsString Sha256) :=
  files.foldlM (indexDigestsRound side nameSpace platforms) .empty

def parseDeletionRound (side : CensusSide) (nameSpace : JsString) (platforms : Platforms)
    (parsed : OrderedMap JsString CensusMtime) (deletion : JsString × MtimeValue) :
    Checked (OrderedMap JsString CensusMtime) := do
  assertArchivePath deletion.1
    (text "reconcile: " ++ side.label ++ text " deletion mtimes for namespace " ++ nameSpace)
  assertPortablePathSegments deletion.1 side.label nameSpace platforms
  let mtimeMs ← assertMtimeMs deletion.2
    (side.label ++ text " deletion for namespace " ++ nameSpace ++ text " entry " ++ deletion.1)
  return parsed.set deletion.1 mtimeMs

def parseDeletionMtimes (value : RawCollection (JsString × MtimeValue)) (side : CensusSide) (nameSpace : JsString)
    (platforms : Platforms) : Checked (OrderedMap JsString CensusMtime) :=
  match value with
  | .absent => .ok .empty
  | .items deletions => deletions.foldlM (parseDeletionRound side nameSpace platforms) .empty
  | _ => refuse (text "reconcile: " ++ side.label ++ text " deletion mtimes for namespace " ++ nameSpace ++
      text " must be a Map")

def resolveConflict (policy : ConvergeConflictPolicy) (localMtimeMs peerMtimeMs : Option CensusMtime)
    (missingTimestampResolution : ReconcileResolution) : ReconcileResolution :=
  if policy ≠ .newestWins then .unresolved
  else
    match localMtimeMs, peerMtimeMs with
    | some localTime, some peerTime =>
      if localTime = peerTime then missingTimestampResolution
      else if peerTime.val < localTime.val then .localWins else .peerWins
    | _, _ => missingTimestampResolution

/-- Everything besides the two censuses that a path's decision may read. -/
structure PlanEvidence where
  nameSpace : JsString
  policy : ConvergeConflictPolicy
  base : Option (OrderedMap JsString Sha256)
  tombstoned : List Sha256
  peerTombstoned : List Sha256
  localDeletionMtimeMs : OrderedMap JsString CensusMtime
  peerDeletionMtimeMs : OrderedMap JsString CensusMtime

def PlanEvidence.baseSha256 (evidence : PlanEvidence) (path : JsString) : Option Sha256 :=
  evidence.base.bind (fun base => base.lookup path)

def PlanEvidence.retracted (evidence : PlanEvidence) (sha256 : Sha256) : Bool :=
  evidence.tombstoned.contains sha256 || evidence.peerTombstoned.contains sha256

/-- The local loop's decision for one file, given the peer's revision of its path. -/
def planLocalFile (evidence : PlanEvidence) (localFile : CensusRecord) (peerFile : Option CensusRecord) :
    ReconcilePlanEntry :=
  let path := localFile.path
  let nameSpace := evidence.nameSpace
  let localSha256 := some localFile.sha256
  let baseSha256 := evidence.baseSha256 path
  let localRetracted := evidence.retracted localFile.sha256
  let peerRetracted := peerFile.any (fun file => evidence.retracted file.sha256)
  if localRetracted || peerRetracted then
    { path, nameSpace, action := .suppress, reason := .tombstoned, localSha256
      peerSha256 := peerFile.map CensusRecord.sha256, baseSha256
      suppressSide := some (if localRetracted && peerRetracted then .bothCopies
        else if localRetracted then .localCopy else .peerCopy) }
  else
    match peerFile with
    | none =>
      match baseSha256 with
      | some base =>
        let peerDeletionMtime := evidence.peerDeletionMtimeMs.lookup path
        let resolution := if base = localFile.sha256 then .unresolved
          else resolveConflict evidence.policy localFile.mtimeMs peerDeletionMtime .unresolved
        { path, nameSpace, action := .conflict
          reason := if base = localFile.sha256 then .peerDeleted else .localModifiedPeerDeleted
          localSha256, baseSha256, resolution := some resolution
          deletionMtimeMs := if resolution = .peerWins then peerDeletionMtime else none }
      | none => { path, nameSpace, action := .push, reason := .localOnly, localSha256 }
    | some peer =>
      let peerSha256 := some peer.sha256
      if peer.sha256 = localFile.sha256 then
        { path, nameSpace, action := .identical, reason := .sameContent, localSha256, peerSha256, baseSha256 }
      else if baseSha256 = some localFile.sha256 then
        { path, nameSpace, action := .pull, reason := .peerChanged, localSha256, peerSha256, baseSha256 }
      else if baseSha256 = some peer.sha256 then
        { path, nameSpace, action := .push, reason := .localChanged, localSha256, peerSha256, baseSha256 }
      else
        { path, nameSpace, action := .conflict, reason := .bothModified, localSha256, peerSha256, baseSha256
          resolution := some (resolveConflict evidence.policy localFile.mtimeMs peer.mtimeMs .supersedeLink) }

/-- The peer loop's decision for a path no local record consumed. -/
def planPeerFile (evidence : PlanEvidence) (path : JsString) (peerFile : CensusRecord) : ReconcilePlanEntry :=
  let nameSpace := evidence.nameSpace
  let peerSha256 := some peerFile.sha256
  let baseSha256 := evidence.baseSha256 path
  if evidence.retracted peerFile.sha256 then
    { path, nameSpace, action := .suppress, reason := .tombstoned, peerSha256, baseSha256
      suppressSide := some .peerCopy }
  else
    match baseSha256 with
    | some base =>
      let localDeletionMtime := evidence.localDeletionMtimeMs.lookup path
      let resolution := if base = peerFile.sha256 then .unresolved
        else resolveConflict evidence.policy localDeletionMtime peerFile.mtimeMs .unresolved
      { path, nameSpace, action := .conflict
        reason := if base = peerFile.sha256 then .localDeleted else .localDeletedPeerModified
        peerSha256, baseSha256, resolution := some resolution
        deletionMtimeMs := if resolution = .localWins then localDeletionMtime else none }
    | none => { path, nameSpace, action := .pull, reason := .peerOnly, peerSha256 }

structure LocalPass where
  caseFold : OrderedMap JsString JsString
  seenLocal : OrderedMap JsString RevisionStamp
  peer : OrderedMap JsString CensusRecord
  entries : List ReconcilePlanEntry

def planLocalRound (tables : UnicodeTables) (evidence : PlanEvidence) (platforms : Platforms) (pass : LocalPass)
    (raw : ReconcileFileState) : Checked LocalPass := do
  let localFile ← assertCensusRecord raw .localSide evidence.nameSpace platforms
  let path := localFile.path
  let caseFold ← assertNoPathAlias tables pass.caseFold path evidence.nameSpace
  let repeated ← rejectConflictingDuplicate (pass.seenLocal.lookup path) localFile.stamp path .localSide
    evidence.nameSpace
  if repeated then return { pass with caseFold }
  else
    return {
      caseFold
      seenLocal := pass.seenLocal.set path localFile.stamp
      peer := pass.peer.erase path
      entries := pass.entries ++ [planLocalFile evidence localFile (pass.peer.lookup path)] }

def planPeerRound (tables : UnicodeTables) (evidence : PlanEvidence)
    (pass : OrderedMap JsString JsString × List ReconcilePlanEntry) (peerEntry : JsString × CensusRecord) :
    Checked (OrderedMap JsString JsString × List ReconcilePlanEntry) := do
  let caseFold ← assertNoPathAlias tables pass.1 peerEntry.1 evidence.nameSpace
  return (caseFold, pass.2 ++ [planPeerFile evidence peerEntry.1 peerEntry.2])

/-- Total ordering for plan entries: namespace, then path. -/
def compareReconcilePlanEntries (a b : ReconcilePlanEntry) : Ordering :=
  if a.nameSpace ≠ b.nameSpace then (if a.nameSpace < b.nameSpace then .lt else .gt)
  else if a.path ≠ b.path then (if a.path < b.path then .lt else .gt)
  else .eq

abbrev EntryLe (a b : ReconcilePlanEntry) : Prop := (compareReconcilePlanEntries a b).isLE = true

/-- `Array.prototype.sort` with the comparator above; both sorts are stable. -/
def sortEntries (entries : List ReconcilePlanEntry) : List ReconcilePlanEntry :=
  entries.insertionSort EntryLe

/-- The checked arguments of one namespace: evidence, peer index and raw local stream. -/
structure PlanArguments where
  evidence : PlanEvidence
  platforms : Platforms
  localCensus : List ReconcileFileState
  peer : OrderedMap JsString CensusRecord

def parseBase (value : RawCollection ReconcileFileState) (nameSpace : JsString) (platforms : Platforms) :
    Checked (Option (OrderedMap JsString Sha256)) :=
  match value with
  | .absent => .ok none
  | present => do
    let files ← assertIterable present .baseSide nameSpace
    let index ← indexDigestsByPath files .baseSide nameSpace platforms
    return some index

def parsePlanArguments (tables : UnicodeTables) (processPlatform : JsString) (input : ReconcileNamespaceInput)
    (options : ReconcileOptions) : Checked PlanArguments := do
  let nameSpace ← assertNamespace tables input.nameSpace
  let policy ← assertConflictPolicy options.conflictPolicy
  let localCensus ← assertIterable input.localCensus .localSide nameSpace
  let platforms : Platforms := [some (options.localPlatform.getD processPlatform), options.peerPlatform]
  let peerCensus ← assertIterable input.peerCensus .peerSide nameSpace
  let peer ← indexByPath peerCensus .peerSide nameSpace platforms
  let base ← parseBase input.base nameSpace platforms
  let tombstoned ← parseTombstonedDigests input.tombstonedFileSha256 nameSpace (text "tombstonedFileSha256")
  let peerTombstoned ← parseTombstonedDigests input.peerTombstonedFileSha256 nameSpace
    (text "peerTombstonedFileSha256")
  let localDeletionMtimeMs ← parseDeletionMtimes input.localDeletionMtimeMs .localSide nameSpace platforms
  let peerDeletionMtimeMs ← parseDeletionMtimes input.peerDeletionMtimeMs .peerSide nameSpace platforms
  return ⟨⟨nameSpace, policy, base, tombstoned, peerTombstoned, localDeletionMtimeMs, peerDeletionMtimeMs⟩,
    platforms, localCensus, peer⟩

def registerBasePaths (tables : UnicodeTables) (evidence : PlanEvidence) :
    Checked (OrderedMap JsString JsString) :=
  match evidence.base with
  | none => .ok .empty
  | some base => base.keys.foldlM (fun seen path => assertNoPathAlias tables seen path evidence.nameSpace) .empty

def planArguments (tables : UnicodeTables) (arguments : PlanArguments) : Checked (List ReconcilePlanEntry) := do
  let caseFold ← registerBasePaths tables arguments.evidence
  let pass ← arguments.localCensus.foldlM (planLocalRound tables arguments.evidence arguments.platforms)
    ⟨caseFold, .empty, arguments.peer, []⟩
  let rest ← pass.peer.entries.foldlM (planPeerRound tables arguments.evidence) (pass.caseFold, pass.entries)
  return sortEntries rest.2

def planNamespaceReconciliation (tables : UnicodeTables) (processPlatform : JsString)
    (input : ReconcileNamespaceInput) (options : ReconcileOptions) : Checked (List ReconcilePlanEntry) := do
  let arguments ← parsePlanArguments tables processPlatform input options
  planArguments tables arguments

structure ReconcileNamespaceReport where
  nameSpace : JsString
  pull : Nat := 0
  push : Nat := 0
  identical : Nat := 0
  conflict : Nat := 0
  suppress : Nat := 0
  unresolved : Nat := 0
deriving DecidableEq

def ReconcilePlanEntry.needsOperator (entry : ReconcilePlanEntry) : Bool :=
  entry.resolution = some .unresolved || entry.resolution = some .supersedeLink

def ReconcileNamespaceReport.count (report : ReconcileNamespaceReport) (entry : ReconcilePlanEntry) :
    ReconcileNamespaceReport :=
  match entry.action with
  | .pull => { report with pull := report.pull + 1 }
  | .push => { report with push := report.push + 1 }
  | .identical => { report with identical := report.identical + 1 }
  | .suppress => { report with suppress := report.suppress + 1 }
  | .conflict =>
    { report with
      conflict := report.conflict + 1
      unresolved := report.unresolved + if entry.needsOperator then 1 else 0 }

/-- Aggregate entries into the per-namespace convergence report. -/
def summarizeReconcilePlan (entries : List ReconcilePlanEntry) : List ReconcileNamespaceReport :=
  let byNamespace : OrderedMap JsString ReconcileNamespaceReport := entries.foldl
    (fun reports entry => reports.set entry.nameSpace
      (((reports.lookup entry.nameSpace).getD { nameSpace := entry.nameSpace }).count entry)) .empty
  (byNamespace.entries.map Prod.snd).insertionSort (fun a b => a.nameSpace ≤ b.nameSpace)

structure ReconcilePlan where
  entries : List ReconcilePlanEntry
  byNamespace : List ReconcileNamespaceReport
  converged : Bool

def isConverged (entries : List ReconcilePlanEntry) : Bool :=
  entries.all (fun entry => entry.action = .identical)

def planNamespaceRound (tables : UnicodeTables) (processPlatform : JsString) (options : ReconcileOptions)
    (pass : List JsString × List ReconcilePlanEntry) (input : ReconcileNamespaceInput) :
    Checked (List JsString × List ReconcilePlanEntry) := do
  let name ← assertNamespace tables input.nameSpace
  if pass.1.contains name then
    refuse (text "reconcile: namespace " ++ name ++ text " appears twice; merge its censuses before planning")
  else
    let entries ← planNamespaceReconciliation tables processPlatform input options
    return (name :: pass.1, pass.2 ++ entries)

/-- Plan a full reconciliation across namespaces. -/
def planReconciliation (tables : UnicodeTables) (processPlatform : JsString)
    (namespaces : List ReconcileNamespaceInput) (options : ReconcileOptions) : Checked ReconcilePlan := do
  let _ ← assertConflictPolicy options.conflictPolicy
  let pass ← namespaces.foldlM (planNamespaceRound tables processPlatform options) ([], [])
  let entries := sortEntries pass.2
  return ⟨entries, summarizeReconcilePlan entries, isConverged entries⟩

/-- Identity of a semantic-duplicate pair: the ordered pair of its paths. -/
def semanticAgreementKey (agreement : ReconcileSemanticAgreement) : JsString :=
  agreement.localFile.path ++ [unit 0] ++ agreement.peerFile.path

end Remnic.Reconcile.Plan
