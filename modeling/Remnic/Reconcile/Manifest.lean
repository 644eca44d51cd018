import Remnic.Reconcile.PlanResult
import Remnic.Reconcile.Cursor

/-!
Collapsing active facts that two replicas store under different paths. Facts are
matched by any identity hash they share, and the plan entries of the matched
paths give way to one agreement or to one canonical path.
-/

namespace Remnic.Reconcile.Manifest
open Text.CodeUnits Library
open Reconcile.Census Reconcile.Plan Reconcile.Cursor

inductive MemoryStatus where
  | active
  | pendingReview
  | rejected
  | quarantined
  | superseded
  | archived
  | forgotten
deriving DecidableEq

structure ReconcileMemoryIdentity where
  category : JsString
  contentHash : JsString
  contentHashAliases : List JsString := []
  status : MemoryStatus
deriving DecidableEq

structure ReconcileManifestFile where
  path : JsString
  sha256 : JsString
  memory : Option ReconcileMemoryIdentity
deriving DecidableEq

structure ReconcileManifest where
  files : List ReconcileManifestFile
deriving DecidableEq

/-- A manifest file that carries an active fact. -/
structure ActiveFactManifestFile where
  path : JsString
  sha256 : JsString
  memory : ReconcileMemoryIdentity
  isActiveFact : memory.category = text "fact" ∧ memory.status = .active
deriving DecidableEq

def activeFact (file : ReconcileManifestFile) : Option ActiveFactManifestFile :=
  match file.memory with
  | none => none
  | some memory =>
    if isActiveFact : memory.category = text "fact" ∧ memory.status = .active then
      some ⟨file.path, file.sha256, memory, isActiveFact⟩
    else none

def manifestFiles (manifest : Option ReconcileManifest) : List ReconcileManifestFile :=
  match manifest with
  | some manifest => manifest.files
  | none => []

def activeFactByPath (manifest : Option ReconcileManifest) : OrderedMap JsString ActiveFactManifestFile :=
  (manifestFiles manifest).foldl
    (fun result file =>
      match activeFact file with
      | some fact => result.set file.path fact
      | none => result) .empty

def filesByPath (manifest : Option ReconcileManifest) : OrderedMap JsString ReconcileManifestFile :=
  (manifestFiles manifest).foldl (fun result file => result.set file.path file) .empty

def memoryIdentityHashes (memory : ReconcileMemoryIdentity) : List JsString :=
  memory.contentHash :: memory.contentHashAliases

structure ContentHashPathEntry where
  path : JsString
  contentHash : JsString

def contentHashRows (files : List ActiveFactManifestFile) (contentHash : JsString) : List ContentHashPathEntry :=
  files.map (fun file => ⟨file.path, contentHash⟩)

def resolveRound (canonicalHash : JsString) (canonicalPath : Option JsString) (entry : ContentHashPathEntry) :
    Option JsString :=
  if asciiLower entry.contentHash ≠ canonicalHash ∨ entry.path = [] then canonicalPath
  else
    match canonicalPath with
    | none => some entry.path
    | some path => if entry.path < path then some entry.path else canonicalPath

/-- `ContentHashIndex.resolvePathByHash`: the least path stored under a digest. -/
def resolvePathByHash (hash : JsString) (entries : List ContentHashPathEntry) : Option JsString :=
  if isSha256Hex (asciiLower hash) then entries.foldl (resolveRound (asciiLower hash)) none else none

def classifySemanticChange (current : ReconcileSemanticAgreement) (prior : Option ReconcileSemanticAgreement) :
    ReconcileSemanticChange :=
  match prior with
  | none => .unchanged
  | some prior =>
    let localChanged := current.localFile.sha256 ≠ prior.localFile.sha256
    let peerChanged := current.peerFile.sha256 ≠ prior.peerFile.sha256
    if localChanged ∧ peerChanged then .bothModified
    else if localChanged then .localChanged
    else if peerChanged then .peerChanged
    else .unchanged

abbrev HashBuckets := OrderedMap JsString (List ActiveFactManifestFile)

def bucketRound (buckets : HashBuckets) (file : ActiveFactManifestFile) : HashBuckets :=
  (memoryIdentityHashes file.memory).foldl
    (fun buckets hash => buckets.set hash (((buckets.lookup hash).getD []) ++ [file])) buckets

def bucketByHash (byPath : OrderedMap JsString ActiveFactManifestFile) : HashBuckets :=
  (byPath.entries.map Prod.snd).foldl bucketRound .empty

/-- The maps the collapse of one namespace reads. -/
structure CollapseMaps where
  localByPath : OrderedMap JsString ActiveFactManifestFile
  peerByPath : OrderedMap JsString ActiveFactManifestFile
  localFilesByPath : OrderedMap JsString ReconcileManifestFile
  peerFilesByPath : OrderedMap JsString ReconcileManifestFile
  priorSemanticByPathPair : OrderedMap JsString ReconcileSemanticAgreement
  localByHash : HashBuckets
  peerByHash : HashBuckets

def collapseMaps (localManifest peerManifest : Option ReconcileManifest)
    (priorSemanticAgreements : List ReconcileSemanticAgreement) : CollapseMaps :=
  { localByPath := activeFactByPath localManifest
    peerByPath := activeFactByPath peerManifest
    localFilesByPath := filesByPath localManifest
    peerFilesByPath := filesByPath peerManifest
    priorSemanticByPathPair := priorAgreementMap priorSemanticAgreements
    localByHash := bucketByHash (activeFactByPath localManifest)
    peerByHash := bucketByHash (activeFactByPath peerManifest) }

def CollapseMaps.hashes (maps : CollapseMaps) : List JsString :=
  (maps.localByHash.keys ++ maps.peerByHash.keys).eraseDups

/-- The facts of a bucket whose path is free on the other side, or holds a fact of the bucket there. -/
def hashCandidates (byHash : HashBuckets) (oppositeFiles : OrderedMap JsString ReconcileManifestFile)
    (oppositeByPath : OrderedMap JsString ActiveFactManifestFile) (hash : JsString) : List ActiveFactManifestFile :=
  ((byHash.lookup hash).getD []).filter (fun file =>
    (oppositeFiles.lookup file.path).isNone ||
      (oppositeByPath.lookup file.path).any (fun opposite => (memoryIdentityHashes opposite.memory).contains hash))

def CollapseMaps.localCandidates (maps : CollapseMaps) (hash : JsString) : List ActiveFactManifestFile :=
  hashCandidates maps.localByHash maps.peerFilesByPath maps.peerByPath hash

def CollapseMaps.peerCandidates (maps : CollapseMaps) (hash : JsString) : List ActiveFactManifestFile :=
  hashCandidates maps.peerByHash maps.localFilesByPath maps.localByPath hash

def CollapseMaps.localPath (maps : CollapseMaps) (hash : JsString) : Option JsString :=
  resolvePathByHash hash (contentHashRows (maps.localCandidates hash) hash)

def CollapseMaps.peerPath (maps : CollapseMaps) (hash : JsString) : Option JsString :=
  resolvePathByHash hash (contentHashRows (maps.peerCandidates hash) hash)

def CollapseMaps.duplicatePaths (maps : CollapseMaps) (hash : JsString) : List JsString :=
  (maps.localCandidates hash).map ActiveFactManifestFile.path ++
    (maps.peerCandidates hash).map ActiveFactManifestFile.path

/-- An entry of a duplicate path that both manifests hold and the plan does not call identical. -/
def CollapseMaps.isAuthoritative (maps : CollapseMaps) (hash : JsString) (entry : ReconcilePlanEntry) : Bool :=
  (maps.duplicatePaths hash).contains entry.path && maps.localFilesByPath.contains entry.path &&
    maps.peerFilesByPath.contains entry.path && entry.action ≠ .identical

def CollapseMaps.isUnsafe (maps : CollapseMaps) (hash : JsString) (entry : ReconcilePlanEntry) : Bool :=
  (maps.duplicatePaths hash).contains entry.path && (entry.action = .suppress || entry.action = .conflict)

def CollapseMaps.isRemovable (maps : CollapseMaps) (hash : JsString) (entry : ReconcilePlanEntry) : Bool :=
  (maps.duplicatePaths hash).contains entry.path &&
    (entry.action = .pull || entry.action = .push || entry.action = .identical)

/-- The collections the loop over the hashes fills. -/
structure CollapsePass where
  removed : List ReconcilePlanEntry
  replacements : List ReconcilePlanEntry
  processedPathPairs : List JsString

/-- `changed`: it is raised exactly where one of the two collections grows. -/
def CollapsePass.changed (pass : CollapsePass) : Bool := !pass.removed.isEmpty || !pass.replacements.isEmpty

def pathPair (localPath peerPath : JsString) : JsString := localPath ++ [unit 0] ++ peerPath

def replacementEntry (nameSpace : JsString) (maps : CollapseMaps) (localFile peerFile : ActiveFactManifestFile)
    (localPath peerPath : JsString) : ReconcilePlanEntry :=
  let semanticAgreement : ReconcileSemanticAgreement :=
    { localFile := ⟨localPath, localFile.sha256⟩
      peerFile := ⟨peerPath, peerFile.sha256⟩ }
  { path := if localPath < peerPath then localPath else peerPath
    nameSpace, action := .identical, reason := .semanticDuplicate
    semanticAgreement := some semanticAgreement
    semanticChange := some (classifySemanticChange semanticAgreement
      (maps.priorSemanticByPathPair.lookup (semanticAgreementKey semanticAgreement))) }

/-- A hash whose canonical copies stand under different paths on the two sides. -/
def collapsePair (nameSpace : JsString) (maps : CollapseMaps) (entries : List ReconcilePlanEntry)
    (pass : CollapsePass) (hash localPath peerPath : JsString) : CollapsePass :=
  let pair := pathPair localPath peerPath
  if pass.processedPathPairs.contains pair then pass
  else
    let pass := { pass with processedPathPairs := pair :: pass.processedPathPairs }
    match maps.localByPath.lookup localPath, maps.peerByPath.lookup peerPath with
    | some localFile, some peerFile =>
      let authoritative := entries.filter (maps.isAuthoritative hash)
      if authoritative ≠ [] then
        { pass with
          removed := pass.removed ++ entries.filter (fun entry =>
            maps.isRemovable hash entry && !authoritative.contains entry) }
      else if entries.any (maps.isUnsafe hash) then pass
      else
        { pass with
          removed := pass.removed ++ entries.filter (maps.isRemovable hash)
          replacements := pass.replacements ++ [replacementEntry nameSpace maps localFile peerFile localPath peerPath] }
    | _, _ => pass

def CollapseMaps.isSameSide (maps : CollapseMaps) (hash : JsString) (entry : ReconcilePlanEntry) : Bool :=
  if (maps.localPath hash).isSome && entry.reason = .localOnly then
    (maps.localCandidates hash).any (fun file => file.path = entry.path)
  else if (maps.peerPath hash).isSome && entry.reason = .peerOnly then
    (maps.peerCandidates hash).any (fun file => file.path = entry.path)
  else false

/-- A hash held on one side only, or under one shared canonical path. -/
def collapseSameSide (maps : CollapseMaps) (entries : List ReconcilePlanEntry) (pass : CollapsePass)
    (hash : JsString) : CollapsePass :=
  let localPath := maps.localPath hash
  let peerPath := maps.peerPath hash
  let sameSideEntries := entries.filter (maps.isSameSide hash)
  let hasSharedCanonical := localPath.isSome && localPath = peerPath
  match localPath.or peerPath with
  | none => pass
  | some canonicalPath =>
    if sameSideEntries.length = 0 || (!hasSharedCanonical && sameSideEntries.length < 2) then pass
    else { pass with removed := pass.removed ++ sameSideEntries.filter (fun entry => entry.path ≠ canonicalPath) }

def collapseRound (nameSpace : JsString) (maps : CollapseMaps) (entries : List ReconcilePlanEntry)
    (pass : CollapsePass) (hash : JsString) : CollapsePass :=
  match maps.localPath hash, maps.peerPath hash with
  | some localPath, some peerPath =>
    if localPath ≠ peerPath then collapsePair nameSpace maps entries pass hash localPath peerPath
    else collapseSameSide maps entries pass hash
  | _, _ => collapseSameSide maps entries pass hash

def collapsePass (nameSpace : JsString) (maps : CollapseMaps) (entries : List ReconcilePlanEntry) : CollapsePass :=
  maps.hashes.foldl (collapseRound nameSpace maps entries) ⟨[], [], []⟩

def CollapsePass.apply (pass : CollapsePass) (entries : List ReconcilePlanEntry) : List ReconcilePlanEntry :=
  sortEntries (entries.filter (fun entry => !pass.removed.contains entry) ++ pass.replacements)

abbrev EntriesByNamespace := OrderedMap JsString (List ReconcilePlanEntry)

def groupByNamespace (entries : List ReconcilePlanEntry) : EntriesByNamespace :=
  entries.foldl (fun groups entry =>
    groups.set entry.nameSpace (((groups.lookup entry.nameSpace).getD []) ++ [entry])) .empty

/-- The loop over the namespaces: the grouped entries, and whether any changed. -/
structure NamespacePass where
  entriesByNamespace : EntriesByNamespace
  changed : Bool

section Collapse

variable (localManifests peerManifests : OrderedMap JsString ReconcileManifest)
  (priorSemanticAgreements : OrderedMap JsString (List ReconcileSemanticAgreement))

def namespaceMaps (nameSpace : JsString) : CollapseMaps :=
  collapseMaps (localManifests.lookup nameSpace) (peerManifests.lookup nameSpace)
    ((priorSemanticAgreements.lookup nameSpace).getD [])

def namespaceRound (pass : NamespacePass) (nameSpace : JsString) : NamespacePass :=
  let entries := (pass.entriesByNamespace.lookup nameSpace).getD []
  let collapsed := collapsePass nameSpace (namespaceMaps localManifests peerManifests priorSemanticAgreements nameSpace)
    entries
  if collapsed.changed then ⟨pass.entriesByNamespace.set nameSpace (collapsed.apply entries), true⟩ else pass

def collapseActiveFactDuplicates (plan : ReconcilePlan) : ReconcilePlan :=
  let namespaces := (localManifests.keys ++ peerManifests.keys).eraseDups
  let pass := namespaces.foldl (namespaceRound localManifests peerManifests priorSemanticAgreements)
    ⟨groupByNamespace plan.entries, false⟩
  if !pass.changed then plan
  else
    let entries := sortEntries (pass.entriesByNamespace.entries.flatMap Prod.snd)
    ⟨entries, summarizeReconcilePlan entries, isConverged entries⟩

end Collapse

end Remnic.Reconcile.Manifest
