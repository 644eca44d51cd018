import Remnic.PageVersioning.Steps
import Remnic.Text.Utf8Encode
import Remnic.Tombstone.References

/-!
`mergeCapsule`, once the archive is checked: each record is compared with the file of its path by
the digests of their texts, and then written, or left out. The markers that request a later
reconciliation, and the order in which the records are taken, are left out; the records stand in
that order.
-/

namespace Remnic.Capsule.Merge

open Text.CodeUnits Text.Utf8 Text.Utf8Encode Library Memory.Frontmatter Tombstone.References PageVersioning.History

variable {Hash : Type}

inductive ConflictMode where
  | skipConflicts
  | preferSource
  | preferLocal
  deriving DecidableEq, Repr

structure VersioningConfig where
  enabled : Bool
  maxVersionsPerPage : Nat
  sidecarDir : JsString
  deriving DecidableEq, Repr

structure MemoryRecord where
  path : JsString
  content : JsString
  deriving DecidableEq, Repr

/-- A record's path below the root, as `path.join` has it. -/
def targetPath (path : JsString) : JsString :=
  [slash].intercalate ((split slash path).filter fun segment => segment ≠ [] ∧ segment ≠ [dot]) ++
    if endsWith path slash then [slash] else []

/-- The records of a checked archive; each has a target of its own. -/
structure Archive where
  records : List MemoryRecord
  targets : (records.map fun record => targetPath record.path).Nodup

inductive EntityRefWritePathKind where
  | memory
  | entity
  | outside
  deriving DecidableEq, Repr

def recallFallbackDirs : List JsString :=
  ["facts", "corrections", "preferences", "decisions", "moments", "commitments", "principles", "rules", "skills", "relationships",
    "procedures", "reasoning-traces"].map text

def isMarkdown (path : JsString) : Bool := path.drop (path.length - 3) = text ".md"

def classifyEntityRefWritePath (path : JsString) : EntityRefWritePathKind :=
  let top := (split slash path).headD []
  if !isMarkdown path then .outside
  else if top = text "entities" then .entity
  else if top ∈ recallFallbackDirs || top = text "cold" || top = text "archive" then .memory
  else .outside

/-- `path.basename` without `.md`, unless that is all of it. -/
def entityIdOf (path : JsString) : JsString :=
  let base := basename path
  if base = text ".md" then base else base.take (base.length - 3)

def Archive.entityIds (archive : Archive) : List JsString :=
  archive.records.filterMap fun record =>
    if classifyEntityRefWritePath (targetPath record.path) = .entity then some (entityIdOf record.path) else none

/-- The journal's mappings. One that cannot be read gives an empty table, and another one at each look-up. -/
abbrev Journal := Option (OrderedMap JsString JsString)

def Journal.mappings (journal : Journal) : OrderedMap JsString JsString := journal.getD OrderedMap.empty

def canonicalContent (archive : Archive) (journal : Journal) (record : MemoryRecord) : JsString :=
  let compareRef := readEntityRefFromFrontmatter record.content
  if classifyEntityRefWritePath (targetPath record.path) = .memory ∧ ¬ compareRef.any (· ∈ archive.entityIds) = true then
    canonicalizeEntityRefFrontmatter record.content (Journal.mappings journal)
  else record.content

/-- What `writeCanonicalRecord` writes. -/
def writtenContent (archive : Archive) (journal : Journal) (record : MemoryRecord) : JsString :=
  match classifyEntityRefWritePath (targetPath record.path) with
  | .memory =>
      if (readEntityRefFromFrontmatter record.content).any (· ∈ archive.entityIds) then record.content
      else canonicalizeEntityRefFrontmatter record.content (Journal.mappings journal)
  | _ => record.content

/-- The sidecar directories: the manifests, those that cannot be read, and the texts of the snapshot files. -/
structure Histories (Hash : Type) where
  manifests : JsString → Option (VersionHistory Hash)
  unreadable : JsString → Bool
  snapshots : JsString → Nat × JsString → Option JsString

/-- The files of the target outside the sidecar, and the sidecar. -/
structure World (Hash : Type) where
  files : OrderedMap JsString (List Byte)
  histories : Histories Hash

def Histories.versions (histories : Histories Hash) (dir : JsString) : List (PageVersion Hash) :=
  ((histories.manifests dir).getD .empty).versions

/-- `createVersion`, with no other writer: the snapshot, the manifest, and then the files of what was pruned. -/
def createVersion (sha256 : List Byte → Hash) (histories : Histories Hash) (pagePath content : JsString) (maxVersionsPerPage : Nat) :
    Option (Histories Hash) :=
  let dir := sidecarDir pagePath
  let ext := snapshotExt pagePath
  let history := (histories.manifests dir).getD .empty
  if histories.unreadable dir then none
  else
    let plan := PageVersioning.Steps.createPlan (fun content => sha256 (encode content)) history content false maxVersionsPerPage 0
    let files := Function.update (histories.snapshots dir) (nextId history.versions, ext) (some content)
    some { histories with
      manifests := Function.update histories.manifests dir (some plan.history)
      snapshots := Function.update histories.snapshots dir
        (plan.removed.foldl (fun files versionId => Function.update files (versionId, ext) none) files) }

inductive SkipReason where
  | conflict
  | identical
  deriving DecidableEq, Repr

inductive Verdict where
  | merged (snapshotted : Bool)
  | skipped (reason : SkipReason)
  deriving DecidableEq, Repr

/-- What becomes of a record, and the digests of a conflict. -/
structure Outcome (Hash : Type) where
  path : JsString
  verdict : Verdict
  conflict : Option (Hash × Hash)

structure Options where
  conflictMode : ConflictMode
  versioning : Option VersioningConfig
  deriving DecidableEq, Repr

/-- The cap of the histories, where versions are kept. -/
def Options.cap (options : Options) : Option Nat := (options.versioning.filter VersioningConfig.enabled).map VersioningConfig.maxVersionsPerPage

def Options.inSidecar (options : Options) (record : MemoryRecord) : Bool :=
  (options.versioning.filter VersioningConfig.enabled).any fun config => startsWith (targetPath record.path) (config.sidecarDir ++ [slash])

/-- Nothing can be written where a directory is, or below a file. -/
def isBlocked (files : OrderedMap JsString (List Byte)) (target : JsString) : Bool :=
  target = [] || endsWith target slash ||
    files.keys.any fun file => startsWith file (target ++ [slash]) || startsWith target (file ++ [slash])

variable [DecidableEq Hash] (sha256 : List Byte → Hash) (archive : Archive) (options : Options) (journal : Journal)

def writeCanonicalRecord (world : World Hash) (record : MemoryRecord) : World Hash :=
  { world with files := world.files.set (targetPath record.path) (encode (writtenContent archive journal record)) }

/-- One record. What cannot be written or snapshotted throws. -/
def mergeRecord (world : World Hash) (record : MemoryRecord) : Option (World Hash × Outcome Hash) :=
  let target := targetPath record.path
  match world.files.lookup target with
  | none =>
      if isBlocked world.files target then none
      else some (writeCanonicalRecord archive journal world record, ⟨record.path, .merged false, none⟩)
  | some bytes =>
      let localContent := decode bytes
      let localSha256 := sha256 (encode localContent)
      let archiveSha256 := sha256 (encode record.content)
      let canonicalSha256 := sha256 (encode (canonicalContent archive journal record))
      if localSha256 = canonicalSha256 ∧ journal.isSome then some (world, ⟨record.path, .skipped .identical, none⟩)
      else if localSha256 = canonicalSha256 ∨ localSha256 = archiveSha256 then
        some (writeCanonicalRecord archive journal world record, ⟨record.path, .merged false, none⟩)
      else
        let conflict := some (archiveSha256, localSha256)
        match options.conflictMode, options.cap with
        | .preferSource, some maxVersionsPerPage => do
            let histories ← createVersion sha256 world.histories target localContent maxVersionsPerPage
            some (writeCanonicalRecord archive journal { world with histories := histories } record,
              ⟨record.path, .merged true, conflict⟩)
        | .preferSource, none => some (writeCanonicalRecord archive journal world record, ⟨record.path, .merged false, conflict⟩)
        | _, _ => some (world, ⟨record.path, .skipped .conflict, conflict⟩)

def applyRecords (world : World Hash) : List MemoryRecord → Option (World Hash × List (Outcome Hash))
  | [] => some (world, [])
  | record :: records => do
      let (next, outcome) ← mergeRecord sha256 archive options journal world record
      let (final, outcomes) ← applyRecords next records
      some (final, outcome :: outcomes)

structure MergeCapsuleResult (Hash : Type) where
  merged : List (JsString × Bool)
  skipped : List (JsString × SkipReason)
  conflicts : List (JsString × Hash × Hash)

def resultOf (outcomes : List (Outcome Hash)) : MergeCapsuleResult Hash where
  merged := outcomes.filterMap fun outcome =>
    match outcome.verdict with
    | .merged snapshotted => some (outcome.path, snapshotted)
    | .skipped _ => none
  skipped := outcomes.filterMap fun outcome =>
    match outcome.verdict with
    | .merged _ => none
    | .skipped reason => some (outcome.path, reason)
  conflicts := outcomes.filterMap fun outcome => outcome.conflict.map (Prod.mk outcome.path)

def mergeCapsule (world : World Hash) : Option (World Hash × MergeCapsuleResult Hash) :=
  (applyRecords sha256 archive options journal world archive.records).map fun done => (done.1, resultOf done.2)

theorem writtenContent_eq (record : MemoryRecord) : writtenContent archive journal record = canonicalContent archive journal record := by
  unfold writtenContent canonicalContent
  cases classifyEntityRefWritePath (targetPath record.path) with
  | memory => by_cases known : (readEntityRefFromFrontmatter record.content).any (· ∈ archive.entityIds) = true <;> simp [known]
  | entity => simp
  | outside => simp

end Remnic.Capsule.Merge
