import Remnic.Reconcile.Census

/-!
Which archive paths an offline sync sends, accepts, leaves to the node or takes
from the remote. Paths are relative and use forward slashes.
-/

namespace Remnic.OfflineSync.Paths
open Text.CodeUnits Reconcile.Census

def includes (value part : JsString) : Bool := value.tails.any fun rest => startsWith rest part

def endsWithText (value last : JsString) : Bool := last.isSuffixOf value

def basename (parts : List JsString) : JsString := parts.getLast?.getD []

def replaceBackslashes (value : JsString) : JsString := value.map fun c => if c = backslash then slash else c

def isInternalRemnicStatePath (relPosix : JsString) : Bool :=
  let normalized := replaceBackslashes relPosix
  normalized = text ".remnic" || startsWith normalized (text ".remnic/") ||
    endsWithText normalized (text "/.remnic") || includes normalized (text "/.remnic/")

/-- `DEFAULT_TRANSFER_EXCLUDE_DIRS`. -/
def transferExcludeDirs : List JsString :=
  [text "node_modules", text ".git", text ".secure-store", text ".capsules"]

/-- `SYNC_INTERNAL_DIR`. -/
def syncInternalDir : JsString := text ".offline-sync"

def isMacOsReplicationJunkBasename (name : JsString) : Bool :=
  name = text ".DS_Store" || startsWith name (text "._")

def isCanonicalRuntimeStatePath (parts : List JsString) : Bool :=
  parts[0]? = some (text "state") ||
    (parts[0]? = some (text "namespaces") && parts.length ≥ 4 && parts[2]? = some (text "state"))

def shouldExcludeRelPath (relPosix : JsString) (includeTranscripts : Bool) : Bool :=
  let parts := split slash relPosix
  isInternalRemnicStatePath relPosix ||
    parts.any (fun part => transferExcludeDirs.contains part) ||
    parts.any (fun part => part = syncInternalDir) ||
    (!includeTranscripts && parts[0]? = some (text "transcripts")) ||
    parts.any isMacOsReplicationJunkBasename ||
    (isCanonicalRuntimeStatePath parts && includes (basename parts) (text ".tmp-")) ||
    basename parts = text ".sync-state.json" ||
    startsWith (basename parts) (text ".remnic-sync.") ||
    startsWith (basename parts) (text ".remnic-sync-state.")

def shouldIgnoreIncomingRuntimePath (relPosix : JsString) : Bool :=
  let parts := split slash relPosix
  isInternalRemnicStatePath relPosix || parts.any isMacOsReplicationJunkBasename ||
    (isCanonicalRuntimeStatePath parts && includes (basename parts) (text ".tmp-"))

/-- The language of `globToRegExp`, decided on the pattern itself. -/
def globMatches : JsString → JsString → Bool
  | [], value => value.isEmpty
  | c :: pattern, value =>
    if c = unit 0x2A then
      match pattern with
      | d :: rest =>
        if d = unit 0x2A then
          match rest with
          | e :: deeper =>
            if e = slash then
              globMatches deeper value ||
                value.tails.any fun tail => match tail with
                  | f :: below => f = slash && globMatches deeper below
                  | [] => false
            else value.tails.any (globMatches (e :: deeper))
          | [] => true
        else (value.inits.zip value.tails).any fun cut =>
          !(cut.1.contains slash) && globMatches (d :: rest) cut.2
      | [] => !(value.contains slash)
    else match value with
      | [] => false
      | d :: rest => (if c = unit 0x3F then d ≠ slash else d = c) && globMatches pattern rest

/-- `DEFAULT_OFFLINE_SYNC_EXCLUDE_GLOBS`. -/
def defaultExcludeGlobs : List JsString :=
  [text "**/state/*.sqlite", text "**/state/*.sqlite-*", text "**/state/index_tags.json",
    text "**/state/entity-mention-index.json", text "**/state/memory-governance/runs/**",
    text "**/state/recall_impressions.jsonl.*", text "**/state/recall_impressions.jsonl.pending.d/**",
    text "**/state/memory-lifecycle-ledger.jsonl.pending.d/**",
    text "**/state/memory-lifecycle-ledger.jsonl.lock", text "**/.remnic-offline-decrypt-*/**",
    text "**/state/embeddings.pre-replace.tmp/**", text "**/state/embeddings.staging.tmp-*/**",
    text "**/state/embeddings.json.pre-migration.tmp-*",
    text "**/namespaces/*/state/embeddings.pre-replace.tmp/**",
    text "**/namespaces/*/state/embeddings.staging.tmp-*/**",
    text "**/namespaces/*/state/embeddings.json.pre-migration.tmp-*", text "**/state/embeddings.generation",
    text "**/namespaces/*/state/embeddings.generation"]

def matchesOfflineSyncDefaultExclude (relPosix : JsString) : Bool :=
  defaultExcludeGlobs.any fun glob => globMatches glob relPosix

/-- The operator's compiled `offlineSyncExcludes`. -/
abbrev UserExcludes := JsString → Bool

def shouldExcludePushRelPath (relPosix : JsString) (includeTranscripts : Bool) (userExcludes : UserExcludes) : Bool :=
  shouldExcludeRelPath relPosix includeTranscripts || matchesOfflineSyncDefaultExclude relPosix ||
    userExcludes relPosix

def isDecimalDigit (c : CodeUnit) : Bool := 0x30 ≤ c.val && c.val ≤ 0x39

/-- `EMBEDDING_SHARD_FILE_PATTERN`: `shard-`, four digits, `.json`. -/
def isEmbeddingShardFile (name : JsString) : Bool :=
  name.length = 15 && startsWith name (text "shard-") && ((name.drop 6).take 4).all isDecimalDigit &&
    name.drop 10 = text ".json"

def canonicalStateDirPrefix (parts : List JsString) : Option JsString :=
  if parts[0]? = some (text "state") then some (text "state")
  else if parts[0]? = some (text "namespaces") && parts.length ≥ 4 && parts[2]? = some (text "state") then
    some (text "namespaces/" ++ (parts[1]?).getD [] ++ text "/state")
  else none

def parentPath (parts : List JsString) : JsString := [slash].intercalate parts.dropLast

def embeddingShardDirOf (relPath : JsString) : Option JsString :=
  let parts := split slash relPath
  if parts.length < 3 then none
  else if !isEmbeddingShardFile (basename parts) then none
  else if basename parts.dropLast ≠ text "embeddings" then none
  else if canonicalStateDirPrefix parts = none then none
  else some (parentPath parts)

def embeddingMarkerDirOf (relPath : JsString) : Option JsString :=
  let parts := split slash relPath
  if basename parts ≠ text "embeddings.json" then none
  else if canonicalStateDirPrefix parts = none then none
  else some (parentPath parts)

/-- The generation directory of a shard or of a legacy marker; `getD` drops an empty directory as the source's
truth test does. -/
def embeddingGenerationMembership (relPath : JsString) : Option JsString :=
  match (embeddingShardDirOf relPath).filter (· ≠ []) with
  | some shardDir => some shardDir
  | none => ((embeddingMarkerDirOf relPath).filter (· ≠ [])).map fun dir => dir ++ text "/embeddings"

def isEmbeddingGenerationMarkerPath (relPosix : JsString) : Bool :=
  let folded := asciiLower (replaceBackslashes relPosix)
  folded = text "state/embeddings.generation" || endsWithText folded (text "/state/embeddings.generation")

def remoteAuthoritativeRuntimeStateFiles : List JsString :=
  [text ".artifact-write-version.log", text ".memory-status-version.log", text "buffer.json",
    text "embeddings.json", text "index_time.json", text "last_intent.json", text "last_qmd_recall.json",
    text "last_recall.json", text "lcm.sqlite-shm", text "lcm.sqlite-wal",
    text "memory-lifecycle-ledger.jsonl", text "recall_impressions.jsonl"]

def isRemoteAuthoritativeRuntimeShard (name : JsString) (parts : List JsString) : Bool :=
  isEmbeddingShardFile name && parts.length ≥ 2 && basename parts.dropLast = text "embeddings"

def isRemoteAuthoritativeBufferSessionFile (parts : List JsString) : Bool :=
  parts.length ≥ 3 && basename parts.dropLast = text "buffer" &&
    basename parts.dropLast.dropLast = text "state" && endsWithText (basename parts) (text ".json")

def shouldPreferIncomingOfflineRuntimeFile (relPosix : JsString) : Bool :=
  let parts := split slash relPosix
  isCanonicalRuntimeStatePath parts &&
    (remoteAuthoritativeRuntimeStateFiles.contains (basename parts) ||
      isRemoteAuthoritativeRuntimeShard (basename parts) parts || isRemoteAuthoritativeBufferSessionFile parts)

def shouldDeleteAbsentIncomingOfflineRuntimeFile (relPosix : JsString) : Bool :=
  let parts := split slash relPosix
  isCanonicalRuntimeStatePath parts &&
    [text "lcm.sqlite-shm", text "lcm.sqlite-wal"].contains (basename parts)

/-- A valid archive path that is neither remote-authoritative runtime state nor part of an embedding
generation. -/
structure IsPlain (relPath : JsString) : Prop where
  archive : IsArchivePath relPath
  notRuntime : shouldPreferIncomingOfflineRuntimeFile relPath = false
  notGeneration : embeddingGenerationMembership relPath = none
  notMarker : isEmbeddingGenerationMarkerPath relPath = false

variable {relPath : JsString}

theorem excluded_of_ignored (ignored : shouldIgnoreIncomingRuntimePath relPath = true) (includeTranscripts : Bool) :
    shouldExcludeRelPath relPath includeTranscripts = true := by
  unfold shouldIgnoreIncomingRuntimePath at ignored
  unfold shouldExcludeRelPath
  grind

theorem excluded_without_transcripts (excluded : shouldExcludeRelPath relPath true = true) (includeTranscripts : Bool) :
    shouldExcludeRelPath relPath includeTranscripts = true := by
  unfold shouldExcludeRelPath at excluded ⊢
  grind

theorem kept_of_pushed {includeTranscripts : Bool} {userExcludes : UserExcludes}
    (pushed : shouldExcludePushRelPath relPath includeTranscripts userExcludes = false) :
    shouldExcludeRelPath relPath includeTranscripts = false := by
  unfold shouldExcludePushRelPath at pushed
  grind

theorem transcript_excluded (transcript : (split slash relPath)[0]? = some (text "transcripts")) :
    shouldExcludeRelPath relPath false = true := by
  unfold shouldExcludeRelPath
  grind

theorem internal_excluded (inside : syncInternalDir ∈ split slash relPath) (includeTranscripts : Bool) :
    shouldExcludeRelPath relPath includeTranscripts = true := by
  have found : (split slash relPath).any (fun part => part = syncInternalDir) = true :=
    List.any_eq_true.mpr ⟨syncInternalDir, inside, decide_eq_true rfl⟩
  unfold shouldExcludeRelPath
  grind

end Remnic.OfflineSync.Paths
