import Remnic.Library.Transition
import Remnic.Revision.Shard

/-!
The receipt transactions of one managed path. Every call runs under the lock of
the shard and changes the shard file at most once, as the last thing it does, so
a call that fails or crashes leaves the file as it was or as the call makes it.
-/

namespace Remnic.Revision.Transaction

open Text.CodeUnits Shard

/-- What is durable for one path: its shard, its entry of the legacy metadata and
the memory file. -/
structure Target where
  shard : Option ShardFile
  legacy : Except JsString (Option LegacyEntry)
  file : Option Bytes

inductive Change where
  | keep
  | mark (marker : PendingMarker)
  | publish (revision : JsString) (committedDigest committedSemanticFingerprint : Option Digest)
  | restore (previous : Option JsString)
  | unlink
  deriving DecidableEq

def Change.apply (change : Change) (path : JsString) (shard : Option ShardFile) : Option ShardFile :=
  match change with
  | .keep => shard
  | .mark marker => some (.object (pendingFields path marker))
  | .publish revision digest fingerprint => some (.object (committedFields path revision (some digest) (some fingerprint)))
  | .restore (some previous) => some (.object (committedFields path previous none none))
  | .restore none | .unlink => none

def fence : JsString := text "---"

/-- `ACCESS_TELEMETRY_FRONTMATTER_KEY`. -/
def isAccessTelemetry (line : JsString) : Bool :=
  startsWith line (text "accessCount:") || startsWith line (text "lastAccessed:")

def canonicalSemanticFileText (raw : JsString) : JsString :=
  match split newline raw with
  | [] => raw
  | first :: rest =>
    match rest.idxOf? fence with
    | some closing =>
      if first = fence then
        [newline].intercalate
          (first :: ((rest.take closing).filter fun line => !isAccessTelemetry line) ++ rest.drop closing)
      else raw
    | none => raw

def digestDurableFile (host : Host) (file : Option Bytes) : Option Digest := file.map host.sha256

def semanticFingerprintDurableFile (host : Host) (file : Option Bytes) : Option Digest :=
  file.map fun bytes => host.sha256 (host.toBytes (canonicalSemanticFileText (host.toText bytes)))

def invalidTime : JsString := text "Invalid time value"

/-- `beginRevisionTransaction`: the marker it writes, whose revision is the token. -/
def beginRevisionTransaction (host : Host) (path : JsString) (target : Target) (now : Int)
    (expectedContent : Option Bytes) : Except JsString PendingMarker := do
  let standing ← readStandingRevisionStrict target.shard target.legacy path
  match nextCasRevisionIso host (standing.map (·.revision)) now with
  | none => .error invalidTime
  | some next => .ok {
      revision := next
      previous := standing.map (·.revision)
      foreign := false
      baselineDigest := some (digestDurableFile host target.file)
      expectedDigest := expectedContent.map fun content => some (host.sha256 content)
      writeLanded := some false }

def pendingWriteHasLanded (marker : PendingMarker) : Bool :=
  match marker.writeLanded with
  | some landed => landed
  | none => marker.expectedDigest.isSome

def recordingRefused (path reason : JsString) : JsString :=
  text "CAS revision evidence recording refused for " ++ path ++ text ": " ++ reason

def recordPendingWriteLanded (host : Host) (path : JsString) (target : Target) (token : JsString) :
    Except JsString Change := do
  match ← readShardView target.shard path with
  | .pending marker =>
    if marker.foreign ∨ marker.revision ≠ token then
      .error (recordingRefused path (text "the pending marker does not match the reserved token."))
    else if pendingWriteHasLanded marker ∧ marker.writeLanded ≠ some false then .ok .keep
    else
      let current := digestDurableFile host target.file
      if marker.expectedDigest ≠ none ∧ marker.expectedDigest ≠ some current then
        .error (recordingRefused path (text "the durable file does not match the reserved expected digest."))
      else .ok (.mark { marker with
        baselineDigest := some (marker.baselineDigest.getD none)
        expectedDigest := some (marker.expectedDigest.getD current)
        writeLanded := some true })
  | _ => .error (recordingRefused path (text "the pending marker does not match the reserved token."))

/-- The receipt published for a marker whose write is taken to have landed. The
semantic fingerprint is a second read of the memory file. -/
def publishMarker (host : Host) (marker : PendingMarker) (file later : Option Bytes) : Change :=
  .publish marker.revision ((marker.expectedDigest.getD none).or (digestDurableFile host file))
    (semanticFingerprintDurableFile host later)

inductive Finalization where
  | commit
  | abort
  deriving DecidableEq, Repr

def Finalization.word : Finalization → JsString
  | .commit => text "commit"
  | .abort => text "abort"

def finalizeRefused (path : JsString) (outcome : Finalization) : JsString :=
  text "CAS revision transaction " ++ outcome.word ++ text " refused for " ++ path ++
    text ": the pending marker does not match the reserved token."

def finalizeRevisionTransaction (host : Host) (path : JsString) (target : Target) (token : JsString)
    (outcome : Finalization) (later : Option Bytes) : Except JsString Change := do
  match ← readShardView target.shard path, outcome with
  | .pending marker, outcome =>
    if marker.foreign ∨ marker.revision ≠ token then .error (finalizeRefused path outcome)
    else match outcome with
      | .commit => .ok (publishMarker host marker target.file later)
      | .abort => .ok (.restore marker.previous)
  | .committed receipt, .commit =>
    if receipt.foreign ∨ receipt.revision ≠ token then .error (finalizeRefused path outcome) else .ok .keep
  | .missing, .abort => .ok .keep
  | _, _ => .error (finalizeRefused path outcome)

inductive Removal where
  | removed
  | absent
  | pending
  | foreign
  deriving DecidableEq, Repr

def removeRevisionShard (path : JsString) (target : Target) : Except JsString (Removal × Change) := do
  match ← readShardView target.shard path with
  | .missing => .ok (.absent, .keep)
  | .pending marker => .ok (if marker.foreign then .foreign else .pending, .keep)
  | .foreign => .ok (.foreign, .keep)
  | .committed receipt => if receipt.foreign then .ok (.foreign, .keep) else .ok (.removed, .unlink)

def namesAnotherTarget (path : JsString) : JsString :=
  text "CAS revision pending marker for " ++ path ++ text " names another target; manual recovery is required."

inductive Reconciliation where
  | reconciled
  | committed
  | absent
  deriving DecidableEq, Repr

def reconcilePendingRevision (host : Host) (path : JsString) (target : Target) (fileWriteLanded : Bool)
    (later : Option Bytes) : Except JsString (Reconciliation × Change) := do
  match ← readShardView target.shard path with
  | .committed _ => .ok (.committed, .keep)
  | .missing | .foreign => .ok (.absent, .keep)
  | .pending marker =>
    if marker.foreign then .error (namesAnotherTarget path)
    else if fileWriteLanded then .ok (.reconciled, publishMarker host marker target.file later)
    else .ok (.reconciled, .restore marker.previous)

inductive Recovery where
  | committed
  | aborted
  | absent
  | reserved
  deriving DecidableEq, Repr

def noEvidence : JsString := text "the pending marker carries no crash evidence (written by an older version)"

def neitherFingerprint : JsString :=
  text "the durable file matches neither the expected commit fingerprint nor the reserve-time baseline"

/-- The reason of a recovery that refuses to guess; it names the shard file. -/
def ambiguous (path shardPath evidence : JsString) (marker : PendingMarker) : JsString :=
  text "CAS revision recovery for " ++ path ++ text " is ambiguous: " ++ evidence ++ text " (pending token " ++
    marker.revision ++ (marker.previous.elim [] fun previous => text ", previous " ++ previous) ++
      text "). Inspect the durable file and the shard at " ++ shardPath ++
        text ", then run reconcilePendingRevision with the known write outcome. Refusing to guess."

def recoverPendingRevision (host : Host) (path shardPath : JsString) (target : Target) (onlyWithWriteEvidence : Bool)
    (later : Option Bytes) : Except JsString (Recovery × Change) := do
  match ← readShardView target.shard path with
  | .missing | .foreign => .ok (.absent, .keep)
  | .committed receipt => .ok (if receipt.foreign then .absent else .committed, .keep)
  | .pending marker =>
    let current := digestDurableFile host target.file
    if marker.foreign then .error (namesAnotherTarget path)
    else if onlyWithWriteEvidence ∧ ¬ pendingWriteHasLanded marker then .ok (.reserved, .keep)
    else if marker.expectedDigest = some current then
      .ok (.committed, .publish marker.revision current (semanticFingerprintDurableFile host later))
    else if onlyWithWriteEvidence then
      .error (ambiguous path shardPath (if marker.expectedDigest = none then noEvidence else neitherFingerprint) marker)
    else if marker.baselineDigest = some current then .ok (.aborted, .restore marker.previous)
    else
      .error (ambiguous path shardPath
        (if marker.baselineDigest = none ∧ marker.expectedDigest = none then noEvidence else neitherFingerprint) marker)

end Remnic.Revision.Transaction
