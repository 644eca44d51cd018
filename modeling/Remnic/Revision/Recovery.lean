import Remnic.Revision.TokenOrder

/-!
Crash recovery of a receipt transaction, from every durable state a crash can
leave: any shard file, any legacy entry and any content of the memory file.
-/

namespace Remnic.Revision.Recovery

open Text.CodeUnits Shard Transaction TokenOrder

variable (host : Host) (path shardPath : JsString)

/-- How recovery ends where a pending marker stands, by the digest of the durable file. -/
inductive Decided (marker : PendingMarker) (current : Option Digest) (onlyWithWriteEvidence : Bool) :
    Except JsString (Recovery × Change) → Prop where
  | published (fingerprint : Option Digest) : marker.expectedDigest = some current →
      Decided marker current onlyWithWriteEvidence (.ok (.committed, .publish marker.revision current fingerprint))
  | restored : onlyWithWriteEvidence = false → marker.expectedDigest ≠ some current →
      marker.baselineDigest = some current →
        Decided marker current onlyWithWriteEvidence (.ok (.aborted, .restore marker.previous))
  | reserved : onlyWithWriteEvidence = true → pendingWriteHasLanded marker = false →
      Decided marker current onlyWithWriteEvidence (.ok (.reserved, .keep))
  | refused (reason : JsString) :
      marker.foreign = true ∨ marker.expectedDigest ≠ some current ∧
          (onlyWithWriteEvidence = true ∨ marker.baselineDigest ≠ some current) →
        Decided marker current onlyWithWriteEvidence (.error reason)

/-- What holds in a durable state, whatever crash left it. -/
structure CrashSafe (target : Target) : Prop where
  /-- A pending token is not reported, nor is the one it replaces. -/
  unreported : ∀ marker, readShardView target.shard path = .ok (.pending marker) →
    ∃ reason, readRevisionStatus target.shard target.legacy path = .unavailable reason
  /-- Recovery follows the digests where a marker stands. -/
  decided : ∀ marker onlyWithWriteEvidence later, readShardView target.shard path = .ok (.pending marker) →
    Decided marker (digestDurableFile host target.file) onlyWithWriteEvidence
      (recoverPendingRevision host path shardPath target onlyWithWriteEvidence later)
  /-- Elsewhere it changes nothing. -/
  settled : ∀ onlyWithWriteEvidence later, (∀ marker, readShardView target.shard path ≠ .ok (.pending marker)) →
    durableChange host path shardPath target (.recover onlyWithWriteEvidence later) = .keep
  /-- After a success it changes nothing more, whatever the memory file holds then. -/
  stable : ∀ onlyWithWriteEvidence later result change,
    recoverPendingRevision host path shardPath target onlyWithWriteEvidence later = .ok (result, change) →
      result ≠ .reserved → ∀ file onlyAgain laterAgain,
        ∃ again, recoverPendingRevision host path shardPath
          { target with shard := change.apply path target.shard, file } onlyAgain laterAgain = .ok (again, .keep)

variable {host path shardPath}

variable {target : Target} {marker : PendingMarker}

theorem unreported (stands : readShardView target.shard path = .ok (.pending marker)) :
    readRevisionStatus target.shard target.legacy path = .unavailable (pendingFinalization path) := by
  have refused : readStandingRevisionStrict target.shard target.legacy path = .error (pendingFinalization path) := by
    rw [readStandingRevisionStrict, stands]
    rfl
  rw [readRevisionStatus, refused]

theorem decided (host : Host) (shardPath : JsString) (onlyWithWriteEvidence : Bool) (later : Option Bytes)
    (stands : readShardView target.shard path = .ok (.pending marker)) :
    Decided marker (digestDurableFile host target.file) onlyWithWriteEvidence
      (recoverPendingRevision host path shardPath target onlyWithWriteEvidence later) := by
  rw [recoverPendingRevision, stands]
  simp only [bind, Except.bind]
  split
  next foreign => exact .refused _ (.inl foreign)
  next =>
    split
    next reserved => exact .reserved reserved.1 (by simpa using reserved.2)
    next =>
      split
      next matched => exact .published _ matched
      next differs =>
        split
        next evidence => exact .refused _ (.inr ⟨differs, .inl evidence⟩)
        next plain =>
          split
          next baseline => exact .restored (by simpa using plain) differs baseline
          next moved => exact .refused _ (.inr ⟨differs, .inr moved⟩)

theorem recover_settled (host : Host) (shardPath : JsString) (target : Target) {view : ShardView}
    (onlyWithWriteEvidence : Bool) (later : Option Bytes)
    (read : readShardView target.shard path = .ok view) (settled : ∀ marker, view ≠ .pending marker) :
    ∃ result, recoverPendingRevision host path shardPath target onlyWithWriteEvidence later = .ok (result, .keep) := by
  rw [recoverPendingRevision, read]
  cases view with
  | pending marker => exact absurd rfl (settled marker)
  | missing | foreign | committed => exact ⟨_, rfl⟩

theorem committed_settled {revision : JsString} (nonempty : revision ≠ []) (digest fingerprint : Evidence)
    (shard : target.shard = some (.object (committedFields path revision digest fingerprint))) (onlyWithWriteEvidence : Bool)
    (later : Option Bytes) :
    ∃ result, recoverPendingRevision host path shardPath target onlyWithWriteEvidence later = .ok (result, .keep) := by
  have read := readShardView_committedFields path nonempty digest fingerprint
  rw [← shard] at read
  exact recover_settled host shardPath target onlyWithWriteEvidence later read nofun

theorem settled (onlyWithWriteEvidence : Bool) (later : Option Bytes)
    (absent : ∀ marker, readShardView target.shard path ≠ .ok (.pending marker)) :
    durableChange host path shardPath target (.recover onlyWithWriteEvidence later) = .keep := by
  cases read : readShardView target.shard path with
  | error reason =>
    have failed : recoverPendingRevision host path shardPath target onlyWithWriteEvidence later = .error reason := by
      rw [recoverPendingRevision, read]
      rfl
    rw [durableChange, call, failed]
    rfl
  | ok view =>
    have other : ∀ marker, view ≠ .pending marker := fun marker same => absent marker (same ▸ read)
    obtain ⟨result, recovered⟩ := recover_settled host shardPath target onlyWithWriteEvidence later
      read other
    rw [durableChange, call, recovered]
    rfl

theorem stable {onlyWithWriteEvidence : Bool} {later : Option Bytes} {result : Recovery} {change : Change}
    (recovered : recoverPendingRevision host path shardPath target onlyWithWriteEvidence later = .ok (result, change))
    (success : result ≠ .reserved) (file : Option Bytes) (onlyAgain : Bool) (laterAgain : Option Bytes) :
    ∃ again, recoverPendingRevision host path shardPath
      { target with shard := change.apply path target.shard, file } onlyAgain laterAgain = .ok (again, .keep) := by
  cases read : readShardView target.shard path with
  | error reason =>
    rw [recoverPendingRevision, read] at recovered
    contradiction
  | ok view =>
    by_cases pending : ∃ marker, view = .pending marker
    · obtain ⟨marker, rfl⟩ := pending
      have tokens := pending_tokens read
      have ended := decided host shardPath onlyWithWriteEvidence later read
      rw [recovered] at ended
      cases ended with
      | published fingerprint => exact committed_settled tokens.1 _ _ rfl onlyAgain laterAgain
      | reserved => exact absurd rfl success
      | restored =>
        cases known : marker.previous with
        | none =>
          exact recover_settled host shardPath ⟨none, target.legacy, file⟩ onlyAgain laterAgain rfl nofun
        | some previous => exact committed_settled (tokens.2 previous known) none none rfl onlyAgain laterAgain
    · have other : ∀ marker, view ≠ .pending marker := fun marker same => pending ⟨marker, same⟩
      obtain ⟨unchanged, kept⟩ := recover_settled host shardPath target onlyWithWriteEvidence later
        read other
      rw [recovered] at kept
      cases kept
      exact recover_settled host shardPath { target with file } onlyAgain laterAgain read other

/-- A reservation that crashed before its write; the memory file was removed since. -/
def reservedMarker : PendingMarker where
  revision := firstToken
  previous := none
  foreign := false
  baselineDigest := some (some (sampleHost.sha256 []))
  expectedDigest := none
  writeLanded := some false

def reservedTarget : Target := ⟨some (.object (pendingFields samplePath reservedMarker)), .ok none, none⟩

end Remnic.Revision.Recovery
