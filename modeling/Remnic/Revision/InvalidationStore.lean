import Remnic.Revision.Shard
import Remnic.Library.GuardedFold
import Remnic.Library.InsertionSet

/-!
The proofs that an invalidation was committed: the metadata file all processes
share, and the quarantine one process keeps for proofs it has withdrawn.
-/

namespace Remnic.Revision.InvalidationStore

open Library Library.InsertionSet Text.CodeUnits Shard Option OrderedMap

/-- A memory as its proofs see it: the id and `invalidationCommitFingerprint`. -/
structure Memory where
  id : JsString
  fingerprint : Digest
  deriving DecidableEq

structure InvalidationCommit where
  fingerprint : Digest
  committedAt : Int
  deriving DecidableEq

structure CommitEntry where
  memoryId : JsString
  fingerprint : JsString
  committedAt : Int
  deriving DecidableEq

/-- The metadata file: absent, of another shape than `InvalidationCommitMetadata`, or its entries. -/
inductive CommitFile where
  | absent
  | malformed
  | commits (entries : List CommitEntry)
  deriving DecidableEq

abbrev Commits := OrderedMap JsString InvalidationCommit

def invalidMetadata : JsString := text "Invalidation commit metadata is invalid."

def unavailableMetadata : JsString := text "Invalidation commit metadata is unavailable."

def unavailableLock : JsString := text "Deletion revision metadata lock is unavailable."

/-- `INVALIDATION_COMMIT_MAX_TIMESTAMP_MS`. -/
def maxTimestampMs : Int := 8640000000000000

/-- `INVALIDATION_PROOF_QUARANTINE_MAX_IDS`. -/
def quarantineMaxIds : Nat := 1024

def isValidMemoryId (value : JsString) : Bool := value ≠ [] && unit 0 ∉ value

def isValidInvalidationCommitTimestamp (value : Int) : Bool := 0 ≤ value && value ≤ maxTimestampMs

/-- One round of the loop over the entries of the file. -/
def parseCommit (commits : Commits) (entry : CommitEntry) : Except JsString Commits :=
  if digest : isSha256Hex entry.fingerprint = true then
    if isValidMemoryId entry.memoryId && isValidInvalidationCommitTimestamp entry.committedAt &&
        !commits.contains entry.memoryId then
      .ok (commits.set entry.memoryId ⟨⟨entry.fingerprint, digest⟩, entry.committedAt⟩)
    else .error invalidMetadata
  else .error invalidMetadata

def parseInvalidationCommitMetadata : CommitFile → Except JsString Commits
  | .absent => .ok .empty
  | .malformed => .error invalidMetadata
  | .commits entries => entries.foldlM parseCommit .empty

/-- What may fail in a call: the lock, reading the file and replacing it. -/
structure Io where
  acquired : Bool
  readable : Bool
  replaced : Except JsString Unit

def sound : Io := ⟨true, true, .ok ()⟩

/-- A call that has to replace the file cannot end well. -/
def Io.Fails (io : Io) : Prop := io.acquired = false ∨ io.readable = false ∨ io.replaced ≠ .ok ()

def readInvalidationCommitMetadata (io : Io) (file : CommitFile) : Except JsString Commits :=
  if io.readable then parseInvalidationCommitMetadata file else .error unavailableMetadata

def CommitEntry.of (entry : JsString × InvalidationCommit) : CommitEntry :=
  ⟨entry.1, entry.2.fingerprint.val, entry.2.committedAt⟩

def metadataOf (commits : Commits) : CommitFile :=
  .commits ((commits.entries.insertionSort (fun left right => left.1 ≤ right.1)).map CommitEntry.of)

def writeInvalidationCommitMetadata (io : Io) (commits : Commits) : Except JsString CommitFile :=
  io.replaced.map fun _ => metadataOf commits

def withDeletionRevisionLock {Result : Type} (io : Io) (task : Except JsString Result) : Except JsString Result :=
  if io.acquired then task else .error unavailableLock

/-- The proofs one process has withdrawn and may not have removed from the file. -/
structure ProofQuarantine where
  ids : OrderedSet JsString
  full : Bool
  fullAt : Option Int
  bounded : ids.items.length ≤ quarantineMaxIds
  timed : full = true → fullAt ≠ none

def ProofQuarantine.initial : ProofQuarantine := ⟨.empty, false, none, Nat.zero_le _, nofun⟩

def ProofQuarantine.add (quarantine : ProofQuarantine) (memoryId : JsString)
    (room : quarantine.ids.items.length < quarantineMaxIds) : ProofQuarantine where
  ids := quarantine.ids.add memoryId
  full := quarantine.full
  fullAt := quarantine.fullAt
  bounded := by
    have grown := AppendNew.length_appendNew_le quarantine.ids.items [memoryId]
    rw [List.length_singleton] at grown
    exact grown.trans room
  timed := quarantine.timed

def ProofQuarantine.delete (quarantine : ProofQuarantine) (memoryId : JsString) : ProofQuarantine where
  ids := quarantine.ids.delete memoryId
  full := quarantine.full
  fullAt := quarantine.fullAt
  bounded := (List.length_filter_le _ _).trans quarantine.bounded
  timed := quarantine.timed

/-- The quarantine once it is full, with the time from which proofs count again. -/
def ProofQuarantine.fill (quarantine : ProofQuarantine) (fullAt : Int) : ProofQuarantine where
  ids := quarantine.ids
  full := true
  fullAt := some fullAt
  bounded := quarantine.bounded
  timed _ := nofun

def quarantineInvalidationProof (quarantine : ProofQuarantine) (memoryId : JsString) (now : Int) : ProofQuarantine :=
  if quarantine.full then quarantine.fill (max (quarantine.fullAt.getD 0) (now + 1))
  else if memoryId ∈ quarantine.ids then quarantine
  else if room : quarantine.ids.items.length < quarantineMaxIds then quarantine.add memoryId room
  else quarantine.fill (now + 1)

structure DeletionRevisionStore where
  file : CommitFile
  quarantine : ProofQuarantine

def proves (quarantine : ProofQuarantine) (memoryId : JsString) (commit : InvalidationCommit) : Bool :=
  if memoryId ∈ quarantine.ids then false
  else if quarantine.full then quarantine.fullAt.any (· ≤ commit.committedAt)
  else true

def hasCommittedInvalidation (io : Io) (store : DeletionRevisionStore) (memory : Memory) : Except JsString Bool :=
  withDeletionRevisionLock io do
    let commits ← readInvalidationCommitMetadata io store.file
    match commits.lookup memory.id with
    | none => .ok false
    | some commit =>
      if commit.fingerprint ≠ memory.fingerprint then .ok false
      else .ok (proves store.quarantine memory.id commit)

def committedTime (fullAt : Option Int) (now : Int) : Int :=
  match fullAt with
  | none => now
  | some boundary => max now (boundary + 1)

def recordCommit (io : Io) (file : CommitFile) (memory : Memory) (committedAt : Int) : Except JsString CommitFile :=
  withDeletionRevisionLock io do
    let commits ← readInvalidationCommitMetadata io file
    writeInvalidationCommitMetadata io (commits.set memory.id ⟨memory.fingerprint, committedAt⟩)

def recordCommittedInvalidation (io : Io) (now : Int) (store : DeletionRevisionStore) (memory : Memory) :
    Except JsString DeletionRevisionStore :=
  (recordCommit io store.file memory (committedTime store.quarantine.fullAt now)).map fun file =>
    ⟨file, store.quarantine.delete memory.id⟩

/-- The file without the proof of a memory; a proof of other evidence stays. -/
def clearCommit (io : Io) (file : CommitFile) (memory : Memory) : Except JsString CommitFile :=
  withDeletionRevisionLock io do
    let commits ← readInvalidationCommitMetadata io file
    if (commits.lookup memory.id).map (·.fingerprint) ≠ some memory.fingerprint then .ok file
    else writeInvalidationCommitMetadata io (commits.erase memory.id)

/-- The proof that stands for an id in the file; none where the file cannot be parsed. -/
def standing (file : CommitFile) (memoryId : JsString) : Option InvalidationCommit :=
  match parseInvalidationCommitMetadata file with
  | .ok commits => commits.lookup memoryId
  | .error _ => none

/-- The store after the call, and whether it throws. -/
def clearCommittedInvalidation (io : Io) (now : Int) (store : DeletionRevisionStore) (memory : Memory) :
    DeletionRevisionStore × Except JsString Unit :=
  let quarantine := quarantineInvalidationProof store.quarantine memory.id now
  match clearCommit io store.file memory with
  | .ok file => (⟨file, quarantine.delete memory.id⟩, .ok ())
  | .error reason => (⟨store.file, quarantine⟩, .error reason)

variable {io : Io} {file changed : CommitFile} {memory : Memory}

theorem locked_ok {Result : Type} {task : Except JsString Result} {result : Result} :
    withDeletionRevisionLock io task = .ok result ↔ io.acquired = true ∧ task = .ok result := by
  unfold withDeletionRevisionLock
  split
  next acquired => simp [acquired]
  next unlocked => simp [unlocked]

variable {commits : Commits} {memoryId : JsString} {commit : InvalidationCommit}

theorem read_ok : readInvalidationCommitMetadata io file = .ok commits ↔
    io.readable = true ∧ parseInvalidationCommitMetadata file = .ok commits := by
  unfold readInvalidationCommitMetadata
  split
  next readable => simp [readable]
  next unreadable => simp [unreadable]

private theorem lookup_parseCommit {next : Commits} {entry : CommitEntry} (parsed : parseCommit commits entry = .ok next)
    (found : next.lookup memoryId = some commit) :
    commits.lookup memoryId = some commit ∨ entry = CommitEntry.of (memoryId, commit) := by
  unfold parseCommit at parsed
  split_ifs at parsed with digest valid
  cases parsed
  rw [lookup_set] at found
  split_ifs at found with same
  · cases found
    exact .inr (by rw [same, CommitEntry.of])
  · exact .inl found

private theorem lookup_parseCommits {entries : List CommitEntry} {start : Commits}
    (parsed : entries.foldlM parseCommit start = .ok commits) (found : commits.lookup memoryId = some commit) :
    start.lookup memoryId = some commit ∨ CommitEntry.of (memoryId, commit) ∈ entries := by
  induction entries generalizing start with
  | nil =>
    cases parsed
    exact .inl found
  | cons entry entries ih =>
    rw [List.foldlM_cons] at parsed
    obtain ⟨next, first, rest⟩ := GuardedFold.bind_ok_iff.mp parsed
    rcases ih rest with before | listed
    · rcases lookup_parseCommit first before with earlier | same
      · exact .inl earlier
      · exact .inr (same ▸ List.mem_cons_self)
    · exact .inr (List.mem_cons_of_mem _ listed)

theorem CommitEntry.of_injective : Function.Injective CommitEntry.of := by
  rintro ⟨firstId, firstPrint, firstAt⟩ ⟨secondId, secondPrint, secondAt⟩ same
  simp only [CommitEntry.of, CommitEntry.mk.injEq, Subtype.val_inj] at same
  rw [same.1, same.2.1, same.2.2]

theorem standing_metadataOf (found : standing (metadataOf commits) memoryId = some commit) :
    commits.lookup memoryId = some commit := by
  unfold standing at found
  split at found
  next read parsed =>
    rcases lookup_parseCommits parsed found with before | listed
    · simp at before
    · obtain ⟨entry, sorted, same⟩ := List.mem_map.mp listed
      rw [CommitEntry.of_injective same] at sorted
      exact (lookup_eq_some_iff _ _ _).mpr ((List.mem_insertionSort _).mp sorted)
  next => contradiction

theorem standing_of_parsed (parsed : parseInvalidationCommitMetadata file = .ok commits) (memoryId : JsString) :
    standing file memoryId = commits.lookup memoryId := by
  unfold standing
  rw [parsed]

theorem standing_recordCommit {committedAt : Int} (recorded : recordCommit io file memory committedAt = .ok changed)
    (found : standing changed memoryId = some commit) :
    if memoryId = memory.id then commit.fingerprint = memory.fingerprint else standing file memoryId = some commit := by
  obtain ⟨_, task⟩ := locked_ok.mp recorded
  obtain ⟨commits, read, rest⟩ := GuardedFold.bind_ok_iff.mp task
  obtain ⟨_, _, same⟩ := GuardedFold.map_ok_iff.mp rest
  have held := standing_metadataOf (same ▸ found)
  rw [lookup_set] at held
  split_ifs at held ⊢
  · cases held
    rfl
  · rw [standing_of_parsed (read_ok.mp read).2]
    exact held

/-- What a call that clears a proof leaves in the file. -/
inductive Cleared (io : Io) (file : CommitFile) (memory : Memory) : CommitFile → Prop where
  | kept (read : io.acquired = true ∧ io.readable = true)
      (other : ∀ commit ∈ standing file memory.id, commit.fingerprint ≠ memory.fingerprint) :
      Cleared io file memory file
  | removed {changed : CommitFile} (replaced : ¬ io.Fails)
      (same : ∀ commit ∈ standing file memory.id, commit.fingerprint = memory.fingerprint)
      (gone : standing changed memory.id = none)
      (others : ∀ memoryId commit, standing changed memoryId = some commit → standing file memoryId = some commit) :
      Cleared io file memory changed

theorem standing_erased {other : JsString} (found : standing (metadataOf (commits.erase memoryId)) other = some commit) :
    other ≠ memoryId ∧ commits.lookup other = some commit := by
  have held := standing_metadataOf found
  rw [lookup_erase] at held
  split_ifs at held with same
  exact ⟨same, held⟩

theorem cleared_of_ok (done : clearCommit io file memory = .ok changed) : Cleared io file memory changed := by
  obtain ⟨acquired, task⟩ := locked_ok.mp done
  obtain ⟨commits, read, rest⟩ := GuardedFold.bind_ok_iff.mp task
  obtain ⟨readable, parsed⟩ := read_ok.mp read
  have stands := standing_of_parsed parsed
  split_ifs at rest with differs
  · cases rest
    refine .kept ⟨acquired, readable⟩ fun commit found same => differs ?_
    rw [stands] at found
    rw [mem_def.mp found, map_some, same]
  · obtain ⟨_, replaced, same⟩ := GuardedFold.map_ok_iff.mp rest
    subst same
    refine .removed ?_ (fun commit found => ?_) ?_ fun memoryId commit found => ?_
    · rintro (unlocked | unreadable | unreplaced)
      · exact absurd acquired (by simp [unlocked])
      · exact absurd readable (by simp [unreadable])
      · exact unreplaced replaced
    · rw [stands] at found
      rw [mem_def.mp found] at differs
      exact some.inj (not_not.mp differs)
    · by_contra present
      obtain ⟨commit, found⟩ := ne_none_iff_exists'.mp present
      exact (standing_erased found).1 rfl
    · rw [stands]
      exact (standing_erased found).2

theorem fails_of_error {reason : JsString} (failed : clearCommit io file memory = .error reason)
    (found : standing file memory.id = some commit) :
    io.Fails ∧ (commit.fingerprint ≠ memory.fingerprint → ¬ (io.acquired = true ∧ io.readable = true)) := by
  unfold standing at found
  split at found
  next commits parsed =>
    unfold clearCommit withDeletionRevisionLock readInvalidationCommitMetadata at failed
    cases acquired : io.acquired with
    | false => exact ⟨.inl acquired, by simp⟩
    | true =>
      cases readable : io.readable with
      | false => exact ⟨.inr (.inl readable), by simp⟩
      | true =>
        simp only [acquired, readable, if_true, parsed, bind, Except.bind, found, map_some] at failed
        split_ifs at failed with differs
        refine ⟨.inr (.inr ?_), fun other => absurd (by simpa using other) differs⟩
        intro replaced
        rw [writeInvalidationCommitMetadata, replaced] at failed
        contradiction
  next => contradiction

end Remnic.Revision.InvalidationStore
