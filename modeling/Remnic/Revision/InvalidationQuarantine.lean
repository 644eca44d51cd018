import Remnic.Revision.InvalidationStore
import Remnic.Library.Transition

/-!
Invalidation proofs fail closed: which withdrawn proofs a process may take for
committed again, over whole runs of one process beside others on the same file.
-/

namespace Remnic.Revision.InvalidationQuarantine

open Library Library.Transition Library.InsertionSet Text.CodeUnits Shard InvalidationStore Option

inductive Action where
  | record (memory : Memory) (now : Int) (io : Io)
  | clear (memory : Memory) (now : Int) (io : Io)
  | quarantine (memoryId : JsString) (now : Int)
  | recordElsewhere (memory : Memory) (committedAt : Int) (io : Io)
  | clearElsewhere (memory : Memory) (io : Io)

/-- The store of one process, and the memories it has cleared whose proof has not
been recorded again since. -/
structure Proofs where
  store : DeletionRevisionStore
  withdrawn : List Memory

def initial (file : CommitFile) : Proofs := ⟨⟨file, .initial⟩, []⟩

def step (state : Proofs) : Action → Option Proofs
  | .record memory now io =>
    match recordCommittedInvalidation io now state.store memory with
    | .ok store => some ⟨store, state.withdrawn.filter (· ≠ memory)⟩
    | .error _ => some state
  | .clear memory now io =>
    some ⟨(clearCommittedInvalidation io now state.store memory).1, memory :: state.withdrawn⟩
  | .quarantine memoryId now =>
    some { state with store.quarantine := quarantineInvalidationProof state.store.quarantine memoryId now }
  | .recordElsewhere memory committedAt io =>
    match recordCommit io state.store.file memory committedAt with
    | .ok file => some ⟨{ state.store with file }, state.withdrawn.filter (· ≠ memory)⟩
    | .error _ => some state
  | .clearElsewhere memory io =>
    match clearCommit io state.store.file memory with
    | .ok file => some { state with store.file := file }
    | .error _ => some state

/-- The least time a proof must have after an id joins a full quarantine. -/
def boundary (quarantine : ProofQuarantine) (now : Int) : Int :=
  if quarantine.full then max (quarantine.fullAt.getD 0) (now + 1) else now + 1

/-- What keeps the standing proof refused when the call that clears it fails: its id is
or can be quarantined, or the proof is older than the boundary. -/
def RefusedOnFailure (quarantine : ProofQuarantine) (memoryId : JsString) (committedAt now : Int) : Prop :=
  memoryId ∈ quarantine.ids ∨ (quarantine.full = false ∧ quarantine.ids.items.length < quarantineMaxIds) ∨
    committedAt < boundary quarantine now

/-- A call that clears a proof while some proof stands: where it fails its own proof stays
refused, and where the standing proof is a withdrawn one of other evidence, the call throws
or the quarantine is full and that proof is older than the boundary. -/
def SafeBeside (state : Proofs) (memory : Memory) (now : Int) (io : Io) (commit : InvalidationCommit) : Prop :=
  (commit.fingerprint = memory.fingerprint → io.Fails →
    RefusedOnFailure state.store.quarantine memory.id commit.committedAt now) ∧
  (commit.fingerprint ≠ memory.fingerprint → ⟨memory.id, commit.fingerprint⟩ ∈ state.withdrawn →
    io.acquired → io.readable →
      state.store.quarantine.full = true ∧ commit.committedAt < boundary state.store.quarantine now)

def ClearsSafely (state : Proofs) : Action → Prop
  | .clear memory now io => ∀ commit ∈ standing state.store.file memory.id, SafeBeside state memory now io commit
  | _ => True

def Refuses (quarantine : ProofQuarantine) (memoryId : JsString) (committedAt : Int) : Prop :=
  memoryId ∈ quarantine.ids ∨ quarantine.full = true ∧ ∀ fullAt ∈ quarantine.fullAt, committedAt < fullAt

/-- The standing proof of a memory, if there is one, is refused. -/
def Refused (store : DeletionRevisionStore) (memory : Memory) : Prop :=
  ∀ commit ∈ standing store.file memory.id, commit.fingerprint = memory.fingerprint →
    Refuses store.quarantine memory.id commit.committedAt

theorem proves_eq_true_iff {quarantine : ProofQuarantine} {memoryId : JsString} {commit : InvalidationCommit} :
    proves quarantine memoryId commit = true ↔ ¬ Refuses quarantine memoryId commit.committedAt := by
  unfold proves Refuses
  split_ifs with listed full
  · simp [listed]
  · cases quarantine.fullAt <;> simp [listed, full]
  · simp [listed, full]

theorem refused_iff {store : DeletionRevisionStore} {memory : Memory} :
    Refused store memory ↔ ∀ io, hasCommittedInvalidation io store memory ≠ .ok true := by
  constructor
  · intro refused io taken
    obtain ⟨_, task⟩ := locked_ok.mp taken
    obtain ⟨commits, read, rest⟩ := GuardedFold.bind_ok_iff.mp task
    have stands := standing_of_parsed (read_ok.mp read).2 memory.id
    cases found : commits.lookup memory.id with
    | none =>
      simp only [found, Except.ok.injEq, Bool.false_eq_true] at rest
    | some commit =>
      simp only [found] at rest
      split_ifs at rest with differs
      · simp only [Except.ok.injEq, Bool.false_eq_true] at rest
      · rw [found] at stands
        exact proves_eq_true_iff.mp (Except.ok.inj rest) (refused commit stands (not_not.mp differs))
  · intro never commit stands same
    by_contra proven
    have proof := proves_eq_true_iff.mpr proven
    unfold standing at stands
    split at stands
    next commits parsed =>
      apply never sound
      simp only [hasCommittedInvalidation, withDeletionRevisionLock, readInvalidationCommitMetadata, sound, if_true, parsed,
        bind, Except.bind, mem_def.mp stands, same, proof, ne_eq, not_true_eq_false, if_false]
    next => contradiction

variable {quarantine : ProofQuarantine} {memoryId other : JsString} {committedAt now : Int}

theorem refuses_quarantine (refuses : Refuses quarantine memoryId committedAt) :
    Refuses (quarantineInvalidationProof quarantine other now) memoryId committedAt := by
  unfold quarantineInvalidationProof
  split_ifs with full listed room
  · rcases refuses with inside | ⟨_, older⟩
    · exact .inl inside
    · obtain ⟨fullAt, same⟩ := ne_none_iff_exists'.mp (quarantine.timed full)
      refine .inr ⟨rfl, fun later raised => ?_⟩
      cases raised
      rw [same, getD_some]
      exact (older fullAt same).trans_le (le_max_left _ _)
  · exact refuses
  · rcases refuses with inside | old
    · exact .inl ((mem_add _).mpr (.inl inside))
    · exact .inr old
  · rcases refuses with inside | ⟨impossible, _⟩
    · exact .inl inside
    · exact absurd impossible full

/-- An id that joins the quarantine is refused afterwards unless the quarantine is full
and its proof reaches the boundary. -/
theorem refuses_joined_iff : Refuses (quarantineInvalidationProof quarantine memoryId now) memoryId committedAt ↔
    RefusedOnFailure quarantine memoryId committedAt now := by
  unfold quarantineInvalidationProof RefusedOnFailure boundary Refuses
  by_cases full : quarantine.full = true
  · simp [full, ProofQuarantine.fill]
  · by_cases listed : memoryId ∈ quarantine.ids
    · simp [full, listed]
    · by_cases room : quarantine.ids.items.length < quarantineMaxIds
      · simp [full, listed, room, ProofQuarantine.add]
      · simp [full, listed, room, ProofQuarantine.fill]

theorem refuses_delete_of_ne (different : memoryId ≠ other) :
    Refuses (quarantine.delete other) memoryId committedAt ↔ Refuses quarantine memoryId committedAt := by
  simp [Refuses, ProofQuarantine.delete, different]

/-- An id that joins and leaves the quarantine again is refused afterwards only by a
full quarantine. -/
theorem refuses_left_iff (refuses : Refuses quarantine memoryId committedAt) :
    Refuses ((quarantineInvalidationProof quarantine memoryId now).delete memoryId) memoryId committedAt ↔
      quarantine.full = true ∧ committedAt < boundary quarantine now := by
  unfold quarantineInvalidationProof boundary
  by_cases full : quarantine.full = true
  · simp [full, Refuses, ProofQuarantine.fill, ProofQuarantine.delete]
  · have listed : memoryId ∈ quarantine.ids := refuses.resolve_right fun old => full old.1
    simp [full, listed, Refuses, ProofQuarantine.delete]

def AllRefused (state : Proofs) : Prop := ∀ memory ∈ state.withdrawn, Refused state.store memory

def cleared (state : Proofs) (memory : Memory) (now : Int) (io : Io) : Proofs :=
  ⟨(clearCommittedInvalidation io now state.store memory).1, memory :: state.withdrawn⟩

variable {state next : Proofs} {memory : Memory} {io : Io}

section

variable (refused : AllRefused state)
include refused

theorem allRefused_failed_iff {reason : JsString} (failed : clearCommit io state.store.file memory = .error reason) :
    AllRefused (cleared state memory now io) ↔ ClearsSafely state (.clear memory now io) := by
  have store : (cleared state memory now io).store =
      ⟨state.store.file, quarantineInvalidationProof state.store.quarantine memory.id now⟩ := by
    simp only [cleared, clearCommittedInvalidation, failed]
  constructor
  · intro all commit stands
    have fails := fails_of_error failed stands
    refine ⟨fun same _ => ?_, fun different _ acquired readable => absurd ⟨acquired, readable⟩ (fails.2 different)⟩
    have own := all memory List.mem_cons_self
    rw [store] at own
    exact refuses_joined_iff.mp (own commit stands same)
  · intro safe withdrawn listed commit stands same
    rw [store] at stands ⊢
    rcases List.mem_cons.mp listed with rfl | before
    · exact refuses_joined_iff.mpr ((safe commit stands).1 same (fails_of_error failed stands).1)
    · exact refuses_quarantine (refused withdrawn before commit stands same)

theorem allRefused_kept_iff (done : clearCommit io state.store.file memory = .ok state.store.file)
    (read : io.acquired = true ∧ io.readable = true)
    (differs : ∀ commit ∈ standing state.store.file memory.id, commit.fingerprint ≠ memory.fingerprint) :
    AllRefused (cleared state memory now io) ↔ ClearsSafely state (.clear memory now io) := by
  have store : (cleared state memory now io).store =
      ⟨state.store.file, (quarantineInvalidationProof state.store.quarantine memory.id now).delete memory.id⟩ := by
    simp only [cleared, clearCommittedInvalidation, done]
  constructor
  · intro all commit stands
    refine ⟨fun same => absurd same (differs commit stands), fun _ before _ _ => ?_⟩
    have other := all ⟨memory.id, commit.fingerprint⟩ (List.mem_cons_of_mem _ before)
    rw [store] at other
    exact (refuses_left_iff (refused _ before commit stands rfl)).mp (other commit stands rfl)
  · intro safe withdrawn listed commit stands same
    rw [store] at stands ⊢
    rcases List.mem_cons.mp listed with rfl | before
    · exact absurd same (differs commit stands)
    · by_cases sameId : withdrawn.id = memory.id
      · have known : withdrawn = ⟨memory.id, commit.fingerprint⟩ := by
          cases withdrawn
          simp_all
        have stands' : standing state.store.file memory.id = some commit := sameId ▸ stands
        have past := (safe commit stands').2 (differs commit stands') (known ▸ before) read.1 read.2
        rw [sameId]
        exact (refuses_left_iff (sameId ▸ refused withdrawn before commit stands same)).mpr past
      · exact (refuses_delete_of_ne sameId).mpr (refuses_quarantine (refused withdrawn before commit stands same))

theorem allRefused_removed {changed : CommitFile} (done : clearCommit io state.store.file memory = .ok changed)
    (gone : standing changed memory.id = none)
    (others : ∀ memoryId commit, standing changed memoryId = some commit →
      standing state.store.file memoryId = some commit) : AllRefused (cleared state memory now io) := by
  have store : (cleared state memory now io).store =
      ⟨changed, (quarantineInvalidationProof state.store.quarantine memory.id now).delete memory.id⟩ := by
    simp only [cleared, clearCommittedInvalidation, done]
  intro withdrawn listed commit stands same
  rw [store] at stands ⊢
  by_cases sameId : withdrawn.id = memory.id
  · rw [sameId, gone] at stands
    contradiction
  · have before : withdrawn ∈ state.withdrawn :=
      (List.mem_cons.mp listed).resolve_left fun own => sameId (congrArg Memory.id own)
    exact (refuses_delete_of_ne sameId).mpr
      (refuses_quarantine (refused withdrawn before commit (others _ _ stands) same))

theorem allRefused_cleared_iff : AllRefused (cleared state memory now io) ↔ ClearsSafely state (.clear memory now io) := by
  cases done : clearCommit io state.store.file memory with
  | error reason => exact allRefused_failed_iff refused done
  | ok changed =>
    cases cleared_of_ok done with
    | kept read other => exact allRefused_kept_iff refused done read other
    | removed replaced same gone others =>
      refine iff_of_true (allRefused_removed refused done gone others) fun commit stands => ?_
      exact ⟨fun _ fails => absurd fails replaced, fun other => absurd (same commit stands) other⟩

theorem allRefused_recorded {quarantine : ProofQuarantine} {file : CommitFile} {committedAt : Int}
    (recorded : recordCommit io state.store.file memory committedAt = .ok file)
    (keeps : ∀ withdrawn : Memory, withdrawn.id ≠ memory.id → ∀ time,
      Refuses state.store.quarantine withdrawn.id time → Refuses quarantine withdrawn.id time) :
    AllRefused ⟨⟨file, quarantine⟩, state.withdrawn.filter (· ≠ memory)⟩ := by
  intro withdrawn listed commit stands same
  obtain ⟨before, different⟩ := List.mem_filter.mp listed
  have held := standing_recordCommit recorded stands
  split_ifs at held with sameId
  · refine absurd ?_ (of_decide_eq_true different)
    cases withdrawn
    cases memory
    simp_all
  · exact keeps withdrawn sameId _ (refused withdrawn before commit held same)

theorem allRefused_step {action : Action} (safe : ClearsSafely state action) (stepped : step state action = some next) : AllRefused next := by
  cases action with
  | record memory now io =>
    simp only [step, recordCommittedInvalidation] at stepped
    cases recorded : recordCommit io state.store.file memory (committedTime state.store.quarantine.fullAt now) with
    | error reason =>
      simp only [recorded, Except.map, some.injEq] at stepped
      exact stepped ▸ refused
    | ok file =>
      simp only [recorded, Except.map, some.injEq] at stepped
      subst stepped
      exact allRefused_recorded refused recorded fun _ different _ => (refuses_delete_of_ne different).mpr
  | clear memory now io =>
    cases stepped
    exact (allRefused_cleared_iff refused).mpr safe
  | quarantine memoryId now =>
    cases stepped
    exact fun withdrawn listed commit stands same =>
      refuses_quarantine (refused withdrawn listed commit stands same)
  | recordElsewhere memory committedAt io =>
    simp only [step] at stepped
    cases recorded : recordCommit io state.store.file memory committedAt with
    | error reason =>
      simp only [recorded, some.injEq] at stepped
      exact stepped ▸ refused
    | ok file =>
      simp only [recorded, some.injEq] at stepped
      subst stepped
      exact allRefused_recorded refused recorded fun _ _ _ => id
  | clearElsewhere memory io =>
    simp only [step] at stepped
    cases done : clearCommit io state.store.file memory with
    | error reason =>
      simp only [done, some.injEq] at stepped
      exact stepped ▸ refused
    | ok file =>
      simp only [done, some.injEq] at stepped
      subst stepped
      intro withdrawn listed commit stands same
      cases cleared_of_ok done with
      | kept _ _ => exact refused withdrawn listed commit stands same
      | removed _ _ _ others => exact refused withdrawn listed commit (others _ _ stands) same

end

theorem allRefused_reaches {file : CommitFile} (reached : Reaches step ClearsSafely (initial file) state) :
    AllRefused state := by
  apply reached.invariant AllRefused
  · exact nofun
  · exact fun _ _ _ refused safe stepped => allRefused_step refused safe stepped

/-- In every run whose clearing calls are safe no cleared memory is taken for committed
before its proof is recorded again, and the next such call keeps it so exactly if it is safe. -/
theorem withdrawn_refused {file : CommitFile} (reached : Reaches step ClearsSafely (initial file) state) :
    (∀ withdrawn ∈ state.withdrawn, ∀ io, hasCommittedInvalidation io state.store withdrawn ≠ .ok true) ∧
      ∀ memory now io, (∀ withdrawn ∈ memory :: state.withdrawn, ∀ later,
          hasCommittedInvalidation later (clearCommittedInvalidation io now state.store memory).1 withdrawn ≠ .ok true) ↔
        ClearsSafely state (.clear memory now io) := by
  have refused := allRefused_reaches reached
  refine ⟨fun withdrawn listed => refused_iff.mp (refused withdrawn listed), fun memory now io => ?_⟩
  rw [← allRefused_cleared_iff refused]
  exact forall₂_congr fun withdrawn _ => refused_iff.symm

instance (io : Io) : Decidable io.Fails := by
  unfold Io.Fails
  infer_instance

instance (quarantine : ProofQuarantine) (memoryId : JsString) (committedAt now : Int) :
    Decidable (RefusedOnFailure quarantine memoryId committedAt now) := by
  unfold RefusedOnFailure
  infer_instance

instance (state : Proofs) (memory : Memory) (now : Int) (io : Io) (commit : InvalidationCommit) :
    Decidable (SafeBeside state memory now io commit) := by
  unfold SafeBeside
  infer_instance

instance (state : Proofs) (action : Action) : Decidable (ClearsSafely state action) := by
  cases action <;> unfold ClearsSafely <;> infer_instance

def sampleMemory : Memory := ⟨text "fact-1", ⟨List.replicate 64 (unit 0x30), by decide⟩⟩

def editedMemory : Memory := ⟨text "fact-1", ⟨List.replicate 64 (unit 0x31), by decide⟩⟩

def diskFull : Io := ⟨true, true, .error (text "ENOSPC")⟩

def failedClear : List Action := [.record sampleMemory 1000 sound, .clear sampleMemory 1000 diskFull]

theorem withdrawn_refused_failedClear : ∃ state, Reaches step ClearsSafely (initial .absent) state ∧
    standing state.store.file sampleMemory.id = some ⟨sampleMemory.fingerprint, 1000⟩ ∧
      hasCommittedInvalidation sound state.store sampleMemory ≠ .ok true := by
  refine exists_reached (fun state => standing state.store.file sampleMemory.id = some ⟨sampleMemory.fingerprint, 1000⟩ ∧
    sampleMemory ∈ state.withdrawn) failedClear (by decide +kernel) ?_
  intro state reached ⟨stands, listed⟩
  exact ⟨stands, (withdrawn_refused reached).1 sampleMemory listed sound⟩

/-- After it a call for other evidence of the same memory finds nothing to remove. -/
def liftedQuarantine : List Action := failedClear ++ [.clear editedMemory 2000 sound]

theorem lifted_quarantine_proves : ∃ state, run step liftedQuarantine (initial .absent) = some state ∧
    sampleMemory ∈ state.withdrawn ∧ hasCommittedInvalidation sound state.store sampleMemory = .ok true :=
  exists_run (fun state => sampleMemory ∈ state.withdrawn ∧ hasCommittedInvalidation sound state.store sampleMemory = .ok true)
    (by decide +kernel) fun _ => id

end Remnic.Revision.InvalidationQuarantine
