import Mathlib.Data.List.Infix
import Remnic.Propagation.Plans

/-! What the queue delivers to dependents was confirmed by its caller, or its primary mutation was replayed. -/

namespace Remnic.Propagation.Delivery
open Library Library.Transition Text.CodeUnits Queue Workers Plans List Bool

variable {Event : Type} {env : QueueEnv Event} {world : World Event} {move : Move Event} {files : QueueFiles Event}
  {job : DependencyPropagationJob Event} {entry : JobEntry Event} {path : QueuePath} {jobId : JsString}

/-- The caller confirmed the job, or a recovery run replayed its mutation and moved it to ready. -/
def Released (history : List Happening) (jobId : JsString) : Prop :=
  .confirmed jobId ∈ history ∨ .readied jobId ∈ history

variable {next : DependencyPropagationJob Event} {entries : List (JobEntry Event)} {now : Int}
  {patched : DependencyPropagationJob Event} {history : List Happening} {status : JobStatus}

theorem Released.mono {later : List Happening} (released : Released history jobId) :
    Released (later ++ history) jobId := released.imp (mem_append_right _) (mem_append_right _)

def recoveryOwned (job : DependencyPropagationJob Event) : Bool := job.leaseOwner.any isRecoveryOwner

/-- A state in which a job is due to be delivered, or being delivered. -/
def Deliverable (job : DependencyPropagationJob Event) : Prop :=
  job.status = .ready ∨ job.status = .retryable ∨ (job.status = .leased ∧ recoveryOwned job = false)

def Ordered (history : List Happening) : Prop :=
  ∀ later earlier happening, history = later ++ happening :: earlier →
    (∀ jobId owner, happening = .claimed jobId owner → Released earlier jobId) ∧
      ∀ jobId owner, happening = .delivered jobId owner → Released earlier jobId

structure Cleared (world : World Event) : Prop where
  files : ∀ path job, world.files.lookup path = some job → Deliverable job → Released world.history job.jobId
  claims : ∀ job ∈ world.claims, Released world.history job.jobId
  ordered : Ordered world.history

/-- When a worker claims the next job, no logical lease of a recovery run is expired. -/
def NoExpiredRecoveryLease (env : QueueEnv Event) (world : World Event) (move : Move Event) : Prop :=
  move.deed = .claimNext → ∀ jobId entry, logicalEntry env world.files jobId = some entry →
    expiredLease (move.clock 0) entry.job = true → recoveryOwned entry.job = false

theorem recoveryOwned_recoveryOwner (worker : Worker) (uuid : JsString) : isRecoveryOwner (recoveryOwner worker uuid) = true := by
  unfold isRecoveryOwner includesText recoveryOwner
  rw [any_eq_true]
  refine ⟨text ":recovery:" ++ uuid, ?_, ?_⟩
  · rw [mem_tails, append_assoc]
    exact suffix_append _ _
  · unfold startsWith
    rw [ isPrefixOf_iff_prefix]
    exact prefix_append _ _

theorem Cleared.logical (cleared : Cleared world) (found : logicalEntry env world.files jobId = some entry)
    (deliverable : Deliverable entry.job) : Released world.history jobId := by
  have logical := logical_of_entry found
  exact logical.named ▸ cleared.files entry.path entry.job logical.held deliverable

/-- A file that a plan writes, in a state due for delivery, has been released. -/
def Releases (world : World Event) (history : List Happening) (plan : Plan Event) : Prop :=
  ∀ path job, .write path job ∈ plan.ops → Deliverable job → Released (history ++ world.history) job.jobId

theorem releases_idle (history : List Happening) : Releases world history (Plan.idle : Plan Event) := by
  intro path job written
  cases written

theorem releases_transition
    (released : Deliverable { patched with status := status } →
      Released (history ++ world.history) patched.jobId) :
    Releases world history (transitionUnlocked now entries status patched) := by
  intro path job written deliverable
  rw [(mem_transition written).2] at deliverable ⊢
  exact released deliverable

theorem not_deliverable (status : JobStatus) (patched : DependencyPropagationJob Event)
    (idle : status = .prepared ∨ status.terminal = true) : ¬Deliverable { patched with status := status } := by
  intro deliverable
  rcases idle with same | terminal
  · rw [same] at deliverable
    rcases deliverable with ready | retryable | leased
    · cases ready
    · cases retryable
    · cases leased.1
  · rcases deliverable with ready | retryable | leased
    · rw [show status = .ready from ready] at terminal
      cases terminal
    · rw [show status = .retryable from retryable] at terminal
      cases terminal
    · rw [show status = .leased from leased.1] at terminal
      cases terminal

theorem releases_prepared {target : QueuePath} {rest : List (FileOp Event)} (prepared : next.status = .prepared)
    (unlinks : ∀ op ∈ rest, ∃ gone tolerant, op = .unlink gone tolerant) :
    Releases world history { ops := .write target next :: rest } := by
  intro path job written deliverable
  rcases mem_cons.mp written with first | later
  · rw [(FileOp.write.inj first).2] at deliverable
    exact absurd deliverable (not_deliverable next.status next (.inl prepared))
  · obtain ⟨gone, tolerant, shape⟩ := unlinks _ later
    cases shape

theorem Cleared.renews (cleared : Cleared world) (found : logicalEntry env world.files jobId = some entry)
    (leased : entry.job.status = .leased) (history : List Happening) (expiresAt : Option Int)
    (deliverable : Deliverable { entry.job with leaseExpiresAt := expiresAt, status := .leased }) :
    Released (history ++ world.history) entry.job.jobId := by
  have owned : recoveryOwned entry.job = false := by
    rcases deliverable with ready | retryable | leased
    · cases ready
    · cases retryable
    · exact leased.2
  rw [(logical_of_entry found).named]
  exact (cleared.logical found (.inr (.inr ⟨leased, owned⟩))).mono

theorem releases_renewAfterWrite (cleared : Cleared world) {worker : Worker} {clock : Nat → Int} {history : List Happening} :
    Releases world history (renewAfterWrite env worker clock job world.files) := by
  unfold renewAfterWrite
  split
  next => exact releases_idle history
  next current found =>
    split
    next => exact releases_idle history
    next stands => exact releases_transition (cleared.renews found (not_not.mp (not_or.mp stands).1) history _)

theorem leased_of_stands {claimed current : DependencyPropagationJob Event} (stands : leaseStands now claimed current = true) :
    current.status = .leased ∧ current.leaseOwner = claimed.leaseOwner := by
  unfold leaseStands at stands
  simp only [and_eq_true, decide_eq_true_eq] at stands
  exact stands.1

theorem not_recovery_deliverable {worker : Worker} {uuid : JsString} {expiresAt : Int} {current : DependencyPropagationJob Event} :
    ¬Deliverable { leased (recoveryOwner worker uuid) expiresAt current with status := .leased } := by
  intro deliverable
  rcases deliverable with ready | retryable | leased
  · cases ready
  · cases retryable
  · have owned : isRecoveryOwner (recoveryOwner worker uuid) = false := leased.2
    rw [recoveryOwned_recoveryOwner] at owned
    cases owned

theorem claimNext_released (cleared : Cleared world) (unexpired : NoExpiredRecoveryLease env world move)
    (deed : move.deed = .claimNext) (found : (jobIds env world.files).findSome? (fun jobId =>
      (logicalEntry env world.files jobId).filter fun current => claimable (move.clock 0) current.job) = some entry) :
    Released world.history entry.job.jobId := by
  obtain ⟨jobId, _, chosen⟩ := exists_of_findSome?_eq_some found
  obtain ⟨logical, due⟩ := Option.filter_eq_some_iff.mp chosen
  rw [(logical_of_entry logical).named]
  refine cleared.logical logical ?_
  unfold claimable at due
  rw [or_eq_true, or_eq_true] at due
  rcases due with (ready | retryable) | expired
  · exact .inl (of_decide_eq_true ready)
  · exact .inr (.inl (of_decide_eq_true (and_eq_true_iff.mp retryable).1))
  · refine .inr (.inr ⟨?_, unexpired deed jobId entry logical expired⟩)
    unfold expiredLease at expired
    exact of_decide_eq_true (and_eq_true_iff.mp expired).1

theorem unlinks_nil (op : FileOp Event) (member : op ∈ []) : ∃ gone tolerant, op = .unlink gone tolerant := by cases member

/-- Every write of a job due for delivery follows the job's release. -/
theorem releases_plan (cleared : Cleared world) (allowed : Allowed env world move)
    (unexpired : NoExpiredRecoveryLease env world move) :
    Releases world (happenings env world move) (planOf env world move) := by
  cases deed : move.deed with
  | prepare event fingerprint =>
    unfold planOf
    rw [deed]
    dsimp only [prepare]
    split
    next => exact releases_idle _
    next =>
      split
      next => exact releases_prepared rfl unlinks_nil
      next existing found =>
        split
        next => exact releases_prepared rfl fun op member => ⟨_, _, mem_singleton.mp member⟩
        next =>
          split
          next prepared => exact releases_prepared prepared unlinks_nil
          next => exact releases_idle _
  | prepareReadback event reservationId =>
    unfold planOf
    rw [deed]
    dsimp only [prepareReadback]
    split
    next => exact releases_idle _
    next =>
      split
      next => exact releases_idle _
      next existing found =>
        split
        next => exact releases_idle _
        next prepared => exact releases_prepared (not_not.mp (not_or.mp prepared).1) unlinks_nil
  | afterMutation token =>
    have plan : planOf env world move = afterMutation env move.clock token world.files := by
      unfold planOf
      rw [deed]
    unfold happenings
    rw [deed]
    dsimp only
    rw [plan]
    by_cases idle : (afterMutation env move.clock token world.files).ops = []
    · intro path job written
      rw [idle] at written
      cases written
    · rw [if_neg idle]
      unfold afterMutation at idle ⊢
      cases found : logicalEntry env world.files token.jobId with
      | none => exact releases_idle _
      | some current =>
        dsimp only
        split
        next => exact releases_idle _
        next =>
          refine releases_transition fun _ => .inl ?_
          rw [(logical_of_entry found).named]
          exact mem_cons_self
  | cancel token =>
    unfold planOf
    rw [deed]
    dsimp only [cancel]
    refine plan_of_current (releases_idle _) fun current found stands => ?_
    split
    next =>
      refine releases_prepared ?_ unlinks_nil
      unfold tokenStands at stands
      simp only [not_eq_true', not_eq_false, and_eq_true, decide_eq_true_eq] at stands
      exact stands.1.1
    next => exact releases_transition fun deliverable => absurd deliverable (not_deliverable _ _ (.inr rfl))
  | deferPrepared token =>
    unfold planOf
    rw [deed]
    exact releases_idle _
  | claimPrepared scanned =>
    unfold planOf
    rw [deed]
    dsimp only [claimPrepared]
    exact plan_of_current (releases_idle _) fun current found _ => releases_transition (absurd · not_recovery_deliverable)
  | claimExpiredRecoveryLease scanned =>
    unfold planOf
    rw [deed]
    dsimp only [claimExpiredRecoveryLease]
    split
    next => exact releases_idle _
    next =>
      refine plan_of_current (releases_idle _) fun current found _ => ?_
      split
      next => exact releases_idle _
      next => exact releases_transition (absurd · not_recovery_deliverable)
  | replayPrimaryMutation claimed outcome =>
    unfold planOf
    rw [deed]
    dsimp only
    split
    next => exact releases_renewAfterWrite cleared
    next => exact releases_idle _
  | moveToReady claimed =>
    have plan : planOf env world move = moveToReady env move.clock claimed world.files := by
      unfold planOf
      rw [deed]
    unfold happenings
    rw [deed]
    dsimp only
    rw [plan]
    by_cases idle : (moveToReady env move.clock claimed world.files).ops = []
    · intro path job written
      rw [idle] at written
      cases written
    · rw [if_neg idle]
      unfold moveToReady at idle ⊢
      cases found : logicalEntry env world.files claimed.jobId with
      | none => exact releases_idle _
      | some current =>
        dsimp only
        split
        next => exact releases_idle _
        next =>
          refine releases_transition fun _ => .inr ?_
          rw [(logical_of_entry found).named]
          exact mem_cons_self
  | retainPreparedJob claimed error =>
    unfold planOf
    rw [deed]
    dsimp only [retainPreparedJob]
    refine plan_of_current (releases_idle _) fun current found _ => ?_
    refine releases_transition fun deliverable => absurd deliverable (not_deliverable _ _ ?_)
    split
    next => exact .inr rfl
    next => exact .inl rfl
  | claimNext =>
    unfold planOf
    rw [deed]
    dsimp only
    unfold claimNext
    split
    next => exact releases_idle _
    next current found =>
      refine releases_transition fun _ => ?_
      exact (claimNext_released cleared unexpired deed found).mono
  | dependentWrite claimed throws =>
    unfold planOf
    rw [deed]
    dsimp only
    split
    next => exact releases_renewAfterWrite cleared
    next => exact releases_idle _
  | renewLease claimed =>
    unfold planOf
    rw [deed]
    dsimp only [renewLease]
    exact plan_of_current (releases_idle _) fun current found stands =>
      releases_transition (cleared.renews found (leased_of_stands (by simpa using stands)).1 _ _)
  | finishAttempt claimed error =>
    have released : Released world.history claimed.jobId := by
      unfold Allowed at allowed
      rw [deed] at allowed
      exact cleared.claims claimed allowed
    unfold planOf
    rw [deed]
    dsimp only [finishAttempt]
    split
    next => exact releases_idle _
    next current found =>
      have named := (logical_of_entry found).named
      split
      next => exact releases_idle _
      next =>
        split
        next => exact releases_transition fun deliverable => absurd deliverable (not_deliverable _ _ (.inr rfl))
        next =>
          split
          next => exact releases_transition fun deliverable => absurd deliverable (not_deliverable _ _ (.inr rfl))
          next => exact releases_transition fun _ => named.symm ▸ released.mono
  | pruneTerminalStatus status clears =>
    unfold planOf
    rw [deed]
    dsimp only [pruneTerminalStatus]
    split
    next =>
      intro path job written
      obtain ⟨entry, _, unlinks⟩ := mem_flatMap.mp written
      obtain ⟨gone, _, shape⟩ := mem_map.mp unlinks
      cases shape
    next => exact releases_idle _

theorem result_transition (given : (transitionUnlocked now entries status patched).result = some next) :
    next = { patched with status := status, updatedAt := now, revision := patched.revision + 1 } :=
  (Option.some.inj given).symm

theorem result_claimNext (cleared : Cleared world) (unexpired : NoExpiredRecoveryLease env world move)
    (deed : move.deed = .claimNext) (given : (planOf env world move).result = some job) :
    Released world.history job.jobId := by
  unfold planOf at given
  rw [deed] at given
  dsimp only at given
  unfold claimNext at given
  split at given
  next => cases given
  next current found =>
    rw [result_transition given]
    exact claimNext_released cleared unexpired deed found

theorem claims_after (cleared : Cleared world) (unexpired : NoExpiredRecoveryLease env world move) :
    ∀ job ∈ claimsAfter env world move, Released world.history job.jobId := by
  intro job member
  unfold claimsAfter at member
  split at member
  next deed =>
    rcases mem_append.mp member with new | old
    · unfold handed at new
      split at new
      next => exact result_claimNext cleared unexpired deed (Option.mem_toList.mp new)
      next => cases new
    · exact cleared.claims job old
  next => exact cleared.claims job member

theorem happenings_released (cleared : Cleared world) (allowed : Allowed env world move)
    (unexpired : NoExpiredRecoveryLease env world move) :
    happenings env world move = [] ∨ ∃ happening, happenings env world move = [happening] ∧
      (∀ jobId owner, happening = .claimed jobId owner → Released world.history jobId) ∧
        ∀ jobId owner, happening = .delivered jobId owner → Released world.history jobId := by
  cases deed : move.deed with
  | afterMutation token =>
    unfold happenings
    rw [deed]
    dsimp only
    split
    next => exact .inl rfl
    next => exact .inr ⟨_, rfl, nofun, nofun⟩
  | moveToReady claimed =>
    unfold happenings
    rw [deed]
    dsimp only
    split
    next => exact .inl rfl
    next => exact .inr ⟨_, rfl, nofun, nofun⟩
  | claimNext =>
    have given (job : DependencyPropagationJob Event) (found : (planOf env world move).result = some job) :=
      result_claimNext cleared unexpired deed found
    unfold happenings
    rw [deed]
    dsimp only
    cases found : (planOf env world move).result with
    | none => exact .inl rfl
    | some job =>
      refine .inr ⟨_, rfl, fun jobId owner same => ?_, nofun⟩
      rw [← (Happening.claimed.inj same).1]
      exact given job found
  | dependentWrite claimed throws =>
    unfold Allowed at allowed
    rw [deed] at allowed
    unfold happenings
    rw [deed]
    dsimp only
    split
    next =>
      refine .inr ⟨_, rfl, nofun, fun jobId owner same => ?_⟩
      rw [← (Happening.delivered.inj same).1]
      exact cleared.claims claimed allowed
    next => exact .inl rfl
  | _ =>
    unfold happenings
    rw [deed]
    exact .inl rfl

theorem Ordered.cons {happening : Happening} (ordered : Ordered history)
    (claimed : ∀ jobId owner, happening = .claimed jobId owner → Released history jobId)
    (delivered : ∀ jobId owner, happening = .delivered jobId owner → Released history jobId) : Ordered (happening :: history) := by
  intro later earlier found shape
  cases later with
  | nil =>
    obtain ⟨same, rest⟩ := List.cons.inj shape
    rw [← same, ← rest]
    exact ⟨claimed, delivered⟩
  | cons newest later => exact ordered later earlier found (List.cons.inj shape).2

/-- The step lemma: a move that meets the condition leaves nothing due for delivery unreleased. -/
theorem cleared_after (cleared : Cleared world) (allowed : Allowed env world move)
    (unexpired : NoExpiredRecoveryLease env world move) : Cleared (after env world move) where
  files := by
    intro path job held deliverable
    rcases execute_origin held with before | written
    · exact (cleared.files path job before deliverable).mono
    · exact releases_plan cleared allowed unexpired path job written deliverable
  claims := fun job member => (claims_after cleared unexpired job member).mono
  ordered := by
    have shape : (after env world move).history = happenings env world move ++ world.history := rfl
    rw [shape]
    rcases happenings_released cleared allowed unexpired with nothing | happened
    · rw [nothing]
      exact cleared.ordered
    · obtain ⟨happening, same, claimed, delivered⟩ := happened
      rw [same]
      exact cleared.ordered.cons claimed delivered

theorem cleared_start : Cleared (World.start : World Event) where
  files := fun _ _ held => by cases held
  claims := fun _ member => by cases member
  ordered := by
    intro later earlier happening shape
    cases later <;> cases shape

/-- The main result: in every run whose claims find no expired lease of a recovery run, every claim and every delivery
comes after the confirmation of its job, or after the replay that moved it to ready. -/
theorem delivered_after_release (env : QueueEnv Event) {world : World Event}
    (run : Run env (NoExpiredRecoveryLease env) world) : Ordered world.history :=
  (run.invariant env Cleared cleared_start fun _ _ cleared allowed unexpired =>
    cleared_after cleared allowed unexpired).ordered

section Samples

/-- Events told by their job ids, and identifiers by their lengths. -/
def sampleEnv : QueueEnv JsString where
  isPropagationEvent := fun _ => true
  canonicalEvent := id
  eventJobId := id
  namespaceScope := fun _ => text "default"
  sourceId := fun _ => text "old"
  serializedBytes := fun _ => 1024
  randomUUID := fun drawn => List.replicate (drawn + 1) (unit 0x61)
  uuidPlain := by
    intro drawn
    unfold trim
    rw [replicate_succ, dropWhile_cons_of_neg (by decide), ← replicate_succ, reverse_replicate,
      replicate_succ, dropWhile_cons_of_neg (by decide)]
    simp
  uuidWithoutColon := by
    intro drawn member
    exact absurd (eq_of_mem_replicate member) (by decide)
  uuidInjective := by
    intro first second same
    have lengths := congrArg List.length same
    simpa using lengths

def sampleWorker : Worker := ⟨text "worker", ⟨1000, by decide⟩, ⟨60000, by decide⟩, ⟨3, by decide⟩⟩

def sampleMove (now : Int) (deed : Deed JsString) : Move JsString := ⟨deed, sampleWorker, fun _ => now, fun _ => .none⟩

def sampleJob : DependencyPropagationJob JsString := newJob sampleEnv 0 (text "job") (sampleEnv.randomUUID 0) none

def samplePrepared : World JsString := after sampleEnv World.start (sampleMove 0 (.prepare (text "job") none))

def sampleAbandoned : World JsString := after sampleEnv samplePrepared (sampleMove 0 (.claimPrepared sampleJob))

/-- A worker claims the job when the lease of the recovery run has expired. -/
def sampleClaimed : World JsString := after sampleEnv sampleAbandoned (sampleMove 60000 .claimNext)

def sampleClaim : DependencyPropagationJob JsString := sampleClaimed.claims.headD sampleJob

def sampleDelivered : World JsString := after sampleEnv sampleClaimed (sampleMove 60001 (.dependentWrite sampleClaim false))

theorem sample_delivered_unreleased : ∃ world : World JsString, Run sampleEnv (fun _ _ => True) world ∧
    ∃ owner, .delivered (text "job") owner ∈ world.history ∧ ¬Released world.history (text "job") := by
  have begun := Run.start sampleEnv fun _ _ => True
  have prepared : Run sampleEnv (fun _ _ => True) samplePrepared :=
    begun.move sampleEnv (sampleMove 0 (.prepare (text "job") none)) trivial trivial
  have abandoned : Run sampleEnv (fun _ _ => True) sampleAbandoned :=
    prepared.move sampleEnv (sampleMove 0 (.claimPrepared sampleJob)) trivial trivial
  have claimed : Run sampleEnv (fun _ _ => True) sampleClaimed :=
    abandoned.move sampleEnv (sampleMove 60000 .claimNext) trivial trivial
  have held : sampleClaim ∈ sampleClaimed.claims := by decide +kernel
  have delivered : Run sampleEnv (fun _ _ => True) sampleDelivered := claimed.move sampleEnv _ held trivial
  refine ⟨sampleDelivered, delivered, sampleClaim.leaseOwner, by decide +kernel, ?_⟩
  unfold Released
  decide +kernel

def sampleReady : World JsString :=
  after sampleEnv samplePrepared (sampleMove 0 (.afterMutation ⟨text "job", 0, true, sampleEnv.randomUUID 0⟩))

def sampleTaken : World JsString := after sampleEnv sampleReady (sampleMove 0 .claimNext)

def sampleTask : DependencyPropagationJob JsString := sampleTaken.claims.headD sampleJob

def sampleFinished : World JsString := after sampleEnv sampleTaken (sampleMove 1 (.dependentWrite sampleTask false))

theorem sample_delivered_released : Ordered sampleFinished.history ∧
    .delivered (text "job") sampleTask.leaseOwner ∈ sampleFinished.history := by
  have others {deed : Deed JsString} {now : Int} (world : World JsString) (other : deed ≠ .claimNext) :
      NoExpiredRecoveryLease sampleEnv world (sampleMove now deed) := fun same => absurd same other
  have begun := Run.start sampleEnv (NoExpiredRecoveryLease sampleEnv)
  have prepared : Run sampleEnv (NoExpiredRecoveryLease sampleEnv) samplePrepared :=
    begun.move sampleEnv (sampleMove 0 (.prepare (text "job") none)) trivial (others _ nofun)
  have ready : Run sampleEnv (NoExpiredRecoveryLease sampleEnv) sampleReady :=
    prepared.move sampleEnv (sampleMove 0 (.afterMutation ⟨text "job", 0, true, sampleEnv.randomUUID 0⟩)) trivial (others _ nofun)
  have unleased : ∀ file ∈ sampleReady.files.entries, file.2.status ≠ .leased := by decide +kernel
  have taken : Run sampleEnv (NoExpiredRecoveryLease sampleEnv) sampleTaken := by
    refine ready.move sampleEnv (sampleMove 0 .claimNext) trivial fun _ jobId entry found expired => ?_
    have held := (OrderedMap.lookup_eq_some_iff _ _ _).mp (logical_of_entry found).held
    unfold expiredLease at expired
    exact absurd (of_decide_eq_true (and_eq_true_iff.mp expired).1) (unleased _ held)
  have held : sampleTask ∈ sampleTaken.claims := by decide +kernel
  have finished : Run sampleEnv (NoExpiredRecoveryLease sampleEnv) sampleFinished :=
    taken.move sampleEnv _ held (others _ nofun)
  exact ⟨delivered_after_release sampleEnv finished, by decide +kernel⟩

end Samples

end Remnic.Propagation.Delivery
