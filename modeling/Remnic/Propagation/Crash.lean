import Remnic.Propagation.Delivery
import Remnic.Propagation.Logical

/-! When the logical jobs change only by what operations write, and by prunes of terminal jobs. -/

namespace Remnic.Propagation.Crash
open Library Text.CodeUnits Queue Workers Plans Effects Logical List

variable {Event : Type} {env : QueueEnv Event} {world : World Event} {move : Move Event} {jobId : JsString}

def ByOperation (env : QueueEnv Event) (world : World Event) (move : Move Event) (jobId : JsString) : Prop :=
  ∃ path job rest, (planOf env world move).ops = .write path job :: rest ∧ job.jobId = jobId ∧
    logicalEntry env (after env world move).files jobId = some ⟨job, path⟩

/-- A prune has removed the job, whose state was terminal. -/
def ByPruning (env : QueueEnv Event) (world : World Event) (move : Move Event) (jobId : JsString) : Prop :=
  (∃ status cleared, move.deed = .pruneTerminalStatus status cleared) ∧
    ∃ entry, logicalEntry env world.files jobId = some entry ∧ entry.job.status.terminal = true ∧
      logicalEntry env (after env world move).files jobId = none

def Lawful (env : QueueEnv Event) (world : World Event) (move : Move Event) : Prop :=
  ∀ jobId, logicalEntry env (after env world move).files jobId = logicalEntry env world.files jobId ∨
    ByOperation env world move jobId ∨ ByPruning env world move jobId

/-- When a prune unlinks the newest file of a job, that file's state is terminal, and the unlinks of the job's other
files take place too. -/
def Unbroken (env : QueueEnv Event) (world : World Event) (move : Move Event) : Prop :=
  ∀ status cleared, move.deed = .pruneTerminalStatus status cleared →
    ∀ newest job, Reads env world.files newest job →
      (∀ path other, Reads env world.files path other → path.2 = newest.2 → other.revision ≤ job.revision) →
      newest ∈ gone move.faults (prunedPaths env status cleared world.files) 0 →
      newest.1.terminal = true ∧ ∀ path other, Reads env world.files path other → path.2 = newest.2 →
        path ∈ gone move.faults (prunedPaths env status cleared world.files) 0

theorem lawful_operation (sound : Sound env world) (allowed : Allowed env world move)
    (other : ∀ status cleared, move.deed ≠ .pruneTerminalStatus status cleared) (jobId : JsString) :
    logicalEntry env (after env world move).files jobId = logicalEntry env world.files jobId ∨
      ByOperation env world move jobId := by
  have soundAfter := sound_after sound allowed
  rcases shape_of_effect sound (effect_plan sound allowed other) with idle | shaped
  · rw [files_idle idle]
    exact .inl rfl
  · obtain ⟨target, job, paths, tolerant, shape⟩ := shaped
    rcases files_shape shape with same | shrinks
    · rw [same]
      exact .inl rfl
    · by_cases named : job.jobId = jobId
      · by_cases valid : validateJob env target.1 job = true
        · have written := logical_written soundAfter shape.tops valid (fun member => (shape.others target member).1 rfl) shrinks
          exact .inr ⟨target, job, _, shape.ops, named, named ▸ written⟩
        · -- a new record that no reader takes
          have absent := shape.readable.resolve_left valid
          rw [named] at absent
          rw [absent]
          refine .inl ((logical_none_iff soundAfter).mpr fun path value reads => ?_)
          rcases lookup_written shrinks reads.1 with new | old
          · rw [new.1, new.2] at reads
            exact absurd reads.2 valid
          · exact (logical_none_iff sound).mp absent path value ⟨old.2, reads.2⟩
      · refine .inl (logical_congr sound soundAfter fun path called => ?_)
        have apart : path ≠ target := fun same => named (by rw [← shape.tops.placed, ← same, called])
        rcases shrinks path with same | lost
        · rw [same, OrderedMap.lookup_set, if_neg apart]
        · exact absurd ((shape.others path lost.1).2.symm.trans called) named

variable {status : JobStatus} {cleared : Event → Bool}

theorem reads_prune (deed : move.deed = .pruneTerminalStatus status cleared) (path : QueuePath)
    (job : DependencyPropagationJob Event) : Reads env (after env world move).files path job ↔
      Reads env world.files path job ∧ path ∉ gone move.faults (prunedPaths env status cleared world.files) 0 := by
  unfold Reads
  rw [lookup_prune deed]
  by_cases lost : path ∈ gone move.faults (prunedPaths env status cleared world.files) 0
  · rw [if_pos lost]
    exact iff_of_false (fun reads => (by cases reads.1)) fun facts => facts.2 lost
  · rw [if_neg lost, and_iff_left lost]

theorem lawful_prune (sound : Sound env world) (soundAfter : Sound env (after env world move))
    (deed : move.deed = .pruneTerminalStatus status cleared) (unbroken : Unbroken env world move) : Lawful env world move := by
  intro jobId
  cases found : logicalEntry env world.files jobId with
  | none =>
    refine .inl ((logical_none_iff soundAfter).mpr fun path job reads => ?_)
    exact (logical_none_iff sound).mp found path job ((reads_prune deed path job).mp reads).1
  | some entry =>
    obtain ⟨reads, place, highest⟩ := (logical_iff sound).mp found
    by_cases lost : entry.path ∈ gone move.faults (prunedPaths env status cleared world.files) 0
    · obtain ⟨terminal, rest⟩ := unbroken status cleared deed entry.path entry.job reads
        (fun path other held called => highest path other held (called.trans place)) lost
      refine .inr (.inr ⟨⟨status, cleared, deed⟩, entry, found, ?_, ?_⟩)
      · rw [status_of_valid reads.2]
        exact terminal
      · refine (logical_none_iff soundAfter).mpr fun path job held called => ?_
        obtain ⟨before, kept⟩ := (reads_prune deed path job).mp held
        exact kept (rest path job before (called.trans place.symm))
    · refine .inl ((logical_iff soundAfter).mpr ⟨(reads_prune deed _ _).mpr ⟨reads, lost⟩, place, ?_⟩)
      exact fun path job held called => highest path job ((reads_prune deed path job).mp held).1 called

theorem unbroken_of_lawful (sound : Sound env world) (soundAfter : Sound env (after env world move))
    (lawful : Lawful env world move) : Unbroken env world move := by
  intro status cleared deed newest job reads highest lost
  have found : logicalEntry env world.files newest.2 = some ⟨job, newest⟩ :=
    (logical_iff sound).mpr ⟨reads, rfl, highest⟩
  have unread (value : DependencyPropagationJob Event) : ¬Reads env (after env world move).files newest value :=
    fun held => ((reads_prune deed newest value).mp held).2 lost
  rcases lawful newest.2 with same | written | pruned
  · rw [found] at same
    exact absurd ((logical_iff soundAfter).mp same).1 (unread job)
  · obtain ⟨path, written, rest, ops, _⟩ := written
    rw [plan_prune deed] at ops
    cases paths : prunedPaths env status cleared world.files with
    | nil =>
      rw [paths] at ops
      cases ops
    | cons first others =>
      rw [paths] at ops
      cases (List.cons.inj ops).1
  · obtain ⟨_, entry, before, terminal, absent⟩ := pruned
    rw [found] at before
    rw [← Option.some.inj before] at terminal
    refine ⟨(status_of_valid reads.2) ▸ terminal, fun path other held called => ?_⟩
    by_contra kept
    exact (logical_none_iff soundAfter).mp absent path other ((reads_prune deed path other).mpr ⟨held, kept⟩) called

section Samples
open Delivery

/-- The process ends after the first change, before the unlink of the canceled file. -/
def sampleCrash : Move JsString :=
  { sampleMove 0 (.prepare (text "job") none) with faults := fun index => if index = 1 then .crash else .none }

/-- A job is prepared, canceled, and opened again by a process that ends too soon. -/
def sampleReopening : List (Move JsString) :=
  [sampleMove 0 (.prepare (text "job") none), sampleMove 0 (.cancel ⟨text "job", 0, true, sampleEnv.randomUUID 0⟩),
    sampleCrash]

def sampleCanceling (index : Nat) : List (Move JsString) :=
  let jobId := List.replicate (index + 1) (unit 0x78)
  [sampleMove (index + 1) (.prepare jobId none),
    sampleMove (index + 1) (.cancel ⟨jobId, 0, true, sampleEnv.randomUUID (2 * index + 3)⟩)]

def sampleMoves : List (Move JsString) := sampleReopening ++ (List.range terminalRetentionCount).flatMap sampleCanceling

def sampleLeftover : World JsString := sampleMoves.foldl (after sampleEnv) World.start

def samplePrune : Move JsString := sampleMove 100 (.pruneTerminalStatus .canceled fun _ => true)

theorem run_foldl {Meets : World Event → Move Event → Prop} (moves : List (Move Event)) (run : Run env Meets world)
    (allowed : ∀ move ∈ moves, ∀ world, Allowed env world move ∧ Meets world move) :
    Run env Meets (moves.foldl (after env) world) := by
  induction moves generalizing world with
  | nil => exact run
  | cons move rest ih =>
    obtain ⟨first, others⟩ := forall_mem_cons.mp allowed
    exact ih (run.move env move (first world).1 (first world).2) others

theorem sampleMoves_allowed : ∀ move ∈ sampleMoves, ∀ world, Allowed sampleEnv world move ∧ True := by
  intro move member world
  rcases mem_append.mp member with reopening | canceling
  · unfold sampleReopening at reopening
    simp only [mem_cons, not_mem_nil, or_false] at reopening
    rcases reopening with same | same | same <;> rw [same] <;> exact ⟨trivial, trivial⟩
  · obtain ⟨index, _, inside⟩ := mem_flatMap.mp canceling
    unfold sampleCanceling at inside
    simp only [mem_cons, not_mem_nil, or_false] at inside
    rcases inside with same | same <;> rw [same] <;> exact ⟨trivial, trivial⟩

theorem sampleLeftover_run : Run sampleEnv (fun _ _ => True) sampleLeftover :=
  run_foldl sampleMoves (Run.start sampleEnv fun _ _ => True) sampleMoves_allowed

/-- The files of one job differ in their revisions, whatever has crashed or failed. -/
def RevisionsDiffer (env : QueueEnv Event) (files : QueueFiles Event) : Prop :=
  ∀ first second, ∀ job other, Reads env files first job → Reads env files second other →
    job.jobId = other.jobId → job.revision = other.revision → first = second

theorem revisions_differ (env : QueueEnv Event) {world : World Event} (run : Run env (fun _ _ => True) world) :
    RevisionsDiffer env world.files := by
  have sound := sound_of_run run
  intro first second job other reads also named revision
  refine sound.ranked first second job other reads also ?_ revision
  rw [← sound.placed first job reads.1, named, sound.placed second other also.1]

theorem leftover_revisions_differ : RevisionsDiffer sampleEnv sampleLeftover.files := revisions_differ sampleEnv sampleLeftover_run

end Samples

end Remnic.Propagation.Crash
