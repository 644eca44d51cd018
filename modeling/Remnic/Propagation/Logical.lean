import Remnic.Propagation.Effects

/-! How the logical jobs stand after a plan that may be cut off anywhere. -/

namespace Remnic.Propagation.Logical
open Library Text.CodeUnits Queue Workers Plans Effects
open List hiding after

variable {Event : Type} {env : QueueEnv Event} {world later : World Event} {files after_ : QueueFiles Event}
  {job other : DependencyPropagationJob Event} {entry : JobEntry Event} {path target : QueuePath} {jobId : JsString}
  {faults : Nat → Fault} {paths : List QueuePath} {index : Nat}

section Executions

/-- The paths that the unlinks of a prune take away, as the faults befall them. -/
def gone (faults : Nat → Fault) : List QueuePath → Nat → List QueuePath
  | [], _ => []
  | path :: rest, index => match faults index with
    | .crash => []
    | .fails => gone faults rest (index + 1)
    | .none => path :: gone faults rest (index + 1)

theorem mem_of_gone (member : path ∈ gone faults paths index) : path ∈ paths := by
  induction paths generalizing index with
  | nil => exact member
  | cons first rest ih =>
    unfold gone at member
    split at member
    next => cases member
    next => exact mem_cons_of_mem _ (ih member)
    next => exact (mem_cons.mp member).elim (fun same => mem_cons.mpr (.inl same)) fun below =>
        mem_cons_of_mem _ (ih below)

theorem lookup_gone (env : QueueEnv Event) (faults : Nat → Fault) (paths : List QueuePath) (index : Nat)
    (files : QueueFiles Event) (path : QueuePath) :
    (execute env faults (paths.map fun path => .unlink path true) index files).1.lookup path =
      if path ∈ gone faults paths index then none else files.lookup path := by
  induction paths generalizing index files with
  | nil => rfl
  | cons first rest ih =>
    rw [map_cons]
    unfold execute gone
    cases fault : faults index with
    | crash =>
      rw [if_pos rfl]
      rfl
    | none =>
      rw [if_neg (by simp)]
      dsimp only
      rw [if_neg fun fails => (by cases fails.1), ih, OrderedMap.lookup_erase]
      by_cases same : path = first
      · rw [if_pos (mem_cons.mpr (.inl same)), if_pos same, ite_self]
      · simp only [mem_cons, same, false_or, if_false]
    | fails =>
      rw [if_neg (by simp)]
      dsimp only
      by_cases held : files.contains first = true
      · rw [if_pos ⟨rfl, held⟩, if_pos rfl, ih]
      · have absent : files.lookup first = none := by
          cases found : files.lookup first with
          | none => rfl
          | some value =>
            refine absurd ?_ held
            unfold OrderedMap.contains
            rw [found]
            rfl
        rw [if_neg fun fails => held fails.2, ih, OrderedMap.erase_absent absent]

/-- Some of the paths are no more; all else is as it was. -/
def Shrinks (paths : List QueuePath) (before after : QueueFiles Event) : Prop :=
  ∀ path, after.lookup path = before.lookup path ∨ (path ∈ paths ∧ after.lookup path = none)

theorem shrinks_unlinks (env : QueueEnv Event) (faults : Nat → Fault) (paths : List QueuePath) (tolerant : Bool)
    (index : Nat) (files : QueueFiles Event) :
    Shrinks paths files (execute env faults (paths.map fun path => .unlink path tolerant) index files).1 := by
  induction paths generalizing index files with
  | nil => exact fun _ => .inl rfl
  | cons first rest ih =>
    intro path
    rw [map_cons]
    unfold execute
    split
    next => exact .inl rfl
    next =>
      dsimp only
      split
      next =>
        split
        next => exact (ih (index + 1) files path).imp_right fun lost => ⟨mem_cons_of_mem _ lost.1, lost.2⟩
        next => exact .inl rfl
      next =>
        rcases ih (index + 1) (files.erase first) path with same | lost
        · rw [OrderedMap.lookup_erase] at same
          split at same
          next first_ => exact .inr ⟨mem_cons.mpr (.inl first_), same⟩
          next => exact .inl same
        · exact .inr ⟨mem_cons_of_mem _ lost.1, lost.2⟩

theorem execute_written (env : QueueEnv Event) (faults : Nat → Fault) (target : QueuePath)
    (job : DependencyPropagationJob Event) (paths : List QueuePath) (tolerant : Bool) (files : QueueFiles Event) :
    (execute env faults (.write target job :: paths.map fun path => .unlink path tolerant) 0 files).1 = files ∨
      Shrinks paths (files.set target job)
        (execute env faults (.write target job :: paths.map fun path => .unlink path tolerant) 0 files).1 := by
  unfold execute
  split
  next => exact .inl rfl
  next =>
    dsimp only
    split
    next => exact .inl rfl
    next => exact .inr (shrinks_unlinks env faults paths tolerant 1 _)

end Executions

section Highest

theorem logicalEntry_none_iff :
    logicalEntry env files jobId = none ↔ ∀ path job, Reads env files path job → job.jobId ≠ jobId := by
  unfold logicalEntry
  rw [chooseEntry_none_iff]
  constructor
  · intro empty path job reads named
    have member : ⟨job, path⟩ ∈ matching env files jobId := mem_matching.mpr ⟨reads, named⟩
    rw [empty] at member
    cases member
  · intro apart
    refine eq_nil_iff_forall_not_mem.mpr fun entry member => ?_
    obtain ⟨reads, named⟩ := mem_matching.mp member
    exact apart entry.path entry.job reads named

theorem logical_iff (sound : Sound env world) : logicalEntry env world.files jobId = some entry ↔
    Reads env world.files entry.path entry.job ∧ entry.path.2 = jobId ∧
      ∀ path job, Reads env world.files path job → path.2 = jobId → job.revision ≤ entry.job.revision := by
  constructor
  · intro found
    have logical := logical_of_entry found
    refine ⟨⟨logical.held, logical.valid⟩, ?_, fun path job reads same => ?_⟩
    · rw [← sound.placed _ _ logical.held, logical.named]
    · exact logical.highest path job reads.1 reads.2 ((sound.placed path job reads.1).trans same)
  · intro facts
    obtain ⟨reads, same, highest⟩ := facts
    have named : entry.job.jobId = jobId := (sound.placed _ _ reads.1).trans same
    cases found : logicalEntry env world.files jobId with
    | none => exact absurd named (logicalEntry_none_iff.mp found _ _ reads)
    | some best =>
      have logical := logical_of_entry found
      have place : best.path.2 = jobId := by rw [← sound.placed _ _ logical.held, logical.named]
      have level : best.job.revision = entry.job.revision := le_antisymm
        (highest _ _ ⟨logical.held, logical.valid⟩ place) (logical.highest _ _ reads.1 reads.2 named)
      have paths : best.path = entry.path :=
        sound.ranked _ _ _ _ ⟨logical.held, logical.valid⟩ reads (place.trans same.symm) level
      have jobs : best.job = entry.job := Option.some.inj (logical.held.symm.trans (paths ▸ reads.1))
      obtain ⟨bestJob, bestPath⟩ := best
      obtain ⟨job, path⟩ := entry
      congr

theorem logical_none_iff (sound : Sound env world) : logicalEntry env world.files jobId = none ↔
    ∀ path job, Reads env world.files path job → path.2 ≠ jobId := by
  rw [logicalEntry_none_iff]
  constructor
  · intro apart path job reads same
    exact apart path job reads ((sound.placed path job reads.1).trans same)
  · intro apart path job reads named
    exact apart path job reads ((sound.placed path job reads.1).symm.trans named)

theorem logical_congr (sound : Sound env world) (soundAfter : Sound env later)
    (same : ∀ path, path.2 = jobId → later.files.lookup path = world.files.lookup path) :
    logicalEntry env later.files jobId = logicalEntry env world.files jobId := by
  have reads (path : QueuePath) (job : DependencyPropagationJob Event) (called : path.2 = jobId) :
      Reads env later.files path job ↔ Reads env world.files path job := by
    unfold Reads
    rw [same path called]
  ext entry
  rw [logical_iff soundAfter, logical_iff sound]
  constructor
  · intro facts
    obtain ⟨held, called, highest⟩ := facts
    exact ⟨(reads _ _ called).mp held, called, fun path job at_ place => highest path job ((reads _ _ place).mpr at_) place⟩
  · intro facts
    obtain ⟨held, called, highest⟩ := facts
    exact ⟨(reads _ _ called).mpr held, called, fun path job at_ place => highest path job ((reads _ _ place).mp at_) place⟩

end Highest

section Writes

/-- A write that puts its job above every other file of its id. -/
structure Tops (env : QueueEnv Event) (world : World Event) (target : QueuePath) (job : DependencyPropagationJob Event) :
    Prop where
  placed : target.2 = job.jobId
  above : ∀ path other, Reads env world.files path other → path.2 = job.jobId → path ≠ target →
    other.revision < job.revision
  drawn : ∀ reservationId ∈ job.reservationIds, Drawn env (world.drawn + 1) reservationId

theorem lookup_shrinks {before : QueueFiles Event} (shrinks : Shrinks paths before files)
    (held : files.lookup path = some job) : before.lookup path = some job := by
  rcases shrinks path with same | lost
  · rw [← same, held]
  · rw [lost.2] at held
    cases held

theorem lookup_written (shrinks : Shrinks paths (world.files.set target job) files)
    (held : files.lookup path = some other) :
    (path = target ∧ other = job) ∨ (path ≠ target ∧ world.files.lookup path = some other) := by
  have before := lookup_shrinks shrinks held
  rw [OrderedMap.lookup_set] at before
  split at before
  next same => exact .inl ⟨same, (Option.some.inj before).symm⟩
  next apart => exact .inr ⟨apart, before⟩

theorem sound_shrunk (sound : Sound env world) (paths : List QueuePath) (drawn : later.drawn = world.drawn + 1)
    (shrinks : Shrinks paths world.files later.files) : Sound env later where
  placed := fun path job held => sound.placed path job (lookup_shrinks shrinks held)
  ranked := fun first second job other reads alsoReads same level => sound.ranked first second job other
    ⟨lookup_shrinks shrinks reads.1, reads.2⟩ ⟨lookup_shrinks shrinks alsoReads.1, alsoReads.2⟩ same level
  drawn := fun path job held id member => drawn ▸ (sound.drawn path job (lookup_shrinks shrinks held) id member).mono

theorem sound_written (sound : Sound env world) (tops : Tops env world target job) (drawn : later.drawn = world.drawn + 1)
    (shrinks : Shrinks paths (world.files.set target job) later.files) : Sound env later where
  placed := by
    intro path other held
    rcases lookup_written shrinks held with new | old
    · rw [new.1, new.2, tops.placed]
    · exact sound.placed path other old.2
  ranked := by
    intro first second firstJob secondJob reads alsoReads same level
    rcases lookup_written shrinks reads.1 with new | old
    · rcases lookup_written shrinks alsoReads.1 with alsoNew | alsoOld
      · rw [new.1, alsoNew.1]
      · have place : second.2 = job.jobId := by rw [← same, new.1, tops.placed]
        have below := tops.above second secondJob ⟨alsoOld.2, alsoReads.2⟩ place alsoOld.1
        rw [← level, new.2] at below
        exact absurd below (lt_irrefl _)
    · rcases lookup_written shrinks alsoReads.1 with alsoNew | alsoOld
      · have place : first.2 = job.jobId := by rw [same, alsoNew.1, tops.placed]
        have below := tops.above first firstJob ⟨old.2, reads.2⟩ place old.1
        rw [level, alsoNew.2] at below
        exact absurd below (lt_irrefl _)
      · exact sound.ranked first second firstJob secondJob ⟨old.2, reads.2⟩ ⟨alsoOld.2, alsoReads.2⟩ same level
  drawn := by
    intro path other held id member
    rw [drawn]
    rcases lookup_written shrinks held with new | old
    · exact tops.drawn id (new.2 ▸ member)
    · exact (sound.drawn path other old.2 id member).mono

theorem logical_written (soundAfter : Sound env later) (tops : Tops env world target job)
    (valid : validateJob env target.1 job = true) (apart : target ∉ paths)
    (shrinks : Shrinks paths (world.files.set target job) later.files) :
    logicalEntry env later.files job.jobId = some ⟨job, target⟩ := by
  have held : later.files.lookup target = some job := by
    rcases shrinks target with same | lost
    · rw [same, OrderedMap.lookup_set, if_pos rfl]
    · exact absurd lost.1 apart
  refine (logical_iff soundAfter).mpr ⟨⟨held, valid⟩, tops.placed, fun path other reads place => ?_⟩
  rcases lookup_written shrinks reads.1 with new | old
  · exact new.2 ▸ le_refl _
  · exact (tops.above path other ⟨old.2, reads.2⟩ place old.1).le

structure Shape (env : QueueEnv Event) (world : World Event) (ops : List (FileOp Event)) (target : QueuePath)
    (job : DependencyPropagationJob Event) (paths : List QueuePath) (tolerant : Bool) : Prop where
  ops : ops = .write target job :: paths.map fun path => .unlink path tolerant
  tops : Tops env world target job
  others : ∀ path ∈ paths, path ≠ target ∧ path.2 = job.jobId
  covers : ∀ entry, logicalEntry env world.files job.jobId = some entry → entry.path ≠ target → entry.path ∈ paths
  readable : validateJob env target.1 job = true ∨ logicalEntry env world.files job.jobId = none

theorem shape_of_effect (sound : Sound env world) {ops : List (FileOp Event)} (effect : Effect env world ops) :
    ops = [] ∨ ∃ target job paths tolerant, Shape env world ops target job paths tolerant := by
  cases effect with
  | idle => exact .inl rfl
  | creates job absent drawn =>
    refine .inr ⟨(.prepared, job.jobId), job, [], true, rfl, ⟨rfl, ?_, drawn⟩, nofun, fun entry found => ?_, .inr absent⟩
    · intro path other reads place
      exact absurd place ((logical_none_iff sound).mp absent path other reads)
    · rw [absent] at found
      cases found
  | rewrites entry job found prepared valid revision drawn =>
    have place : entry.path = (.prepared, job.jobId) := by rw [sound.logical_path found, prepared]
    obtain ⟨held, _, highest⟩ := (logical_iff sound).mp found
    refine .inr ⟨(.prepared, job.jobId), job, [], true, rfl, ⟨rfl, ?_, drawn⟩, nofun, fun also again apart => ?_, .inl valid⟩
    · intro path other reads called apart
      rw [revision]
      refine lt_of_le_of_ne (highest path other reads called) fun level => apart ?_
      rw [← place]
      exact sound.ranked path entry.path other entry.job reads held (by rw [called, place]) level
    · rw [Option.some.inj (again.symm.trans found), place] at apart
      exact absurd rfl apart
  | moves entry next succeeds paths tolerant others covers =>
    obtain ⟨_, _, highest⟩ := (logical_iff sound).mp succeeds.found
    refine .inr ⟨(next.status, next.jobId), next, paths, tolerant, rfl, ⟨rfl, ?_, succeeds.drawn⟩, others,
      fun also again apart => ?_, .inl succeeds.valid⟩
    · intro path other reads called _
      have := highest path other reads called
      have := succeeds.revision
      omega
    · have same := Option.some.inj (again.symm.trans succeeds.found)
      rw [same] at apart ⊢
      exact covers apart

end Writes

section Prunes

def prunedPaths (env : QueueEnv Event) (status : JobStatus) (cleared : Event → Bool) (files : QueueFiles Event) :
    List QueuePath :=
  let old := oldJobs env status files
  if old.all fun entry => cleared entry.job.event then
    old.flatMap fun entry =>
      (jobStates.filter fun state => files.contains (state, entry.job.jobId)).map fun state => (state, entry.job.jobId)
  else []

theorem pruneTerminalStatus_ops (env : QueueEnv Event) (status : JobStatus) (cleared : Event → Bool)
    (files : QueueFiles Event) : (pruneTerminalStatus env status cleared files).ops =
      (prunedPaths env status cleared files).map fun path => .unlink path true := by
  unfold pruneTerminalStatus prunedPaths
  dsimp only
  split
  next =>
    rw [map_flatMap]
    refine flatMap_congr fun entry _ => ?_
    unfold removeAllQueueFilesForJob
    rw [map_map]
    rfl
  next => rfl

variable {status : JobStatus} {cleared : Event → Bool} {move : Move Event}

theorem mem_oldJobs (member : entry ∈ oldJobs env status files) :
    Reads env files entry.path entry.job ∧ entry.job.status = status := by
  have sorted := mem_of_mem_drop member
  obtain ⟨jobId, _, chosen⟩ := mem_filterMap.mp ((mem_insertionSort _).mp sorted)
  have inside := (mem_filter.mp (chooseEntry_some chosen).1).1
  obtain ⟨read, same⟩ := mem_filter.mp inside
  exact ⟨mem_readEntries.mp read, of_decide_eq_true same⟩

theorem mem_prunedPaths (member : path ∈ prunedPaths env status cleared files) :
    ∃ entry ∈ oldJobs env status files, path.2 = entry.job.jobId := by
  unfold prunedPaths at member
  dsimp only at member
  split at member
  next =>
    obtain ⟨entry, old, inside⟩ := mem_flatMap.mp member
    obtain ⟨state, _, same⟩ := mem_map.mp inside
    exact ⟨entry, old, by rw [← same]⟩
  next => cases member

theorem plan_prune (deed : move.deed = .pruneTerminalStatus status cleared) :
    (planOf env world move).ops =
      (prunedPaths env status cleared world.files).map fun path => .unlink path true := by
  unfold planOf
  rw [deed]
  exact pruneTerminalStatus_ops env status cleared world.files

theorem lookup_prune (deed : move.deed = .pruneTerminalStatus status cleared) (path : QueuePath) :
    (after env world move).files.lookup path =
      if path ∈ gone move.faults (prunedPaths env status cleared world.files) 0 then none else world.files.lookup path := by
  unfold after
  dsimp only
  rw [plan_prune deed]
  exact lookup_gone env move.faults _ 0 world.files path

theorem deed_prune_or (deed : Deed Event) : (∃ status cleared, deed = .pruneTerminalStatus status cleared) ∨
    ∀ status cleared, deed ≠ .pruneTerminalStatus status cleared := by
  cases deed with
  | pruneTerminalStatus status cleared => exact .inl ⟨status, cleared, rfl⟩
  | _ => exact .inr nofun

theorem files_shape {target : QueuePath} {tolerant : Bool}
    (shape : Shape env world (planOf env world move).ops target job paths tolerant) :
    (after env world move).files = world.files ∨
      Shrinks paths (world.files.set target job) (after env world move).files := by
  unfold after
  dsimp only
  rw [shape.ops]
  exact execute_written env move.faults target job paths tolerant world.files

theorem files_idle (idle : (planOf env world move).ops = []) : (after env world move).files = world.files := by
  unfold after
  dsimp only
  rw [idle]
  rfl

/-- The step lemma: a move keeps the files sound, wherever it is cut off. -/
theorem sound_after (sound : Sound env world) (allowed : Allowed env world move) : Sound env (after env world move) := by
  have unchanged (same : (after env world move).files = world.files) : Sound env (after env world move) :=
    sound_shrunk sound [] rfl fun path => .inl (by rw [same])
  rcases deed_prune_or move.deed with prune | other
  · obtain ⟨status, cleared, deed⟩ := prune
    refine sound_shrunk sound (gone move.faults (prunedPaths env status cleared world.files) 0) rfl fun path => ?_
    rw [lookup_prune deed]
    split
    next lost => exact .inr ⟨lost, rfl⟩
    next => exact .inl rfl
  · rcases shape_of_effect sound (effect_plan sound allowed other) with idle | shaped
    · exact unchanged (files_idle idle)
    · obtain ⟨target, job, paths, tolerant, shape⟩ := shaped
      rcases files_shape shape with same | shrinks
      · exact unchanged same
      · exact sound_written sound shape.tops rfl shrinks

theorem sound_start : Sound env (World.start : World Event) where
  placed := fun _ _ held => by cases held
  ranked := fun _ _ _ _ reads => by cases reads.1
  drawn := fun _ _ held => by cases held

theorem sound_of_run {Meets : World Event → Move Event → Prop} (run : Run env Meets world) : Sound env world :=
  run.invariant env (Sound env) sound_start fun _ _ sound allowed _ => sound_after sound allowed

end Prunes

end Remnic.Propagation.Logical
