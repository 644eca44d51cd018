import Remnic.Propagation.Crash

/-! Leases fence off the workers that have lost them. -/

namespace Remnic.Propagation.Fencing
open Library Library.Transition Text.CodeUnits Queue Workers Plans Effects Logical Crash Option
open List hiding after

variable {Event : Type} {env : QueueEnv Event} {world later : World Event} {move : Move Event}
  {claimed : DependencyPropagationJob Event} {files : QueueFiles Event} {jobId : JsString}

def hands (world : World Event) : List (DependencyPropagationJob Event) := world.claims ++ world.recoveries

/-- The lease of a claimed job is the logical job's. -/
def Holds (env : QueueEnv Event) (files : QueueFiles Event) (claimed : DependencyPropagationJob Event) : Prop :=
  ∃ current, logicalEntry env files claimed.jobId = some current ∧ current.job.status = .leased ∧
    current.job.leaseOwner = claimed.leaseOwner

/-- No file change but the first fails or is the last that its process makes. Prunes may be cut off anywhere. -/
def Uncut (move : Move Event) : Prop :=
  (∃ status cleared, move.deed = .pruneTerminalStatus status cleared) ∨ ∀ index, move.faults (index + 1) = .none

def actsFor : Deed Event → Option (DependencyPropagationJob Event)
  | .replayPrimaryMutation claimed _ | .moveToReady claimed | .retainPreparedJob claimed _ | .dependentWrite claimed _
  | .renewLease claimed | .finishAttempt claimed _ => some claimed
  | _ => none

section Barred

variable (lost : ¬Holds env files claimed) (clock : Nat → Int) (worker : Worker)
include lost

theorem fence_shut : fenceOpens env clock claimed files = false := by
  unfold fenceOpens
  cases found : logicalEntry env files claimed.jobId with
  | none => rfl
  | some current =>
    rw [any_some]
    by_contra opens
    exact lost ⟨current, found, leaseStands_facts (by simpa using opens)⟩

theorem moveToReady_barred : moveToReady env clock claimed files = .idle := by
  unfold moveToReady
  exact plan_of_current (motive := (· = .idle)) rfl fun current found stands => absurd ⟨current, found, leaseStands_facts stands⟩ lost

theorem renewLease_barred : renewLease env worker clock claimed files = .idle := by
  unfold renewLease
  exact plan_of_current (motive := (· = .idle)) rfl fun current found stands => absurd ⟨current, found, leaseStands_facts stands⟩ lost

theorem finishAttempt_barred (error : Option JsString) : finishAttempt env worker clock claimed error files = .idle := by
  unfold finishAttempt
  exact plan_of_current (motive := (· = .idle)) rfl fun current found stands => absurd ⟨current, found, leaseStands_facts stands⟩ lost

theorem retainPreparedJob_barred (error : JsString) : retainPreparedJob env worker clock claimed error files = .idle := by
  unfold retainPreparedJob
  refine plan_of_current (motive := (· = .idle)) rfl fun current found same => ?_
  obtain ⟨held, owned⟩ := not_or.mp same
  exact absurd ⟨current, found, not_not.mp held, not_not.mp owned⟩ lost

end Barred

theorem barred_plan (acts : actsFor move.deed = some claimed) (lost : ¬Holds env world.files claimed) :
    (planOf env world move).ops = [] ∧ happenings env world move = [] := by
  have shut := fence_shut lost move.clock
  have idle : (planOf env world move).ops = [] := by
    unfold planOf
    cases deed : move.deed with
    | replayPrimaryMutation job outcome =>
      rw [deed] at acts
      rw [← some.inj acts] at shut
      dsimp only
      rw [shut, if_neg fun facts => (by cases facts.1)]
      rfl
    | moveToReady job =>
      rw [deed] at acts
      rw [← some.inj acts] at lost
      dsimp only
      rw [moveToReady_barred lost]
      rfl
    | retainPreparedJob job error =>
      rw [deed] at acts
      rw [← some.inj acts] at lost
      dsimp only
      rw [retainPreparedJob_barred lost]
      rfl
    | dependentWrite job throws =>
      rw [deed] at acts
      rw [← some.inj acts] at shut
      dsimp only
      rw [shut, if_neg fun facts => (by cases facts.1)]
      rfl
    | renewLease job =>
      rw [deed] at acts
      rw [← some.inj acts] at lost
      dsimp only
      rw [renewLease_barred lost]
      rfl
    | finishAttempt job error =>
      rw [deed] at acts
      rw [← some.inj acts] at lost
      dsimp only
      rw [finishAttempt_barred lost]
      rfl
    | _ =>
      rw [deed] at acts
      cases acts
  refine ⟨idle, ?_⟩
  unfold happenings
  cases deed : move.deed with
  | moveToReady job =>
    dsimp only
    rw [if_pos idle]
  | dependentWrite job throws =>
    rw [deed] at acts
    dsimp only
    rw [some.inj acts, shut, if_neg (by simp)]
  | afterMutation token =>
    rw [deed] at acts
    cases acts
  | claimNext =>
    rw [deed] at acts
    cases acts
  | _ => rfl

section Single

def Single (env : QueueEnv Event) (world : World Event) : Prop :=
  ∀ first second, ∀ job other, Reads env world.files first job → Reads env world.files second other →
    first.2 = second.2 → first = second

theorem lookup_uncut (faults : Nat → Fault) (paths : List QueuePath) (tolerant : Bool) (index : Nat)
    (uncut : ∀ later, index ≤ later → faults later = .none) (path : QueuePath) :
    (execute env faults (paths.map fun path => .unlink path tolerant) index files).1.lookup path =
      if path ∈ paths then none else files.lookup path := by
  induction paths generalizing index files with
  | nil => rfl
  | cons first rest ih =>
    rw [map_cons]
    unfold execute
    rw [uncut index (le_refl _), if_neg (by simp)]
    dsimp only
    rw [if_neg fun fails => (by cases fails.1), ih (index + 1) fun later above => uncut later (by omega),
      OrderedMap.lookup_erase]
    by_cases same : path = first
    · rw [if_pos (mem_cons.mpr (.inl same)), if_pos same, ite_self]
    · simp only [mem_cons, same, false_or, if_false]

theorem files_uncut {target : QueuePath} {job : DependencyPropagationJob Event} {paths : List QueuePath} {tolerant : Bool}
    (shape : Shape env world (planOf env world move).ops target job paths tolerant)
    (uncut : ∀ index, move.faults (index + 1) = .none) : (after env world move).files = world.files ∨
      ∀ path ∈ paths, (after env world move).files.lookup path = none := by
  unfold after
  dsimp only
  rw [shape.ops]
  unfold execute
  split
  next => exact .inl rfl
  next =>
    dsimp only
    split
    next => exact .inl rfl
    next =>
      refine .inr fun path member => ?_
      rw [lookup_uncut move.faults paths tolerant 1 (fun later above => ?_), if_pos member]
      obtain ⟨index, same⟩ := Nat.exists_eq_add_of_le' above
      exact same ▸ uncut index

theorem single_after (sound : Sound env world) (single : Single env world) (allowed : Allowed env world move)
    (uncut : Uncut move) : Single env (after env world move) := by
  rcases deed_prune_or move.deed with prune | other
  · obtain ⟨status, cleared, deed⟩ := prune
    intro first second job value reads alsoReads same
    exact single first second job value ((reads_prune deed _ _).mp reads).1 ((reads_prune deed _ _).mp alsoReads).1 same
  · have whole := uncut.resolve_left fun prune => (by
      obtain ⟨status, cleared, deed⟩ := prune
      exact other status cleared deed)
    rcases shape_of_effect sound (effect_plan sound allowed other) with idle | shaped
    · intro first second job value reads alsoReads same
      rw [files_idle idle] at reads alsoReads
      exact single first second job value reads alsoReads same
    · obtain ⟨target, job, paths, tolerant, shape⟩ := shaped
      rcases files_uncut shape whole with unchanged | unlinked
      · intro first second value other reads alsoReads same
        rw [unchanged] at reads alsoReads
        exact single first second value other reads alsoReads same
      · rcases files_shape shape with unchanged | shrinks
        · intro first second value other reads alsoReads same
          rw [unchanged] at reads alsoReads
          exact single first second value other reads alsoReads same
        · -- an old file of the written job's id was the logical one, and is unlinked
          have lost (path : QueuePath) (value : DependencyPropagationJob Event)
              (reads : Reads env (after env world move).files path value) (place : path.2 = job.jobId) : path = target := by
            by_contra apart
            have before : Reads env world.files path value :=
              ⟨((lookup_written shrinks reads.1).resolve_left fun new => apart new.1).2, reads.2⟩
            have found : logicalEntry env world.files job.jobId = some ⟨value, path⟩ :=
              (logical_iff sound).mpr ⟨before, place, fun also other held called => by
                have same := single also path other value held before (called.trans place.symm)
                rw [same] at held
                rw [some.inj (held.1.symm.trans before.1)]⟩
            have none_ := unlinked path (shape.covers _ found apart)
            rw [reads.1] at none_
            cases none_
          intro first second value other reads alsoReads same
          rcases lookup_written shrinks reads.1 with new | old
          · have place : second.2 = job.jobId := by rw [← same, new.1, shape.tops.placed]
            rw [new.1, lost second other alsoReads place]
          · rcases lookup_written shrinks alsoReads.1 with alsoNew | alsoOld
            · have place : first.2 = job.jobId := by rw [same, alsoNew.1, shape.tops.placed]
              exact absurd (lost first value reads place) old.1
            · exact single first second value other ⟨old.2, reads.2⟩ ⟨alsoOld.2, alsoReads.2⟩ same

theorem unbroken_of_single (sound : Sound env world) (single : Single env world) (allowed : Allowed env world move) :
    Unbroken env world move := by
  intro status cleared deed newest job reads _ lost
  unfold Allowed at allowed
  rw [deed] at allowed
  obtain ⟨entry, old, place⟩ := mem_prunedPaths (mem_of_gone lost)
  obtain ⟨held, same⟩ := mem_oldJobs old
  have path : newest = entry.path := single newest entry.path job entry.job reads held (by rw [place, sound.placed _ _ held.1])
  refine ⟨?_, fun other value also called => ?_⟩
  · rw [path, ← status_of_valid held.2, same]
    exact allowed
  · rw [single other newest value job also reads called]
    exact lost

end Single

section Hands

variable {owner : JsString}

theorem owner_of_transition {now : Int} {entries : List (JobEntry Event)} {expiresAt : Int}
    {current job : DependencyPropagationJob Event}
    (given : (transitionUnlocked now entries .leased (leased owner expiresAt current)).result = some job) :
    job.leaseOwner = some owner := by
  rw [← some.inj given]
  rfl

def Claims : Deed Event → Prop
  | .claimNext | .claimPrepared _ | .claimExpiredRecoveryLease _ => True
  | _ => False

theorem owner_of_result (claims : Claims move.deed) (given : (planOf env world move).result = some claimed) :
    ∃ owner, claimed.leaseOwner = some owner ∧ OwnerOf env world.drawn owner := by
  unfold planOf at given
  cases deed : move.deed with
  | claimNext =>
    rw [deed] at given
    dsimp only at given
    unfold claimNext at given
    split at given
    next => cases given
    next => exact ⟨_, owner_of_transition given, ownerOf_delivery move.worker world.drawn⟩
  | claimPrepared scanned =>
    rw [deed] at given
    dsimp only at given
    unfold claimPrepared at given
    split at given
    next => cases given
    next =>
      split at given
      next => cases given
      next => exact ⟨_, owner_of_transition given, ownerOf_recovery move.worker world.drawn⟩
  | claimExpiredRecoveryLease scanned =>
    rw [deed] at given
    dsimp only at given
    unfold claimExpiredRecoveryLease at given
    split at given
    next => cases given
    next =>
      split at given
      next => cases given
      next =>
        split at given
        next => cases given
        next =>
          split at given
          next => cases given
          next => exact ⟨_, owner_of_transition given, ownerOf_recovery move.worker world.drawn⟩
  | _ =>
    rw [deed] at claims
    exact claims.elim

theorem handed_result (given : claimed ∈ (handed env world move).toList) : (planOf env world move).result = some claimed := by
  unfold handed at given
  split at given
  next => exact mem_toList.mp given
  next => cases given

theorem hands_after (member : claimed ∈ hands (after env world move)) :
    claimed ∈ hands world ∨ (Claims move.deed ∧ (planOf env world move).result = some claimed) := by
  have shape : hands (after env world move) = claimsAfter env world move ++ recoveriesAfter env world move := rfl
  rw [shape] at member
  rcases mem_append.mp member with claims | recoveries
  · unfold claimsAfter at claims
    split at claims
    next deed =>
      rcases mem_append.mp claims with new | old
      · exact .inr ⟨by rw [deed]; trivial, handed_result new⟩
      · exact .inl (mem_append_left _ old)
    next => exact .inl (mem_append_left _ claims)
  · unfold recoveriesAfter at recoveries
    split at recoveries
    next scanned deed =>
      rcases mem_append.mp recoveries with new | old
      · exact .inr ⟨by rw [deed]; trivial, handed_result new⟩
      · exact .inl (mem_append_right _ old)
    next scanned deed =>
      rcases mem_append.mp recoveries with new | old
      · exact .inr ⟨by rw [deed]; trivial, handed_result new⟩
      · exact .inl (mem_append_right _ old)
    next => exact .inl (mem_append_right _ recoveries)

theorem hands_grow (member : claimed ∈ hands world) : claimed ∈ hands (after env world move) := by
  have shape : hands (after env world move) = claimsAfter env world move ++ recoveriesAfter env world move := rfl
  rw [shape]
  rcases mem_append.mp member with claims | recoveries
  · refine mem_append_left _ ?_
    unfold claimsAfter
    split
    next => exact mem_append_right _ claims
    next => exact claims
  · refine mem_append_right _ ?_
    unfold recoveriesAfter
    split
    next => exact mem_append_right _ recoveries
    next => exact mem_append_right _ recoveries
    next => exact recoveries

/-- Files that are whole, and hands under owners of their own draws. -/
structure Held (env : QueueEnv Event) (world : World Event) : Prop where
  sound : Sound env world
  single : Single env world
  drawn : ∀ claimed ∈ hands world, ∃ owner, claimed.leaseOwner = some owner ∧
    ∃ draw < world.drawn, OwnerOf env draw owner
  once : ∀ first ∈ hands world, ∀ second ∈ hands world, first.leaseOwner = second.leaseOwner → first = second

theorem Held.fresh (held : Held env world) (member : claimed ∈ hands world) (made : OwnerOf env world.drawn owner) :
    claimed.leaseOwner ≠ some owner := by
  obtain ⟨earlier, owned, draw, before, drawn⟩ := held.drawn claimed member
  intro same
  rw [some.inj (owned.symm.trans same)] at drawn
  have := draw_of_owner drawn made
  omega

theorem held_after (held : Held env world) (allowed : Allowed env world move) (uncut : Uncut move) :
    Held env (after env world move) where
  sound := sound_after held.sound allowed
  single := single_after held.sound held.single allowed uncut
  drawn := by
    intro claimed member
    rcases hands_after member with old | new
    · obtain ⟨owner, owned, draw, before, made⟩ := held.drawn claimed old
      exact ⟨owner, owned, draw, Nat.lt_succ_of_lt before, made⟩
    · obtain ⟨owner, owned, made⟩ := owner_of_result new.1 new.2
      exact ⟨owner, owned, world.drawn, Nat.lt_succ_self _, made⟩
  once := by
    intro first member second also same
    rcases hands_after member with old | new
    · rcases hands_after also with alsoOld | alsoNew
      · exact held.once first old second alsoOld same
      · obtain ⟨owner, owned, made⟩ := owner_of_result alsoNew.1 alsoNew.2
        exact absurd (same.trans owned) (held.fresh old made)
    · rcases hands_after also with alsoOld | alsoNew
      · obtain ⟨owner, owned, made⟩ := owner_of_result new.1 new.2
        exact absurd (same.symm.trans owned) (held.fresh alsoOld made)
      · exact some.inj (new.2.symm.trans alsoNew.2)

theorem held_start : Held env (World.start : World Event) where
  sound := sound_start
  single := fun _ _ _ _ reads => by cases reads.1
  drawn := fun _ member => by cases member
  once := fun _ member => by cases member

theorem held_of_run (run : Run env (fun _ move => Uncut move) world) : Held env world :=
  run.invariant env (Held env) held_start fun _ _ held allowed uncut => held_after held allowed uncut

end Hands

section Steps

theorem Held.lawful (held : Held env world) (allowed : Allowed env world move) (uncut : Uncut move) :
    Lawful env world move := by
  have unbroken := unbroken_of_single held.sound held.single allowed
  rcases deed_prune_or move.deed with prune | other
  · obtain ⟨status, cleared, deed⟩ := prune
    exact lawful_prune held.sound (held_after held allowed uncut).sound deed unbroken
  · exact fun jobId => (lawful_operation held.sound allowed other jobId).imp_right .inl

/-- What the write of an operation makes of the logical job. -/
structure Passes (env : QueueEnv Event) (world : World Event) (entry : JobEntry Event) (next : DependencyPropagationJob Event) :
    Prop where
  revision : entry.job.revision ≤ next.revision
  unsettled : entry.job.status ≠ .completed ∧ entry.job.status ≠ .deadLetter
  leases : Leases env world.drawn entry.job next

variable {path : QueuePath} {job : DependencyPropagationJob Event}

theorem passes_of_write (sound : Sound env world) (allowed : Allowed env world move) {rest : List (FileOp Event)}
    (ops : (planOf env world move).ops = .write path job :: rest) (valid : validateJob env path.1 job = true) :
    (logicalEntry env world.files job.jobId = none ∧ job.status = .prepared) ∨
      ∃ entry, logicalEntry env world.files job.jobId = some entry ∧ Passes env world entry job := by
  have other : ∀ status cleared, move.deed ≠ .pruneTerminalStatus status cleared := by
    intro status cleared deed
    rw [plan_prune deed] at ops
    cases paths : prunedPaths env status cleared world.files with
    | nil =>
      rw [paths] at ops
      cases ops
    | cons first others =>
      rw [paths] at ops
      cases (List.cons.inj ops).1
  have effect := effect_plan sound allowed other
  rw [ops] at effect
  cases effect with
  | creates job absent drawn => exact .inl ⟨absent, status_of_valid valid⟩
  | rewrites entry job found prepared sane revision drawn =>
    refine .inr ⟨entry, found, revision.ge, ?_, fun leased => ?_⟩
    · rw [prepared]
      exact ⟨nofun, nofun⟩
    · rw [status_of_valid valid] at leased
      cases leased
  | moves entry next succeeds paths tolerant others covers =>
    exact .inr ⟨entry, succeeds.found, by rw [succeeds.revision]; omega, succeeds.unsettled, succeeds.leases⟩

theorem readable_after (sound : Sound env (after env world move))
    (found : logicalEntry env (after env world move).files jobId = some ⟨job, path⟩) : validateJob env path.1 job = true :=
  ((logical_iff sound).mp found).1.2

/-- The step lemma of fencing: a lease that is lost is not held again. -/
theorem Held.not_regained (held : Held env world) (member : claimed ∈ hands world) (allowed : Allowed env world move)
    (uncut : Uncut move) (lost : ¬Holds env world.files claimed) : ¬Holds env (after env world move).files claimed := by
  have soundAfter := sound_after held.sound allowed
  intro regained
  obtain ⟨current, found, leased, owned⟩ := regained
  rcases held.lawful allowed uncut claimed.jobId with same | written | pruned
  · exact lost ⟨current, same ▸ found, leased, owned⟩
  · obtain ⟨path, job, rest, ops, named, made⟩ := written
    have entry := some.inj (found.symm.trans made)
    rw [entry] at leased owned
    rcases passes_of_write held.sound allowed ops (readable_after soundAfter made) with begun | followed
    · cases begun.2.symm.trans leased
    · obtain ⟨before, logical, passes⟩ := followed
      rcases passes.leases leased with kept | drawn
      · exact lost ⟨before, named ▸ logical, kept.1, kept.2.symm.trans owned⟩
      · obtain ⟨owner, taken, made⟩ := drawn
        exact held.fresh member made (owned.symm.trans taken)
  · obtain ⟨_, _, _, _, gone⟩ := pruned
    rw [gone] at found
    cases found

theorem Held.revision_le (held : Held env world) (allowed : Allowed env world move) (uncut : Uncut move)
    {before next : JobEntry Event} (found : logicalEntry env world.files jobId = some before)
    (later : logicalEntry env (after env world move).files jobId = some next) : before.job.revision ≤ next.job.revision := by
  have soundAfter := sound_after held.sound allowed
  rcases held.lawful allowed uncut jobId with same | written | pruned
  · rw [some.inj (found.symm.trans (same.symm.trans later))]
  · obtain ⟨path, job, rest, ops, named, made⟩ := written
    rw [some.inj (later.symm.trans made)]
    rcases passes_of_write held.sound allowed ops (readable_after soundAfter made) with begun | followed
    · rw [named, found] at begun
      cases begun.1
    · obtain ⟨entry, logical, passes⟩ := followed
      rw [named] at logical
      rw [some.inj (found.symm.trans logical)]
      exact passes.revision
  · obtain ⟨_, _, _, _, gone⟩ := pruned
    rw [gone] at later
    cases later

theorem Held.settled (held : Held env world) (allowed : Allowed env world move) (uncut : Uncut move)
    {entry : JobEntry Event} (found : logicalEntry env world.files jobId = some entry)
    (settled : entry.job.status = .completed ∨ entry.job.status = .deadLetter) :
    logicalEntry env (after env world move).files jobId = some entry ∨
      logicalEntry env (after env world move).files jobId = none := by
  have soundAfter := sound_after held.sound allowed
  rcases held.lawful allowed uncut jobId with same | written | pruned
  · exact .inl (same.trans found)
  · obtain ⟨path, job, rest, ops, named, made⟩ := written
    rcases passes_of_write held.sound allowed ops (readable_after soundAfter made) with begun | followed
    · rw [named, found] at begun
      cases begun.1
    · obtain ⟨before, logical, passes⟩ := followed
      rw [named] at logical
      rw [some.inj (found.symm.trans logical)] at settled
      exact absurd settled (not_or.mpr passes.unsettled)
  · obtain ⟨_, _, _, _, gone⟩ := pruned
    exact .inr gone

end Steps

section Finishing

theorem finishAttempt_written (clock : Nat → Int) (worker : Worker) (error : Option JsString) :
    (finishAttempt env worker clock claimed error files).ops = [] ∨ ∃ path job rest,
      (finishAttempt env worker clock claimed error files).ops = .write path job :: rest ∧ path.1 ≠ .leased ∧
        job.jobId = claimed.jobId ∧ logicalEntry env files claimed.jobId ≠ none := by
  unfold finishAttempt
  split
  next => exact .inl rfl
  next current found =>
    have named := (logical_of_entry found).named
    have present : logicalEntry env files claimed.jobId ≠ none := by
      rw [found]
      exact nofun
    split
    next => exact .inl rfl
    next =>
      dsimp only
      split
      next => exact .inr ⟨_, _, _, rfl, nofun, named, present⟩
      next =>
        split
        next => exact .inr ⟨_, _, _, rfl, nofun, named, present⟩
        next => exact .inr ⟨_, _, _, rfl, nofun, named, present⟩

theorem written_of_done {faults : Nat → Fault} {target : QueuePath} {job : DependencyPropagationJob Event}
    {paths : List QueuePath} {tolerant : Bool}
    (done : (execute env faults (.write target job :: paths.map fun path => .unlink path tolerant) 0 files).2 = .done) :
    Shrinks paths (files.set target job)
      (execute env faults (.write target job :: paths.map fun path => .unlink path tolerant) 0 files).1 := by
  unfold execute at done ⊢
  split at done
  next => cases done
  next =>
    dsimp only at done ⊢
    split at done
    next => cases done
    next uncrashed unfailed =>
      rw [if_neg uncrashed, if_neg unfailed]
      exact shrinks_unlinks env faults paths tolerant 1 _

theorem Held.finished (held : Held env world) (allowed : Allowed env world move) {error : Option JsString}
    (deed : move.deed = .finishAttempt claimed error) (wrote : (planOf env world move).ops ≠ [])
    (done : (execute env move.faults (planOf env world move).ops 0 world.files).2 = .done) :
    ¬Holds env (after env world move).files claimed := by
  have soundAfter := sound_after held.sound allowed
  have plan : planOf env world move = finishAttempt env move.worker move.clock claimed error world.files := by
    unfold planOf
    rw [deed]
  have other : ∀ status cleared, move.deed ≠ .pruneTerminalStatus status cleared := by
    rw [deed]
    exact nofun
  obtain ⟨target, job, paths, tolerant, shape⟩ := (shape_of_effect held.sound (effect_plan held.sound allowed other)).resolve_left wrote
  obtain ⟨path, next, rest, ops, unleased, named, present⟩ :=
    (finishAttempt_written move.clock move.worker error).resolve_left (plan ▸ wrote)
  obtain ⟨place, same⟩ := FileOp.write.inj (List.cons.inj (shape.ops.symm.trans (plan ▸ ops))).1
  rw [← same] at named
  have valid := shape.readable.resolve_right (named ▸ present)
  have shrinks : Shrinks paths (world.files.set target job) (after env world move).files := by
    unfold after
    dsimp only
    rw [shape.ops] at done ⊢
    exact written_of_done done
  have made := logical_written soundAfter shape.tops valid (fun member => (shape.others target member).1 rfl) shrinks
  intro holds
  obtain ⟨current, found, leased, _⟩ := holds
  rw [named, found] at made
  rw [some.inj made, status_of_valid valid, place] at leased
  exact unleased leased

end Finishing

structure Fenced (env : QueueEnv Event) (world : World Event) : Prop where
  oneOwner : ∀ first ∈ hands world, ∀ second ∈ hands world, first.jobId = second.jobId →
    Holds env world.files first → Holds env world.files second → first = second
  barred : ∀ claimed ∈ hands world, ¬Holds env world.files claimed → ∀ later,
    Reaches (step env) (fun world move => Allowed env world move ∧ Uncut move) world later →
      ¬Holds env later.files claimed ∧ ∀ move, actsFor move.deed = some claimed →
        (planOf env later move).ops = [] ∧ fenceOpens env move.clock claimed later.files = false ∧
          happenings env later move = []
  finished : ∀ move, Allowed env world move → ∀ claimed error, move.deed = .finishAttempt claimed error →
    (planOf env world move).ops ≠ [] → (execute env move.faults (planOf env world move).ops 0 world.files).2 = .done →
      ¬Holds env (after env world move).files claimed
  revisions : ∀ move, Allowed env world move → Uncut move → ∀ jobId before next,
    logicalEntry env world.files jobId = some before →
      logicalEntry env (after env world move).files jobId = some next → before.job.revision ≤ next.job.revision
  settled : ∀ move, Allowed env world move → Uncut move → ∀ jobId entry, logicalEntry env world.files jobId = some entry →
    entry.job.status = .completed ∨ entry.job.status = .deadLetter →
      logicalEntry env (after env world move).files jobId = some entry ∨
        logicalEntry env (after env world move).files jobId = none

/-- The main result: at most one hand holds the lease of a job; a worker that has lost its lease, or has finished, changes
nothing afterwards; revisions do not fall; and completed and dead-letter jobs stay so. -/
theorem lease_fencing (env : QueueEnv Event) {world : World Event} (run : Run env (fun _ move => Uncut move) world) :
    Fenced env world where
  oneOwner := by
    intro first member second also same holds alsoHolds
    obtain ⟨current, found, _, owned⟩ := holds
    obtain ⟨other, alsoFound, _, alsoOwned⟩ := alsoHolds
    rw [same] at found
    have entries := some.inj (found.symm.trans alsoFound)
    refine (held_of_run run).once first member second also ?_
    rw [← owned, entries, alsoOwned]
  barred := by
    intro claimed member lost later reached
    have kept : (Held env later ∧ claimed ∈ hands later) ∧ ¬Holds env later.files claimed := by
      refine Reaches.invariant (fun world => (Held env world ∧ claimed ∈ hands world) ∧ ¬Holds env world.files claimed)
        reached ⟨⟨held_of_run run, member⟩, lost⟩ fun state move next facts meets stepped => ?_
      rw [← some.inj stepped]
      obtain ⟨⟨held, inHand⟩, unheld⟩ := facts
      exact ⟨⟨held_after held meets.1 meets.2, hands_grow inHand⟩, held.not_regained inHand meets.1 meets.2 unheld⟩
    refine ⟨kept.2, fun move acts => ?_⟩
    obtain ⟨idle, nothing⟩ := barred_plan acts kept.2
    exact ⟨idle, fence_shut kept.2 move.clock, nothing⟩
  finished := fun _ allowed _ _ deed wrote done => (held_of_run run).finished allowed deed wrote done
  revisions := fun _ allowed uncut _ _ _ found later => (held_of_run run).revision_le allowed uncut found later
  settled := fun _ allowed uncut _ _ found settled => (held_of_run run).settled allowed uncut found settled

section Samples
open Delivery

theorem sample_lease_fenced : Fenced sampleEnv sampleTaken ∧ sampleTask ∈ hands sampleTaken ∧
    Holds sampleEnv sampleTaken.files sampleTask := by
  have uncut (now : Int) (deed : Deed JsString) : Uncut (sampleMove now deed) := .inr fun _ => rfl
  have prepared : Run sampleEnv (fun _ move => Uncut move) samplePrepared :=
    (Run.start sampleEnv fun _ move => Uncut move).move sampleEnv (sampleMove 0 (.prepare (text "job") none)) trivial (uncut _ _)
  have ready : Run sampleEnv (fun _ move => Uncut move) sampleReady :=
    prepared.move sampleEnv (sampleMove 0 (.afterMutation ⟨text "job", 0, true, sampleEnv.randomUUID 0⟩)) trivial (uncut _ _)
  have taken : Run sampleEnv (fun _ move => Uncut move) sampleTaken :=
    ready.move sampleEnv (sampleMove 0 .claimNext) trivial (uncut _ _)
  have held : sampleTask ∈ hands sampleTaken := by decide +kernel
  have leased : (logicalEntry sampleEnv sampleTaken.files sampleTask.jobId).map (fun entry => (entry.job.status, entry.job.leaseOwner)) =
      some (.leased, sampleTask.leaseOwner) := by decide +kernel
  obtain ⟨entry, found, same⟩ := map_eq_some_iff.mp leased
  exact ⟨lease_fencing sampleEnv taken, held, entry, found, congrArg Prod.fst same, congrArg Prod.snd same⟩

end Samples

end Remnic.Propagation.Fencing
