import Remnic.Propagation.Workers

/-! What plans read, write and unlink. -/

namespace Remnic.Propagation.Plans
open Library Text.CodeUnits Queue Workers List Option OrderedMap

variable {Event : Type} {env : QueueEnv Event} {files : QueueFiles Event} {entry : JobEntry Event}
  {entries : List (JobEntry Event)} {jobId : JsString} {path : QueuePath} {job : DependencyPropagationJob Event}

/-- What holds of the idle plan, and of a plan made from the logical entry unless that is refused. -/
theorem plan_of_current {motive : Plan Event → Prop} {refused : JobEntry Event → Prop} [DecidablePred refused]
    {plan : JobEntry Event → Plan Event} (idle : motive .idle)
    (goes : ∀ current, logicalEntry env files jobId = some current → ¬ refused current → motive (plan current)) :
    motive (match logicalEntry env files jobId with
      | none => .idle
      | some current => if refused current then .idle else plan current) := by
  split
  next => exact idle
  next current found =>
    split
    next => exact idle
    next stands => exact goes current found stands

theorem mem_jobStates (status : JobStatus) : status ∈ jobStates := by cases status <;> decide

theorem mem_readEntries :
    entry ∈ readEntries env files ↔ files.lookup entry.path = some entry.job ∧ validateJob env entry.path.1 entry.job = true := by
  unfold readEntries
  rw [mem_flatMap]
  constructor
  · intro found
    obtain ⟨status, _, inside⟩ := found
    obtain ⟨file, member, taken⟩ := mem_filterMap.mp inside
    split at taken
    next facts =>
      rw [← some.inj taken]
      exact ⟨(lookup_eq_some_iff _ _ _).mpr member, facts.1 ▸ facts.2⟩
    next => cases taken
  · intro facts
    obtain ⟨held, valid⟩ := facts
    refine ⟨entry.path.1, mem_jobStates _, mem_filterMap.mpr ⟨(entry.path, entry.job),
      (lookup_eq_some_iff _ _ _).mp held, ?_⟩⟩
    rw [if_pos ⟨rfl, valid⟩]

theorem status_of_valid {status : JobStatus} (valid : validateJob env status job = true) : job.status = status := by
  unfold validateJob at valid
  simp only [Bool.and_eq_true, decide_eq_true_eq] at valid
  tauto

theorem mem_matching : entry ∈ matching env files jobId ↔
    (files.lookup entry.path = some entry.job ∧ validateJob env entry.path.1 entry.job = true) ∧ entry.job.jobId = jobId := by
  unfold matching
  rw [mem_filter, mem_readEntries, decide_eq_true_eq]

section Choice

/-- The entry chosen so far against the next one. -/
def prefer (chosen : Option (JobEntry Event)) (entry : JobEntry Event) : Option (JobEntry Event) :=
  if chosen.all fun best => chosenBefore entry best then some entry else chosen

variable {second first best : JobEntry Event}

theorem chosenBefore_revision (before : chosenBefore first second = true) : second.job.revision ≤ first.job.revision := by
  unfold chosenBefore at before
  split at before
  next => exact (of_decide_eq_true before).le
  next same => exact (not_not.mp same).ge

theorem revision_of_not_before (before : chosenBefore first second = false) : first.job.revision ≤ second.job.revision := by
  by_contra above
  have higher := not_le.mp above
  unfold chosenBefore at before
  rw [if_pos (by omega)] at before
  exact absurd (decide_eq_true higher) (by rw [before]; decide)

theorem foldl_prefer (entries : List (JobEntry Event)) {chosen : Option (JobEntry Event)}
    (found : entries.foldl prefer chosen = some best) :
    (chosen = some best ∨ best ∈ entries) ∧ (∀ first, chosen = some first → first.job.revision ≤ best.job.revision) ∧
      ∀ other ∈ entries, other.job.revision ≤ best.job.revision := by
  induction entries generalizing chosen with
  | nil =>
    refine ⟨.inl found, fun first same => ?_, fun _ member => (by cases member)⟩
    rw [some.inj (same.symm.trans found)]
  | cons entry rest ih =>
    rw [foldl_cons] at found
    obtain ⟨origin, least, bounds⟩ := ih found
    unfold prefer at origin least
    cases chosen with
    | none =>
      refine ⟨.inr ?_, fun _ same => (by cases same), forall_mem_cons.mpr ⟨least entry rfl, bounds⟩⟩
      rcases origin with first | later
      · exact mem_cons.mpr (.inl (some.inj first).symm)
      · exact mem_cons_of_mem _ later
    | some first =>
      by_cases before : chosenBefore entry first = true
      · have taken : ((some first).all fun best => chosenBefore entry best) = true := before
        rw [if_pos taken] at origin least
        refine ⟨.inr ?_, fun other same => ?_, forall_mem_cons.mpr ⟨least entry rfl, bounds⟩⟩
        · rcases origin with now | later
          · exact mem_cons.mpr (.inl (some.inj now).symm)
          · exact mem_cons_of_mem _ later
        · rw [← some.inj same]
          exact le_trans (chosenBefore_revision before) (least entry rfl)
      · have kept : ¬((some first).all fun best => chosenBefore entry best) = true := before
        rw [if_neg kept] at origin least
        have below := revision_of_not_before (Bool.eq_false_iff.mpr before)
        refine ⟨origin.imp_right (mem_cons_of_mem _), fun other same => least other same,
          forall_mem_cons.mpr ⟨le_trans below (least first rfl), bounds⟩⟩

theorem chooseEntry_some (found : chooseEntry entries = some best) :
    best ∈ entries ∧ ∀ other ∈ entries, other.job.revision ≤ best.job.revision := by
  obtain ⟨origin, _, bounds⟩ := foldl_prefer entries found
  exact ⟨origin.resolve_left (by simp), bounds⟩

theorem foldl_prefer_isSome (entries : List (JobEntry Event)) (first : JobEntry Event) :
    ∃ best, entries.foldl prefer (some first) = some best := by
  induction entries generalizing first with
  | nil => exact ⟨first, rfl⟩
  | cons entry rest ih =>
    rw [foldl_cons]
    unfold prefer
    split
    next => exact ih entry
    next => exact ih first

theorem chooseEntry_none_iff : chooseEntry entries = none ↔ entries = [] := by
  cases entries with
  | nil => exact iff_of_true rfl rfl
  | cons entry rest =>
    obtain ⟨best, found⟩ := foldl_prefer_isSome rest entry
    have chosen : chooseEntry (entry :: rest) = some best := found
    rw [chosen]
    exact iff_of_false nofun nofun

end Choice

structure Logical (env : QueueEnv Event) (files : QueueFiles Event) (jobId : JsString) (entry : JobEntry Event) : Prop where
  held : files.lookup entry.path = some entry.job
  valid : validateJob env entry.path.1 entry.job = true
  named : entry.job.jobId = jobId
  highest : ∀ path job, files.lookup path = some job → validateJob env path.1 job = true → job.jobId = jobId →
    job.revision ≤ entry.job.revision

theorem logical_of_entry (found : logicalEntry env files jobId = some entry) : Logical env files jobId entry := by
  obtain ⟨member, highest⟩ := chooseEntry_some found
  obtain ⟨⟨held, valid⟩, named⟩ := mem_matching.mp member
  exact ⟨held, valid, named, fun path job at_path sound same =>
    highest ⟨job, path⟩ (mem_matching.mpr ⟨⟨at_path, sound⟩, same⟩)⟩

theorem Logical.status (logical : Logical env files jobId entry) : entry.job.status = entry.path.1 :=
  status_of_valid logical.valid

section Executions

variable {faults : Nat → Fault} {ops : List (FileOp Event)} {index : Nat}

theorem execute_origin (held : (execute env faults ops index files).1.lookup path = some job) :
    files.lookup path = some job ∨ .write path job ∈ ops := by
  induction ops generalizing index files with
  | nil => exact .inl held
  | cons op rest ih =>
    unfold execute at held
    split at held
    next => exact .inl held
    next =>
      cases op with
      | write target written =>
        dsimp only at held
        split at held
        next => exact .inl held
        next =>
          rcases ih held with before | later
          · rw [lookup_set] at before
            split at before
            next same =>
              rw [same, some.inj before]
              exact .inr mem_cons_self
            next => exact .inl before
          · exact .inr (mem_cons_of_mem _ later)
      | unlink target tolerant =>
        dsimp only at held
        split at held
        next =>
          split at held
          next => exact (ih held).imp_right (mem_cons_of_mem _)
          next => exact .inl held
        next =>
          rcases ih held with before | later
          · rw [lookup_erase] at before
            split at before
            next => cases before
            next => exact .inl before
          · exact .inr (mem_cons_of_mem _ later)

theorem mem_transition {now : Int} {status : JobStatus} {patched : DependencyPropagationJob Event}
    (written : .write path job ∈ (transitionUnlocked now entries status patched).ops) :
    path = (status, patched.jobId) ∧
      job = { patched with status := status, updatedAt := now, revision := patched.revision + 1 } := by
  rcases mem_cons.mp written with first | unlinked
  · exact FileOp.write.inj first
  · obtain ⟨entry, _, shape⟩ := mem_map.mp unlinked
    cases shape

end Executions

end Remnic.Propagation.Plans
