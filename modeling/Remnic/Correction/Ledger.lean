import Remnic.Correction.Executor

/-!
The results that each phase leaves for an action, and where an action stands at each stage.
-/

namespace Remnic.Correction.Ledger

open Text.CodeUnits Contract Executor List

def statuses (results : List CorrectionActionResult) (position : Nat) : List ResultStatus :=
  (results.filter (·.action = position)).map (·.status)

/-- What the first phase leaves; `retired` says that it has retired the loser. -/
def Written (retired : Prop) : CorrectionAction → List ResultStatus → Prop
  | .supersede _ (some _) _, statuses =>
    statuses = [.failed] ∧ ¬ retired ∨ statuses = [.applied, .applied] ∧ retired ∨ statuses = [.applied, .failed] ∧ ¬ retired
  | .edit _ _, statuses | .redactionRule _, statuses => statuses = [.applied] ∨ statuses = [.failed]
  | _, statuses => statuses = [] ∧ ¬ retired

def Removed : CorrectionAction → List ResultStatus → Prop
  | .supersede _ (some _) _, statuses =>
    statuses = [.failed] ∨ statuses = [.applied, .applied] ∨ statuses = [.applied, .failed] ∨
      statuses = [.applied, .failed, .failed]
  | _, statuses => statuses = [.applied] ∨ statuses = [.failed]

def Settled : CorrectionAction → List ResultStatus → Prop
  | .supersede _ (some _) _, statuses =>
    statuses = [.failed] ∨ statuses = [.skipped] ∨ statuses = [.applied, .applied] ∨ statuses = [.applied, .failed] ∨
      statuses = [.applied, .failed, .failed]
  | _, statuses => ∃ status, statuses = [status]

def replaces : CorrectionAction → Bool
  | .supersede _ (some _) _ => true
  | _ => false

def writes : CorrectionAction → Bool
  | .edit _ _ | .redactionRule _ => true
  | _ => false

def Outstanding (retired : Prop) (action : CorrectionAction) (statuses : List ResultStatus) : Prop :=
  ¬ retired ∧ writes action = false ∧ (replaces action = true → .applied ∈ statuses)

/-- Where an action stands; `halfway` is a replacement whose loser is being retired. -/
inductive Place where
  | ahead
  | halfway
  | written
  | removed
  deriving DecidableEq

def Holds (retired : Prop) (action : CorrectionAction) (statuses : List ResultStatus) : Place → Prop
  | .ahead => statuses = [] ∧ ¬ retired
  | .halfway => statuses = [.applied] ∧ ¬ retired
  | .written => Written retired action statuses
  | .removed => Removed action statuses

def passing (behind onwards : Place) (cursor position : Nat) : Place := if position < cursor then behind else onwards

/-- The place of the action at a position; nothing is said once the call has an outcome or has given up. -/
def place : Stage → Nat → Option Place
  | .loading, _ | .discarding, _ | .marking, _ | .starting, _ => some .ahead
  | .writing cursor, position | .preflighting cursor _, position | .replacing cursor _, position
  | .editing cursor, position | .registering cursor, position => some (passing .written .ahead cursor position)
  | .fetching retirement, position | .tombstoning retirement, position | .retiring retirement _, position =>
    if retirement.firstPhase then
      if position = retirement.position then some .halfway else some (passing .written .ahead retirement.position position)
    else some (passing .removed .written retirement.position position)
  | .removing cursor, position | .verifying cursor _ _, position | .authorizing cursor _ _, position
  | .rescoping cursor _, position => some (passing .removed .written cursor position)
  | .propagatingDestination cursor, position => some (passing .removed .written (cursor + 1) position)
  | .settling, _ | .propagating, _ | .closing, _ => some .removed
  | _, _ => none

def Tallied (world : World) : Prop :=
  ∀ position action, world.actions[position]? = some action → ∀ stands ∈ place world.stage position,
    Holds (position ∈ world.retiredReplacementActions) action (statuses world.results position) stands

variable {position : Nat} {stage : Stage} (behind : Place) (results : List CorrectionActionResult)
  (result : CorrectionActionResult) (onwards : Place) (cursor : Nat)

theorem passing_self : passing behind onwards cursor cursor = onwards := by
  simp [passing]

theorem passing_succ_self : passing behind onwards (cursor + 1) cursor = behind := by
  simp [passing]

theorem passing_succ {cursor : Nat} (other : position ≠ cursor) :
    passing behind onwards (cursor + 1) position = passing behind onwards cursor position := by
  unfold passing
  congr 1
  exact propext (by omega)

theorem statuses_append (position : Nat) :
    statuses (results ++ [result]) position =
      statuses results position ++ if result.action = position then [result.status] else [] := by
  unfold statuses
  rw [filter_append, map_append]
  split_ifs with same <;> simp [same]

theorem statuses_push {result : CorrectionActionResult} (other : position ≠ result.action) :
    statuses (results ++ [result]) position = statuses results position := by
  rw [statuses_append, if_neg other.symm, append_nil]

theorem statuses_push_self : statuses (results ++ [result]) result.action = statuses results result.action ++ [result.status] := by
  rw [statuses_append, if_pos rfl]

theorem mem_statuses {results : List CorrectionActionResult} {status : ResultStatus} :
    status ∈ statuses results position ↔ ∃ result ∈ results, result.action = position ∧ result.status = status := by
  simp [statuses, and_assoc]

theorem statuses_removeFailedResultsFor_self (position : Nat) (results : List CorrectionActionResult) :
    statuses (removeFailedResultsFor position results) position =
      (statuses results position).filter (· ≠ .failed) := by
  unfold statuses removeFailedResultsFor
  rw [filter_map, filter_filter, filter_filter]
  congr 1
  apply filter_congr
  intro result _
  by_cases same : result.action = position <;> simp [same]

theorem statuses_removeFailedResultsFor {other : Nat} (apart : other ≠ position) :
    statuses (removeFailedResultsFor position results) other = statuses results other := by
  unfold statuses removeFailedResultsFor
  rw [filter_filter]
  congr 1
  apply filter_congr
  intro result _
  by_cases same : result.action = other <;> simp [same, apart]

section Phases

variable {retired : Prop} {action : CorrectionAction} {statuses : List ResultStatus}

theorem written_cases (written : Written retired action statuses) :
    (replaces action = true ∧ writes action = false ∧
        (statuses = [.failed] ∧ ¬ retired ∨ statuses = [.applied, .applied] ∧ retired ∨
          statuses = [.applied, .failed] ∧ ¬ retired)) ∨
      (replaces action = false ∧ writes action = true ∧ (statuses = [.applied] ∨ statuses = [.failed])) ∨
        (replaces action = false ∧ writes action = false ∧ statuses = [] ∧ ¬ retired) := by
  cases action with
  | supersede loserId replacement winnerId =>
    cases replacement with
    | none => exact .inr (.inr ⟨rfl, rfl, written⟩)
    | some draft => exact .inl ⟨rfl, rfl, written⟩
  | edit => exact .inr (.inl ⟨rfl, rfl, written⟩)
  | retract => exact .inr (.inr ⟨rfl, rfl, written⟩)
  | rescope => exact .inr (.inr ⟨rfl, rfl, written⟩)
  | redactionRule => exact .inr (.inl ⟨rfl, rfl, written⟩)

theorem removed_of_single {status : ResultStatus} (single : replaces action = false)
    (ran : status = .applied ∨ status = .failed) : Removed action [status] := by
  cases action with
  | supersede loserId replacement winnerId =>
    cases replacement with
    | none => rcases ran with rfl | rfl <;> simp [Removed]
    | some draft => contradiction
  | edit | retract | rescope | redactionRule => rcases ran with rfl | rfl <;> simp [Removed]

theorem removed_of_replaces (replacing : replaces action = true)
    (ran : statuses = [.failed] ∨ statuses = [.applied, .applied] ∨ statuses = [.applied, .failed] ∨
      statuses = [.applied, .failed, .failed]) : Removed action statuses := by
  cases action with
  | supersede loserId replacement winnerId =>
    cases replacement with
    | none => contradiction
    | some draft => exact ran
  | edit | retract | rescope | redactionRule => contradiction

theorem written_of_replaces (replacing : replaces action = true)
    (ran : statuses = [.failed] ∧ ¬ retired ∨ statuses = [.applied, .applied] ∧ retired ∨
      statuses = [.applied, .failed] ∧ ¬ retired) : Written retired action statuses := by
  cases action with
  | supersede loserId replacement winnerId =>
    cases replacement with
    | none => contradiction
    | some draft => exact ran
  | edit | retract | rescope | redactionRule => contradiction

theorem written_of_writes (writing : writes action = true) (ran : statuses = [.applied] ∨ statuses = [.failed]) :
    Written retired action statuses := by
  cases action with
  | edit | redactionRule => exact ran
  | supersede | retract | rescope => contradiction

theorem single_of_writes (writing : writes action = true) : replaces action = false := by
  cases action with
  | edit | redactionRule => rfl
  | supersede | retract | rescope => contradiction

theorem ahead_failed (eager : replaces action = true ∨ writes action = true) (ahead : Holds retired action statuses .ahead) :
    Holds retired action (statuses ++ [.failed]) .written := by
  obtain ⟨rfl, unretired⟩ := ahead
  rcases eager with replacing | writing
  · exact written_of_replaces replacing (.inl ⟨rfl, unretired⟩)
  · exact written_of_writes writing (.inr rfl)

theorem ahead_applied (writing : writes action = true) (ahead : Holds retired action statuses .ahead) :
    Holds retired action (statuses ++ [.applied]) .written := by
  obtain ⟨rfl, _⟩ := ahead
  exact written_of_writes writing (.inl rfl)

theorem ahead_replaced (ahead : Holds retired action statuses .ahead) :
    Holds retired action (statuses ++ [.applied]) .halfway := by
  obtain ⟨rfl, unretired⟩ := ahead
  exact ⟨rfl, unretired⟩

theorem halfway_failed (replacing : replaces action = true) (halfway : Holds retired action statuses .halfway) :
    Holds retired action (statuses ++ [.failed]) .written := by
  obtain ⟨rfl, unretired⟩ := halfway
  exact written_of_replaces replacing (.inr (.inr ⟨rfl, unretired⟩))

theorem halfway_retired {later : Prop} (replacing : replaces action = true) (halfway : Holds retired action statuses .halfway)
    (done : later) : Holds later action (statuses ++ [.applied]) .written := by
  obtain ⟨rfl, _⟩ := halfway
  exact written_of_replaces replacing (.inr (.inl ⟨rfl, done⟩))

theorem outstanding_cases (written : Written retired action statuses) (outstanding : Outstanding retired action statuses) :
    (replaces action = true ∧ statuses = [.applied, .failed]) ∨ (replaces action = false ∧ statuses = []) := by
  obtain ⟨unretired, late, applied⟩ := outstanding
  rcases written_cases written with ⟨replacing, _, ran⟩ | ⟨_, writing, _⟩ | ⟨single, _, nothing, _⟩
  · rcases ran with ⟨rfl, _⟩ | ⟨_, done⟩ | ⟨same, _⟩
    · have absent := applied replacing
      contradiction
    · exact absurd done unretired
    · exact .inl ⟨replacing, same⟩
  · rw [late] at writing
    contradiction
  · exact .inr ⟨single, nothing⟩

theorem written_failed (outstanding : Outstanding retired action statuses) (written : Holds retired action statuses .written) :
    Holds retired action (statuses ++ [.failed]) .removed := by
  rcases outstanding_cases written outstanding with ⟨replacing, rfl⟩ | ⟨single, rfl⟩
  · exact removed_of_replaces replacing (.inr (.inr (.inr rfl)))
  · exact removed_of_single single (.inr rfl)

theorem written_applied (single : replaces action = false) (outstanding : Outstanding retired action statuses)
    (written : Holds retired action statuses .written) : Holds retired action (statuses ++ [.applied]) .removed := by
  rcases outstanding_cases written outstanding with ⟨replacing, _⟩ | ⟨_, rfl⟩
  · rw [single] at replacing
    contradiction
  · exact removed_of_single single (.inl rfl)

theorem written_retired (outstanding : Outstanding retired action statuses) (written : Holds retired action statuses .written) :
    Holds retired action ((statuses ++ [ResultStatus.applied]).filter (· ≠ .failed)) .removed := by
  rcases outstanding_cases written outstanding with ⟨replacing, rfl⟩ | ⟨single, rfl⟩
  · exact removed_of_replaces replacing (.inr (.inl rfl))
  · exact removed_of_single single (.inl rfl)

/-- A failed action, or one without a result, on which a call stops. -/
def Stopped (statuses : List ResultStatus) : Prop := statuses = [] ∨ .failed ∈ statuses

theorem outstanding_stopped (written : Written retired action statuses) (unretired : ¬ retired)
    (late : writes action = false) : Stopped statuses := by
  rcases written_cases written with ⟨_, _, ran⟩ | ⟨_, writing, _⟩ | ⟨_, _, nothing, _⟩
  · rcases ran with ⟨rfl, _⟩ | ⟨_, done⟩ | ⟨rfl, _⟩
    · exact .inr (by simp)
    · exact absurd done unretired
    · exact .inr (by simp)
  · rw [late] at writing
    contradiction
  · exact .inl nothing

theorem written_passed (passed : ¬ Outstanding retired action statuses) (written : Holds retired action statuses .written) :
    Holds retired action statuses .removed := by
  rcases written_cases written with ⟨replacing, late, ran⟩ | ⟨single, _, ran⟩ | ⟨single, late, rfl, unretired⟩
  · rcases ran with ⟨rfl, _⟩ | ⟨rfl, _⟩ | ⟨rfl, unretired⟩
    · exact removed_of_replaces replacing (.inl rfl)
    · exact removed_of_replaces replacing (.inr (.inl rfl))
    · exact removed_of_replaces replacing (.inr (.inr (.inl rfl)))
  · rcases ran with rfl | rfl
    · exact removed_of_single single (.inl rfl)
    · exact removed_of_single single (.inr rfl)
  · refine absurd ⟨unretired, late, fun replacing => ?_⟩ passed
    rw [single] at replacing
    contradiction

theorem holds_halted {stands : Place} (holds : Holds retired action statuses stands) (whole : stands ≠ .halfway) :
    statuses = [] ∨ Removed action statuses := by
  cases stands with
  | ahead => exact .inl holds.1
  | halfway => contradiction
  | written =>
    by_cases outstanding : Outstanding retired action statuses
    · rcases outstanding_cases holds outstanding with ⟨replacing, rfl⟩ | ⟨_, rfl⟩
      · exact .inr (removed_of_replaces replacing (.inr (.inr (.inl rfl))))
      · exact .inl rfl
    · exact .inr (written_passed outstanding holds)
  | removed => exact .inr holds

theorem settled_of_removed (removed : Removed action statuses) : Settled action statuses := by
  cases action with
  | supersede loserId replacement winnerId =>
    cases replacement with
    | none => rcases removed with same | same <;> exact ⟨_, same⟩
    | some draft =>
      rcases removed with same | same
      · exact .inl same
      · exact .inr (.inr same)
  | edit | retract | rescope | redactionRule => rcases removed with same | same <;> exact ⟨_, same⟩

theorem settled_skipped (action : CorrectionAction) : Settled action [.skipped] := by
  cases action with
  | supersede loserId replacement winnerId =>
    cases replacement with
    | none => exact ⟨_, rfl⟩
    | some draft => exact .inr (.inl rfl)
  | edit | retract | rescope | redactionRule => exact ⟨_, rfl⟩

theorem removed_ne_nil (removed : Removed action statuses) : statuses ≠ [] := by
  rintro rfl
  have settled := settled_of_removed removed
  cases action with
  | supersede loserId replacement winnerId => cases replacement <;> simp [Settled] at settled
  | edit | retract | rescope | redactionRule => simp [Settled] at settled

end Phases

variable {world : World}

theorem Tallied.passes {action : CorrectionAction} {was now : Place} (tallied : Tallied world)
    (there : world.actions[position]? = some action) (here : place world.stage position = some was)
    (onwards : place stage position = some now)
    (others : ∀ other, other ≠ position → place stage other = place world.stage other)
    (passed : Holds (position ∈ world.retiredReplacementActions) action (statuses world.results position) was →
      Holds (position ∈ world.retiredReplacementActions) action (statuses world.results position) now) :
    Tallied (world.to stage) := by
  intro other found present stands standing
  change stands ∈ place stage other at standing
  by_cases same : other = position
  · subst same
    rw [onwards] at standing
    cases standing
    cases there.symm.trans present
    exact passed (tallied other action there was here)
  · rw [others other same] at standing
    exact tallied other found present stands standing

theorem Tallied.same (tallied : Tallied world) (places : place stage = place world.stage) : Tallied (world.to stage) := by
  intro other found present stands standing
  change stands ∈ place stage other at standing
  rw [places] at standing
  exact tallied other found present stands standing

end Remnic.Correction.Ledger
