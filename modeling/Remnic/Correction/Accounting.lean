import Mathlib.Data.List.Perm.Basic
import Remnic.Correction.Executor
import Remnic.Library.Transition

/-!
Every durable change stands in exactly one result, or the call throws before any.
-/

namespace Remnic.Correction.Accounting

open Library.Transition Text.CodeUnits Contract Executor List Bool

/-- A durable change as a result reports it, or one that no result can report. -/
inductive Record where
  | memory (position : Nat) (memoryId : Option JsString)
  | tombstone (position : Nat) (tombstoneId : TombstoneId)
  | unanswered (position : Nat) (operation : Operation)
  deriving DecidableEq, Repr

def Event.records : Event → List Record
  | .replaced position memoryId | .edited position memoryId | .retired position memoryId | .rescoped position memoryId =>
    [.memory position (some memoryId)]
  | .ruled position => [.memory position none]
  | .tombstoned position tombstoneId => [.tombstone position tombstoneId]
  | .unanswered position operation => [.unanswered position operation]
  | .verified _ => []

def Result.records (result : CorrectionActionResult) : List Record :=
  if result.status = .applied then
    .memory result.action result.memoryId :: (result.tombstoneId.map (.tombstone result.action)).toList
  else []

def committed (events : List Event) : List Record := events.flatMap Event.records

def reported (results : List CorrectionActionResult) : List Record := results.flatMap Result.records

def Reapplicable (plan : Option CorrectionPlan) : Prop := ∃ stored ∈ plan, isRefused stored.status = false

/-- A call that has thrown has changed nothing; one that has returned has reported every
change once and has used up the plan. -/
def Accounts (world : World) : Prop :=
  match world.stage with
  | .thrown => committed world.events = []
  | .returned outcome => (committed world.events).Perm (reported outcome.results) ∧ ¬ Reapplicable world.plan
  | _ => True

/-- The condition of each failure: a memory is not found readable only after an abort or
before any change; a retirement does not fail after its tombstone; an operation that fails
has changed nothing. -/
def Careful (world : World) : Action → Prop
  | .answer (.failed late) =>
    match world.stage with
    | .preflighting _ _ | .verifying _ _ _ => world.aborted = true ∨ committed world.events = []
    | .retiring _ (some _) => False
    | .replacing _ _ | .editing _ | .registering _ | .tombstoning _ | .retiring _ none | .rescoping _ _ => late = false
    | _ => True
  | _ => True

def inFlight : Stage → List Record
  | .retiring retirement (some tombstoneId) => [.tombstone retirement.position tombstoneId]
  | _ => []

def idle : Stage → Bool
  | .loading | .discarding | .marking | .resetting | .thrown => true
  | _ => false

/-- The stages in which nothing has changed. -/
def unchanged : Stage → Bool
  | .loading | .discarding | .marking | .starting | .resetting | .thrown => true
  | _ => false

def outcomeAt : Stage → Option CorrectionOutcome
  | .auditing outcome | .consuming outcome | .returned outcome => some outcome
  | _ => none

def plain : Stage → Bool
  | .loading | .discarding | .marking | .starting | .resetting | .thrown | .auditing _ | .consuming _ | .returned _
  | .retiring _ (some _) => false
  | _ => true

def firstPhase : Stage → Bool
  | .fetching retirement | .tombstoning retirement | .retiring retirement _ => retirement.firstPhase
  | _ => false

def calm (stage : Stage) : Bool := plain stage && !firstPhase stage

/-- The changes are those of the results, up to a tombstone in flight. -/
structure Balanced (world : World) : Prop where
  recorded : (committed world.events).Perm (reported world.results ++ inFlight world.stage)
  flagged : committed world.events ≠ [] → world.mutationCommitted = true ∨ inFlight world.stage ≠ []
  opened : firstPhase world.stage = true → world.mutationCommitted = true
  quiet : unchanged world.stage = true → committed world.events = []
  concluded : ∀ outcome ∈ outcomeAt world.stage,
    (committed world.events).Perm (reported outcome.results) ∧ isRefused (some outcome.status) = true
  consumed : idle world.stage = false → ∀ plan ∈ world.plan, isRefused plan.status = true

variable {retirement : Retirement} {stage resume : Stage} (results : List CorrectionActionResult) (position : Nat)

theorem plain_inFlight (here : plain stage = true) : inFlight stage = [] := by
  cases stage <;> first | rfl | contradiction | skip
  case retiring retirement tombstoneId =>
    cases tombstoneId
    · rfl
    · contradiction

theorem plain_idle (here : plain stage = true) : idle stage = false := by
  cases stage <;> first | rfl | contradiction

theorem plain_unchanged (here : plain stage = true) : unchanged stage = false := by
  cases stage <;> first | rfl | contradiction

theorem plain_outcomeAt (here : plain stage = true) : outcomeAt stage = none := by
  cases stage <;> first | rfl | contradiction

theorem plain_of_calm (here : calm stage = true) : plain stage = true := (and_eq_true_iff.mp here).1

theorem calm_firstPhase (here : calm stage = true) : firstPhase stage = false := by
  simpa using (and_eq_true_iff.mp here).2

theorem calm_next {retirement : Retirement} : calm retirement.next = true := by
  unfold Retirement.next
  split_ifs <;> rfl

theorem idle_quiet (here : idle stage = true) : inFlight stage = [] ∧ firstPhase stage = false ∧ outcomeAt stage = none := by
  cases stage <;> first | exact ⟨rfl, rfl, rfl⟩ | contradiction

theorem outcomeAt_inFlight {outcome : CorrectionOutcome} (here : outcomeAt stage = some outcome) :
    inFlight stage = [] ∧ firstPhase stage = false ∧ idle stage = false ∧ unchanged stage = false := by
  cases stage <;> first | exact ⟨rfl, rfl, rfl, rfl⟩ | contradiction

theorem inFlight_retiring (retirement : Retirement) (tombstoneId : Option TombstoneId) :
    inFlight (.retiring retirement tombstoneId) = (tombstoneId.map (.tombstone retirement.position)).toList := by
  cases tombstoneId <;> rfl

theorem committed_append (events : List Event) (event : Event) :
    committed (events ++ [event]) = committed events ++ Event.records event := by
  simp [committed]

theorem reported_append (result : CorrectionActionResult) :
    reported (results ++ [result]) = reported results ++ Result.records result := by
  simp [reported]

theorem reported_fail (failure : Failure) :
    reported (results ++ [{ action := position, status := .failed, error := some failure }]) = reported results := by
  simp [reported, Result.records]

theorem reported_removeFailedResultsFor (results : List CorrectionActionResult) :
    reported (removeFailedResultsFor position results) = reported results := by
  induction results with
  | nil => rfl
  | cons result results rest =>
    unfold removeFailedResultsFor reported at *
    rw [filter_cons, flatMap_cons, ← rest]
    split_ifs with kept
    · rw [flatMap_cons]
    · have unapplied : result.status ≠ .applied := by
        intro applied
        simp [applied] at kept
      simp [Result.records, unapplied]

theorem reported_skippedResults (world : World) : reported (skippedResults world) = [] := by
  unfold reported
  rw [flatMap_eq_nil_iff]
  intro result skipped
  unfold skippedResults at skipped
  split_ifs at skipped
  · obtain ⟨position, _, rfl⟩ := mem_map.mp skipped
    rfl
  · contradiction

variable {world next : World}

section

variable (balanced : Balanced world)
include balanced

/-- A step that changes nothing durable and stays between two changes. -/
theorem Balanced.carry (here : plain world.stage = true) (there : plain next.stage = true)
    (opened : firstPhase next.stage = true → next.mutationCommitted = true)
    (events : committed next.events = committed world.events) (results : reported next.results = reported world.results)
    (flag : world.mutationCommitted = true → next.mutationCommitted = true) (plan : next.plan = world.plan) :
    Balanced next where
  recorded := by
    have before := balanced.recorded
    rw [plain_inFlight here] at before
    rw [events, results, plain_inFlight there]
    exact before
  flagged changed := by
    rw [events] at changed
    rcases balanced.flagged changed with flagged | inflight
    · exact .inl (flag flagged)
    · exact absurd (plain_inFlight here) inflight
  opened := opened
  quiet silence := by
    rw [plain_unchanged there] at silence
    contradiction
  concluded := by
    rw [plain_outcomeAt there]
    exact nofun
  consumed _ := plan ▸ balanced.consumed (plain_idle here)

theorem Balanced.still (nothing : committed world.events = []) (events : next.events = world.events)
    (results : next.results = world.results)
    (there : inFlight next.stage = [] ∧ firstPhase next.stage = false ∧ outcomeAt next.stage = none)
    (consumed : idle next.stage = false → ∀ plan ∈ next.plan, isRefused plan.status = true) : Balanced next := by
  have before := balanced.recorded
  rw [nothing] at before
  have empty : reported world.results = [] := (append_eq_nil_iff.mp before.nil_eq.symm).1
  refine ⟨?_, fun changed => ?_, fun phase => ?_, fun _ => by rw [events, nothing], ?_, consumed⟩
  · rw [events, results, nothing, empty, there.1]
    exact .refl _
  · rw [events] at changed
    exact absurd nothing changed
  · rw [there.2.1] at phase
    contradiction
  · rw [there.2.2]
    exact nofun

theorem Balanced.rests (nothing : committed world.events = []) (events : next.events = world.events)
    (results : next.results = world.results) (there : idle next.stage = true) : Balanced next := by
  refine balanced.still nothing events results (idle_quiet there) fun busy => ?_
  rw [there] at busy
  contradiction

theorem Balanced.nothing (settled : inFlight world.stage = []) (unflagged : world.mutationCommitted = false) : committed world.events = [] := by
  by_contra changed
  rcases balanced.flagged changed with flagged | inflight
  · rw [unflagged] at flagged
    contradiction
  · exact inflight settled

theorem Balanced.to (here : plain world.stage = true) (there : calm stage = true) : Balanced (world.to stage) := by
  have opened : firstPhase stage = true → world.mutationCommitted = true := by
    rw [calm_firstPhase there]
    exact nofun
  exact balanced.carry here (plain_of_calm there) opened rfl rfl id rfl

theorem Balanced.fail (here : plain world.stage = true) (there : calm stage = true) (position : Nat) (failure : Failure) : Balanced ((world.fail position failure).to stage) := by
  have opened : firstPhase stage = true → world.mutationCommitted = true := by
    rw [calm_firstPhase there]
    exact nofun
  exact balanced.carry here (plain_of_calm there) opened rfl (reported_fail _ _ _) id rfl

theorem Balanced.interrupt (here : plain world.stage = true) (there : calm resume = true) :
    Balanced (world.interrupt resume) := by
  unfold World.interrupt
  split_ifs with flagged
  · exact balanced.carry here (plain_of_calm there) (fun _ => flagged) rfl rfl id rfl
  · exact balanced.rests (balanced.nothing (plain_inFlight here) (not_eq_true _ ▸ flagged)) rfl rfl rfl

theorem Balanced.caught (here : plain world.stage = true) (there : calm resume = true) (later : calm stage = true)
    (position : Nat) : Balanced (world.caught position resume stage) := by
  unfold World.caught
  split_ifs
  · exact balanced.interrupt here there
  · exact balanced.fail here later _ _

theorem Balanced.commit {event : Event} {position : Nat} {memoryId : Option JsString} (here : plain world.stage = true)
    (stage : Stage) (there : plain stage = true) (same : Event.records event = [.memory position memoryId]) :
    Balanced ((world.commit event position memoryId).to stage) where
  recorded := by
    have before := balanced.recorded
    rw [plain_inFlight here, append_nil] at before
    simp only [World.commit, World.to, plain_inFlight there, committed_append, reported_append, append_nil, same]
    exact before.append_right _
  flagged _ := .inl rfl
  opened _ := rfl
  quiet silence := by
    rw [World.to, plain_unchanged there] at silence
    contradiction
  concluded := by
    rw [World.to, plain_outcomeAt there]
    exact nofun
  consumed _ := balanced.consumed (plain_idle here)

theorem Balanced.touch (memoryId : JsString) : Balanced (world.touch memoryId) :=
  ⟨balanced.recorded, balanced.flagged, balanced.opened, balanced.quiet, balanced.concluded, balanced.consumed⟩

end

variable {host : Host} {answer : Answer}

section

variable (balanced : Balanced world)
include balanced

theorem balanced_start (stepped : startStep host world answer = some next) : Balanced next := by
  unfold startStep at stepped
  split at stepped
  next now stage =>
    have nothing := balanced.quiet (by rw [stage]; rfl)
    split at stepped
    next =>
      cases stepped
      exact balanced.rests nothing rfl rfl rfl
    next plan _ =>
      split_ifs at stepped
      all_goals
        cases stepped
        exact balanced.rests nothing rfl rfl rfl
  next stage =>
    cases stepped
    exact balanced.rests (balanced.quiet (by rw [stage]; rfl)) rfl rfl rfl
  next stage =>
    cases stepped
    exact balanced.rests (balanced.quiet (by rw [stage]; rfl)) rfl rfl rfl
  next late stage =>
    cases stepped
    cases late <;> exact balanced.rests (balanced.quiet (by rw [stage]; rfl)) rfl rfl rfl
  next stage =>
    cases stepped
    refine balanced.still (balanced.quiet (by rw [stage]; rfl)) rfl rfl ⟨rfl, rfl, rfl⟩ fun _ plan stored => ?_
    obtain ⟨before, _, rfl⟩ := Option.map_eq_some_iff.mp stored
    rfl
  next late stage =>
    cases stepped
    cases late <;> exact balanced.rests (balanced.quiet (by rw [stage]; rfl)) rfl rfl rfl
  next stage =>
    cases stepped
    have nothing := balanced.quiet (by rw [stage]; rfl)
    have plan := balanced.consumed (by rw [stage]; rfl)
    split_ifs
    · exact balanced.rests nothing rfl rfl rfl
    · exact balanced.still nothing rfl rfl ⟨rfl, rfl, rfl⟩ fun _ => plan
  next stage =>
    cases stepped
    exact balanced.rests (balanced.quiet (by rw [stage]; rfl)) rfl rfl rfl
  next late stage =>
    cases stepped
    cases late <;> exact balanced.rests (balanced.quiet (by rw [stage]; rfl)) rfl rfl rfl
  next => contradiction

theorem balanced_write (careful : Careful world (.answer answer)) (stepped : writeStep world answer = some next) : Balanced next := by
  unfold writeStep at stepped
  split at stepped
  next position stage =>
    have here : plain world.stage = true := by rw [stage]; rfl
    split at stepped
    next =>
      cases stepped
      exact balanced.to here rfl
    next action _ =>
      split_ifs at stepped
      · cases stepped
        exact balanced.interrupt here rfl
      · split at stepped
        all_goals
          cases stepped
          exact balanced.to here rfl
  next position loserId stage =>
    cases stepped
    exact balanced.fail (by rw [stage]; rfl) rfl _ _
  next position loserId found stage =>
    cases stepped
    exact balanced.to (by rw [stage]; rfl) rfl
  next position loserId late stage =>
    cases stepped
    have here : plain world.stage = true := by rw [stage]; rfl
    simp only [Careful, stage] at careful
    split_ifs with aborted
    · exact balanced.interrupt here rfl
    · exact balanced.rests (careful.resolve_left aborted) rfl rfl rfl
  next position loserId newId stage =>
    cases stepped
    exact (balanced.commit (by rw [stage]; rfl) (.fetching ⟨position, loserId, some newId, true⟩) rfl rfl).touch newId
  next position loserId late stage =>
    cases stepped
    simp only [Careful, stage] at careful
    subst careful
    exact balanced.caught (by rw [stage]; rfl) rfl rfl _
  next position editedId stage =>
    cases stepped
    exact (balanced.commit (by rw [stage]; rfl) (.writing (position + 1)) rfl rfl).touch editedId
  next position late stage =>
    cases stepped
    simp only [Careful, stage] at careful
    subst careful
    exact balanced.caught (by rw [stage]; rfl) rfl rfl _
  next position stage =>
    cases stepped
    exact balanced.commit (by rw [stage]; rfl) (.writing (position + 1)) rfl rfl
  next position late stage =>
    cases stepped
    simp only [Careful, stage] at careful
    subst careful
    exact balanced.caught (by rw [stage]; rfl) rfl rfl _
  next => contradiction

theorem Balanced.retirementFailed (here : plain world.stage = true) : Balanced (world.retirementFailed retirement) := by
  unfold World.retirementFailed
  split_ifs
  · exact balanced.fail here calm_next _ _
  · exact balanced.caught here rfl calm_next _

theorem Balanced.within (here : plain world.stage = true) (there : plain stage = true)
    (phase : firstPhase stage = firstPhase world.stage) : Balanced (world.to stage) :=
  balanced.carry here there (fun opening => balanced.opened (phase ▸ opening)) rfl rfl id rfl

theorem Balanced.tombstoned (stage : world.stage = .tombstoning retirement) (tombstoneId : TombstoneId) :
    Balanced ((world.record (.tombstoned retirement.position tombstoneId)).to (.retiring retirement (some tombstoneId))) where
  recorded := by
    have before := balanced.recorded
    rw [stage, plain_inFlight rfl, append_nil] at before
    simp only [World.record, World.to, committed_append]
    exact before.append_right _
  flagged _ := .inr nofun
  opened opening := balanced.opened (stage ▸ opening)
  quiet := nofun
  concluded := nofun
  consumed _ := balanced.consumed (by rw [stage]; rfl)

end

theorem reported_retired (retirement : Retirement) (tombstoneId : Option TombstoneId) :
    reported (results ++ [⟨retirement.position, .applied, some retirement.memoryId, tombstoneId, none⟩]) =
      reported results ++ .memory retirement.position (some retirement.memoryId) ::
        inFlight (.retiring retirement tombstoneId) := by
  rw [reported_append, inFlight_retiring]
  rfl

section

variable (balanced : Balanced world)
include balanced

theorem Balanced.retired {tombstoneId : Option TombstoneId} (stage : world.stage = .retiring retirement tombstoneId) : Balanced (world.retired retirement tombstoneId) := by
  have before := balanced.recorded
  rw [stage] at before
  have after : (committed (world.events ++ [.retired retirement.position retirement.memoryId])).Perm
      (reported (world.results ++ [⟨retirement.position, .applied, some retirement.memoryId, tombstoneId, none⟩]) ++
        inFlight retirement.next) := by
    rw [plain_inFlight (plain_of_calm calm_next), append_nil, committed_append, reported_retired]
    have appended := before.append_right [.memory retirement.position (some retirement.memoryId)]
    rw [append_assoc] at appended
    exact appended.trans ((perm_append_singleton _ _).append_left _)
  have busy : ∀ plan ∈ world.plan, isRefused plan.status = true := balanced.consumed (by rw [stage]; rfl)
  have opened : firstPhase retirement.next = true → False := by
    rw [calm_firstPhase calm_next]
    exact nofun
  have quiet : unchanged retirement.next = true → False := by
    rw [plain_unchanged (plain_of_calm calm_next)]
    exact nofun
  have unfinished : outcomeAt retirement.next = none := plain_outcomeAt (plain_of_calm calm_next)
  unfold World.retired
  split_ifs with phase
  · have flagged : world.mutationCommitted = true := balanced.opened (by rw [stage]; exact phase)
    refine ⟨after, fun _ => .inl flagged, fun opening => (opened opening).elim, fun silence => (quiet silence).elim,
      fun outcome concluded => ?_, fun _ => busy⟩
    change outcome ∈ outcomeAt retirement.next at concluded
    rw [unfinished] at concluded
    contradiction
  · refine ⟨?_, fun _ => .inl rfl, fun opening => (opened opening).elim, fun silence => (quiet silence).elim,
      fun outcome concluded => ?_, fun _ => busy⟩
    · rw [reported_removeFailedResultsFor]
      exact after
    · rw [unfinished] at concluded
      contradiction

theorem balanced_retire (careful : Careful world (.answer answer)) (stepped : retireStep world answer = some next) : Balanced next := by
  unfold retireStep at stepped
  split at stepped
  next retirement stage =>
    cases stepped
    exact balanced.fail (by rw [stage]; rfl) calm_next _ _
  next retirement found stage =>
    cases stepped
    exact balanced.within (by rw [stage]; rfl) rfl (by rw [stage]; rfl)
  next retirement late stage =>
    cases stepped
    exact balanced.retirementFailed (by rw [stage]; rfl)
  next retirement stage =>
    cases stepped
    exact balanced.within (by rw [stage]; rfl) rfl (by rw [stage]; rfl)
  next retirement tombstoneId stage =>
    cases stepped
    exact balanced.tombstoned stage tombstoneId
  next retirement late stage =>
    cases stepped
    simp only [Careful, stage] at careful
    subst careful
    exact balanced.retirementFailed (by rw [stage]; rfl)
  next retirement tombstoneId stage =>
    cases stepped
    exact balanced.retired stage
  next retirement tombstoneId late stage =>
    cases stepped
    simp only [Careful, stage] at careful
    cases tombstoneId with
    | some tombstoneId => contradiction
    | none =>
      subst careful
      exact balanced.retirementFailed (by rw [stage]; rfl)
  next => contradiction

theorem Balanced.remove (here : plain world.stage = true) (position : Nat) (action : CorrectionAction) : Balanced (world.remove position action) := by
  unfold World.remove
  split
  · split_ifs
    · exact balanced.to here rfl
    · exact balanced.to here rfl
    · split
      · exact balanced.to here rfl
      · exact balanced.to here rfl
  · exact balanced.to here rfl
  · split_ifs
    · exact balanced.to here rfl
    · exact balanced.to here rfl
  · exact balanced.to here rfl

theorem balanced_remove (careful : Careful world (.answer answer)) (stepped : removeStep world answer = some next) : Balanced next := by
  unfold removeStep at stepped
  split at stepped
  next position stage =>
    have here : plain world.stage = true := by rw [stage]; rfl
    split at stepped
    next =>
      cases stepped
      exact balanced.to here rfl
    next action _ =>
      split_ifs at stepped
      · cases stepped
        exact balanced.interrupt here rfl
      · cases stepped
        exact balanced.remove here _ _
  next position loserId winnerId stage =>
    cases stepped
    exact balanced.fail (by rw [stage]; rfl) rfl _ _
  next position loserId winnerId winner stage =>
    have here : plain world.stage = true := by rw [stage]; rfl
    dsimp only at stepped
    split_ifs at stepped
    · cases stepped
      have same : committed (world.events ++ [.verified position]) = committed world.events := by
        rw [committed_append, Event.records, append_nil]
      exact balanced.carry here rfl nofun same rfl id rfl
    · cases stepped
      exact balanced.fail here rfl _ _
  next position loserId winnerId late stage =>
    cases stepped
    have here : plain world.stage = true := by rw [stage]; rfl
    simp only [Careful, stage] at careful
    split_ifs with aborted
    · exact balanced.interrupt here rfl
    · exact balanced.rests (careful.resolve_left aborted) rfl rfl rfl
  next position memoryId toNamespace allowed stage =>
    have here : plain world.stage = true := by rw [stage]; rfl
    split_ifs at stepped
    · cases stepped
      exact balanced.to here rfl
    · cases stepped
      exact balanced.fail here rfl _ _
  next position memoryId toNamespace late stage =>
    cases stepped
    exact balanced.caught (by rw [stage]; rfl) rfl rfl _
  next position memoryId destinationId stage =>
    cases stepped
    exact (balanced.commit (by rw [stage]; rfl) (.propagatingDestination position) rfl rfl).touch memoryId
  next position memoryId late stage =>
    cases stepped
    simp only [Careful, stage] at careful
    subst careful
    exact balanced.caught (by rw [stage]; rfl) rfl rfl _
  next position stage =>
    cases stepped
    exact balanced.to (by rw [stage]; rfl) rfl
  next position late stage =>
    cases stepped
    exact balanced.to (by rw [stage]; rfl) rfl
  next => contradiction

theorem Balanced.unlessAborted (settled : inFlight world.stage = []) (otherwise : Balanced next) : Balanced (world.unlessAborted next) := by
  unfold World.unlessAborted
  split_ifs with early
  · have unflagged : world.mutationCommitted = false := by
      simpa using (and_eq_true_iff.mp early).1
    exact balanced.rests (balanced.nothing settled unflagged) rfl rfl rfl
  · exact otherwise

theorem Balanced.concludes {later : CorrectionOutcome} (events : next.events = world.events)
    (results : next.results = world.results) (flag : next.mutationCommitted = world.mutationCommitted)
    (here : inFlight world.stage = []) (there : outcomeAt next.stage = some later)
    (concluded : (committed world.events).Perm (reported later.results) ∧ isRefused (some later.status) = true)
    (plan : ∀ plan ∈ next.plan, isRefused plan.status = true) : Balanced next := by
  obtain ⟨settled, phase, busy, changed⟩ := outcomeAt_inFlight there
  refine ⟨?_, fun changed => ?_, fun opening => ?_, fun silence => ?_, fun found member => ?_, fun _ => plan⟩
  · have before := balanced.recorded
    rw [here] at before
    rw [events, results, settled]
    exact before
  · rw [events] at changed
    rw [flag]
    exact .inl ((balanced.flagged changed).resolve_right (not_not_intro here))
  · rw [phase] at opening
    contradiction
  · rw [changed] at silence
    contradiction
  · rw [there] at member
    cases member
    rw [events]
    exact concluded

theorem concluded_outcomeOf (here : plain world.stage = true) :
    (committed world.events).Perm (reported (outcomeOf world).results) ∧
      isRefused (some (outcomeOf world).status) = true := by
  have before := balanced.recorded
  rw [plain_inFlight here, append_nil] at before
  constructor
  · have same : reported (world.results ++ skippedResults world) = reported world.results := by
      unfold reported
      rw [flatMap_append]
      exact (congrArg _ (reported_skippedResults world)).trans (append_nil _)
    exact same ▸ before
  · unfold outcomeOf
    dsimp only
    split_ifs <;> rfl

end

theorem mark_refused {status : PlanStatus} (refused : isRefused (some status) = true) :
    ∀ plan ∈ (world.mark status).plan, isRefused plan.status = true := by
  intro plan stored
  obtain ⟨before, _, rfl⟩ := Option.map_eq_some_iff.mp stored
  exact refused

theorem balanced_close (balanced : Balanced world) (stepped : closeStep world answer = some next) : Balanced next := by
  unfold closeStep at stepped
  split at stepped
  next stage =>
    cases stepped
    have here : plain world.stage = true := by rw [stage]; rfl
    refine balanced.unlessAborted (plain_inFlight here) ?_
    split_ifs
    · exact balanced.to here rfl
    · exact balanced.to here rfl
  next stage =>
    cases stepped
    exact balanced.to (by rw [stage]; rfl) rfl
  next late stage =>
    have here : plain world.stage = true := by rw [stage]; rfl
    split_ifs at stepped with early
    · cases stepped
      have unflagged : world.mutationCommitted = false := by
        simpa using (and_eq_true_iff.mp early).1
      exact balanced.rests (balanced.nothing (plain_inFlight here) unflagged) rfl rfl rfl
    · cases stepped
      exact balanced.carry here rfl nofun rfl rfl id rfl
  next stage =>
    cases stepped
    have here : plain world.stage = true := by rw [stage]; rfl
    refine balanced.unlessAborted (plain_inFlight here) ?_
    exact balanced.concludes rfl rfl rfl (plain_inFlight here) rfl (concluded_outcomeOf balanced here)
      (balanced.consumed (plain_idle here))
  next outcome auditMemoryId stage =>
    cases stepped
    have concluded := balanced.concluded outcome (by rw [stage]; rfl)
    exact balanced.concludes rfl rfl rfl (by rw [stage]; rfl) rfl concluded (balanced.consumed (by rw [stage]; rfl))
  next outcome late stage =>
    cases stepped
    have concluded := balanced.concluded outcome (by rw [stage]; rfl)
    refine balanced.unlessAborted (by rw [stage]; rfl) ?_
    exact balanced.concludes rfl rfl rfl (by rw [stage]; rfl) rfl concluded (balanced.consumed (by rw [stage]; rfl))
  next outcome stage =>
    cases stepped
    have concluded := balanced.concluded outcome (by rw [stage]; rfl)
    exact balanced.concludes rfl rfl rfl (by rw [stage]; rfl) rfl concluded (mark_refused concluded.2)
  next outcome late stage =>
    cases stepped
    have concluded := balanced.concluded outcome (by rw [stage]; rfl)
    have consumed := balanced.consumed (by rw [stage]; rfl)
    split_ifs
    · exact balanced.concludes rfl rfl rfl (by rw [stage]; rfl) rfl concluded (mark_refused concluded.2)
    · exact balanced.concludes rfl rfl rfl (by rw [stage]; rfl) rfl concluded consumed
  next => contradiction

theorem balanced_initial (nameSpace : JsString) (plan : Option CorrectionPlan) (hasDestinationCheck aborted : Bool) :
    Balanced (initial nameSpace plan hasDestinationCheck aborted) where
  recorded := .refl _
  flagged changed := absurd rfl changed
  opened := nofun
  quiet _ := rfl
  concluded := nofun
  consumed := nofun

theorem balanced_step {action : Action} (balanced : Balanced world) (careful : Careful world action)
    (stepped : step host world action = some next) : Balanced next := by
  cases action with
  | abort =>
    cases stepped
    exact ⟨balanced.recorded, balanced.flagged, balanced.opened, balanced.quiet, balanced.concluded, balanced.consumed⟩
  | answer answer =>
    unfold step at stepped
    dsimp only at stepped
    split at stepped
    all_goals first
      | exact balanced_start balanced stepped
      | exact balanced_write balanced careful stepped
      | exact balanced_retire balanced careful stepped
      | exact balanced_remove balanced careful stepped
      | exact balanced_close balanced stepped
      | contradiction

theorem accounts_of_balanced (balanced : Balanced world) : Accounts world := by
  unfold Accounts
  split
  next stage => exact balanced.quiet (by rw [stage]; rfl)
  next outcome stage =>
    refine ⟨(balanced.concluded outcome (by rw [stage]; rfl)).1, ?_⟩
    rintro ⟨plan, stored, pending⟩
    have refused := balanced.consumed (by rw [stage]; rfl) plan stored
    rw [pending] at refused
    contradiction
  next => trivial

instance (world : World) (action : Action) : Decidable (Careful world action) := by
  unfold Careful
  split
  · split <;> infer_instance
  · infer_instance

def sampleHost : Host := ⟨fun _ => true, fun _ => true⟩

def samplePlan (action : CorrectionAction) : CorrectionPlan := ⟨[1], [action], none, none⟩

def sampleTombstone : TombstoneId := ⟨[9], by decide⟩

def opening : List Action := [.answer (.loaded 0), .answer .done, .answer .proceed]

def entombing : List Action :=
  [.answer (.memory (some ⟨none⟩)), .answer (.tombstone (some sampleTombstone))]

/-- A replacement and the retirement of its loser, up to the outcome. -/
def superseding : List Action :=
  opening ++ [.answer .proceed, .answer (.memory (some ⟨none⟩)), .answer (.id [3])] ++ entombing ++
    [.answer .done, .answer .proceed, .answer .proceed, .answer .proceed, .answer .proceed, .answer .done,
      .answer .proceed, .answer (.id [4]), .answer .done]

/-- A tombstone is appended, the caller aborts, the retirement fails. -/
def retracting : List Action :=
  opening ++ [.answer .proceed, .answer .proceed, .answer .proceed] ++ entombing ++
    [.abort, .answer (.failed false), .answer .done]

end Remnic.Correction.Accounting
