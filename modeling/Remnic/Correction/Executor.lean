import Remnic.Correction.Contract

/-!
`applyInternal`, one storage operation at a time. Every operation may answer, fail, or
fail after its change is durable; the caller may abort at any time.
-/

namespace Remnic.Correction.Executor

open Text.CodeUnits Contract

/-- The part of a memory that decides about a correction. -/
structure ExecutorMemory where
  status : Option JsString
  deriving DecidableEq, Repr

/-- A use of `retireAndTombstone`. In the first phase it does not listen to the abort signal. -/
structure Retirement where
  position : Nat
  memoryId : JsString
  supersededBy : Option JsString
  firstPhase : Bool
  deriving DecidableEq, Repr

/-- The operation that runs, or the point at which control is. -/
inductive Stage where
  | loading
  | discarding
  | marking
  | starting
  | resetting
  | writing (position : Nat)
  | preflighting (position : Nat) (loserId : JsString)
  | replacing (position : Nat) (loserId : JsString)
  | editing (position : Nat)
  | registering (position : Nat)
  | fetching (retirement : Retirement)
  | tombstoning (retirement : Retirement)
  | retiring (retirement : Retirement) (tombstoneId : Option TombstoneId)
  | removing (position : Nat)
  | verifying (position : Nat) (loserId winnerId : JsString)
  | authorizing (position : Nat) (memoryId toNamespace : JsString)
  | rescoping (position : Nat) (memoryId : JsString)
  | propagatingDestination (position : Nat)
  | settling
  | propagating
  | closing
  | auditing (outcome : CorrectionOutcome)
  | consuming (outcome : CorrectionOutcome)
  | returned (outcome : CorrectionOutcome)
  | thrown
  deriving DecidableEq, Repr

inductive Operation where
  | replacement
  | edit
  | rule
  | tombstone
  | retirement
  | rescope
  deriving DecidableEq, Repr

/-- What has become durable, and which winners have been found active. -/
inductive Event where
  | replaced (position : Nat) (memoryId : JsString)
  | edited (position : Nat) (memoryId : JsString)
  | ruled (position : Nat)
  | tombstoned (position : Nat) (tombstoneId : TombstoneId)
  | retired (position : Nat) (memoryId : JsString)
  | rescoped (position : Nat) (destinationId : JsString)
  | unanswered (position : Nat) (operation : Operation)
  | verified (position : Nat)
  deriving DecidableEq, Repr

/-- How an operation ends; control between two operations just proceeds. -/
inductive Answer where
  | proceed
  | loaded (now : Int)
  | memory (found : Option ExecutorMemory)
  | id (memoryId : JsString)
  | tombstone (tombstoneId : Option TombstoneId)
  | allowed (value : Bool)
  | done
  | failed (committed : Bool)
  deriving DecidableEq, Repr

inductive Action where
  | abort
  | answer (answer : Answer)
  deriving DecidableEq, Repr

structure World where
  nameSpace : JsString
  plan : Option CorrectionPlan
  hasDestinationCheck : Bool
  actions : List CorrectionAction
  stage : Stage
  aborted : Bool
  results : List CorrectionActionResult
  appliedTouched : List JsString
  retiredReplacementActions : List Nat
  mutationCommitted : Bool
  cancellationRequestedAfterCommit : Bool
  warnings : List Warning
  events : List Event
  deriving DecidableEq, Repr

def initial (nameSpace : JsString) (plan : Option CorrectionPlan) (hasDestinationCheck aborted : Bool) : World where
  nameSpace
  plan
  hasDestinationCheck
  actions := []
  stage := .loading
  aborted
  results := []
  appliedTouched := []
  retiredReplacementActions := []
  mutationCommitted := false
  cancellationRequestedAfterCommit := false
  warnings := []
  events := []

def World.to (world : World) (stage : Stage) : World := { world with stage }

def World.mark (world : World) (status : PlanStatus) : World :=
  { world with plan := world.plan.map fun plan => { plan with status := some status } }

def World.push (world : World) (result : CorrectionActionResult) : World :=
  { world with results := world.results ++ [result] }

def World.fail (world : World) (position : Nat) (failure : Failure) : World :=
  world.push { action := position, status := .failed, error := some failure }

def World.record (world : World) (event : Event) : World := { world with events := world.events ++ [event] }

def World.recordIf (world : World) (committed : Bool) (event : Event) : World :=
  if committed then world.record event else world

/-- A change that the storage has confirmed, with its result. -/
def World.commit (world : World) (event : Event) (position : Nat) (memoryId : Option JsString) : World :=
  { world with
    mutationCommitted := true
    events := world.events ++ [event]
    results := world.results ++ [{ action := position, status := .applied, memoryId }] }

def World.touch (world : World) (memoryId : JsString) : World :=
  { world with appliedTouched := world.appliedTouched ++ [memoryId] }

/-- An abort before the first change resets the plan, a later one ends the phase. -/
def World.interrupt (world : World) (resume : Stage) : World :=
  if world.mutationCommitted then { world with cancellationRequestedAfterCommit := true, stage := resume }
  else world.to .resetting

/-- A caught failure is an interruption if the caller has aborted, else a result. -/
def World.caught (world : World) (position : Nat) (resume next : Stage) : World :=
  if world.aborted then world.interrupt resume else (world.fail position .thrown).to next

def isRefused (status : Option PlanStatus) : Bool := status.any (· ≠ .pending)

def startStep (host : Host) (world : World) (answer : Answer) : Option World :=
  match world.stage, answer with
  | .loading, .loaded now =>
    match world.plan with
    | none => some (world.to .thrown)
    | some plan =>
      if world.aborted || plan.nameSpace ≠ world.nameSpace || isRefused plan.status then some (world.to .thrown)
      else if plan.expiresAt.any (· < now) then some (world.to .discarding)
      else if plan.actions.all (validateCorrectionAction host) then some ({ world with actions := plan.actions }.to .marking)
      else some (world.to .thrown)
  | .loading, .failed _ => some (world.to .thrown)
  | .discarding, .done => some ((world.mark .discarded).to .thrown)
  | .discarding, .failed committed => some ((if committed then world.mark .discarded else world).to .thrown)
  | .marking, .done => some ((world.mark .applying).to .starting)
  | .marking, .failed committed => some ((if committed then world.mark .applying else world).to .thrown)
  | .starting, .proceed => some (world.to (if world.aborted then .resetting else .writing 0))
  | .resetting, .done => some ((world.mark .pending).to .thrown)
  | .resetting, .failed committed => some ((if committed then world.mark .pending else world).to .thrown)
  | _, _ => none

/-- The first phase: replacements with their retirements, edits and rules. -/
def writeStep (world : World) (answer : Answer) : Option World :=
  match world.stage, answer with
  | .writing position, .proceed =>
    match world.actions[position]? with
    | none => some (world.to (.removing 0))
    | some action =>
      if world.aborted then some (world.interrupt (.removing 0))
      else
        match action with
        | .supersede loserId (some _) _ => some (world.to (.preflighting position loserId))
        | .edit _ _ => some (world.to (.editing position))
        | .redactionRule _ => some (world.to (.registering position))
        | _ => some (world.to (.writing (position + 1)))
  | .preflighting position loserId, .memory none =>
    some ((world.fail position (.loserNotFound loserId)).to (.writing (position + 1)))
  | .preflighting position loserId, .memory (some _) => some (world.to (.replacing position loserId))
  | .preflighting _ _, .failed _ => some (if world.aborted then world.interrupt (.removing 0) else world.to .thrown)
  | .replacing position loserId, .id newId =>
    some (((world.commit (.replaced position newId) position (some newId)).touch newId).to
      (.fetching ⟨position, loserId, some newId, true⟩))
  | .replacing position _, .failed committed =>
    some ((world.recordIf committed (.unanswered position .replacement)).caught position (.removing 0) (.writing (position + 1)))
  | .editing position, .id editedId =>
    some (((world.commit (.edited position editedId) position (some editedId)).touch editedId).to (.writing (position + 1)))
  | .editing position, .failed committed =>
    some ((world.recordIf committed (.unanswered position .edit)).caught position (.removing 0) (.writing (position + 1)))
  | .registering position, .done =>
    some ((world.commit (.ruled position) position none).to (.writing (position + 1)))
  | .registering position, .failed committed =>
    some ((world.recordIf committed (.unanswered position .rule)).caught position (.removing 0) (.writing (position + 1)))
  | _, _ => none

def Retirement.next (retirement : Retirement) : Stage :=
  if retirement.firstPhase then .writing (retirement.position + 1) else .removing (retirement.position + 1)

/-- The catch block of `retireAndTombstone`, and in the second phase of its caller. -/
def World.retirementFailed (world : World) (retirement : Retirement) : World :=
  if retirement.firstPhase then (world.fail retirement.position .thrown).to retirement.next
  else world.caught retirement.position .settling retirement.next

def removeFailedResultsFor (position : Nat) (results : List CorrectionActionResult) : List CorrectionActionResult :=
  results.filter fun result => !(result.action = position && result.status = .failed)

/-- The end of a retirement that has succeeded, in `retireAndTombstone` and its caller. -/
def World.retired (world : World) (retirement : Retirement) (tombstoneId : Option TombstoneId) : World :=
  let result : CorrectionActionResult :=
    { action := retirement.position, status := .applied, memoryId := some retirement.memoryId, tombstoneId }
  let answered := ((world.record (.retired retirement.position retirement.memoryId)).push result).touch retirement.memoryId
  if retirement.firstPhase then
    { answered with
      retiredReplacementActions := retirement.position :: world.retiredReplacementActions
      stage := retirement.next }
  else
    { answered with
      mutationCommitted := true
      results := removeFailedResultsFor retirement.position answered.results
      stage := retirement.next }

/-- `retireAndTombstone`. -/
def retireStep (world : World) (answer : Answer) : Option World :=
  match world.stage, answer with
  | .fetching retirement, .memory none =>
    some ((world.fail retirement.position (.memoryNotFound retirement.memoryId)).to retirement.next)
  | .fetching retirement, .memory (some _) => some (world.to (.tombstoning retirement))
  | .fetching retirement, .failed _ => some (world.retirementFailed retirement)
  | .tombstoning retirement, .tombstone none => some (world.to (.retiring retirement none))
  | .tombstoning retirement, .tombstone (some tombstoneId) =>
    some ((world.record (.tombstoned retirement.position tombstoneId)).to (.retiring retirement (some tombstoneId)))
  | .tombstoning retirement, .failed committed =>
    some ((world.recordIf committed (.unanswered retirement.position .tombstone)).retirementFailed retirement)
  | .retiring retirement tombstoneId, .done => some (world.retired retirement tombstoneId)
  | .retiring retirement _, .failed committed =>
    some ((world.recordIf committed (.unanswered retirement.position .retirement)).retirementFailed retirement)
  | _, _ => none

def needsPhase2Work (world : World) (position : Nat) : CorrectionAction → Bool
  | .retract _ | .rescope _ _ => true
  | .supersede _ _ _ => position ∉ world.retiredReplacementActions
  | _ => false

def replacementResult (world : World) (position : Nat) : Option CorrectionActionResult :=
  world.results.find? fun result => result.action = position && result.status = .applied

def World.remove (world : World) (position : Nat) : CorrectionAction → World
  | .supersede loserId replacement winnerId =>
    if position ∈ world.retiredReplacementActions then world.to (.removing (position + 1))
    else if replacement.isSome && (replacementResult world position).isNone then world.to (.removing (position + 1))
    else
      match replacement, winnerId with
      | none, some winner => world.to (.verifying position loserId winner)
      | _, _ =>
        world.to (.fetching
          ⟨position, loserId, ((replacementResult world position).bind CorrectionActionResult.memoryId).or winnerId, false⟩)
  | .retract memoryId => world.to (.fetching ⟨position, memoryId, none, false⟩)
  | .rescope memoryId toNamespace =>
    if world.hasDestinationCheck then world.to (.authorizing position memoryId toNamespace)
    else world.to (.rescoping position memoryId)
  | _ => world.to (.removing (position + 1))

/-- The second phase: losers without a replacement of their own, retractions and moves. -/
def removeStep (world : World) (answer : Answer) : Option World :=
  match world.stage, answer with
  | .removing position, .proceed =>
    match world.actions[position]? with
    | none => some (world.to .settling)
    | some action =>
      if needsPhase2Work world position action && world.aborted then some (world.interrupt .settling)
      else some (world.remove position action)
  | .verifying position _ winnerId, .memory none =>
    some ((world.fail position (.winnerNotFound winnerId)).to (.removing (position + 1)))
  | .verifying position loserId winnerId, .memory (some winner) =>
    let winnerStatus := winner.status.getD (text "active")
    if winnerStatus = text "active" then
      some ((world.record (.verified position)).to (.fetching ⟨position, loserId, some winnerId, false⟩))
    else some ((world.fail position (.winnerNotActive winnerId winnerStatus)).to (.removing (position + 1)))
  | .verifying _ _ _, .failed _ => some (if world.aborted then world.interrupt .settling else world.to .thrown)
  | .authorizing position memoryId toNamespace, .allowed allowed =>
    if allowed then some (world.to (.rescoping position memoryId))
    else some ((world.fail position (.destinationNotWritable toNamespace)).to (.removing (position + 1)))
  | .authorizing position _ _, .failed _ => some (world.caught position .settling (.removing (position + 1)))
  | .rescoping position memoryId, .id destinationId =>
    some (((world.commit (.rescoped position destinationId) position (some destinationId)).touch memoryId).to
      (.propagatingDestination position))
  | .rescoping position _, .failed committed =>
    some ((world.recordIf committed (.unanswered position .rescope)).caught position .settling (.removing (position + 1)))
  | .propagatingDestination position, .done | .propagatingDestination position, .failed _ =>
    some (world.to (.removing (position + 1)))
  | _, _ => none

/-- `throwIfAbortedBeforeCommitAndReset`. -/
def World.unlessAborted (world : World) (next : World) : World :=
  if !world.mutationCommitted && world.aborted then world.to .resetting else next

def skippedResults (world : World) : List CorrectionActionResult :=
  if world.cancellationRequestedAfterCommit then
    ((List.range world.actions.length).filter fun position => position ∉ world.results.map (·.action)).map fun position =>
      { action := position, status := .skipped, error := some .cancelled }
  else []

def outcomeOf (world : World) : CorrectionOutcome where
  status :=
    if (world.results.any (·.status = .failed)) || world.cancellationRequestedAfterCommit then .partly else .applied
  results := world.results ++ skippedResults world
  warnings := world.warnings

/-- The phases after the mutations: propagation, audit record, the end of the plan. -/
def closeStep (world : World) (answer : Answer) : Option World :=
  match world.stage, answer with
  | .settling, .proceed => some (world.unlessAborted (world.to (if world.appliedTouched = [] then .closing else .propagating)))
  | .propagating, .done => some (world.to .closing)
  | .propagating, .failed _ =>
    if !world.mutationCommitted && world.aborted then some (world.to .thrown)
    else some ({ world with warnings := world.warnings ++ [Warning.propagationFailed] }.to .closing)
  | .closing, .proceed => some (world.unlessAborted (world.to (.auditing (outcomeOf world))))
  | .auditing outcome, .id auditMemoryId => some (world.to (.consuming { outcome with auditMemoryId }))
  | .auditing outcome, .failed _ =>
    some (world.unlessAborted (world.to (.consuming { outcome with warnings := outcome.warnings ++ [.auditFailed] })))
  | .consuming outcome, .done => some ((world.mark outcome.status).to (.returned outcome))
  | .consuming outcome, .failed committed =>
    some ((if committed then world.mark outcome.status else world).to
      (.returned { outcome with warnings := outcome.warnings ++ [.markConsumedFailed] }))
  | _, _ => none

def step (host : Host) (world : World) : Action → Option World
  | .abort => some { world with aborted := true }
  | .answer answer =>
    match world.stage with
    | .loading | .discarding | .marking | .starting | .resetting => startStep host world answer
    | .writing _ | .preflighting _ _ | .replacing _ _ | .editing _ | .registering _ => writeStep world answer
    | .fetching _ | .tombstoning _ | .retiring _ _ => retireStep world answer
    | .removing _ | .verifying _ _ _ | .authorizing _ _ _ | .rescoping _ _ | .propagatingDestination _ =>
      removeStep world answer
    | .settling | .propagating | .closing | .auditing _ | .consuming _ => closeStep world answer
    | .returned _ | .thrown => none

end Remnic.Correction.Executor
