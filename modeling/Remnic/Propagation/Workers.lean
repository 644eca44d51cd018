import Remnic.Library.Transition
import Remnic.Propagation.Queue

/-!
Workers and callers on one queue. Each move is what one of them does while it
holds the queue's lock; between moves anyone else may come, and anyone may stop.
-/

namespace Remnic.Propagation.Workers
open Library Library.Transition Text.CodeUnits Queue

variable {Event : Type}

/-- What the replay of a primary mutation comes to. -/
inductive ReplayOutcome where
  | replayed | incomplete | threw
deriving DecidableEq

inductive Deed (Event : Type) where
  | prepare (event : Event) (fingerprint : Option JsString)
  | prepareReadback (event : Event) (reservationId : JsString)
  | afterMutation (token : PreparationToken)
  | cancel (token : PreparationToken)
  | deferPrepared (token : PreparationToken)
  | claimPrepared (scanned : DependencyPropagationJob Event)
  | claimExpiredRecoveryLease (scanned : DependencyPropagationJob Event)
  | replayPrimaryMutation (claimed : DependencyPropagationJob Event) (outcome : ReplayOutcome)
  | moveToReady (claimed : DependencyPropagationJob Event)
  | retainPreparedJob (claimed : DependencyPropagationJob Event) (error : JsString)
  | claimNext
  /-- A write for a dependent, through `withCurrentLease`, which may throw. -/
  | dependentWrite (claimed : DependencyPropagationJob Event) (throws : Bool)
  | renewLease (claimed : DependencyPropagationJob Event)
  | finishAttempt (claimed : DependencyPropagationJob Event) (error : Option JsString)
  | pruneTerminalStatus (status : JobStatus) (cleared : Event → Bool)

/-- A deed with the worker that does it, the readings of the clock in their order, and the faults of its file changes. -/
structure Move (Event : Type) where
  deed : Deed Event
  worker : Worker
  clock : Nat → Int
  faults : Nat → Fault

/-- What has happened, told by job and lease owner. -/
inductive Happening where
  | confirmed (jobId : JsString)
  | readied (jobId : JsString)
  | claimed (jobId : JsString) (owner : JsString)
  | delivered (jobId : JsString) (owner : Option JsString)
deriving DecidableEq

/-- The queue, the jobs in the hands of its workers, and the history, newest first. -/
structure World (Event : Type) where
  files : QueueFiles Event
  drawn : Nat
  now : Int
  claims : List (DependencyPropagationJob Event)
  recoveries : List (DependencyPropagationJob Event)
  replays : List (DependencyPropagationJob Event)
  history : List Happening

def World.start : World Event := ⟨OrderedMap.empty, 0, 0, [], [], [], []⟩

variable (env : QueueEnv Event)

def planOf (world : World Event) (move : Move Event) : Plan Event :=
  let clock := move.clock
  let files := world.files
  let uuid := env.randomUUID world.drawn
  match move.deed with
  | .prepare event fingerprint => prepare env clock event uuid fingerprint files
  | .prepareReadback event reservationId => prepareReadback env clock event reservationId files
  | .afterMutation token => afterMutation env clock token files
  | .cancel token => cancel env clock token files
  | .deferPrepared _ => .idle
  | .claimPrepared scanned => claimPrepared env move.worker clock uuid scanned files
  | .claimExpiredRecoveryLease scanned => claimExpiredRecoveryLease env move.worker clock uuid scanned files
  | .replayPrimaryMutation claimed outcome =>
    if fenceOpens env clock claimed files ∧ outcome ≠ .threw then renewAfterWrite env move.worker clock claimed files
    else .idle
  | .moveToReady claimed => moveToReady env clock claimed files
  | .retainPreparedJob claimed error => retainPreparedJob env move.worker clock claimed error files
  | .claimNext => claimNext env move.worker clock uuid files
  | .dependentWrite claimed throws =>
    if fenceOpens env clock claimed files ∧ throws = false then renewAfterWrite env move.worker clock claimed files
    else .idle
  | .renewLease claimed => renewLease env move.worker clock claimed files
  | .finishAttempt claimed error => finishAttempt env move.worker clock claimed error files
  | .pruneTerminalStatus status cleared => pruneTerminalStatus env status cleared files

def happenings (world : World Event) (move : Move Event) : List Happening :=
  match move.deed with
  | .afterMutation token => if (planOf env world move).ops = [] then [] else [.confirmed token.jobId]
  | .moveToReady claimed => if (planOf env world move).ops = [] then [] else [.readied claimed.jobId]
  | .claimNext => match (planOf env world move).result with
    | some job => [.claimed job.jobId (job.leaseOwner.getD [])]
    | none => []
  | .dependentWrite claimed _ =>
    if fenceOpens env move.clock claimed world.files then [.delivered claimed.jobId claimed.leaseOwner] else []
  | _ => []

/-- Whoever acts for a claimed job has it in hand; a reservation is given again only by who drew it; and only terminal
states are pruned. -/
def Allowed (world : World Event) (move : Move Event) : Prop :=
  match move.deed with
  | .prepareReadback _ reservationId => ∃ earlier < world.drawn, reservationId = env.randomUUID earlier
  | .replayPrimaryMutation claimed _ | .retainPreparedJob claimed _ => claimed ∈ world.recoveries
  | .moveToReady claimed => claimed ∈ world.replays
  | .dependentWrite claimed _ | .renewLease claimed | .finishAttempt claimed _ => claimed ∈ world.claims
  | .pruneTerminalStatus status _ => status.terminal = true
  | _ => True

/-- The jobs that a deed puts in its worker's hands, when it comes to its end. -/
def handed (world : World Event) (move : Move Event) : Option (DependencyPropagationJob Event) :=
  if (execute env move.faults (planOf env world move).ops 0 world.files).2 = .done then (planOf env world move).result
  else none

def claimsAfter (world : World Event) (move : Move Event) : List (DependencyPropagationJob Event) :=
  match move.deed with
  | .claimNext => (handed env world move).toList ++ world.claims
  | _ => world.claims

def recoveriesAfter (world : World Event) (move : Move Event) : List (DependencyPropagationJob Event) :=
  match move.deed with
  | .claimPrepared _ | .claimExpiredRecoveryLease _ => (handed env world move).toList ++ world.recoveries
  | _ => world.recoveries

/-- A replay counts once its write and the renewal of the lease are done. -/
def replaysAfter (world : World Event) (move : Move Event) : List (DependencyPropagationJob Event) :=
  match move.deed with
  | .replayPrimaryMutation claimed .replayed =>
    if fenceOpens env move.clock claimed world.files = true ∧
        (execute env move.faults (planOf env world move).ops 0 world.files).2 = .done then claimed :: world.replays
    else world.replays
  | _ => world.replays

/-- The readings that a move takes are the first four of its clock. -/
def after (world : World Event) (move : Move Event) : World Event where
  files := (execute env move.faults (planOf env world move).ops 0 world.files).1
  drawn := world.drawn + 1
  now := move.clock 4
  claims := claimsAfter env world move
  recoveries := recoveriesAfter env world move
  replays := replaysAfter env world move
  history := happenings env world move ++ world.history

def step (world : World Event) (move : Move Event) : Option (World Event) := some (after env world move)

/-- Runs of the queue from its beginning, whose moves meet a condition besides being allowed. -/
def Run (Meets : World Event → Move Event → Prop) (world : World Event) : Prop :=
  Reaches (step env) (fun world move => Allowed env world move ∧ Meets world move) World.start world

theorem Run.start (Meets : World Event → Move Event → Prop) : Run env Meets World.start := .refl _

variable {Meets : World Event → Move Event → Prop} {world : World Event}

theorem Run.move (run : Run env Meets world) (move : Move Event) (allowed : Allowed env world move) (meets : Meets world move) :
    Run env Meets (after env world move) := .next run ⟨allowed, meets⟩ rfl

theorem Run.invariant (run : Run env Meets world) (Inv : World Event → Prop) (starts : Inv World.start)
    (keeps : ∀ world move, Inv world → Allowed env world move → Meets world move → Inv (after env world move)) : Inv world := by
  refine Reaches.invariant Inv run starts fun state move next holds meets stepped => ?_
  rw [← Option.some.inj stepped]
  exact keeps state move holds meets.1 meets.2

end Remnic.Propagation.Workers
