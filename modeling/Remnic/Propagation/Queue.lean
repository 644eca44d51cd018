import Mathlib.Data.List.Dedup
import Remnic.Text.CodeUnits

/-!
The queue of dependency propagation: one directory for each state, a file for
each job in it, and what every holder of the queue's lock writes and unlinks.
-/

namespace Remnic.Propagation.Queue
open Library Text.CodeUnits

inductive JobStatus where
  | prepared | ready | leased | retryable | completed | deadLetter | canceled
deriving DecidableEq

/-- `JOB_STATES`. -/
def jobStates : List JobStatus := [.prepared, .ready, .leased, .retryable, .completed, .deadLetter, .canceled]

def JobStatus.dirName : JobStatus → JsString
  | .prepared => text "prepared"
  | .ready => text "ready"
  | .leased => text "leased"
  | .retryable => text "retryable"
  | .completed => text "completed"
  | .deadLetter => text "dead_letter"
  | .canceled => text "canceled"

def JobStatus.terminal : JobStatus → Bool
  | .completed | .deadLetter | .canceled => true
  | _ => false

structure DependencyPropagationJob (Event : Type) where
  jobId : JsString
  namespaceName : JsString
  sourceId : JsString
  event : Event
  status : JobStatus
  attempts : Nat
  createdAt : Int
  updatedAt : Int
  reservations : Nat
  reservationIds : List JsString
  revision : Nat
  nextAttemptAt : Option Int := none
  leaseOwner : Option JsString := none
  leaseExpiresAt : Option Int := none
  lastError : Option JsString := none
  preparedReplacementFingerprint : Option JsString := none
deriving DecidableEq

/-- What the queue needs of an event, and of the host. -/
structure QueueEnv (Event : Type) where
  isPropagationEvent : Event → Bool
  canonicalEvent : Event → Event
  eventJobId : Event → JsString
  namespaceScope : Event → JsString
  sourceId : Event → JsString
  serializedBytes : DependencyPropagationJob Event → Nat
  /-- `randomUUID`, by the number of identifiers drawn before. -/
  randomUUID : Nat → JsString
  uuidPlain : ∀ drawn, trim (randomUUID drawn) ≠ []
  uuidWithoutColon : ∀ drawn, unit 0x3A ∉ randomUUID drawn
  uuidInjective : Function.Injective randomUUID

/-- The options of one delivery instance, as its constructor bounds them. -/
structure Worker where
  workerId : JsString
  retryDelayMs : { ms : Int // 0 ≤ ms }
  leaseMs : { ms : Int // 1 ≤ ms }
  maxAttempts : { count : Nat // 1 ≤ count }

structure PreparationToken where
  jobId : JsString
  revision : Nat
  ownsPreparedJob : Bool
  reservationId : JsString

/-- A file below the queue root, by its directory and its job id. -/
abbrev QueuePath := JobStatus × JsString

def filePath (path : QueuePath) : JsString := path.1.dirName ++ text "/" ++ path.2 ++ text ".json"

abbrev QueueFiles (Event : Type) := OrderedMap QueuePath (DependencyPropagationJob Event)

structure JobEntry (Event : Type) where
  job : DependencyPropagationJob Event
  path : QueuePath

variable {Event : Type} (env : QueueEnv Event)

def terminalRetentionCount : Nat := 32

def maxSerializedQueueJobBytes : Nat := 64 * 1024

def maxStoredErrorLength : Nat := 1024

def formatStoredError (error : JsString) : JsString := error.take maxStoredErrorLength

def includesText (value part : JsString) : Bool := value.tails.any fun rest => startsWith rest part

def isRecoveryOwner (owner : JsString) : Bool := includesText owner (text ":recovery:")

/-- The checks of `validateJob` on a job record, for the file's directory. -/
def validateJob (expectedState : JobStatus) (job : DependencyPropagationJob Event) : Bool :=
  job.jobId ≠ [] && job.namespaceName ≠ [] && job.sourceId ≠ [] && env.isPropagationEvent job.event &&
    job.jobId = env.eventJobId job.event && job.namespaceName = env.namespaceScope job.event &&
    job.sourceId = env.sourceId job.event && job.status = expectedState &&
    job.reservationIds.all (fun reservationId => trim reservationId ≠ []) && job.reservationIds.Nodup &&
    job.reservations = job.reservationIds.length &&
    job.preparedReplacementFingerprint ≠ some [] &&
    !(job.status = .retryable && job.nextAttemptAt.isNone) &&
    !(job.status = .leased && (job.leaseOwner.isNone || job.leaseExpiresAt.isNone))

def readEntries (files : QueueFiles Event) : List (JobEntry Event) :=
  jobStates.flatMap fun status => files.entries.filterMap fun file =>
    if file.1.1 = status ∧ validateJob env status file.2 = true then some ⟨file.2, file.1⟩ else none

/-- Whether `chooseEntry` puts the first entry before the second. -/
def chosenBefore (first second : JobEntry Event) : Bool :=
  if first.job.revision ≠ second.job.revision then second.job.revision < first.job.revision
  else if first.job.updatedAt ≠ second.job.updatedAt then second.job.updatedAt < first.job.updatedAt
  else filePath first.path < filePath second.path

/-- The first entry in the order of `chosenBefore`, the earlier of equal ones. -/
def chooseEntry (entries : List (JobEntry Event)) : Option (JobEntry Event) :=
  entries.foldl (fun chosen entry =>
    if chosen.all fun best => chosenBefore entry best then some entry else chosen) none

def matching (files : QueueFiles Event) (jobId : JsString) : List (JobEntry Event) :=
  (readEntries env files).filter fun entry => entry.job.jobId = jobId

def logicalEntry (files : QueueFiles Event) (jobId : JsString) : Option (JobEntry Event) :=
  chooseEntry (matching env files jobId)

/-- One change of a file. A tolerant unlink only logs a failure. -/
inductive FileOp (Event : Type) where
  | write (path : QueuePath) (job : DependencyPropagationJob Event)
  | unlink (path : QueuePath) (tolerant : Bool)

/-- What befalls a change of a file: nothing, a failure, or the end of the process before it. -/
inductive Fault where
  | none | fails | crash
deriving DecidableEq

inductive Ending where
  | done | threw | crashed
deriving DecidableEq

/-- The changes of a plan in their order, and the process's end after the last, if it comes to that. -/
def execute (faults : Nat → Fault) : List (FileOp Event) → Nat → QueueFiles Event → QueueFiles Event × Ending
  | [], index, files => (files, if faults index = .crash then .crashed else .done)
  | op :: rest, index, files =>
    if faults index = .crash then (files, .crashed)
    else match op with
      | .write path job =>
        if faults index = .fails ∨ maxSerializedQueueJobBytes < env.serializedBytes job then (files, .threw)
        else execute faults rest (index + 1) (files.set path job)
      | .unlink path tolerant =>
        if faults index = .fails ∧ files.contains path = true then
          if tolerant then execute faults rest (index + 1) files else (files, .threw)
        else execute faults rest (index + 1) (files.erase path)

/-- What a holder of the lock is about to change, and the job that it then returns. -/
structure Plan (Event : Type) where
  ops : List (FileOp Event) := []
  result : Option (DependencyPropagationJob Event) := none

def Plan.idle : Plan Event := {}

def transitionUnlocked (now : Int) (entries : List (JobEntry Event)) (status : JobStatus)
    (patched : DependencyPropagationJob Event) : Plan Event :=
  let next := { patched with status := status, updatedAt := now, revision := patched.revision + 1 }
  let target : QueuePath := (status, next.jobId)
  { ops := .write target next :: (entries.filter fun entry => entry.path ≠ target).map fun entry =>
      .unlink entry.path status.terminal
    result := some next }

section Callers

def newJob (now : Int) (snapshot : Event) (reservationId : JsString) (fingerprint : Option JsString) :
    DependencyPropagationJob Event where
  jobId := env.eventJobId snapshot
  namespaceName := env.namespaceScope snapshot
  sourceId := env.sourceId snapshot
  event := snapshot
  status := .prepared
  attempts := 0
  createdAt := now
  updatedAt := now
  reservations := 1
  reservationIds := [reservationId]
  revision := 0
  preparedReplacementFingerprint := fingerprint.filter fun value => value ≠ []

def reopened (now : Int) (reservationId : JsString) (job : DependencyPropagationJob Event) :
    DependencyPropagationJob Event :=
  { job with
    status := .prepared
    attempts := 0
    reservations := 1
    reservationIds := [reservationId]
    nextAttemptAt := none
    leaseOwner := none
    leaseExpiresAt := none
    lastError := none
    updatedAt := now
    revision := job.revision + 1 }

def reserved (now : Int) (reservationIds : List JsString) (job : DependencyPropagationJob Event) :
    DependencyPropagationJob Event :=
  { job with reservations := reservationIds.length, reservationIds := reservationIds, updatedAt := now }

/-- `prepare` under the lock, with the fingerprint that it captured before. -/
def prepare (clock : Nat → Int) (event : Event) (reservationId : JsString) (fingerprint : Option JsString)
    (files : QueueFiles Event) : Plan Event :=
  let snapshot := env.canonicalEvent event
  let jobId := env.eventJobId snapshot
  if !env.isPropagationEvent event then .idle
  else match logicalEntry env files jobId with
    | none => { ops := [.write (.prepared, jobId) (newJob env (clock 0) snapshot reservationId fingerprint)] }
    | some existing =>
      if existing.job.status = .canceled then
        { ops := [.write (.prepared, jobId) (reopened (clock 0) reservationId existing.job),
            .unlink existing.path false] }
      else if existing.job.status = .prepared then
        { ops := [.write existing.path
            (reserved (clock 0) (existing.job.reservationIds ++ [reservationId]) existing.job)] }
      else .idle

/-- The second hold of the lock in `prepare`, after the first one threw. -/
def prepareReadback (clock : Nat → Int) (event : Event) (reservationId : JsString) (files : QueueFiles Event) :
    Plan Event :=
  if !env.isPropagationEvent event then .idle
  else match logicalEntry env files (env.eventJobId (env.canonicalEvent event)) with
    | none => .idle
    | some existing =>
      if existing.job.status ≠ .prepared ∨ reservationId ∈ existing.job.reservationIds then .idle
      else { ops := [.write existing.path
        (reserved (clock 0) (existing.job.reservationIds ++ [reservationId]) existing.job)] }

def tokenStands (token : PreparationToken) (job : DependencyPropagationJob Event) : Bool :=
  job.status = .prepared && job.revision = token.revision && job.reservationIds.contains token.reservationId

def afterMutation (clock : Nat → Int) (token : PreparationToken) (files : QueueFiles Event) : Plan Event :=
  match logicalEntry env files token.jobId with
  | none => .idle
  | some current =>
    if !tokenStands token current.job then .idle
    else transitionUnlocked (clock 0) (matching env files token.jobId) .ready
      { current.job with
        reservationIds := current.job.reservationIds.filter fun id => id ≠ token.reservationId
        reservations := current.job.reservationIds.length - 1 }

def cancel (clock : Nat → Int) (token : PreparationToken) (files : QueueFiles Event) : Plan Event :=
  match logicalEntry env files token.jobId with
  | none => .idle
  | some current =>
    if !tokenStands token current.job then .idle
    else if current.job.reservationIds.length > 1 then
      { ops := [.write current.path
          (reserved (clock 0) (current.job.reservationIds.filter fun id => id ≠ token.reservationId) current.job)] }
    else transitionUnlocked (clock 0) (matching env files token.jobId) .canceled
      { current.job with reservationIds := [], reservations := 0, lastError := none }

/-- Whether `deferPrepared` schedules a recovery run. -/
def deferPrepared (token : PreparationToken) (files : QueueFiles Event) : Bool :=
  (logicalEntry env files token.jobId).any fun current => tokenStands token current.job

end Callers

section Workers

variable (worker : Worker)

def leased (owner : JsString) (expiresAt : Int) (job : DependencyPropagationJob Event) : DependencyPropagationJob Event :=
  { job with leaseOwner := some owner, leaseExpiresAt := some expiresAt, nextAttemptAt := none, lastError := none }

def recoveryOwner (uuid : JsString) : JsString := worker.workerId ++ text ":recovery:" ++ uuid

def deliveryOwner (uuid : JsString) : JsString := worker.workerId ++ text ":" ++ uuid

def claimPrepared (clock : Nat → Int) (uuid : JsString) (job : DependencyPropagationJob Event)
    (files : QueueFiles Event) : Plan Event :=
  match logicalEntry env files job.jobId with
  | none => .idle
  | some current =>
    if current.job.status ≠ .prepared ∨ current.job.revision ≠ job.revision then .idle
    else transitionUnlocked (clock 1) (matching env files job.jobId) .leased
      (leased (recoveryOwner worker uuid) (clock 0 + worker.leaseMs) current.job)

/-- For a job that the recovery scan saw with an expired lease of a recovery owner. -/
def claimExpiredRecoveryLease (clock : Nat → Int) (uuid : JsString) (job : DependencyPropagationJob Event)
    (files : QueueFiles Event) : Plan Event :=
  if !job.leaseOwner.any isRecoveryOwner then .idle
  else match logicalEntry env files job.jobId with
    | none => .idle
    | some current =>
      if current.job.status ≠ .leased ∨ current.job.leaseOwner ≠ job.leaseOwner then .idle
      else if current.job.leaseExpiresAt.all fun expiresAt => expiresAt > clock 0 then .idle
      else transitionUnlocked (clock 2) (matching env files job.jobId) .leased
        (leased (recoveryOwner worker uuid) (clock 1 + worker.leaseMs) current.job)

/-- Whether a claimed job's lease is the logical job's, and has not expired. -/
def leaseStands (now : Int) (claimed current : DependencyPropagationJob Event) : Bool :=
  current.status = .leased && current.leaseOwner = claimed.leaseOwner &&
    !(current.leaseExpiresAt.all fun expiresAt => expiresAt ≤ now)

/-- `withCurrentLease` lets its write happen. -/
def fenceOpens (clock : Nat → Int) (job : DependencyPropagationJob Event) (files : QueueFiles Event) : Bool :=
  (logicalEntry env files job.jobId).any fun current => leaseStands (clock 0) job current.job

/-- What `withCurrentLease` changes in the queue after its write. -/
def renewAfterWrite (clock : Nat → Int) (job : DependencyPropagationJob Event) (files : QueueFiles Event) : Plan Event :=
  match logicalEntry env files job.jobId with
  | none => .idle
  | some current =>
    if current.job.status ≠ .leased ∨ current.job.leaseOwner ≠ job.leaseOwner then .idle
    else transitionUnlocked (clock 2) (matching env files job.jobId) .leased
      { current.job with leaseExpiresAt := some (clock 1 + worker.leaseMs) }

def moveToReady (clock : Nat → Int) (claimed : DependencyPropagationJob Event) (files : QueueFiles Event) : Plan Event :=
  match logicalEntry env files claimed.jobId with
  | none => .idle
  | some current =>
    if !leaseStands (clock 0) claimed current.job then .idle
    else transitionUnlocked (clock 1) (matching env files claimed.jobId) .ready
      { current.job with leaseOwner := none, leaseExpiresAt := none }

/-- A failed recovery gives the job back, with the lease's fields still in it. -/
def retainPreparedJob (clock : Nat → Int) (job : DependencyPropagationJob Event) (error : JsString)
    (files : QueueFiles Event) : Plan Event :=
  match logicalEntry env files job.jobId with
  | none => .idle
  | some current =>
    if current.job.status ≠ .leased ∨ current.job.leaseOwner ≠ job.leaseOwner then .idle
    else
      let patched := { current.job with
        attempts := current.job.attempts + 1
        lastError := some (formatStoredError error) }
      transitionUnlocked (clock 0) (matching env files job.jobId)
        (if patched.attempts ≥ worker.maxAttempts.val then .deadLetter else .prepared) patched

def expiredLease (now : Int) (job : DependencyPropagationJob Event) : Bool :=
  job.status = .leased && job.leaseExpiresAt.any fun expiresAt => expiresAt ≤ now

def claimable (now : Int) (job : DependencyPropagationJob Event) : Bool :=
  job.status = .ready || (job.status = .retryable && job.nextAttemptAt.any fun at_ => at_ ≤ now) || expiredLease now job

def jobIds (files : QueueFiles Event) : List JsString :=
  ((readEntries env files).map fun entry => entry.job.jobId).dedup.insertionSort (· ≤ ·)

def claimNext (clock : Nat → Int) (uuid : JsString) (files : QueueFiles Event) : Plan Event :=
  match (jobIds env files).findSome? fun jobId =>
      (logicalEntry env files jobId).filter fun current => claimable (clock 0) current.job with
  | none => .idle
  | some current => transitionUnlocked (clock 1) (matching env files current.job.jobId) .leased
      (leased (deliveryOwner worker uuid) (clock 0 + worker.leaseMs)
        { current.job with attempts := current.job.attempts + 1 })

def renewLease (clock : Nat → Int) (job : DependencyPropagationJob Event) (files : QueueFiles Event) : Plan Event :=
  match logicalEntry env files job.jobId with
  | none => .idle
  | some current =>
    if !leaseStands (clock 0) job current.job then .idle
    else transitionUnlocked (clock 2) (matching env files job.jobId) .leased
      { current.job with leaseExpiresAt := some (clock 1 + worker.leaseMs) }

def finishAttempt (clock : Nat → Int) (job : DependencyPropagationJob Event) (error : Option JsString)
    (files : QueueFiles Event) : Plan Event :=
  match logicalEntry env files job.jobId with
  | none => .idle
  | some current =>
    if !leaseStands (clock 0) job current.job then .idle
    else
      let released := { current.job with
        leaseOwner := none
        leaseExpiresAt := none
        nextAttemptAt := none
        lastError := error.map formatStoredError }
      if error = none then transitionUnlocked (clock 1) (matching env files job.jobId) .completed released
      else if current.job.attempts ≥ worker.maxAttempts.val then
        transitionUnlocked (clock 1) (matching env files job.jobId) .deadLetter released
      else transitionUnlocked (clock 2) (matching env files job.jobId) .retryable
        { released with nextAttemptAt := some (clock 1 + worker.retryDelayMs * 2 ^ (current.job.attempts - 1)) }

end Workers

section Pruning

/-- Whether the first entry of a terminal state is kept before the second. -/
def keptBefore (first second : JobEntry Event) : Bool :=
  if first.job.updatedAt ≠ second.job.updatedAt then second.job.updatedAt < first.job.updatedAt
  else if first.job.revision ≠ second.job.revision then second.job.revision < first.job.revision
  else filePath first.path ≤ filePath second.path

/-- The jobs that a prune of a state gives up, as that state's files tell them. -/
def oldJobs (status : JobStatus) (files : QueueFiles Event) : List (JobEntry Event) :=
  let entries := (readEntries env files).filter fun entry => entry.job.status = status
  let latest := ((entries.map fun entry => entry.job.jobId).dedup).filterMap fun jobId =>
    chooseEntry (entries.filter fun entry => entry.job.jobId = jobId)
  (latest.insertionSort fun first second => keptBefore first second = true).drop terminalRetentionCount

def removeAllQueueFilesForJob (files : QueueFiles Event) (jobId : JsString) : List (FileOp Event) :=
  (jobStates.filter fun status => files.contains (status, jobId)).map fun status => .unlink (status, jobId) true

/-- `cleared` tells for which events the proof of invalidation is cleared. -/
def pruneTerminalStatus (status : JobStatus) (cleared : Event → Bool) (files : QueueFiles Event) : Plan Event :=
  let old := oldJobs env status files
  if old.all fun entry => cleared entry.job.event then
    { ops := old.flatMap fun entry => removeAllQueueFilesForJob files entry.job.jobId }
  else .idle

end Pruning

end Remnic.Propagation.Queue
