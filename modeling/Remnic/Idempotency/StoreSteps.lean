import Remnic.Idempotency.Records

/-!
`AccessIdempotencyStore` over one memory directory, from one await to the next: the answer of
an operation and the code that runs on it are two steps, so that calls on one store overlap
at every await. The lock of the state file is exclusive and the rename atomic.
-/

namespace Remnic.Idempotency.StoreSteps

open Library Text.CodeUnits Records

variable {Response Store Call : Type}

inductive Request (Response : Type) where
  | get (key requestHash : JsString)
  | put (key requestHash : JsString) (response : Response)
  deriving DecidableEq, Repr

def Request.key : Request Response → JsString
  | .get key _ | .put key _ _ => key

def Request.isPut : Request Response → Bool
  | .get _ _ => false
  | .put _ _ _ => true

/-- The store each call is made on, and what it asks for. -/
structure Calls (Call Store Response : Type) where
  store : Call → Store
  request : Call → Request Response

structure StateFile (Response : Type) where
  state : State Response
  mtimeMs : Nat

/-- The fields of one store. The promises chained in `writeQueue` are the puts that have not settled, in order. -/
structure Memory (Call Response : Type) where
  state : State Response
  loadedMtimeMs : Nat
  writeQueue : List Call

/-- What a call does next: `comparing`, `assigning`, `settling`, `merging` and `resettling` are about to run on an answer. A
call that has read the file knows how often it had been replaced, and a put the entry it has recorded. -/
inductive Stage (Call Response : Type) where
  | idle
  | queued (behind : Option Call)
  | statting
  | comparing (mtimeMs : Option Nat)
  | reading
  | assigning (raw : Option (State Response)) (renames : Nat)
  | mtiming (renames : Nat)
  | settling (mtimeMs : Nat)
  | reloaded
  | answered (answer : Answer Response)
  | locking (entry : AccessIdempotencyEntry Response)
  | readingShared (entry : AccessIdempotencyEntry Response)
  | merging (entry : AccessIdempotencyEntry Response) (raw : Option (State Response))
  | merged (entry : AccessIdempotencyEntry Response)
  | writing (entry : AccessIdempotencyEntry Response) (content : State Response)
  | replacing (entry : AccessIdempotencyEntry Response) (content : State Response) (mtimeMs : Nat)
  | remtiming (entry : AccessIdempotencyEntry Response)
  | resettling (entry : AccessIdempotencyEntry Response) (mtimeMs : Nat)
  | unlocked (entry : AccessIdempotencyEntry Response)
  | resolved
  | rejected
  deriving DecidableEq

/-- The directory, the stores and the calls; and what has been recorded in memory, has landed in the file with the time of
the file, and has been resolved, altogether and before each call. -/
structure World (Response Store Call : Type) where
  file : Option (StateFile Response)
  renames : Nat
  lock : Option Call
  now : Nat
  memories : Store → Memory Call Response
  stages : Call → Stage Call Response
  history : List (Entry Response)
  landed : List (Entry Response × Nat)
  resolved : List (Entry Response)
  resolvedBefore : Call → List (Entry Response)

def initial (now : Nat) : World Response Store Call where
  file := none
  renames := 0
  lock := none
  now
  memories _ := ⟨OrderedMap.empty, 0, []⟩
  stages _ := .idle
  history := []
  landed := []
  resolved := []
  resolvedBefore _ := []

inductive Action (Call : Type) where
  | tick (elapsed : Nat)
  | start (call : Call)
  | proceed (call : Call) (works : Bool)

def World.content (world : World Response Store Call) : Option (State Response) := world.file.map StateFile.state

/-- `readMtimeMs` -/
def World.mtimeMs (world : World Response Store Call) : Nat := (world.file.map StateFile.mtimeMs).getD 0

variable [DecidableEq Store] [DecidableEq Call]

def World.at (world : World Response Store Call) (call : Call) (stage : Stage Call Response) : World Response Store Call :=
  { world with stages := Function.update world.stages call stage }

def World.remember (world : World Response Store Call) (store : Store) (state : State Response) : World Response Store Call :=
  { world with memories := Function.update world.memories store { world.memories store with state } }

def World.load (world : World Response Store Call) (store : Store) (loadedMtimeMs : Nat) : World Response Store Call :=
  { world with memories := Function.update world.memories store { world.memories store with loadedMtimeMs } }

def World.queue (world : World Response Store Call) (store : Store) (writeQueue : List Call) : World Response Store Call :=
  { world with memories := Function.update world.memories store { world.memories store with writeQueue } }

/-- The put has settled: the next one of its store goes on. -/
def World.release (world : World Response Store Call) (store : Store) : World Response Store Call :=
  world.queue store (world.memories store).writeQueue.tail

def record (calls : Calls Call Store Response) (call : Call) (entry : AccessIdempotencyEntry Response) : Entry Response :=
  ((calls.request call).key, entry)

/-- `reload`, with the wait for the puts before it. -/
def reloadStep (calls : Calls Call Store Response) (world : World Response Store Call) (call : Call) (works : Bool) :
    Stage Call Response → Option (World Response Store Call)
  | .queued behind =>
    let writeQueue := (world.memories (calls.store call)).writeQueue
    if (calls.request call).isPut then
      if writeQueue.head? = some call then some (world.at call .statting) else none
    else if ∀ last ∈ behind, last ∉ writeQueue then some (world.at call .statting)
    else none
  | .statting => some (world.at call (.comparing (if works then world.file.map StateFile.mtimeMs else none)))
  | .comparing none => some (((world.remember (calls.store call) OrderedMap.empty).load (calls.store call) 0).at call .reloaded)
  | .comparing (some mtimeMs) =>
    if mtimeMs < (world.memories (calls.store call)).loadedMtimeMs then some (world.at call .reloaded)
    else some (world.at call .reading)
  | .reading => some (world.at call (.assigning (if works then world.content else none) world.renames))
  | .assigning none _ =>
    some (((world.remember (calls.store call) OrderedMap.empty).load (calls.store call) 0).at call .reloaded)
  | .assigning (some raw) renames => some ((world.remember (calls.store call) raw).at call (.mtiming renames))
  | .mtiming _ => some (world.at call (.settling (if works then world.mtimeMs else 0)))
  | .settling mtimeMs => some ((world.load (calls.store call) mtimeMs).at call .reloaded)
  | _ => none

/-- What `get` and `put` do on the reloaded state. -/
def requestStep (calls : Calls Call Store Response) (world : World Response Store Call) (call : Call) :
    World Response Store Call :=
  let state := (world.memories (calls.store call)).state
  match calls.request call with
  | .get key requestHash => world.at call (.answered (answer state key requestHash))
  | .put key requestHash response =>
    let entry := ⟨world.now, requestHash, response⟩
    { world.remember (calls.store call) (prune (assignProperty state key entry)) with
      history := world.history ++ [(key, entry)] }.at call (.locking entry)

/-- `flush`, up to the end of the put. -/
def flushStep (calls : Calls Call Store Response) (world : World Response Store Call) (call : Call) (works : Bool) :
    Stage Call Response → Option (World Response Store Call)
  | .locking entry =>
    if !works then some ((world.release (calls.store call)).at call .rejected)
    else if world.lock = none then some ({ world with lock := some call }.at call (.readingShared entry))
    else none
  | .readingShared entry => some (world.at call (.merging entry (if works then world.content else none)))
  | .merging entry none => some (world.at call (.merged entry))
  | .merging entry (some raw) =>
    some ((world.remember (calls.store call) (prune (merge raw (world.memories (calls.store call)).state))).at call
      (.merged entry))
  | .merged entry => some (world.at call (.writing entry (world.memories (calls.store call)).state))
  | .writing entry content =>
    if works then some (world.at call (.replacing entry content world.now))
    else some (({ world with lock := none }.release (calls.store call)).at call .rejected)
  | .replacing entry content mtimeMs =>
    if works then
      some ({ world with
        file := some ⟨content, mtimeMs⟩
        renames := world.renames + 1
        landed := world.landed ++ [(record calls call entry, mtimeMs)] }.at call (.remtiming entry))
    else some (({ world with lock := none }.release (calls.store call)).at call .rejected)
  | .remtiming entry => some (world.at call (.resettling entry (if works then world.mtimeMs else 0)))
  | .resettling entry mtimeMs =>
    some ({ world.load (calls.store call) mtimeMs with lock := none }.at call (.unlocked entry))
  | .unlocked entry =>
    some ({ world.release (calls.store call) with
      resolved := world.resolved ++ [record calls call entry] }.at call .resolved)
  | _ => none

def proceed (calls : Calls Call Store Response) (world : World Response Store Call) (call : Call) (works : Bool) :
    Option (World Response Store Call) :=
  match world.stages call with
  | .queued _ | .statting | .comparing _ | .reading | .assigning _ _ | .mtiming _ | .settling _ =>
    reloadStep calls world call works (world.stages call)
  | .reloaded => some (requestStep calls world call)
  | .locking _ | .readingShared _ | .merging _ _ | .merged _ | .writing _ _ | .replacing _ _ _ | .remtiming _
  | .resettling _ _ | .unlocked _ => flushStep calls world call works (world.stages call)
  | .idle | .answered _ | .resolved | .rejected => none

def step (calls : Calls Call Store Response) (world : World Response Store Call) : Action Call → Option (World Response Store Call)
  | .tick elapsed => some { world with now := world.now + elapsed }
  | .start call =>
    match world.stages call with
    | .idle =>
      let store := calls.store call
      let writeQueue := (world.memories store).writeQueue
      let joined := if (calls.request call).isPut then world.queue store (writeQueue ++ [call]) else world
      some ({ joined with
        resolvedBefore := Function.update world.resolvedBefore call world.resolved }.at call (.queued writeQueue.getLast?))
    | _ => none
  | .proceed call works => proceed calls world call works

end Remnic.Idempotency.StoreSteps
