import Remnic.Tombstone.Entry
import Mathlib.Data.List.Infix

/-!
Several processes on one tombstone log. Each process has one store, shared by its
calls; a call goes from one file operation to the next, and the calls of all
processes interleave at these.
-/

namespace Remnic.Tombstone.SharedLog

open Library Library.InsertionSet Text.CodeUnits Entry

/-- An entry as the current code writes it: no load has to migrate it. -/
abbrev CurrentEntry := { entry : TombstoneEntry // isLegacy entry = false }

/-- A line of the log as `parseTombstoneLine` reads it. -/
abbrev LogLine := Option CurrentEntry

structure AppendInput where
  reason : TombstoneReason
  createdBy : TombstoneCreatedBy
  sourceMemoryId : JsString
  rawContent : JsString
  entityRef : Option JsString := none
  supersessionKey : Option JsString := none
  operationKey : Option JsString := none
  createdAt : Option JsString := none
  contentHash : Option JsString := none
  deriving DecidableEq, Repr

/-- The clock as base 36 and as ISO text, and a random text. -/
structure Mint where
  time : JsString
  iso : JsString
  random : JsString
  deriving DecidableEq, Repr

def newTombstoneId (mint : Mint) : JsString := text "tomb-" ++ mint.time ++ text "-" ++ mint.random

def tombstoneEntry (host : Host) (nameSpace : JsString) (mint : Mint) (input : AppendInput) : CurrentEntry where
  val :=
    { id := newTombstoneId mint
      kind := .tombstone
      reason := input.reason
      sourceMemoryId := input.sourceMemoryId
      contentHash := input.contentHash.getD (host.hashContent input.rawContent)
      currentContentHashAlias :=
        if (truthy input.contentHash).any (· ≠ host.hashContent input.rawContent) then
          some (host.hashContent input.rawContent)
        else none
      normalizedText := host.normalizeText input.rawContent
      normalizerVersion := some tombstoneNormalizerVersion
      entityRef := truthy input.entityRef
      supersessionKey := truthy input.supersessionKey
      operationKey := truthy input.operationKey
      nameSpace
      createdAt := input.createdAt.getD mint.iso
      createdBy := input.createdBy }
  property := by simp [isLegacy]

def revocationEntry (nameSpace : JsString) (mint : Mint) (tombstoneId : JsString) (createdBy : TombstoneCreatedBy) :
    CurrentEntry where
  val :=
    { id := newTombstoneId mint
      kind := .revocation
      reason := .correction
      sourceMemoryId := []
      contentHash := []
      normalizedText := []
      nameSpace
      createdAt := mint.iso
      createdBy
      revokes := some tombstoneId }
  property := by simp [isLegacy]

def entriesOf (lines : List LogLine) : List TombstoneEntry := (lines.filterMap id).map Subtype.val

variable {Process Call : Type}

/-- The store of one process: its fields, the call whose synchronous part is not over,
and how many lines its stamp stands for. -/
structure Store (Call : Type) where
  index : Index
  loaded : Bool
  loading : Option Call
  fileMtimeMs : Int
  running : Option Call
  stampedAt : Nat

/-- What a load is part of: a read, the start of a mutation, or a mutation under the lock. -/
inductive Goal where
  | read (since : Nat)
  | enter (entry : CurrentEntry)
  | sync (entry : CurrentEntry)
  deriving DecidableEq

/-- What a call does next. -/
inductive Phase (Call : Type) where
  | idle
  | stamping (goal : Goal)
  | reading (goal : Goal)
  | publishing (goal : Goal) (content : Option (List LogLine))
  | joining (entry : CurrentEntry) (other : Call)
  | waiting (entry : CurrentEntry)
  | syncing (entry : CurrentEntry)
  | appending (entry : CurrentEntry)
  | releasing (entry : CurrentEntry) (position : Nat)
  | indexing (entry : CurrentEntry) (position : Nat)
  deriving DecidableEq

/-- A read that has returned: the lines that were durable before it, and the index it leaves. -/
structure Answer where
  since : Nat
  index : Index

structure World (Process Call : Type) where
  file : Option (List LogLine)
  mtimeMs : Int
  lock : Option Call
  stores : Process → Store Call
  phases : Call → Phase Call
  answers : List Answer

def World.lines (world : World Process Call) : List LogLine := world.file.getD []

/-- New processes before a log; the stamp 0 of a new store stands for a file of that time. -/
def initial (file : Option (List LogLine)) (mtimeMs : Int) : World Process Call where
  file
  mtimeMs
  lock := none
  stores _ := ⟨.empty, false, none, 0, none, if mtimeMs = 0 then (file.getD []).length else 0⟩
  phases _ := .idle
  answers := []

inductive Action (Call : Type) where
  | ensureFreshAgainstDisk (call : Call)
  | appendTombstone (call : Call) (mint : Mint) (input : AppendInput)
  | revoke (call : Call) (mint : Mint) (tombstoneId : JsString) (createdBy : TombstoneCreatedBy)
  | recordFileMtime (call : Call)
  | read (call : Call)
  | readFails (call : Call)
  | publish (call : Call)
  | joined (call : Call)
  | acquire (call : Call)
  | giveUp (call : Call)
  | sync (call : Call)
  | write (call : Call) (mtimeMs : Int)
  | writeFails (call : Call)
  | release (call : Call)
  | markWritten (call : Call)

def Action.call : Action Call → Call
  | .ensureFreshAgainstDisk call | .appendTombstone call _ _ | .revoke call _ _ _ | .recordFileMtime call | .read call
  | .readFails call | .publish call | .joined call | .acquire call | .giveUp call | .sync call | .write call _
  | .writeFails call | .release call | .markWritten call => call

variable [DecidableEq Process] [DecidableEq Call] (owner : Call → Process) (host : Host) (nameSpace : Process → JsString)

def World.at (world : World Process Call) (call : Call) (phase : Phase Call) : World Process Call :=
  { world with phases := Function.update world.phases call phase }

def World.store (world : World Process Call) (process : Process) (store : Store Call) : World Process Call :=
  { world with stores := Function.update world.stores process store }

/-- `recordFileMtime`: a missing file keeps the stamp. -/
def Store.stamp (store : Store Call) (world : World Process Call) : Store Call :=
  match world.file with
  | some lines => { store with fileMtimeMs := world.mtimeMs, stampedAt := lines.length }
  | none => store

def Store.invalidate (store : Store Call) : Store Call := { store with index := .empty, loaded := false, loading := none }

/-- Whether the probe finds nothing to do. -/
def Store.current (store : Store Call) (world : World Process Call) : Bool :=
  world.file.isNone || (store.fileMtimeMs = world.mtimeMs && store.loaded)

def World.answer (world : World Process Call) (process : Process) (since : Nat) : World Process Call :=
  { world with answers := ⟨since, (world.stores process).index⟩ :: world.answers }

/-- The start of an append or a revocation: `load` before anything else. -/
def World.enter (world : World Process Call) (call : Call) (entry : CurrentEntry) : World Process Call :=
  let store := world.stores (owner call)
  if store.loaded then world.at call (.waiting entry)
  else
    match store.loading with
    | some other => world.at call (.joining entry other)
    | none =>
      (world.store (owner call) { store with loading := some call, running := some call }).at call (.stamping (.enter entry))

/-- `finally` of `load`; the load under the lock has no promise of its own. -/
def Goal.settle (goal : Goal) (store : Store Call) : Store Call :=
  match goal with
  | .sync _ => store
  | .read _ | .enter _ => { store with loading := none }

def World.unlock (world : World Process Call) : Goal → World Process Call
  | .sync _ => { world with lock := none }
  | .read _ | .enter _ => world

/-- The store after a load has read the file; a missing file leaves the index as it is. -/
def Store.publish (store : Store Call) : Option (List LogLine) → Store Call
  | none => { store with loaded := true }
  | some lines => { store with index := indexAll .empty (entriesOf lines), loaded := true }

def World.resume (world : World Process Call) (call : Call) : Goal → World Process Call
  | .read since => (world.answer (owner call) since).at call .idle
  | .enter entry => world.at call (.waiting entry)
  | .sync entry => world.at call (.appending entry)

def Phase.isLoading : Phase Call → Bool
  | .stamping _ | .reading _ | .publishing _ _ => true
  | _ => false

def perform (world : World Process Call) : Action Call → Option (World Process Call)
  | .ensureFreshAgainstDisk call =>
    let store := world.stores (owner call)
    if world.phases call ≠ .idle then none
    else if store.current world then some ((world.answer (owner call) world.lines.length).at call .idle)
    else
      some ((world.store (owner call) { (store.stamp world).invalidate with loading := some call, running := some call }).at
        call (.stamping (.read world.lines.length)))
  | .appendTombstone call mint input =>
    if world.phases call ≠ .idle then none
    else some (world.enter owner call (tombstoneEntry host (nameSpace (owner call)) mint input))
  | .revoke call mint tombstoneId createdBy =>
    if world.phases call ≠ .idle then none
    else some (world.enter owner call (revocationEntry (nameSpace (owner call)) mint tombstoneId createdBy))
  | .recordFileMtime call =>
    match world.phases call with
    | .stamping goal =>
      some ((world.store (owner call) { (world.stores (owner call)).stamp world with running := none }).at call
        (.reading goal))
    | _ => none
  | .read call =>
    match world.phases call with
    | .reading goal => some (world.at call (.publishing goal world.file))
    | _ => none
  | .readFails call =>
    match world.phases call with
    | .reading goal =>
      some (((world.store (owner call) (goal.settle (world.stores (owner call)))).unlock goal).at call .idle)
    | _ => none
  | .publish call =>
    match world.phases call with
    | .publishing goal content =>
      some ((world.store (owner call) (goal.settle ((world.stores (owner call)).publish content))).resume owner call goal)
    | _ => none
  | .joined call =>
    match world.phases call with
    | .joining entry other => if (world.phases other).isLoading then none else some (world.at call (.waiting entry))
    | _ => none
  | .acquire call =>
    match world.phases call, world.lock with
    | .waiting entry, none => some ({ world with lock := some call }.at call (.syncing entry))
    | _, _ => none
  | .giveUp call =>
    match world.phases call with
    | .waiting _ => some (world.at call .idle)
    | _ => none
  | .sync call =>
    match world.phases call with
    | .syncing entry =>
      let store := world.stores (owner call)
      if store.current world then some (world.at call (.appending entry))
      else
        some ((world.store (owner call) { (store.stamp world).invalidate with running := some call }).at call
          (.stamping (.sync entry)))
    | _ => none
  | .write call mtimeMs =>
    match world.phases call with
    | .appending entry =>
      some ({ world with file := some (world.lines ++ [some entry]), mtimeMs }.at call (.releasing entry world.lines.length))
    | _ => none
  | .writeFails call =>
    match world.phases call with
    | .appending _ => some ({ world with lock := none }.at call .idle)
    | _ => none
  | .release call =>
    match world.phases call with
    | .releasing entry position => some ({ world with lock := none }.at call (.indexing entry position))
    | _ => none
  | .markWritten call =>
    match world.phases call with
    | .indexing entry _ =>
      let store := world.stores (owner call)
      some ((world.store (owner call) ({ store with index := indexEntry store.index entry.val }.stamp world)).at call .idle)
    | _ => none

/-- A call does not interrupt the synchronous part of another call of its process. -/
def step (world : World Process Call) (action : Action Call) : Option (World Process Call) :=
  if (world.stores (owner action.call)).running.all (· = action.call) then perform owner host nameSpace world action
  else none

end Remnic.Tombstone.SharedLog
