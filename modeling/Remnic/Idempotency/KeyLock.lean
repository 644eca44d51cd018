import Mathlib.Logic.Function.Basic

/-!
`withExclusiveFileLock` with the functions that remove its lock file, one file-system
operation at a time. A call is one use of the lock. A file is an inode; its name may be gone
while a call still has it open.
-/

namespace Remnic.Idempotency.KeyLock

structure Stat where
  inode : Nat
  mtimeMs : Int
  deriving DecidableEq, Repr

/-- The text of a lock file: empty, or the owner token of an attempt, named by the inode the attempt has created. -/
abbrev Content := Option Nat

/-- What a call has seen of the lock it has found: its text, if that could be read, and its time. -/
structure Observation where
  observedOwner : Option Content
  observedMtimeMs : Int
  deriving DecidableEq, Repr

/-- Why a call wants the reclaim lock. A call that releases its lock starts over if its callback
has thrown an error that `isAlreadyExistsError` accepts. -/
inductive Purpose where
  | unlinkLockIfOwner (ownerToken : Nat) (startsOver : Bool)
  | unlinkStaleLockIfUnchanged (observation : Observation)
  deriving DecidableEq, Repr

inductive Stage where
  | idle
  | opening
  | writing (own : Nat)
  | undoing (own : Nat)
  | critical (own : Nat)
  | statting
  | readingOwner (mtimeMs : Int)
  | judging (observation : Observation)
  | openingReclaim (purpose : Purpose)
  | stattingReclaim (purpose : Purpose)
  | judgingReclaim (purpose : Purpose) (mtimeMs : Int)
  | unlinkingReclaim (purpose : Purpose)
  | reopeningReclaim (purpose : Purpose)
  | writingReclaim (purpose : Purpose) (reclaim : Nat)
  | restatting (observation : Observation) (reclaim : Nat)
  | rejudging (observation : Observation) (reclaim : Nat) (currentStat : Stat)
  | rereading (observation : Observation) (reclaim : Nat) (currentStat : Stat)
  | unlinkingStale (observation : Observation) (reclaim : Nat) (currentStat : Stat)
  | openingOwn (ownerToken : Nat) (startsOver : Bool) (reclaim : Nat)
  | readingOwn (ownerToken : Nat) (startsOver : Bool) (reclaim opened : Nat)
  | stattingOwn (ownerToken : Nat) (startsOver : Bool) (reclaim opened : Nat)
  | unlinkingOwn (ownerToken : Nat) (startsOver : Bool) (reclaim opened : Nat)
  | dropping (purpose : Purpose) (reclaim : Nat) (failed : Bool)
  | finished
  | crashed
  deriving DecidableEq, Repr

structure Settings where
  staleLockMs : Int
  timeoutMs : Int

variable {Call : Type}

/-- The file system, the clock, and the calls. Each call has the heartbeats that are under way. -/
structure World (Call : Type) where
  lockPath : Option Nat
  reclaimPath : Option Nat
  content : Nat → Content
  mtimeMs : Nat → Int
  nextInode : Nat
  now : Int
  stages : Call → Stage
  startedAt : Call → Int
  beats : Call → List Int

def initial (now : Int) : World Call where
  lockPath := none
  reclaimPath := none
  content _ := none
  mtimeMs _ := now
  nextInode := 0
  now
  stages _ := .idle
  startedAt _ := now
  beats _ := []

/-- A call goes on with its next operation, which may fail; or it enters, leaves, or stops for good. -/
inductive Action (Call : Type) where
  | tick (elapsed : Nat)
  | acquire (call : Call) (madeDir : Bool)
  | proceed (call : Call) (works : Bool)
  | leave (call : Call) (startsOver : Bool)
  | crash (call : Call)
  | beat (call : Call)
  | utimes (call : Call) (date : Int)

/-- Whether a file with a time is judged stale now. -/
def isStale (settings : Settings) (world : World Call) (mtimeMs : Int) : Bool :=
  settings.staleLockMs < world.now - mtimeMs

/-- The stage after the function that wanted the reclaim lock, which may have thrown. -/
def Purpose.after : Purpose → Bool → Stage
  | .unlinkLockIfOwner _ startsOver, failed => if startsOver && !failed then .statting else .finished
  | .unlinkStaleLockIfUnchanged _, _ => .opening

def Purpose.body (reclaim : Nat) : Purpose → Stage
  | .unlinkLockIfOwner ownerToken startsOver => .openingOwn ownerToken startsOver reclaim
  | .unlinkStaleLockIfUnchanged observation => .restatting observation reclaim

variable [DecidableEq Call]

def World.at (world : World Call) (call : Call) (stage : Stage) : World Call :=
  { world with stages := Function.update world.stages call stage }

/-- `open` with flag `wx` where no file is: a new inode. -/
def World.create (world : World Call) : World Call :=
  { world with
    mtimeMs := Function.update world.mtimeMs world.nextInode world.now
    nextInode := world.nextInode + 1 }

def World.write (world : World Call) (inode : Nat) (content : Content) : World Call :=
  { world with
    content := Function.update world.content inode content
    mtimeMs := Function.update world.mtimeMs inode world.now }

/-- `withExclusiveFileLock`: the attempt, and what follows an attempt that finds the lock taken. -/
def lockStep (settings : Settings) (world : World Call) (call : Call) (works : Bool) : Stage → Option (World Call)
  | .opening =>
    if !works then some (world.at call .finished)
    else
      match world.lockPath with
      | none => some ({ world.create with lockPath := some world.nextInode }.at call (.writing world.nextInode))
      | some _ => some (world.at call .statting)
  | .writing own =>
    if works then some ((world.write own (some own)).at call (.critical own)) else some (world.at call (.undoing own))
  | .undoing _ => some ({ world with lockPath := if works then none else world.lockPath }.at call .finished)
  | .statting =>
    match works, world.lockPath with
    | true, some inode => some (world.at call (.readingOwner (world.mtimeMs inode)))
    | _, _ => some (world.at call .opening)
  | .readingOwner mtimeMs =>
    some (world.at call (.judging ⟨if works then world.lockPath.map world.content else none, mtimeMs⟩))
  | .judging observation =>
    if isStale settings world observation.observedMtimeMs then
      some (world.at call (.openingReclaim (.unlinkStaleLockIfUnchanged observation)))
    else if settings.timeoutMs < world.now - world.startedAt call then some (world.at call .finished)
    else some (world.at call .opening)
  | _ => none

/-- `openStaleReclaimLock`, and the write to the reclaim file it has opened. -/
def reclaimStep (settings : Settings) (world : World Call) (call : Call) (works : Bool) : Stage → Option (World Call)
  | .openingReclaim purpose =>
    if !works then some (world.at call (purpose.after true))
    else
      match world.reclaimPath with
      | none =>
        some ({ world.create with reclaimPath := some world.nextInode }.at call (.writingReclaim purpose world.nextInode))
      | some _ => some (world.at call (.stattingReclaim purpose))
  | .stattingReclaim purpose =>
    match works, world.reclaimPath with
    | true, some inode => some (world.at call (.judgingReclaim purpose (world.mtimeMs inode)))
    | _, _ => some (world.at call (purpose.after false))
  | .judgingReclaim purpose mtimeMs =>
    if isStale settings world mtimeMs then some (world.at call (.unlinkingReclaim purpose))
    else some (world.at call (purpose.after false))
  | .unlinkingReclaim purpose =>
    match works, world.reclaimPath with
    | true, some _ => some ({ world with reclaimPath := none }.at call (.reopeningReclaim purpose))
    | _, _ => some (world.at call (purpose.after false))
  | .reopeningReclaim purpose =>
    if !works then some (world.at call (purpose.after true))
    else
      match world.reclaimPath with
      | none =>
        some ({ world.create with reclaimPath := some world.nextInode }.at call (.writingReclaim purpose world.nextInode))
      | some _ => some (world.at call (purpose.after false))
  | .writingReclaim purpose reclaim =>
    if works then some ((world.write reclaim none).at call (purpose.body reclaim))
    else some (world.at call (.dropping purpose reclaim true))
  | _ => none

/-- `unlinkStaleLockIfStillOwned`, up to the removal of the lock. -/
def staleStep (settings : Settings) (world : World Call) (call : Call) (works : Bool) : Stage → Option (World Call)
  | .restatting observation reclaim =>
    match works, world.lockPath with
    | true, some inode => some (world.at call (.rejudging observation reclaim ⟨inode, world.mtimeMs inode⟩))
    | _, _ => some (world.at call (.dropping (.unlinkStaleLockIfUnchanged observation) reclaim false))
  | .rejudging observation reclaim currentStat =>
    if currentStat.mtimeMs = observation.observedMtimeMs ∧ isStale settings world currentStat.mtimeMs then
      some (world.at call (.rereading observation reclaim currentStat))
    else some (world.at call (.dropping (.unlinkStaleLockIfUnchanged observation) reclaim false))
  | .rereading observation reclaim currentStat =>
    if (if works then world.lockPath.map world.content else none) = observation.observedOwner then
      some (world.at call (.unlinkingStale observation reclaim currentStat))
    else some (world.at call (.dropping (.unlinkStaleLockIfUnchanged observation) reclaim false))
  | .unlinkingStale observation reclaim _ =>
    some ({ world with lockPath := if works then none else world.lockPath }.at call
      (.dropping (.unlinkStaleLockIfUnchanged observation) reclaim (!works || world.lockPath.isNone)))
  | _ => none

/-- `unlinkLockIfOwnerWhileReclaimHeld`, and the removal of the reclaim file that ends both functions. -/
def ownStep (world : World Call) (call : Call) (works : Bool) : Stage → Option (World Call)
  | .openingOwn ownerToken startsOver reclaim =>
    match works, world.lockPath with
    | true, some inode => some (world.at call (.readingOwn ownerToken startsOver reclaim inode))
    | _, _ => some (world.at call (.dropping (.unlinkLockIfOwner ownerToken startsOver) reclaim false))
  | .readingOwn ownerToken startsOver reclaim opened =>
    if works && world.content opened = some ownerToken then
      some (world.at call (.stattingOwn ownerToken startsOver reclaim opened))
    else some (world.at call (.dropping (.unlinkLockIfOwner ownerToken startsOver) reclaim (!works)))
  | .stattingOwn ownerToken startsOver reclaim opened =>
    if works && world.lockPath = some opened then
      some (world.at call (.unlinkingOwn ownerToken startsOver reclaim opened))
    else some (world.at call (.dropping (.unlinkLockIfOwner ownerToken startsOver) reclaim false))
  | .unlinkingOwn ownerToken startsOver reclaim _ =>
    some ({ world with lockPath := if works then none else world.lockPath }.at call
      (.dropping (.unlinkLockIfOwner ownerToken startsOver) reclaim false))
  | .dropping purpose _ failed =>
    some ({ world with reclaimPath := if works then none else world.reclaimPath }.at call (purpose.after failed))
  | _ => none

def proceed (settings : Settings) (world : World Call) (call : Call) (works : Bool) : Option (World Call) :=
  match world.stages call with
  | .opening | .writing _ | .undoing _ | .statting | .readingOwner _ | .judging _ =>
    lockStep settings world call works (world.stages call)
  | .openingReclaim _ | .stattingReclaim _ | .judgingReclaim _ _ | .unlinkingReclaim _ | .reopeningReclaim _
  | .writingReclaim _ _ => reclaimStep settings world call works (world.stages call)
  | .restatting _ _ | .rejudging _ _ _ | .rereading _ _ _ | .unlinkingStale _ _ _ =>
    staleStep settings world call works (world.stages call)
  | .openingOwn _ _ _ | .readingOwn _ _ _ _ | .stattingOwn _ _ _ _ | .unlinkingOwn _ _ _ _ | .dropping _ _ _ =>
    ownStep world call works (world.stages call)
  | .idle | .critical _ | .finished | .crashed => none

/-- The heartbeat calls `utimes` with the time it starts at; the system answers later. -/
def step (settings : Settings) (world : World Call) : Action Call → Option (World Call)
  | .tick elapsed => some { world with now := world.now + elapsed }
  | .acquire call madeDir =>
    if world.stages call ≠ .idle then none
    else if madeDir then
      some ({ world with startedAt := Function.update world.startedAt call world.now }.at call .opening)
    else some (world.at call .finished)
  | .proceed call works => proceed settings world call works
  | .leave call startsOver =>
    match world.stages call with
    | .critical own => some (world.at call (.openingReclaim (.unlinkLockIfOwner own startsOver)))
    | _ => none
  | .crash call => some (world.at call .crashed)
  | .beat call =>
    match world.stages call with
    | .critical _ => some { world with beats := Function.update world.beats call (world.now :: world.beats call) }
    | _ => none
  | .utimes call date =>
    if date ∈ world.beats call then
      let answered : World Call := { world with beats := Function.update world.beats call ((world.beats call).erase date) }
      match world.lockPath with
      | some inode => some { answered with mtimeMs := Function.update world.mtimeMs inode date }
      | none => some answered
    else none

end Remnic.Idempotency.KeyLock
