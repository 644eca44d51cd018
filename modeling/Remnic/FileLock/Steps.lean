import Mathlib.Logic.Function.Basic

/-!
The lock file of `withHeldFileLock`, one file-system operation at a time. A call
is one use of the lock, with an owner id of its own; the text it writes into the
file identifies it. A file is an inode, which a rename moves and a link restores.
-/

namespace Remnic.FileLock.Steps

variable {Call : Type}

/-- The text of a lock file: empty, or written by a call. -/
abbrev Content (Call : Type) := Option Call

/-- The file a call has looked at, and the number of files there had been when it was judged stale. -/
structure Judgement where
  inode : Nat
  since : Nat
  deriving DecidableEq, Repr

inductive Stage (Call : Type) where
  | idle
  | opening
  | writing (own : Nat)
  | closing (own : Nat) (wroteMeta : Bool)
  | undoing (own : Nat)
  | entering (own : Nat)
  | statting
  | judging (inode : Nat) (mtimeMs : Int)
  | reading (judgement : Judgement)
  | rereading (judgement : Judgement) (staleIdentity : Content Call)
  | restatting (judgement : Judgement) (staleIdentity : Content Call)
  | rejudging (judgement : Judgement) (staleIdentity : Content Call) (mtimeMs : Int)
  | renaming (judgement : Judgement) (staleIdentity : Content Call)
  | verifying (moved : Nat) (staleIdentity : Content Call)
  | statingTrash (moved : Nat)
  | judgingTrash (moved : Nat) (mtimeMs : Int)
  | restoring (moved : Nat)
  | discarding
  | polling
  | critical (own : Nat)
  | prechecking (own : Nat)
  | claiming (own : Nat)
  | rechecking (moved : Nat)
  | returning (moved : Nat)
  | finished
  deriving DecidableEq, Repr

structure Settings where
  staleMs : Int
  maxWaitMs : Int

/-- The file system, the clock, the calls, and when each call last refreshed its own file. -/
structure World (Call : Type) where
  lockPath : Option Nat
  content : Nat → Content Call
  mtimeMs : Nat → Int
  nextInode : Nat
  now : Int
  stages : Call → Stage Call
  deadlines : Call → Int
  ownershipReads : Call → List Int
  refreshedAt : Call → Int

def initial (now : Int) : World Call where
  lockPath := none
  content _ := none
  mtimeMs _ := now
  nextInode := 0
  now
  stages _ := .idle
  deadlines _ := now
  ownershipReads _ := []
  refreshedAt _ := now

inductive Action (Call : Type) where
  | tick (elapsed : Nat)
  | acquire (call : Call) (madeDir : Bool)
  | openExclusive (call : Call) (failed : Bool)
  | writeMeta (call : Call) (written : Bool)
  | close (call : Call) (closed : Bool)
  | unlinkMalformed (call : Call)
  | enter (call : Call)
  | stat (call : Call)
  | judge (call : Call)
  | readIdentity (call : Call)
  | reread (call : Call)
  | restat (call : Call)
  | rejudge (call : Call)
  | breakFails (call : Call)
  | rename (call : Call)
  | readTrash (call : Call) (read : Bool)
  | statTrash (call : Call) (known : Bool)
  | judgeTrash (call : Call)
  | restore (call : Call)
  | discard (call : Call)
  | poll (call : Call)
  | leave (call : Call)
  | precheck (call : Call) (read : Bool)
  | claim (call : Call)
  | recheck (call : Call) (read : Bool)
  | giveBack (call : Call)
  | readOwner (call : Call)
  | utimes (call : Call) (date : Int)

variable [DecidableEq Call]

def World.at (world : World Call) (call : Call) (stage : Stage Call) : World Call :=
  { world with stages := Function.update world.stages call stage }

/-- Whether a file with a time is judged stale now. -/
def isStale (settings : Settings) (world : World Call) (mtimeMs : Int) : Bool := settings.staleMs < world.now - mtimeMs

/-- The inode a call has created and writes to or works under. -/
def Stage.own : Stage Call → Option Nat
  | .writing own | .closing own _ | .undoing own | .entering own | .critical own | .prechecking own | .claiming own => some own
  | _ => none

/-- `open` with flag `wx` at an empty lock path: a new inode. -/
def World.create (world : World Call) (call : Call) : World Call :=
  { world with
    lockPath := some world.nextInode
    mtimeMs := Function.update world.mtimeMs world.nextInode world.now
    nextInode := world.nextInode + 1
    stages := Function.update world.stages call (.writing world.nextInode)
    refreshedAt := Function.update world.refreshedAt call world.now }

/-- The metadata reaches the inode of the handle, wherever its name is. -/
def World.writeMeta (world : World Call) (call : Call) (own : Nat) : World Call :=
  { world with
    content := Function.update world.content own (some call)
    mtimeMs := Function.update world.mtimeMs own world.now
    stages := Function.update world.stages call (.closing own true)
    refreshedAt := Function.update world.refreshedAt call world.now }

/-- `utimes` on the path: it reaches whatever file is there. -/
def World.touch (world : World Call) (call : Call) (inode : Nat) (date : Int) : World Call :=
  { world with
    mtimeMs := Function.update world.mtimeMs inode date
    refreshedAt :=
      if (world.stages call).own = some inode then
        Function.update world.refreshedAt call (max (world.refreshedAt call) date)
      else world.refreshedAt }

/-- `link` back to the lock path unless a lock is there. -/
def World.relink (world : World Call) (moved : Nat) : World Call :=
  { world with lockPath := some (world.lockPath.getD moved) }

/-- `acquireLock`, up to the start of the task. -/
def acquireStep (settings : Settings) (world : World Call) : Action Call → Option (World Call)
  | .acquire call madeDir =>
    if world.stages call ≠ .idle then none
    else if madeDir then
      some ({ world with deadlines := Function.update world.deadlines call (world.now + settings.maxWaitMs) }.at call .opening)
    else some (world.at call .finished)
  | .openExclusive call failed =>
    if world.stages call ≠ .opening then none
    else if failed then some (world.at call .finished)
    else
      match world.lockPath with
      | none => some (world.create call)
      | some _ => some (world.at call .statting)
  | .writeMeta call written =>
    match world.stages call with
    | .writing own => some (if written then world.writeMeta call own else world.at call (.closing own false))
    | _ => none
  | .close call closed =>
    match world.stages call with
    | .closing own wroteMeta => some (world.at call (if wroteMeta && closed then .entering own else .undoing own))
    | _ => none
  | .unlinkMalformed call =>
    match world.stages call with
    | .undoing _ => some ({ world with lockPath := none }.at call .finished)
    | _ => none
  | .enter call =>
    match world.stages call with
    | .entering own => some (world.at call (.critical own))
    | _ => none
  | .poll call =>
    match world.stages call with
    | .polling => some (world.at call (if world.deadlines call ≤ world.now then .finished else .opening))
    | _ => none
  | _ => none

/-- `breakStaleLock`, up to the rename. -/
def checkStep (settings : Settings) (world : World Call) : Action Call → Option (World Call)
  | .stat call =>
    match world.stages call, world.lockPath with
    | .statting, some inode => some (world.at call (.judging inode (world.mtimeMs inode)))
    | .statting, none => some (world.at call .polling)
    | _, _ => none
  | .judge call =>
    match world.stages call with
    | .judging inode mtimeMs =>
      some (world.at call (if isStale settings world mtimeMs then .reading ⟨inode, world.nextInode⟩ else .polling))
    | _ => none
  | .readIdentity call =>
    match world.stages call, world.lockPath with
    | .reading judgement, some inode => some (world.at call (.rereading judgement (world.content inode)))
    | .reading _, none => some (world.at call .polling)
    | _, _ => none
  | .reread call =>
    match world.stages call, world.lockPath with
    | .rereading judgement staleIdentity, some inode =>
      some (world.at call (if world.content inode = staleIdentity then .restatting judgement staleIdentity else .polling))
    | .rereading _ _, none => some (world.at call .polling)
    | _, _ => none
  | .restat call =>
    match world.stages call, world.lockPath with
    | .restatting judgement staleIdentity, some inode =>
      some (world.at call (.rejudging judgement staleIdentity (world.mtimeMs inode)))
    | .restatting _ _, none => some (world.at call .polling)
    | _, _ => none
  | .rejudge call =>
    match world.stages call with
    | .rejudging judgement staleIdentity mtimeMs =>
      some (world.at call (if isStale settings world mtimeMs then .renaming judgement staleIdentity else .polling))
    | _ => none
  | .breakFails call =>
    match world.stages call with
    | .statting | .reading _ | .rereading _ _ | .restatting _ _ | .renaming _ _ => some (world.at call .polling)
    | _ => none
  | _ => none

/-- `breakStaleLock`, from the rename. -/
def breakStep (settings : Settings) (world : World Call) : Action Call → Option (World Call)
  | .rename call =>
    match world.stages call, world.lockPath with
    | .renaming _ staleIdentity, some inode => some ({ world with lockPath := none }.at call (.verifying inode staleIdentity))
    | .renaming _ _, none => some (world.at call .polling)
    | _, _ => none
  | .readTrash call read =>
    match world.stages call with
    | .verifying moved staleIdentity =>
      some (world.at call
        (if !read then .discarding
        else if world.content moved = staleIdentity then .statingTrash moved
        else .restoring moved))
    | _ => none
  | .statTrash call known =>
    match world.stages call with
    | .statingTrash moved =>
      some (world.at call (if known then .judgingTrash moved (world.mtimeMs moved) else .discarding))
    | _ => none
  | .judgeTrash call =>
    match world.stages call with
    | .judgingTrash moved mtimeMs =>
      some (world.at call (if isStale settings world mtimeMs then .discarding else .restoring moved))
    | _ => none
  | .restore call =>
    match world.stages call with
    | .restoring moved => some ((world.relink moved).at call .polling)
    | _ => none
  | .discard call =>
    match world.stages call with
    | .discarding => some (world.at call .polling)
    | _ => none
  | _ => none

/-- `releaseLock`, from the end of the task. -/
def releaseStep (world : World Call) : Action Call → Option (World Call)
  | .leave call =>
    match world.stages call with
    | .critical own => some (world.at call (.prechecking own))
    | _ => none
  | .precheck call read =>
    match world.stages call with
    | .prechecking own =>
      some (world.at call
        (if read && world.lockPath.any (fun inode => world.content inode = some call) then .claiming own else .finished))
    | _ => none
  | .claim call =>
    match world.stages call, world.lockPath with
    | .claiming _, some inode => some ({ world with lockPath := none }.at call (.rechecking inode))
    | .claiming _, none => some (world.at call .finished)
    | _, _ => none
  | .recheck call read =>
    match world.stages call with
    | .rechecking moved =>
      some (world.at call (if read && world.content moved ≠ some call then .returning moved else .finished))
    | _ => none
  | .giveBack call =>
    match world.stages call with
    | .returning moved => some ((world.relink moved).at call .finished)
    | _ => none
  | _ => none

/-- Whether a heartbeat or a refresh of the call may be under way: it has held the lock. -/
def Stage.mayRefresh : Stage Call → Bool
  | .critical _ | .prechecking _ | .claiming _ | .rechecking _ | .returning _ | .finished => true
  | _ => false

/-- The heartbeat and `refreshHeldLock`: read the owner, then touch the path with a date
taken in between. -/
def refreshStep (world : World Call) : Action Call → Option (World Call)
  | .readOwner call =>
    if (world.stages call).mayRefresh && world.lockPath.any fun inode => world.content inode = some call then
      some { world with
        ownershipReads := Function.update world.ownershipReads call (world.now :: world.ownershipReads call) }
    else none
  | .utimes call date =>
    match (world.ownershipReads call).find? (· ≤ date) with
    | none => none
    | some read =>
      let answered : World Call :=
        { world with ownershipReads := Function.update world.ownershipReads call ((world.ownershipReads call).erase read) }
      if world.now < date then none
      else
        match world.lockPath with
        | some inode => some (answered.touch call inode date)
        | none => some answered
  | _ => none

def step (settings : Settings) (world : World Call) (action : Action Call) : Option (World Call) :=
  match action with
  | .tick elapsed => some { world with now := world.now + elapsed }
  | .acquire _ _ | .openExclusive _ _ | .writeMeta _ _ | .close _ _ | .unlinkMalformed _ | .enter _ | .poll _ =>
    acquireStep settings world action
  | .stat _ | .judge _ | .readIdentity _ | .reread _ | .restat _ | .rejudge _ | .breakFails _ => checkStep settings world action
  | .rename _ | .readTrash _ _ | .statTrash _ _ | .judgeTrash _ | .restore _ | .discard _ => breakStep settings world action
  | .leave _ | .precheck _ _ | .claim _ | .recheck _ _ | .giveBack _ => releaseStep world action
  | .readOwner _ | .utimes _ _ => refreshStep world action

end Remnic.FileLock.Steps
