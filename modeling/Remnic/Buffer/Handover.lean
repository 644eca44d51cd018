import Remnic.Buffer.DrainClaims
import Remnic.Library.Transition

/-!
One session shared by its buffer owner and any number of drainers. Each await of
the source is a step of its own, so a file may change between the read and the
write of one call. Reads may fail, in which case the caller sees no content, and
an unlink may fail silently. The claim's mutation lock is exclusive; a process
that stops gives its lock up.
-/

namespace Remnic.Buffer.Handover

open Turn DrainClaims

inductive LockHolder where
  | owner
  | drainer (i : Nat)
  deriving DecidableEq, Repr

inductive SaveStatus where
  | saved
  | handedOver
  deriving DecidableEq, Repr

structure BufferSessionSaveOutcome where
  status : SaveStatus
  drainedTurns : List BufferTurn := []
  deriving DecidableEq, Repr

inductive SaveStage where
  | idle
  | unclaimed
  | claimed
  | checkingLease
  | readingDrained
  | writingFresh (drained : List BufferTurn)
  | releasingClaim (drained : List BufferTurn)
  | releasingLease (drained : List BufferTurn)
  | awaitingLock
  | merging
  | writingMerge (claim : DrainClaimFile)
  | settling (outcome : BufferSessionSaveOutcome)
  deriving DecidableEq, Repr

/-- Where one drainer stands. `seen` is the entry it loaded, `entry` the one it
writes back, and a claim is the body it read under the lock. -/
inductive DrainStage where
  | idle
  | claiming
  | handingOver
  | inspecting
  | dropping (found : Option DrainClaimFile)
  | leasing
  | loaded (seen : BufferEntryState)
  | adopting (seen : BufferEntryState)
  | judging (seen : BufferEntryState)
  | creating (seen : BufferEntryState)
  | draining (seen : BufferEntryState)
  | progressing (seen entry : BufferEntryState)
  | fencing (seen entry : BufferEntryState)
  | rereading (seen entry : BufferEntryState)
  | writing (seen entry : BufferEntryState) (claim : DrainClaimFile)
  | acking (seen : BufferEntryState)
  | acked (claim : Option DrainClaimFile)
  | releasing
  deriving DecidableEq, Repr

/-- The files of the session, its owner, its drainers, and three histories: the
turns whose save reported success, the turns a progress write recorded as
extracted, and those among them whose claim was acknowledged. -/
structure State where
  session : Option BufferEntryState
  claim : Option DrainClaimFile
  lease : Option Nat
  lock : Option LockHolder
  memory : Option BufferEntryState
  dirty : Bool
  saving : SaveStage
  drainers : Nat → DrainStage
  saved : List BufferTurn
  extracted : List BufferTurn
  acknowledged : List BufferTurn

/-- A session that was persisted before, if at all, and that nobody claimed. -/
def initial (start : Option BufferEntryState) : State where
  session := start
  claim := none
  lease := none
  lock := none
  memory := start
  dirty := false
  saving := .idle
  drainers := fun _ => .idle
  saved := (start.map BufferEntryState.pending).getD []
  extracted := []
  acknowledged := []

inductive OwnerAction where
  | record (turn : BufferTurn)
  | beginSave
  | writeSession
  | readClaim (readable : Bool)
  | readLease (readable : Bool)
  | readDrained (readable : Bool)
  | writeFresh
  | unlinkClaim (unlinked : Bool)
  | unlinkLease (unlinked : Bool)
  | takeLock
  | mergeRead (readable : Bool)
  | writeMerge
  | settle (applied : Bool)
  | failSave
  deriving DecidableEq, Repr

inductive DrainerAction where
  | preRead (readable : Bool)
  | claimLock
  | claimRename
  | claimRead (readable : Bool)
  | dropClaim (unlinked : Bool)
  | claimLease
  | load (readable : Bool)
  | adoptBegin
  | adoptLock
  | adoptJudge (readable expired alive unlinked : Bool)
  | adoptCreate
  | progress (entry : BufferEntryState)
  | progressLock
  | progressFence (readable : Bool)
  | progressRead (readable : Bool)
  | progressWrite
  | ackFence (readable : Bool)
  | ackRead (readable : Bool)
  | ackUnlink (unlinked : Bool)
  | releaseRead (readable : Bool)
  | releaseUnlink (unlinked : Bool)
  | stop
  deriving DecidableEq, Repr

inductive Action where
  | owner (action : OwnerAction)
  | drainer (i : Nat) (action : DrainerAction)
  deriving DecidableEq, Repr

/-- `readClaimBody`, `readLease`: a failed read and a missing file look alike. -/
def readFile {Content : Type} (readable : Bool) (file : Option Content) : Option Content :=
  if readable then file else none

def unlinkFile {Content : Type} (unlinked : Bool) (file : Option Content) : Option Content :=
  if unlinked then none else file

/-- What `saveUnlocked` leaves in memory after a persist pass that went through. -/
def afterSave (outcome : BufferSessionSaveOutcome) (entry : BufferEntryState) : Option BufferEntryState :=
  match outcome.status with
  | .saved => some (entry.subtract outcome.drainedTurns)
  | .handedOver => none

def recorded (memory : Option BufferEntryState) (turn : BufferTurn) : BufferEntryState :=
  let entry := memory.getD emptyEntry
  { entry with turns := entry.turns ++ [turn] }

/-- The owner's calls are serialized, so a turn is recorded only between saves.
A save that settles while another session of the same pass fails leaves the
memory as it is. -/
def ownerStep (s : State) : OwnerAction → Option State
  | .record turn => match s.saving with
    | .idle => some { s with memory := some (recorded s.memory turn), dirty := true }
    | _ => none
  | .beginSave => match s.saving with
    | .idle =>
      if s.dirty && s.memory.isSome then
        some { s with saving := if s.claim.isSome then .claimed else .unclaimed }
      else none
    | _ => none
  | .writeSession => match s.saving, s.memory with
    | .unclaimed, some entry => some { s with session := some entry, saving := .settling { status := .saved } }
    | _, _ => none
  | .readClaim readable => match s.saving with
    | .claimed =>
      some { s with
        saving := if (readFile readable s.claim).any (·.finished) then .checkingLease else .awaitingLock }
    | _ => none
  | .readLease readable => match s.saving with
    | .checkingLease =>
      some { s with saving := if (readFile readable s.lease).isSome then .awaitingLock else .readingDrained }
    | _ => none
  | .readDrained readable => match s.saving with
    | .readingDrained =>
      some { s with saving := .writingFresh (((readFile readable s.claim).map (·.drained)).getD []) }
    | _ => none
  | .writeFresh => match s.saving, s.memory with
    | .writingFresh drained, some entry =>
      some { s with session := some (entry.subtract drained), saving := .releasingClaim drained }
    | _, _ => none
  | .unlinkClaim unlinked => match s.saving with
    | .releasingClaim drained =>
      some { s with claim := unlinkFile unlinked s.claim, saving := .releasingLease drained }
    | _ => none
  | .unlinkLease unlinked => match s.saving with
    | .releasingLease drained =>
      some { s with
        lease := unlinkFile unlinked s.lease, saving := .settling { status := .saved, drainedTurns := drained } }
    | _ => none
  | .takeLock => match s.saving, s.lock with
    | .awaitingLock, none => some { s with lock := some .owner, saving := .merging }
    | _, _ => none
  | .mergeRead readable => match s.saving with
    | .merging => match readFile readable s.claim with
      | some claim => some { s with saving := .writingMerge claim }
      | none => some { s with lock := none, saving := .settling { status := .handedOver } }
    | _ => none
  | .writeMerge => match s.saving, s.memory with
    | .writingMerge claim, some entry =>
      some { s with
        claim := some (mergeEntries claim entry), lock := none, saving := .settling { status := .handedOver } }
    | _, _ => none
  | .settle applied => match s.saving, s.memory with
    | .settling outcome, some entry =>
      some { s with
        dirty := false, saved := s.saved ++ entry.pending, saving := .idle
        memory := if applied then afterSave outcome entry else some entry }
    | _, _ => none
  | .failSave => match s.saving with
    | .idle | .releasingClaim _ | .releasingLease _ | .settling _ => none
    | _ => some { s with saving := .idle, lock := if s.lock = some .owner then none else s.lock }

def State.at (s : State) (i : Nat) (stage : DrainStage) : State :=
  { s with drainers := Function.update s.drainers i stage }

/-- The end of a locked section: the next stage, with the lock given up. -/
def State.leave (s : State) (i : Nat) (stage : DrainStage) : State := { s.at i stage with lock := none }

def drainerStep (s : State) (i : Nat) : DrainerAction → Option State
  | .preRead readable => match s.drainers i with
    | .idle => some (if (readFile readable s.session).any (·.isEmpty) then s else s.at i .claiming)
    | _ => none
  | .claimLock => match s.drainers i, s.lock with
    | .claiming, none => some { s.at i .handingOver with lock := some (.drainer i) }
    | _, _ => none
  | .claimRename => match s.drainers i with
    | .handingOver => match s.claim, s.session with
      | none, some entry => some { s.at i .inspecting with session := none, claim := some (ofSessionFile entry) }
      | _, _ => some (s.leave i .idle)
    | _ => none
  | .claimRead readable => match s.drainers i with
    | .inspecting =>
      let found := readFile readable s.claim
      some (s.at i (if found.any (fun claim => !claim.entry.isEmpty) then .leasing else .dropping found))
    | _ => none
  | .dropClaim unlinked => match s.drainers i with
    | .dropping _ => some { s.leave i .idle with claim := unlinkFile unlinked s.claim }
    | _ => none
  | .claimLease => match s.drainers i with
    | .leasing => some { s.leave i .idle with lease := some i }
    | _ => none
  | .load readable => match s.drainers i with
    | .idle => match readFile readable s.claim with
      | some claim => some (s.at i (.loaded claim.entry))
      | none => some s
    | _ => none
  | .adoptBegin => match s.drainers i with
    | .loaded seen => some (s.at i (if s.claim.isSome then .adopting seen else .idle))
    | _ => none
  | .adoptLock => match s.drainers i, s.lock with
    | .adopting seen, none => some { s.at i (.judging seen) with lock := some (.drainer i) }
    | _, _ => none
  | .adoptJudge readable expired alive unlinked => match s.drainers i with
    | .judging seen => match readFile readable s.lease with
      | some owner =>
        if !expired && owner == i then some { s.leave i (.draining seen) with lease := some i }
        else if !expired && alive then some (s.leave i .idle)
        else some { s.at i (.creating seen) with lease := unlinkFile unlinked s.lease }
      | none => some (s.at i (.creating seen))
    | _ => none
  | .adoptCreate => match s.drainers i with
    | .creating seen =>
      if s.lease.isSome then some (s.leave i .idle)
      else some { s.leave i (.draining seen) with lease := some i }
    | _ => none
  | .progress entry => match s.drainers i with
    | .draining seen => some (s.at i (.progressing seen entry))
    | _ => none
  | .progressLock => match s.drainers i, s.lock with
    | .progressing seen entry, none => some { s.at i (.fencing seen entry) with lock := some (.drainer i) }
    | _, _ => none
  | .progressFence readable => match s.drainers i with
    | .fencing seen entry =>
      if readFile readable s.lease = some i then some (s.at i (.rereading seen entry))
      else some (s.leave i (.draining seen))
    | _ => none
  | .progressRead readable => match s.drainers i with
    | .rereading seen entry => match readFile readable s.claim with
      | some claim => some (s.at i (.writing seen entry claim))
      | none => some (s.leave i (.draining seen))
    | _ => none
  | .progressWrite => match s.drainers i with
    | .writing seen entry claim =>
      let next := writeEntry claim entry seen
      some { s.leave i (.draining seen) with claim := some next, extracted := s.extracted ++ next.tombstones }
    | _ => none
  | .ackFence readable => match s.drainers i with
    | .draining seen => some (s.at i (if readFile readable s.lease = some i then .acking seen else .draining seen))
    | _ => none
  | .ackRead readable => match s.drainers i with
    | .acking seen =>
      let found := readFile readable s.claim
      some (s.at i (if found.all (·.entry.isEmpty) then .acked found else .draining seen))
    | _ => none
  | .ackUnlink unlinked => match s.drainers i with
    | .acked claim =>
      some { s.at i .idle with
        lease := unlinkFile unlinked s.lease
        acknowledged := s.acknowledged ++ (claim.map (·.tombstones)).getD [] }
    | _ => none
  | .releaseRead readable => match s.drainers i with
    | .draining _ => some (s.at i (if readFile readable s.lease = some i then .releasing else .idle))
    | _ => none
  | .releaseUnlink unlinked => match s.drainers i with
    | .releasing => some { s.at i .idle with lease := unlinkFile unlinked s.lease }
    | _ => none
  | .stop => some { s.at i .idle with lock := if s.lock = some (.drainer i) then none else s.lock }

def step (s : State) : Action → Option State
  | .owner action => ownerStep s action
  | .drainer i action => drainerStep s i action

/-- The same system with an owner whose copy of the session may be any stale one. -/
inductive StaleAction where
  | live (action : Action)
  | remember (entry : BufferEntryState)
  deriving DecidableEq, Repr

def staleStep (s : State) : StaleAction → Option State
  | .live action => step s action
  | .remember entry => match s.saving with
    | .idle => some { s with memory := some entry, dirty := true }
    | _ => none

end Remnic.Buffer.Handover
