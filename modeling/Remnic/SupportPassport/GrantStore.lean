import Mathlib.Data.List.Perm.Basic
import Remnic.Library.Interleaving
import Remnic.SupportPassport.Grants

/-!
The grant store: one file for each grant, a membership directory and an index
file for each owner, and the locks over them. Each operation of the store is a
program over single file operations, so that two of its file operations are
never one step.

A lock is held by one call at a time. A lock that a stopped call held is free
again. A file is replaced whole, or not at all, also when the operation reports
a failure.
-/

namespace Remnic.SupportPassport.GrantStore
open Library.Interleaving Text.CodeUnits Grants

/-- `.grants.lock`, the lock of a grant, and the lock of an owner's index. -/
inductive LockKey where
  | mutation
  | grant (grantId : GrantId)
  | owner (ownerHash : Digest)
  deriving DecidableEq

inductive Request where
  | create (input : CreateStoredGrantInput)
  | authenticate (grantId secret : JsString)
  | withAuthenticatedGrant (grantId secret : JsString) (task : GrantState → JsString)
  | listForOwner (space principal : JsString)
  | revoke (grantId space principal : JsString) (expectedStateVersion : Option Nat)

inductive Reply where
  | created (state : GrantState) (secret : JsString)
  | authenticated (state : GrantState)
  | result (value : JsString)
  | listed (states : List GrantState)
  | revoked (state : GrantState)

/-- What has happened so far: calls, identifiers drawn, actions of callers, and changes of files. -/
inductive Event where
  | called (process : Nat) (request : Request)
  | drew (process : Nat) (raw : JsString)
  | landed (state : GrantState)
  | removed (process : Nat) (grantId : GrantId) (was : Option GrantState) (time : Int)
  | enrolled (ownerHash : Digest) (grantId : GrantId)
  | indexed (ownerHash : Digest) (grantIds : List GrantId)
  | actionStarted (process : Nat)
  | actionEnded (process : Nat)

structure World where
  now : Int
  locks : LockKey → Option Nat
  states : GrantId → Option GrantState
  members : Digest → List GrantId
  index : Digest → Option (List GrantId)
  secretsDrawn : Nat
  idsDrawn : Nat
  log : List Event

def World.empty (now : Int) : World := ⟨now, fun _ => none, fun _ => none, fun _ => [], fun _ => none, 0, 0, []⟩

namespace World

def record (w : World) (event : Event) : World := { w with log := w.log ++ [event] }

def setLock (w : World) (key : LockKey) (holder : Option Nat) : World :=
  { w with locks := Function.update w.locks key holder }

/-- `rename` onto the file of the grant. -/
def land (w : World) (state : GrantState) : World :=
  { w with states := Function.update w.states state.grantId (some state), log := w.log ++ [.landed state] }

def remove (w : World) (process : Nat) (grantId : GrantId) : World :=
  { w with
    states := Function.update w.states grantId none
    log := w.log ++ [.removed process grantId (w.states grantId) w.now] }

def enroll (w : World) (ownerHash : Digest) (grantId : GrantId) : World :=
  { w with
    members := Function.update w.members ownerHash (insert grantId (w.members ownerHash))
    log := w.log ++ [.enrolled ownerHash grantId] }

def dismiss (w : World) (ownerHash : Digest) (grantId : GrantId) : World :=
  { w with members := Function.update w.members ownerHash ((w.members ownerHash).filter (· ≠ grantId)) }

def setIndex (w : World) (ownerHash : Digest) (grantIds : List GrantId) : World :=
  { w with
    index := Function.update w.index ownerHash (some grantIds)
    log := w.log ++ [.indexed ownerHash grantIds] }

/-- A stopped call loses its locks and leaves its files as they are. -/
def release (w : World) (process : Nat) : World :=
  { w with locks := fun key => if w.locks key = some process then none else w.locks key }

end World

/-- The files that an operation replaces or removes. -/
inductive FileChange where
  | putState (state : GrantState)
  | removeState (grantId : GrantId)
  | putMembership (ownerHash : Digest) (grantId : GrantId)
  | removeMembership (ownerHash : Digest) (grantId : GrantId)
  | putIndex (ownerHash : Digest) (grantIds : List GrantId)

def World.apply (w : World) (process : Nat) : FileChange → World
  | .putState state => w.land state
  | .removeState grantId => w.remove process grantId
  | .putMembership ownerHash grantId => w.enroll ownerHash grantId
  | .removeMembership ownerHash grantId => w.dismiss ownerHash grantId
  | .putIndex ownerHash grantIds => w.setIndex ownerHash grantIds

/-- What the store calls and waits for without a change of its files. -/
inductive Outside where
  | syncDirectory
  | beforeCommit
  | beforeReturn

inductive Op where
  | acquire (key : LockKey)
  | refresh (key : LockKey)
  | release (key : LockKey)
  | now
  | makeSecret
  | makeGrantId
  | lstatState (grantId : GrantId)
  | readState (grantId : GrantId)
  | readMembership (ownerHash : Digest)
  | readIndex (ownerHash : Digest)
  | change (change : FileChange)
  | outside (call : Outside)
  | startAction
  | endAction

@[reducible] def Answer : Op → Type
  | .acquire _ => Except Fault Bool
  | .refresh _ => Bool
  | .release _ => Unit
  | .now => Int
  | .makeSecret => List (Fin 256)
  | .makeGrantId => JsString
  | .lstatState _ => Except Fault Bool
  | .readState _ => Except Fault GrantState
  | .readMembership _ => Except Fault (List GrantId)
  | .readIndex _ => Except Fault (List GrantId)
  | .startAction => Unit
  | _ => Except Fault Unit

/-- How the surroundings let an operation end: done and reported, done and reported as failed, or
not done. A directory is listed in any order. -/
inductive Choice where
  | ok
  | late
  | fail
  | listed (order : List GrantId)

/-- An operation that changes files: it may have been carried out although it reports a failure. -/
def effect (w after : World) : Choice → Option (Except Fault Unit × World)
  | .ok => some (.ok (), after)
  | .late => some (.error .failed, after)
  | .fail => some (.error .failed, w)
  | .listed _ => none

def observe {α : Type} (w : World) (answer : Except Fault α) : Choice → Option (Except Fault α × World)
  | .ok => some (answer, w)
  | .listed _ => none
  | _ => some (.error .failed, w)

def perform (host : Host) (process : Nat) : (op : Op) → Choice → World → Option (Answer op × World)
  | .acquire key, choice, w =>
    match choice with
    | .ok => if w.locks key = none then some (.ok true, w.setLock key (some process)) else none
    | .late => some (.ok false, w)
    | .fail => some (.error .failed, w)
    | .listed _ => none
  | .refresh key, choice, w =>
    match choice with
    | .ok => some (decide (w.locks key = some process), w)
    | _ => some (false, w)
  | .release key, _, w => some ((), if w.locks key = some process then w.setLock key none else w)
  | .now, _, w => some (w.now, w)
  | .makeSecret, _, w => some (host.makeSecret w.secretsDrawn, { w with secretsDrawn := w.secretsDrawn + 1 })
  | .makeGrantId, _, w =>
    some (host.makeGrantId w.idsDrawn,
      { w with idsDrawn := w.idsDrawn + 1, log := w.log ++ [.drew process (host.makeGrantId w.idsDrawn)] })
  | .lstatState grantId, choice, w => observe w (.ok (w.states grantId).isSome) choice
  | .readState grantId, choice, w =>
    observe w (match w.states grantId with | some state => .ok state | none => .error .enoent) choice
  | .readMembership ownerHash, choice, w =>
    match choice with
    | .listed order => if order.isPerm (w.members ownerHash) then some (.ok order, w) else none
    | choice => observe w (.ok (w.members ownerHash)) choice
  | .readIndex ownerHash, choice, w =>
    observe w (match w.index ownerHash with | some grantIds => .ok grantIds | none => .error .enoent) choice
  | .change change, choice, w => effect w (w.apply process change) choice
  | .outside _, choice, w => observe w (.ok ()) choice
  | .startAction, _, w => some ((), w.record (.actionStarted process))
  | .endAction, choice, w =>
    some (match choice with | .ok => .ok () | _ => .error .failed, w.record (.actionEnded process))

abbrev Store (α : Type) := Prog Op Answer StoreError α

abbrev ask (op : Op) : Store (Answer op) := Prog.ask op

def fallible {α : Type} (operation : Store (Except Fault α)) : Store α := do
  match ← operation with
  | .ok value => pure value
  | .error fault => throw (.fault fault)

def checked {α : Type} : Except StoreError α → Store α
  | .ok value => pure value
  | .error error => throw error

def withExclusiveLock {α : Type} (key : LockKey) (task : Store α) : Store α := do
  match ← ask (.acquire key) with
  | .ok true => task.ensuring (.release key)
  | .ok false => throw storeBusy
  | .error fault => throw (.fault fault)

def withMutationLock {α : Type} (task : Store α) : Store α := withExclusiveLock .mutation task

def withGrantLock {α : Type} (grantId : GrantId) (task : Store α) : Store α := withExclusiveLock (.grant grantId) task

def withOwnerIndexLock {α : Type} (ownerHash : Digest) (task : Store α) : Store α :=
  withExclusiveLock (.owner ownerHash) task

def requireMutationLock (key : LockKey) : Store Unit := do
  if ← ask (.refresh key) then pure () else throw storeChanged

def requireOwnerIndexLock (ownerHash : Digest) : Store Unit := do
  if ← ask (.refresh (.owner ownerHash)) then pure () else throw .ownerIndexLockLost

def requireActiveState (state : GrantState) : Store Unit := do
  if state.revokedAt.isSome then throw grantGone
  else
    let now ← ask .now
    if state.expiresAt ≤ now then throw grantExpired else pure ()

def readState (grantId : GrantId) : Store GrantState := do
  let state ← fallible (ask (.readState grantId))
  if state.grantId = grantId then pure state
  else throw (.malformedGrantState (text "support passport grant ID must match its file name"))

def writeState (state : GrantState) (requireAbsent : Bool) : Store Unit := do
  let present ← fallible (ask (.lstatState state.grantId))
  if present && requireAbsent then throw notAllocated
  else fallible (ask (.change (.putState state)))

def removeGrantStates (grantId : GrantId) : Store Unit := fallible (ask (.change (.removeState grantId)))

section Operations

variable (host : Host)

def writeOwnerMembership (state : GrantState) : Store Unit :=
  fallible (ask (.change (.putMembership (ownerHash host state.owner) state.grantId)))

def removeOwnerMembership (state : GrantState) : Store Unit :=
  fallible (ask (.change (.removeMembership (ownerHash host state.owner) state.grantId)))

def removeStoredGrant (state : GrantState) : Store Unit := do
  removeGrantStates state.grantId
  removeOwnerMembership host state

/-- The loop of `readOwnerMembershipStates`: an absent or malformed state is passed over. -/
def collectStates (owner : Owner) : List GrantId → Store (List GrantState)
  | [] => pure []
  | grantId :: rest => do
    match ← (readState grantId).attempt with
    | .ok state =>
      let others ← collectStates owner rest
      pure (if state.owner = owner then state :: others else others)
    | .error (.fault .enoent) => collectStates owner rest
    | .error (.malformedGrantState _) => collectStates owner rest
    | .error error => throw error

def readOwnerMembershipStates (owner : Owner) : Store (List GrantState) := do
  let grantIds ← fallible (ask (.readMembership (ownerHash host owner)))
  collectStates owner grantIds

def requireAvailableOwnerGrantSlot (owner : Owner) : Store Unit := do
  let activeCutoff ← ask .now
  let states ← readOwnerMembershipStates host owner
  if (states.filter (·.isActive activeCutoff)).length ≥ maxOwnerGrantHistory then throw tooManyActive else pure ()

/-- An absent index is empty; a list that the reader refuses is no index. -/
def readOwnerIndexByHash (hash : Digest) : Store (List GrantId) := do
  match ← ask (.readIndex hash) with
  | .ok grantIds =>
    if grantIds.Nodup ∧ grantIds.length ≤ maxOwnerGrantHistory then pure grantIds
    else throw (.invalid (text "support passport owner index is invalid"))
  | .error .enoent => pure []
  | .error fault => throw (.fault fault)

def writeOwnerIndexWhileLocked (hash : Digest) (grantIds : List GrantId) : Store Unit := do
  requireOwnerIndexLock hash
  fallible (ask (.change (.putIndex hash grantIds)))
  requireOwnerIndexLock hash

def removeLocked (state : GrantState) : Store Unit :=
  withGrantLock state.grantId do
    requireMutationLock (.grant state.grantId)
    removeStoredGrant host state

def removeAllLocked : List GrantState → Store Unit
  | [] => pure ()
  | state :: rest => do
    removeLocked host state
    removeAllLocked rest

/-- The removal of one state does not stop the others; each failure is a warning. -/
def removeEachLocked : List GrantState → Store Unit
  | [] => pure ()
  | state :: rest => do
    let _ ← (removeLocked host state).attempt
    removeEachLocked rest

/-- The other grants that stay in the index when a new one is added; `cutoff` is read only when
the history is full. -/
def retainedBesides (others : List GrantState) (cutoff : Int) : Except StoreError (List GrantState) :=
  let active := others.filter (·.isActive cutoff)
  if active.length ≥ maxOwnerGrantHistory then .error tooManyActive
  else
    let inactive := sortNewest (others.filter fun state => !state.isActive cutoff)
    .ok (active ++ inactive.take (maxOwnerGrantHistory - active.length - 1))

def retainedOthers (others : List GrantState) : Store (List GrantState) :=
  if others.length ≥ maxOwnerGrantHistory then do
    let expiryCutoff ← ask .now
    checked (retainedBesides others expiryCutoff)
  else pure others

def addToOwnerIndex (state : GrantState) : Store Unit := do
  let hash := ownerHash host state.owner
  let members ← readOwnerMembershipStates host state.owner
  let ownerStates := sortNewest (members.filter fun item => item.grantId ≠ state.grantId)
  let retained ← retainedOthers ownerStates
  let grantIds := retained.map GrantState.grantId ++ [state.grantId]
  writeOwnerIndexWhileLocked hash grantIds
  let _ ← (removeAllLocked host (ownerStates.filter fun item => item.grantId ∉ grantIds)).attempt
  pure ()

def retainedOwnerStates (states : List GrantState) (activeCutoff : Int) : Except StoreError (List GrantState) :=
  let active := states.filter (·.isActive activeCutoff)
  if active.length > maxOwnerGrantHistory then .error storeTooManyActive
  else
    let inactive := sortNewest (states.filter fun state => !state.isActive activeCutoff)
    .ok (active ++ inactive.take (maxOwnerGrantHistory - active.length))

/-- What `create` has stored before it turns to the index. -/
structure Created where
  state : GrantState
  secret : JsString

/-- The states of the owner with the committed one in its place, or last. -/
def withCommitted (states : List GrantState) (state : GrantState) : List GrantState :=
  if states.any (·.grantId = state.grantId) then
    states.map fun item => if item.grantId = state.grantId then state else item
  else states ++ [state]

def reconcileCommittedGrant (committed : Created) : Store Created := do
  let hash := ownerHash host committed.state.owner
  match ← (readState committed.state.grantId).attempt with
  | .error _ => throw storeChanged
  | .ok persisted =>
    if persisted ≠ committed.state then throw storeChanged
    else
      let members ← readOwnerMembershipStates host committed.state.owner
      let ownerStates := withCommitted members committed.state
      let activeCutoff ← ask .now
      let full := decide ((ownerStates.filter (·.isActive activeCutoff)).length > maxOwnerGrantHistory)
      if full then removeLocked host committed.state else pure ()
      let remaining := if full then ownerStates.filter fun item => item.grantId ≠ committed.state.grantId else ownerStates
      let retained ← checked (retainedOwnerStates remaining activeCutoff)
      writeOwnerIndexWhileLocked hash (retained.map GrantState.grantId)
      removeEachLocked host (remaining.filter fun item => item.grantId ∉ retained.map GrantState.grantId)
      if full then throw storeChanged else pure committed

def reconcileAttempts (committed : Created) : Nat → Store Created
  | 0 => throw storeChanged
  | attempts + 1 => do
    match ← (withOwnerIndexLock (ownerHash host committed.state.owner) (reconcileCommittedGrant host committed)).attempt with
    | .ok finalized => pure finalized
    | .error .ownerIndexLockLost => reconcileAttempts committed attempts
    | .error error => throw error

def reconcileCreateAfterOwnerIndexLockLoss (committed : Created) : Store Created :=
  reconcileAttempts host committed maxOwnerIndexRecoveryAttempts

/-- The state file of a new grant; a write that reports a failure after it landed is made durable,
or the file is removed. -/
def storeNewState (state : GrantState) : Store Unit := do
  match ← (writeState state true).attempt with
  | .ok _ => pure ()
  | .error error =>
    match ← (readState state.grantId).attempt with
    | .error _ => throw error
    | .ok persisted =>
      if persisted ≠ state then throw error
      else
        match ← (fallible (ask (.outside .syncDirectory))).attempt with
        | .ok _ => pure ()
        | .error _ =>
          let _ ← (removeGrantStates state.grantId).attempt
          throw error

/-- The part of `create` under the mutation lock, up to the assignment of `committed`. -/
def allocate (input : ParsedInput) : Store Created := do
  let secretBytes ← ask .makeSecret
  if secretBytes.length ≠ 32 then
    throw (.invalid (text "SupportPassportGrantStore.makeSecret must return 32 bytes"))
  else
    let rawGrantId ← ask .makeGrantId
    match grantIdOf rawGrantId with
    | none => throw (.invalid (text "SupportPassportGrantStore.makeGrantId must return a UUID"))
    | some grantId =>
      let secret := base64url secretBytes
      let createdAt ← ask .now
      let state ← checked (newGrantState host input grantId secret createdAt)
      requireMutationLock .mutation
      fallible (ask (.outside .beforeCommit))
      requireMutationLock .mutation
      storeNewState state
      match ← (writeOwnerMembership host state).attempt with
      | .ok _ => pure ⟨state, secret⟩
      | .error error =>
        let _ ← (removeStoredGrant host state).attempt
        throw error

/-- The index of a committed grant; a write that reports a failure after it landed is made durable. -/
def indexCommitted (committed : Created) : Store Unit := do
  let hash := ownerHash host committed.state.owner
  match ← (addToOwnerIndex host committed.state).attempt with
  | .ok _ => pure ()
  | .error .ownerIndexLockLost => throw .ownerIndexLockLost
  | .error error =>
    match ← (readOwnerIndexByHash hash).attempt with
    | .error _ => throw error
    | .ok indexed =>
      if committed.state.grantId ∈ indexed then
        match ← (fallible (ask (.outside .syncDirectory))).attempt with
        | .error _ => throw error
        | .ok _ => requireOwnerIndexLock hash
      else throw error

/-- The part of `create` under the owner lock. The variable `committed` of the source is set once
this part has a grant, whatever becomes of the index. -/
def createLocked (input : ParsedInput) : Store (Created × Except StoreError Unit) := do
  requireAvailableOwnerGrantSlot host (input.owner host)
  let committed ← withMutationLock (allocate host input)
  let indexed ← (indexCommitted host committed).attempt
  pure (committed, indexed)

def finishCreate (committed : Created) : Except StoreError Unit → Store Created
  | .ok _ => pure committed
  | .error .ownerIndexLockLost => reconcileCreateAfterOwnerIndexLockLoss host committed
  | .error error => throw error

def create (input : CreateStoredGrantInput) : Store Created := do
  let now ← ask .now
  let parsed ← checked (parseCreateInput host input now)
  let (committed, indexed) ← withOwnerIndexLock (ownerHash host (parsed.owner host)) (createLocked host parsed)
  match ← (finishCreate host committed indexed).attempt with
  | .ok finalized => pure finalized
  | .error error =>
    let _ ← (removeLocked host committed.state).attempt
    throw error

def authenticate (grantId : JsString) (secret : JsString) : Store GrantState := do
  let normalizedGrantId ← checked (normalizeGrantId grantId)
  if secret.length > 512 then throw grantNotFound
  else
    match ← (readState normalizedGrantId).attempt with
    | .error (.fault .enoent) => throw grantNotFound
    | .error error => throw error
    | .ok state =>
      if secretHash host secret ≠ state.secretHash then throw grantNotFound
      else
        requireActiveState state
        pure state

def withAuthenticatedGrant (grantId secret : JsString) (task : GrantState → JsString) : Store JsString := do
  let normalizedGrantId ← checked (normalizeGrantId grantId)
  withGrantLock normalizedGrantId do
    let state ← authenticate host grantId secret
    ask .startAction
    fallible (ask .endAction)
    requireMutationLock (.grant normalizedGrantId)
    let finalState ← authenticate host grantId secret
    requireMutationLock (.grant normalizedGrantId)
    if finalState.stateVersion ≠ state.stateVersion then throw grantStale
    else
      requireActiveState finalState
      fallible (ask (.outside .beforeReturn))
      requireMutationLock (.grant normalizedGrantId)
      requireActiveState finalState
      pure (task state)

def listedOwnerStates (states : List GrantState) (activeCutoff : Int) : List GrantState :=
  let active := states.filter (·.isActive activeCutoff)
  let inactive := sortNewest (states.filter fun state => !state.isActive activeCutoff)
  active ++ inactive.take (maxOwnerGrantHistory - active.length)

/-- The order of a listing: active grants first, each part by age. -/
def activeFirst (activeCutoff : Int) (left right : GrantState) : Bool :=
  if left.isActive activeCutoff = right.isActive activeCutoff then newestGrantFirst left right
  else left.isActive activeCutoff

def listForOwner (space principal : JsString) : Store (List GrantState) := do
  let normalizedNamespace ← checked (normalizeNamespace host space)
  let normalizedPrincipal ← checked (normalizePrincipal principal)
  let activeCutoff ← ask .now
  let states ← readOwnerMembershipStates host ⟨normalizedNamespace, computeSupportPassportOwnerKey host normalizedPrincipal⟩
  pure ((listedOwnerStates states activeCutoff).mergeSort (activeFirst activeCutoff))

/-- The write of a revoked state; a write that reports a failure after it landed is made durable. -/
def storeRevoked (revoked : GrantState) : Store Unit := do
  match ← (writeState revoked false).attempt with
  | .ok _ => pure ()
  | .error error =>
    match ← (readState revoked.grantId).attempt with
    | .error _ => throw error
    | .ok persisted =>
      if persisted ≠ revoked then throw error else fallible (ask (.outside .syncDirectory))

def revokeLocked (grantId : GrantId) (space principal : JsString) (expectedStateVersion : Option Nat) : Store GrantState := do
  match ← (readState grantId).attempt with
  | .error (.fault .enoent) => throw grantNotFound
  | .error error => throw error
  | .ok state =>
    let normalizedPrincipal ← checked (normalizePrincipal principal)
    if state.owner ≠ ⟨space, computeSupportPassportOwnerKey host normalizedPrincipal⟩ then throw grantNotFound
    else if state.revokedAt.isSome then pure state
    else if expectedStateVersion.any (· ≠ state.stateVersion) then throw changedAfterLoad
    else
      let now ← ask .now
      requireMutationLock (.grant grantId)
      fallible (ask (.outside .beforeCommit))
      requireMutationLock (.grant grantId)
      storeRevoked (state.revokedAs now)
      pure (state.revokedAs now)

def revoke (grantId space principal : JsString) (expectedStateVersion : Option Nat) : Store GrantState := do
  let normalizedGrantId ← checked (normalizeGrantId grantId)
  let normalizedNamespace ← checked (normalizeNamespace host space)
  withGrantLock normalizedGrantId (revokeLocked host normalizedGrantId normalizedNamespace principal expectedStateVersion)

def start : Request → Store Reply
  | .create input => do
    let created ← create host input
    pure (.created created.state created.secret)
  | .authenticate grantId secret => do
    let state ← authenticate host grantId secret
    pure (.authenticated state)
  | .withAuthenticatedGrant grantId secret task => do
    let value ← withAuthenticatedGrant host grantId secret task
    pure (.result value)
  | .listForOwner space principal => do
    let states ← listForOwner host space principal
    pure (.listed states)
  | .revoke grantId space principal expectedStateVersion => do
    let state ← revoke host grantId space principal expectedStateVersion
    pure (.revoked state)

end Operations

/-- Calls of any number of processes and owners; the clock moves forward. -/
def grantMachine (host : Host) : Machine Op Answer StoreError World Choice Request Reply Nat where
  perform := perform host
  start := start host
  begins process request w := w.record (.called process request)
  stops process w := w.release process
  changes passed w := { w with now := w.now + passed }

abbrev Calls := Config Op Answer StoreError World Request Reply

def Reachable (host : Host) (c : Calls) : Prop := ∃ now, (grantMachine host).Runs (.initial (World.empty now)) c

end Remnic.SupportPassport.GrantStore
