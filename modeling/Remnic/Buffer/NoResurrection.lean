import Remnic.Buffer.NoLostTurn

/-!
What a save of the owner writes back. While the claim records a turn as drained,
no write of the owner puts the turn into the session file or back among the
pending turns, whatever copy the owner holds, as long as the save subtracts what
the claim records and no list repeats an identity.
-/

namespace Remnic.Buffer.NoResurrection

open Library.Transition Turn DrainClaims Handover Exclusion NoLostTurn Option

def restoredBy (next : State) : StaleAction → List BufferTurn
  | .live (.owner .writeSession) | .live (.owner .writeFresh) =>
    (entryTurns next.session).filter fun turn => decide (turn ∈ claimTombstones next.claim)
  | .live (.owner .writeMerge) =>
    (claimPending next.claim).filter fun turn => decide (turn ∈ claimTombstones next.claim)
  | _ => []

def savedTombstone : SaveStage → List BufferTurn
  | .writingFresh drained => drained
  | _ => []

/-- No copy of the owner and no entry a drainer writes repeats an identity within
a list; a plain session write meets no claim that already records drained turns;
and the owner's copy shares no turn with the tombstone beyond the drained list
that its save has read. -/
def Subtracts (s : State) : StaleAction → Prop
  | .remember entry => entry.Once
  | .live (.owner (.record turn)) => turn ∉ (s.memory.getD emptyEntry).turns
  | .live (.drainer _ (.progress entry)) => entry.Once
  | .live (.owner .writeSession) => claimTombstones s.claim = []
  | .live (.owner .writeFresh) =>
    ∀ turn ∈ entryTurns s.memory, turn ∈ claimTombstones s.claim → turn ∈ savedTombstone s.saving
  | _ => True

instance (s : State) (action : StaleAction) : Decidable (Subtracts s action) := by
  unfold Subtracts
  split
  · infer_instance
  · infer_instance
  · infer_instance
  · infer_instance
  · infer_instance
  · infer_instance

def onceFile (file : Option BufferEntryState) : Prop := ∀ entry, file = some entry → entry.Once

/-- The entries a drainer carries between the steps of a progress write. -/
def onceDrain : DrainStage → Prop
  | .progressing _ entry | .fencing _ entry | .rereading _ entry => entry.Once
  | .writing _ entry claim => entry.Once ∧ claim.entry.Once
  | _ => True

/-- No list of the session file, the owner's copy or the claim repeats an identity. -/
structure OnceEverywhere (s : State) : Prop where
  session : onceFile s.session
  memory : onceFile s.memory
  claim : ∀ body, s.claim = some body → body.entry.Once
  drainers : ∀ i, onceDrain (s.drainers i)

theorem onceEverywhere_initial : OnceEverywhere (initial none) :=
  ⟨nofun, nofun, nofun, fun _ => trivial⟩

variable {i : Nat} {s next : State} {action : DrainerAction}

theorem drainerStep_once (claim : ∀ body, s.claim = some body → body.entry.Once) (carried : onceDrain (s.drainers i))
    (meets : Subtracts s (.live (.drainer i action))) (stepped : drainerStep s i action = some next) :
    onceDrain (next.drainers i) := by
  cases action
  case progressRead readable =>
    simp only [drainerStep] at stepped
    repeat' split at stepped
    next seen entry stage _ body read =>
      cases stepped
      rw [stage] at carried
      simp only [State.at, Function.update_self]
      cases readable with
      | false => cases read
      | true => exact ⟨carried, claim body read⟩
    all_goals first
      | contradiction
      | cases stepped
        simp [State.leave, State.at, onceDrain]
  all_goals
    simp only [drainerStep] at stepped
    repeat' split at stepped
    all_goals first
      | contradiction
      | cases stepped
        simp_all [State.leave, State.at, onceDrain, Subtracts]

theorem onceFile_recorded {memory : Option BufferEntryState} {turn : BufferTurn} (once : onceFile memory)
    (fresh : turn ∉ (memory.getD emptyEntry).turns) : (recorded memory turn).Once := by
  have before : (memory.getD emptyEntry).Once := by
    cases memory with
    | none => exact ⟨List.nodup_nil, List.nodup_nil⟩
    | some entry => exact once entry rfl
  refine ⟨before.1.append (List.nodup_singleton turn) ?_, before.2⟩
  simpa using fresh

theorem onceFile_afterSave {outcome : BufferSessionSaveOutcome} {entry : BufferEntryState} (once : entry.Once) :
    onceFile (afterSave outcome entry) := by
  intro left present
  obtain ⟨status, drained⟩ := outcome
  cases status with
  | saved =>
    cases present
    exact once_subtract once drained
  | handedOver => cases present

theorem onceEverywhere_drainerStep (inv : OnceEverywhere s) (meets : Subtracts s (.live (.drainer i action)))
    (stepped : drainerStep s i action = some next) : OnceEverywhere next := by
  have frame := drainerStep_frame stepped
  have content := drainerStep_content stepped
  have carried : ∀ j, onceDrain (next.drainers j) := by
    intro j
    by_cases same : j = i
    · subst same
      exact drainerStep_once inv.claim (inv.drainers j) meets stepped
    · rw [frame.others j same]
      exact inv.drainers j
  have memory : onceFile next.memory := frame.memory ▸ inv.memory
  cases content with
  | same session claim => exact ⟨session ▸ inv.session, memory, claim ▸ inv.claim, carried⟩
  | renamed entry _ _ persisted moved claimed =>
    refine ⟨moved ▸ nofun, memory, ?_, carried⟩
    intro body present
    rw [claimed] at present
    cases present
    exact inv.session entry persisted
  | dropped _ unlinked _ session claim =>
    refine ⟨session ▸ inv.session, memory, ?_, carried⟩
    intro body present
    rw [claim] at present
    cases unlinked with
    | false => exact inv.claim body present
    | true => cases present
  | wrote seen entry claim stage session written =>
    have held := inv.drainers i
    rw [stage] at held
    refine ⟨session ▸ inv.session, memory, ?_, carried⟩
    intro body present
    rw [written] at present
    cases present
    exact once_writeEntry seen held.2 held.1

theorem onceEverywhere_ownerStep {action : OwnerAction} (exclusive : Exclusive s) (inv : OnceEverywhere s)
    (meets : Subtracts s (.live (.owner action))) (stepped : ownerStep s action = some next) : OnceEverywhere next := by
  have move := ownerStep_move stepped
  have knows := exclusive.ownerKnows
  cases move with
  | record turn idle =>
    refine ⟨inv.session, ?_, inv.claim, inv.drainers⟩
    intro entry present
    cases present
    exact onceFile_recorded inv.memory meets
  | writeSession entry unclaimed present =>
    refine ⟨?_, inv.memory, inv.claim, inv.drainers⟩
    intro stored same
    cases same
    exact inv.memory entry present
  | writeFresh drained entry writing present =>
    refine ⟨?_, inv.memory, inv.claim, inv.drainers⟩
    intro stored same
    cases same
    exact once_subtract (inv.memory entry present) drained
  | unlinkClaim unlinked drained releasing =>
    refine ⟨inv.session, inv.memory, ?_, inv.drainers⟩
    intro body present
    cases unlinked with
    | false => exact inv.claim body present
    | true => cases present
  | writeMerge body entry writing present =>
    rw [writing] at knows
    refine ⟨inv.session, inv.memory, ?_, inv.drainers⟩
    intro merged same
    cases same
    exact once_mergeEntries (inv.claim body knows) entry
  | settle applied outcome entry settling present =>
    refine ⟨inv.session, ?_, inv.claim, inv.drainers⟩
    cases applied with
    | false =>
      intro stored same
      cases same
      exact inv.memory entry present
    | true => exact onceFile_afterSave (inv.memory entry present)
  | _ => exact ⟨inv.session, inv.memory, inv.claim, inv.drainers⟩

theorem onceEverywhere_staleStep {action : StaleAction} (exclusive : Exclusive s) (inv : OnceEverywhere s)
    (meets : Subtracts s action) (stepped : staleStep s action = some next) : OnceEverywhere next := by
  cases action with
  | live action =>
    cases action with
    | owner action => exact onceEverywhere_ownerStep exclusive inv meets stepped
    | drainer i action => exact onceEverywhere_drainerStep inv meets stepped
  | remember entry =>
    rw [staleStep_remember stepped]
    refine ⟨inv.session, ?_, inv.claim, inv.drainers⟩
    intro stored same
    cases same
    exact meets

theorem invariant_of_reaches (reached : Reaches staleStep Subtracts (initial none) s) : Exclusive s ∧ OnceEverywhere s := by
  apply reached.invariant fun s => Exclusive s ∧ OnceEverywhere s
  · exact ⟨exclusive_initial none, onceEverywhere_initial⟩
  · intro s action next inv meets stepped
    exact ⟨exclusive_staleStep inv.1 stepped, onceEverywhere_staleStep inv.1 inv.2 meets stepped⟩

private theorem filter_eq_nil {turns gone : List BufferTurn} (apart : ∀ turn ∈ turns, turn ∉ gone) :
    turns.filter (fun turn => decide (turn ∈ gone)) = [] := by
  rw [List.filter_eq_nil_iff]
  intro turn member
  simpa using apart turn member

/-- A deferred turn is saved, claimed and drained; the owner's copy still holds it
when its next save consumes the tombstone. -/
def deferredSession : List StaleAction :=
  .remember { turns := [], retainedTurns := [firstTurn] } ::
  ([.owner .beginSave, .owner .writeSession, .owner (.settle true),
    .drainer 2 (.preRead true), .drainer 2 .claimLock, .drainer 2 .claimRename, .drainer 2 (.claimRead true),
    .drainer 2 .claimLease,
    .drainer 2 (.load true), .drainer 2 .adoptBegin, .drainer 2 .adoptLock,
    .drainer 2 (.adoptJudge true false true true),
    .drainer 2 (.progress emptyEntry), .drainer 2 .progressLock, .drainer 2 (.progressFence true),
    .drainer 2 (.progressRead true), .drainer 2 .progressWrite,
    .drainer 2 (.ackFence true), .drainer 2 (.ackRead true), .drainer 2 (.ackUnlink true),
    .owner (.record secondTurn), .owner .beginSave, .owner (.readClaim true), .owner (.readLease true),
    .owner (.readDrained true)] : List Action).map .live

end Remnic.Buffer.NoResurrection
