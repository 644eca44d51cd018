import Remnic.Buffer.Handover

/-!
What one step of a drainer can change, and what a locked section may rely on:
the claim a section read is still the claim it writes, unless its owner released
it meanwhile.
-/

namespace Remnic.Buffer.Exclusion

open Turn DrainClaims Handover Option

/-- The files a drainer's step may change, and what it knows when it does. -/
inductive DrainerContent (s : State) (i : Nat) : DrainerAction → State → Prop where
  | same {action : DrainerAction} {next : State} :
      next.session = s.session → next.claim = s.claim → next.extracted = s.extracted → DrainerContent s i action next
  | renamed {next : State} (entry : BufferEntryState) :
      s.drainers i = .handingOver → s.claim = none → s.session = some entry → next.session = none →
        next.claim = some (ofSessionFile entry) → next.extracted = s.extracted → DrainerContent s i .claimRename next
  | dropped {next : State} (found : Option DrainClaimFile) (unlinked : Bool) :
      s.drainers i = .dropping found → next.session = s.session → next.claim = unlinkFile unlinked s.claim →
        next.extracted = s.extracted → DrainerContent s i (.dropClaim unlinked) next
  | wrote {next : State} (seen entry : BufferEntryState) (claim : DrainClaimFile) :
      s.drainers i = .writing seen entry claim → next.session = s.session →
        next.claim = some (writeEntry claim entry seen) →
        next.extracted = s.extracted ++ (writeEntry claim entry seen).tombstones →
          DrainerContent s i .progressWrite next

structure DrainerFrame (s : State) (i : Nat) (next : State) : Prop where
  memory : next.memory = s.memory
  dirty : next.dirty = s.dirty
  saving : next.saving = s.saving
  saved : next.saved = s.saved
  acknowledged : s.acknowledged ⊆ next.acknowledged
  others : ∀ j, j ≠ i → next.drainers j = s.drainers j

variable {next s : State} {action : DrainerAction} {i : Nat} {stage : DrainStage} {claim : Option DrainClaimFile}

theorem drainerStep_content (stepped : drainerStep s i action = some next) : DrainerContent s i action next := by
  cases action
  case claimRename =>
    simp only [drainerStep] at stepped
    split at stepped
    next stage =>
      split at stepped
      next entry unclaimed persisted =>
        cases stepped
        exact .renamed entry stage unclaimed persisted rfl rfl rfl
      next =>
        cases stepped
        exact .same rfl rfl rfl
    next => contradiction
  case dropClaim unlinked =>
    simp only [drainerStep] at stepped
    split at stepped
    next found stage =>
      cases stepped
      exact .dropped found unlinked stage rfl rfl rfl
    next => contradiction
  case progressWrite =>
    simp only [drainerStep] at stepped
    split at stepped
    next seen entry claim stage =>
      cases stepped
      exact .wrote seen entry claim stage rfl rfl rfl
    next => contradiction
  all_goals
    simp only [drainerStep] at stepped
    repeat' split at stepped
    all_goals first
      | contradiction
      | cases stepped
        exact .same rfl rfl rfl

theorem drainerStep_frame (stepped : drainerStep s i action = some next) : DrainerFrame s i next := by
  cases action
  all_goals
    simp only [drainerStep] at stepped
    repeat' split at stepped
    all_goals first
      | contradiction
      | cases stepped
        exact ⟨rfl, rfl, rfl, rfl, by simp [State.leave, State.at],
          fun j other => by simp [State.leave, State.at, other]⟩

def holdsSave : SaveStage → Bool
  | .merging | .writingMerge _ => true
  | _ => false

def holdsDrain : DrainStage → Bool
  | .handingOver | .inspecting | .dropping _ | .leasing | .judging _ | .creating _ | .fencing _ _ | .rereading _ _
  | .writing _ _ _ => true
  | _ => false

/-- What the owner knows of the claim between two steps of a save. -/
def knowsSave (claim : Option DrainClaimFile) : SaveStage → Prop
  | .writingMerge read => claim = some read
  | .checkingLease | .readingDrained | .writingFresh _ | .releasingClaim _ =>
    ∃ body, claim = some body ∧ body.tombstones ≠ []
  | _ => True

/-- What a drainer knows of the claim between two steps of a locked section. -/
def knowsDrain (claim : Option DrainClaimFile) : DrainStage → Prop
  | .inspecting => ∀ body, claim = some body → body.tombstones = []
  | .dropping found =>
    ∀ body, claim = some body → body.tombstones = [] ∧ (found.isSome → body.entry.isEmpty = true)
  | .writing _ _ read => ∀ body, claim = some body → body = read
  | _ => True

/-- The lock has one holder, and a claim changes under it only. -/
structure Exclusive (s : State) : Prop where
  ownerHolds : holdsSave s.saving = true → s.lock = some .owner
  drainerHolds : ∀ i, holdsDrain (s.drainers i) = true → s.lock = some (.drainer i)
  ownerKnows : knowsSave s.claim s.saving
  drainerKnows : ∀ i, knowsDrain s.claim (s.drainers i)

theorem exclusive_initial (start : Option BufferEntryState) : Exclusive (initial start) where
  ownerHolds := by simp [initial, holdsSave]
  drainerHolds := by simp [initial, holdsDrain]
  ownerKnows := trivial
  drainerKnows := fun _ => trivial

theorem knowsDrain_of_not_holds (outside : holdsDrain stage = false) : knowsDrain claim stage := by
  cases stage with
  | inspecting => cases outside
  | dropping found => cases outside
  | writing seen entry read => cases outside
  | _ => trivial

theorem knowsDrain_unlinked (unlinked : Bool) (knows : knowsDrain claim stage) : knowsDrain (unlinkFile unlinked claim) stage := by
  cases unlinked with
  | false => exact knows
  | true =>
    cases stage with
    | inspecting => intro body present; cases present
    | dropping found => intro body present; cases present
    | writing seen entry read => intro body present; cases present
    | _ => trivial

theorem drainerStep_lock (holder : holdsDrain (s.drainers i) = true → s.lock = some (.drainer i))
    (stepped : drainerStep s i action = some next) :
    (next.lock = s.lock ∨ s.lock = none ∨ s.lock = some (.drainer i)) ∧
      (holdsDrain (next.drainers i) = true → next.lock = some (.drainer i)) := by
  cases action
  all_goals
    simp only [drainerStep] at stepped
    repeat' split at stepped
    all_goals first
      | contradiction
      | cases stepped
        simp_all [State.leave, State.at, holdsDrain]

theorem drainerStep_knows (knows : knowsDrain s.claim (s.drainers i)) (stepped : drainerStep s i action = some next) :
    knowsDrain next.claim (next.drainers i) := by
  cases action
  case claimRead readable =>
    simp only [drainerStep] at stepped
    split at stepped
    next stage =>
      cases stepped
      rw [stage] at knows
      simp only [State.at, Function.update_self]
      split
      next => trivial
      next empty =>
        intro body present
        have bare := knows body present
        refine ⟨bare, fun found => ?_⟩
        cases readable with
        | false => cases found
        | true =>
          have read : readFile true s.claim = some body := present
          simpa [read] using empty
    next => contradiction
  case progressRead readable =>
    simp only [drainerStep] at stepped
    repeat' split at stepped
    next seen entry stage body read =>
      cases stepped
      simp only [State.at, Function.update_self]
      intro present same
      have readBody : s.claim = some body := by
        cases readable with
        | false => cases read
        | true => exact read
      exact some.inj (same.symm.trans readBody)
    all_goals first
      | contradiction
      | cases stepped
        simp [State.leave, State.at, knowsDrain]
  all_goals
    simp only [drainerStep] at stepped
    repeat' split at stepped
    all_goals first
      | contradiction
      | cases stepped
        simp_all [State.leave, State.at, knowsDrain, ofSessionFile, DrainClaimFile.tombstones]

/-- Every step of the owner, with the state it needs and the state it leaves. -/
inductive OwnerMove (s : State) : OwnerAction → State → Prop where
  | record (turn : BufferTurn) : s.saving = .idle →
      OwnerMove s (.record turn) { s with memory := some (recorded s.memory turn), dirty := true }
  | beginUnclaimed : s.saving = .idle → s.dirty = true → s.claim = none →
      OwnerMove s .beginSave { s with saving := .unclaimed }
  | beginClaimed : s.saving = .idle → s.dirty = true → s.claim.isSome = true →
      OwnerMove s .beginSave { s with saving := .claimed }
  | writeSession (entry : BufferEntryState) : s.saving = .unclaimed → s.memory = some entry →
      OwnerMove s .writeSession { s with session := some entry, saving := .settling { status := .saved } }
  | readFinished (readable : Bool) (body : DrainClaimFile) :
      s.saving = .claimed → s.claim = some body → body.finished = true →
        OwnerMove s (.readClaim readable) { s with saving := .checkingLease }
  | readUnfinished (readable : Bool) : s.saving = .claimed →
      OwnerMove s (.readClaim readable) { s with saving := .awaitingLock }
  | leased (readable : Bool) : s.saving = .checkingLease →
      OwnerMove s (.readLease readable) { s with saving := .awaitingLock }
  | unleased (readable : Bool) : s.saving = .checkingLease →
      OwnerMove s (.readLease readable) { s with saving := .readingDrained }
  | readDrained (readable : Bool) : s.saving = .readingDrained →
      OwnerMove s (.readDrained readable)
        { s with saving := .writingFresh (((readFile readable s.claim).map (·.drained)).getD []) }
  | writeFresh (drained : List BufferTurn) (entry : BufferEntryState) :
      s.saving = .writingFresh drained → s.memory = some entry →
        OwnerMove s .writeFresh { s with session := some (entry.subtract drained), saving := .releasingClaim drained }
  | unlinkClaim (unlinked : Bool) (drained : List BufferTurn) : s.saving = .releasingClaim drained →
      OwnerMove s (.unlinkClaim unlinked)
        { s with claim := unlinkFile unlinked s.claim, saving := .releasingLease drained }
  | unlinkLease (unlinked : Bool) (drained : List BufferTurn) : s.saving = .releasingLease drained →
      OwnerMove s (.unlinkLease unlinked)
        { s with
          lease := unlinkFile unlinked s.lease, saving := .settling { status := .saved, drainedTurns := drained } }
  | takeLock : s.saving = .awaitingLock → s.lock = none →
      OwnerMove s .takeLock { s with lock := some .owner, saving := .merging }
  | mergeRead (body : DrainClaimFile) : s.saving = .merging → s.claim = some body →
      OwnerMove s (.mergeRead true) { s with saving := .writingMerge body }
  | mergeVanished (readable : Bool) : s.saving = .merging → readFile readable s.claim = none →
      OwnerMove s (.mergeRead readable) { s with lock := none, saving := .settling { status := .handedOver } }
  | writeMerge (body : DrainClaimFile) (entry : BufferEntryState) :
      s.saving = .writingMerge body → s.memory = some entry →
        OwnerMove s .writeMerge
          { s with
            claim := some (mergeEntries body entry), lock := none, saving := .settling { status := .handedOver } }
  | settle (applied : Bool) (outcome : BufferSessionSaveOutcome) (entry : BufferEntryState) :
      s.saving = .settling outcome → s.memory = some entry →
        OwnerMove s (.settle applied)
          { s with
            dirty := false, saved := s.saved ++ entry.pending, saving := .idle
            memory := if applied then afterSave outcome entry else some entry }
  | failSave : OwnerMove s .failSave
      { s with saving := .idle, lock := if s.lock = some .owner then none else s.lock }

private theorem readFile_eq_some {Content : Type} {readable : Bool} {file : Option Content} {body : Content}
    (read : readFile readable file = some body) : readable = true ∧ file = some body := by
  cases readable with
  | false => cases read
  | true => exact ⟨rfl, read⟩

theorem ownerStep_move {action : OwnerAction} (stepped : ownerStep s action = some next) : OwnerMove s action next := by
  cases action
  case beginSave =>
    simp only [ownerStep] at stepped
    repeat' split at stepped
    next idle allowed claimed =>
      cases stepped
      simp only [Bool.and_eq_true] at allowed
      exact .beginClaimed idle allowed.1 claimed
    next idle allowed unclaimed =>
      cases stepped
      simp only [Bool.and_eq_true] at allowed
      exact .beginUnclaimed idle allowed.1 (by simpa using unclaimed)
    all_goals contradiction
  case readClaim readable =>
    simp only [ownerStep] at stepped
    repeat' split at stepped
    next claimed finished =>
      cases stepped
      obtain ⟨body, read, finished⟩ := (any_eq_true _ _).mp finished
      exact .readFinished readable body claimed (readFile_eq_some read).2 finished
    next claimed unfinished =>
      cases stepped
      exact .readUnfinished readable claimed
    all_goals contradiction
  case mergeRead readable =>
    simp only [ownerStep] at stepped
    repeat' split at stepped
    next merging _ body read =>
      cases stepped
      obtain ⟨rfl, present⟩ := readFile_eq_some read
      exact .mergeRead body merging present
    next merging _ vanished =>
      cases stepped
      exact .mergeVanished readable merging vanished
    all_goals contradiction
  case settle applied =>
    simp only [ownerStep] at stepped
    split at stepped
    next outcome entry settling present =>
      cases stepped
      exact .settle applied outcome entry settling present
    next => contradiction
  case failSave =>
    simp only [ownerStep] at stepped
    split at stepped
    case h_5 =>
      cases stepped
      exact .failSave
    all_goals contradiction
  all_goals
    simp only [ownerStep] at stepped
    repeat' split at stepped
    all_goals first
      | contradiction
      | cases stepped
        constructor <;> assumption

theorem DrainerContent.holds_or_same (content : DrainerContent s i action next) :
    next.claim = s.claim ∨ holdsDrain (s.drainers i) = true := by
  cases content with
  | same _ claim _ => exact .inl claim
  | renamed _ stage => exact .inr (by rw [stage, holdsDrain])
  | dropped _ _ stage => exact .inr (by rw [stage, holdsDrain])
  | wrote _ _ _ stage => exact .inr (by rw [stage, holdsDrain])

section

variable (inv : Exclusive s)
include inv

theorem not_holdsDrain_of_lock {j : Nat} (other : s.lock ≠ some (.drainer j)) : holdsDrain (s.drainers j) = false := by
  by_contra holds
  exact other (inv.drainerHolds j (by simpa using holds))

theorem knowsSave_of_locked (locked : s.lock = some (.drainer i))
    (kept : ∀ body, s.claim = some body → body.tombstones ≠ [] → ∃ next, claim = some next ∧ next.tombstones ≠ []) :
    knowsSave claim s.saving := by
  have knows := inv.ownerKnows
  have holds := inv.ownerHolds
  rw [locked] at holds
  cases stage : s.saving with
  | writingMerge read =>
    rw [stage] at holds
    cases holds rfl
  | checkingLease | readingDrained | writingFresh drained | releasingClaim drained =>
    rw [stage] at knows
    obtain ⟨body, present, marked⟩ := knows
    exact kept body present marked
  | _ => trivial

theorem ownerKnows_drainerStep (content : DrainerContent s i action next) : knowsSave next.claim s.saving := by
  have locked := inv.drainerHolds i
  have knows := inv.drainerKnows i
  cases content with
  | same _ claim _ => rw [claim]; exact inv.ownerKnows
  | renamed entry stage unclaimed =>
    rw [stage] at locked
    apply knowsSave_of_locked inv (locked rfl)
    intro body present
    rw [unclaimed] at present
    cases present
  | dropped found unlinked stage =>
    rw [stage] at locked knows
    apply knowsSave_of_locked inv (locked rfl)
    intro body present marked
    exact absurd (knows body present).1 marked
  | wrote seen entry claim stage _ written =>
    rw [stage] at locked knows
    apply knowsSave_of_locked inv (locked rfl)
    intro body present marked
    refine ⟨_, written, fun bare => marked ?_⟩
    have grown := tombstones_subset_writeEntry claim entry seen
    rw [bare, ← knows body present] at grown
    exact List.subset_nil.mp grown

theorem exclusive_drainerStep (stepped : drainerStep s i action = some next) : Exclusive next := by
  have frame := drainerStep_frame stepped
  have content := drainerStep_content stepped
  obtain ⟨lock, holds⟩ := drainerStep_lock (inv.drainerHolds i) stepped
  have keepsLock : ∀ holder, s.lock = some holder → holder ≠ .drainer i → next.lock = some holder := by
    intro holder held other
    rcases lock with same | free | own
    · rw [same, held]
    · rw [free] at held
      cases held
    · rw [own] at held
      exact absurd (some.inj held).symm other
  constructor
  · intro saving
    rw [frame.saving] at saving
    exact keepsLock _ (inv.ownerHolds saving) (by simp)
  · intro j held
    by_cases same : j = i
    · subst same
      exact holds held
    · rw [frame.others j same] at held
      exact keepsLock _ (inv.drainerHolds j held) (by simpa using same)
  · rw [frame.saving]
    exact ownerKnows_drainerStep inv content
  · intro j
    by_cases same : j = i
    · subst same
      exact drainerStep_knows (inv.drainerKnows j) stepped
    · rw [frame.others j same]
      rcases content.holds_or_same with claim | locked
      · rw [claim]
        exact inv.drainerKnows j
      · apply knowsDrain_of_not_holds
        apply not_holdsDrain_of_lock inv
        rw [inv.drainerHolds i locked]
        simpa using Ne.symm same

theorem exclusive_ownerStep {action : OwnerAction} (stepped : ownerStep s action = some next) : Exclusive next := by
  have move := ownerStep_move stepped
  have knows := inv.ownerKnows
  have holds := inv.ownerHolds
  cases move with
  | record turn idle => exact ⟨holds, inv.drainerHolds, knows, inv.drainerKnows⟩
  | readFinished readable body claimed present finished =>
    refine ⟨nofun, inv.drainerHolds, ⟨body, present, ?_⟩, inv.drainerKnows⟩
    intro bare
    simp [DrainClaimFile.finished, bare] at finished
  | unleased readable checking =>
    rw [checking] at knows
    exact ⟨nofun, inv.drainerHolds, knows, inv.drainerKnows⟩
  | readDrained readable reading =>
    rw [reading] at knows
    exact ⟨nofun, inv.drainerHolds, knows, inv.drainerKnows⟩
  | writeFresh drained entry writing =>
    rw [writing] at knows
    exact ⟨nofun, inv.drainerHolds, knows, inv.drainerKnows⟩
  | unlinkClaim unlinked drained releasing =>
    exact ⟨nofun, inv.drainerHolds, trivial, fun j => knowsDrain_unlinked unlinked (inv.drainerKnows j)⟩
  | takeLock waiting free =>
    refine ⟨fun _ => rfl, fun j held => ?_, trivial, inv.drainerKnows⟩
    rw [inv.drainerHolds j held] at free
    cases free
  | mergeRead body merging present =>
    rw [merging] at holds
    exact ⟨fun _ => holds rfl, inv.drainerHolds, present, inv.drainerKnows⟩
  | mergeVanished readable merging vanished =>
    rw [merging] at holds
    have outside := fun j => not_holdsDrain_of_lock inv (j := j) (by simp [holds rfl])
    exact ⟨nofun, fun j held => by simp [outside j] at held, trivial, inv.drainerKnows⟩
  | writeMerge body entry writing =>
    rw [writing] at holds
    have outside := fun j => not_holdsDrain_of_lock inv (j := j) (by simp [holds rfl])
    exact ⟨nofun, fun j held => by simp [outside j] at held, trivial,
      fun j => knowsDrain_of_not_holds (outside j)⟩
  | failSave =>
    refine ⟨nofun, fun j held => ?_, trivial, inv.drainerKnows⟩
    simp [inv.drainerHolds j held]
  | _ => exact ⟨nofun, inv.drainerHolds, trivial, inv.drainerKnows⟩

theorem exclusive_step {action : Action} (stepped : step s action = some next) : Exclusive next := by
  cases action with
  | owner action => exact exclusive_ownerStep inv stepped
  | drainer i action => exact exclusive_drainerStep inv stepped

end

theorem staleStep_remember {entry : BufferEntryState} (stepped : staleStep s (.remember entry) = some next) :
    next = { s with memory := some entry, dirty := true } := by
  simp only [staleStep] at stepped
  split at stepped
  next => exact (some.inj stepped).symm
  next => contradiction

theorem exclusive_staleStep {action : StaleAction} (inv : Exclusive s) (stepped : staleStep s action = some next) :
    Exclusive next := by
  cases action with
  | live action => exact exclusive_step inv stepped
  | remember entry =>
    rw [staleStep_remember stepped]
    exact ⟨inv.ownerHolds, inv.drainerHolds, inv.ownerKnows, inv.drainerKnows⟩

end Remnic.Buffer.Exclusion
