import Remnic.Buffer.NoResurrection

/-!
No turn stands twice in a claim. Each of the three changes of a claim keeps that
exactly when its input keeps the lists apart.
-/

namespace Remnic.Buffer.ClaimUnique

open Library.AppendNew Library.Transition Turn DrainClaims Handover Exclusion NoLostTurn NoResurrection List Option

/-- No identity occurs twice among the pending, retained and drained turns. -/
def Unique (claim : DrainClaimFile) : Prop := (claim.entry.pending ++ claim.tombstones).Nodup

instance (claim : DrainClaimFile) : Decidable (Unique claim) := inferInstanceAs (Decidable (Nodup _))

/-- A merge keeps the lists apart: the owner's entry repeats no drained turn within
a list, and no other turn is active on one side and retained on one side. -/
def MergesApart (claim : DrainClaimFile) (incoming : BufferEntryState) : Prop :=
  (∀ turn ∈ claim.tombstones, incoming.turns.count turn ≤ 1 ∧ incoming.retainedTurns.count turn ≤ 1) ∧
    ∀ turn ∈ claim.entry.turns ++ incoming.turns, turn ∉ claim.tombstones →
      turn ∉ claim.entry.retainedTurns ++ incoming.retainedTurns

instance (claim : DrainClaimFile) (incoming : BufferEntryState) : Decidable (MergesApart claim incoming) :=
  inferInstanceAs (Decidable (_ ∧ _))

/-- A written entry repeats no turn and holds no drained one. -/
def WritesApart (claim : DrainClaimFile) (entry : BufferEntryState) : Prop :=
  entry.pending.Nodup ∧ ∀ turn ∈ entry.pending, turn ∉ claim.tombstones

instance (claim : DrainClaimFile) (entry : BufferEntryState) : Decidable (WritesApart claim entry) :=
  inferInstanceAs (Decidable (_ ∧ _))

theorem unique_ofSessionFile_iff (entry : BufferEntryState) : Unique (ofSessionFile entry) ↔ entry.pending.Nodup := by
  rw [Unique, ofSessionFile_tombstones, append_nil]
  exact Iff.rfl

/-- The four lists of a claim, each without repetition and apart from the others. -/
structure Apart (claim : DrainClaimFile) : Prop where
  turns : claim.entry.turns.Nodup
  retained : claim.entry.retainedTurns.Nodup
  drained : claim.drained.Nodup
  drainedRetained : claim.drainedRetained.Nodup
  pending : ∀ turn ∈ claim.entry.turns, turn ∉ claim.entry.retainedTurns
  marked : ∀ turn ∈ claim.entry.pending, turn ∉ claim.tombstones
  tombstones : ∀ turn ∈ claim.drained, turn ∉ claim.drainedRetained

theorem unique_iff_apart (claim : DrainClaimFile) : Unique claim ↔ Apart claim := by
  rw [Unique, nodup_append', BufferEntryState.pending, DrainClaimFile.tombstones, nodup_append',
    nodup_append']
  constructor
  · intro unique
    obtain ⟨⟨turns, retained, pending⟩, ⟨drained, drainedRetained, tombstones⟩, marked⟩ := unique
    exact ⟨turns, retained, drained, drainedRetained, fun _ left right => pending left right,
      fun _ left right => marked left right, fun _ left right => tombstones left right⟩
  · intro apart
    exact ⟨⟨apart.turns, apart.retained, fun _ left right => apart.pending _ left right⟩,
      ⟨apart.drained, apart.drainedRetained, fun _ left right => apart.tombstones _ left right⟩,
      fun _ left right => apart.marked _ left right⟩

variable {next s : State} {action : DrainerAction} {i : Nat} {claim : DrainClaimFile}

private theorem tombstones_nodup (unique : Unique claim) : claim.tombstones.Nodup :=
  (nodup_append'.mp unique).2.1

/-- A turn outlives the subtraction of the tombstones if it is not among them or
if its list repeats it. -/
theorem mem_subtract_tombstones (unique : Unique claim) (turns : List BufferTurn) (turn : BufferTurn) :
    turn ∈ subtractBufferTurns turns claim.tombstones ↔
      turn ∈ turns ∧ turn ∉ claim.tombstones ∨ turn ∈ claim.tombstones ∧ 1 < turns.count turn := by
  rw [subtractBufferTurns_eq_diff]
  by_cases marked : turn ∈ claim.tombstones
  · rw [mem_diff_iff_count, count_eq_one_of_mem (tombstones_nodup unique) marked]
    simp [marked]
  · rw [mem_diff_of_not_mem marked]
    simp [marked]

theorem subtract_tombstones_self (unique : Unique claim) :
    subtractBufferTurns claim.entry.turns claim.tombstones = claim.entry.turns ∧
      subtractBufferTurns claim.entry.retainedTurns claim.tombstones = claim.entry.retainedTurns := by
  have apart := ((unique_iff_apart claim).mp unique).marked
  rw [subtractBufferTurns_eq_diff, subtractBufferTurns_eq_diff]
  exact ⟨diff_eq_self_of_disjoint fun turn held => apart turn (mem_append_left _ held),
    diff_eq_self_of_disjoint fun turn held => apart turn (mem_append_right _ held)⟩

theorem mem_mergeEntries_turns (unique : Unique claim) (incoming : BufferEntryState) (turn : BufferTurn) :
    turn ∈ (mergeEntries claim incoming).entry.turns ↔
      turn ∈ claim.entry.turns ∨ turn ∈ incoming.turns ∧ turn ∉ claim.tombstones ∨
        turn ∈ claim.tombstones ∧ 1 < incoming.turns.count turn := by
  simp only [mergeEntries, mem_mergeBufferTurnsByIdentity, (subtract_tombstones_self unique).1,
    mem_subtract_tombstones unique]

theorem mem_mergeEntries_retainedTurns (unique : Unique claim) (incoming : BufferEntryState) (turn : BufferTurn) :
    turn ∈ (mergeEntries claim incoming).entry.retainedTurns ↔
      turn ∈ claim.entry.retainedTurns ∨ turn ∈ incoming.retainedTurns ∧ turn ∉ claim.tombstones ∨
        turn ∈ claim.tombstones ∧ 1 < incoming.retainedTurns.count turn := by
  simp only [mergeEntries, mem_mergeBufferTurnsByIdentity, (subtract_tombstones_self unique).2, not_mem_nil,
    false_or, mem_append, mem_subtract_tombstones unique]

theorem unique_mergeEntries_iff (unique : Unique claim) (incoming : BufferEntryState) :
    Unique (mergeEntries claim incoming) ↔ MergesApart claim incoming := by
  have apart := (unique_iff_apart claim).mp unique
  have once := once_mergeEntries ⟨apart.turns, apart.retained⟩ incoming
  have turns := mem_mergeEntries_turns unique incoming
  have retained := mem_mergeEntries_retainedTurns unique incoming
  rw [unique_iff_apart]
  constructor
  · intro merged
    constructor
    · intro turn marked
      constructor
      · by_contra twice
        apply merged.marked turn _ marked
        rw [mem_pending, turns]
        exact .inl (.inr (.inr ⟨marked, by omega⟩))
      · by_contra twice
        apply merged.marked turn _ marked
        rw [mem_pending, retained]
        exact .inr (.inr (.inr ⟨marked, by omega⟩))
    · intro turn active fresh deferred
      rw [mem_append] at active deferred
      apply merged.pending turn
      · rw [turns]
        exact active.imp_right fun held => .inl ⟨held, fresh⟩
      · rw [retained]
        exact deferred.imp_right fun held => .inl ⟨held, fresh⟩
  · intro ⟨repeated, separate⟩
    refine ⟨once.1, once.2, apart.drained, apart.drainedRetained, ?_, ?_, apart.tombstones⟩
    · intro turn active deferred
      rw [turns] at active
      rw [retained] at deferred
      by_cases marked : turn ∈ claim.tombstones
      · have bound := repeated turn marked
        have outside := apart.marked turn
        rw [mem_pending] at outside
        rcases active with held | ⟨_, fresh⟩ | ⟨_, twice⟩
        · exact outside (.inl held) marked
        · exact fresh marked
        · omega
      · apply separate turn _ marked
        · rw [mem_append]
          exact deferred.imp_right fun held => by tauto
        · rw [mem_append]
          exact active.imp_right fun held => by tauto
    · intro turn held marked
      change turn ∈ claim.tombstones at marked
      have bound := repeated turn marked
      have outside := apart.marked turn
      rw [mem_pending] at held outside
      rcases held with active | deferred
      · rcases (turns turn).mp active with held | ⟨_, fresh⟩ | ⟨_, twice⟩
        · exact outside (.inl held) marked
        · exact fresh marked
        · omega
      · rcases (retained turn).mp deferred with held | ⟨_, fresh⟩ | ⟨_, twice⟩
        · exact outside (.inr held) marked
        · exact fresh marked
        · omega

theorem unique_writeEntry_iff (unique : Unique claim) (entry seen : BufferEntryState) :
    Unique (writeEntry claim entry seen) ↔ WritesApart claim entry := by
  have apart := (unique_iff_apart claim).mp unique
  have turns := mem_writeEntry_turns claim entry seen
  have retained := mem_writeEntry_retainedTurns claim entry seen
  have drained := mem_writeEntry_drained claim entry seen
  have drainedRetained := mem_writeEntry_drainedRetained claim entry seen
  rw [unique_iff_apart]
  constructor
  · intro written
    refine ⟨nodup_append'.mpr ⟨?_, ?_, ?_⟩, ?_⟩
    · exact written.turns.sublist (sublist_append_left _ _)
    · exact written.retained.sublist (sublist_appendNew _ _)
    · intro turn active deferred
      exact written.pending turn ((turns turn).mpr (.inl active)) ((retained turn).mpr (.inl deferred))
    · intro turn held marked
      refine written.marked turn ?_ (tombstones_subset_writeEntry claim entry seen marked)
      rw [mem_pending] at held ⊢
      rw [turns, retained]
      exact held.imp .inl .inl
  · intro ⟨repeated, fresh⟩
    obtain ⟨onceTurns, onceRetained, separate⟩ := nodup_append'.mp repeated
    have once := once_writeEntry seen ⟨apart.turns, apart.retained⟩ ⟨onceTurns, onceRetained⟩
    have separate : ∀ turn, turn ∈ entry.turns → turn ∉ entry.retainedTurns :=
      fun turn active deferred => separate active deferred
    have pending := apart.pending
    have marked := apart.marked
    have tombstones := apart.tombstones
    simp only [mem_pending, mem_tombstones, not_or] at marked fresh
    refine ⟨once.1, once.2, nodup_mergeBufferTurnsByIdentity apart.drained,
      nodup_mergeBufferTurnsByIdentity apart.drainedRetained, ?_, ?_, ?_⟩
    · intro turn active deferred
      rw [turns, mem_pending] at active
      rw [retained, mem_pending] at deferred
      have := separate turn
      have := pending turn
      tauto
    · intro turn held gone
      rw [mem_pending, turns, retained, mem_pending] at held
      rw [mem_tombstones, drainedRetained, drained, mem_pending] at gone
      have := fresh turn
      have := marked turn
      have := pending turn
      tauto
    · intro turn first second
      rw [drainedRetained] at second
      rw [drained, mem_pending] at first
      have := tombstones turn
      have := marked turn
      have := pending turn
      rw [drained, mem_pending] at second
      tauto

/-- The inputs of a claim's change keep its lists apart: the session file that is
moved, the owner's entry that is merged, or the entry a drainer writes. -/
def Separates (s : State) : StaleAction → Prop
  | .live (.drainer i .claimRename) => match s.drainers i, s.claim, s.session with
    | .handingOver, none, some entry => entry.pending.Nodup
    | _, _, _ => True
  | .live (.owner .writeMerge) => match s.saving, s.memory with
    | .writingMerge claim, some entry => MergesApart claim entry
    | _, _ => True
  | .live (.drainer i .progressWrite) => match s.drainers i with
    | .writing _ entry claim => WritesApart claim entry
    | _ => True
  | _ => True

instance (s : State) (action : StaleAction) : Decidable (Separates s action) := by
  unfold Separates
  repeat' split
  all_goals infer_instance

def uniqueDrain : DrainStage → Prop
  | .writing _ _ claim => Unique claim
  | _ => True

/-- The claim and every copy of it read under the lock keep their lists apart. -/
structure UniqueEverywhere (s : State) : Prop where
  claim : ∀ body, s.claim = some body → Unique body
  drainers : ∀ i, uniqueDrain (s.drainers i)

theorem drainerStep_unique (claim : ∀ body, s.claim = some body → Unique body) (stepped : drainerStep s i action = some next) :
    uniqueDrain (next.drainers i) := by
  cases action
  case progressRead readable =>
    simp only [drainerStep] at stepped
    repeat' split at stepped
    next seen entry stage _ body read =>
      cases stepped
      simp only [State.at, Function.update_self]
      cases readable with
      | false => cases read
      | true => exact claim body read
    all_goals first
      | contradiction
      | cases stepped
        simp [State.leave, State.at, uniqueDrain]
  all_goals
    simp only [drainerStep] at stepped
    repeat' split at stepped
    all_goals first
      | contradiction
      | cases stepped
        simp_all [State.leave, State.at, uniqueDrain]

theorem uniqueEverywhere_initial : UniqueEverywhere (initial none) := ⟨nofun, fun _ => trivial⟩

private theorem forall_some {body : DrainClaimFile} {claim : Option DrainClaimFile} (same : claim = some body) :
    (∀ other, claim = some other → Unique other) ↔ Unique body := by
  subst same
  constructor
  · intro every
    exact every body rfl
  · intro unique other same
    cases same
    exact unique

private theorem separates_of_same (inv : UniqueEverywhere s) (claim : next.claim = s.claim)
    (stepped : drainerStep s i action = some next) : Separates s (.live (.drainer i action)) := by
  cases action with
  | claimRename =>
    simp only [Separates]
    split
    next entry stage unclaimed persisted =>
      simp only [drainerStep, stage, unclaimed, persisted, some.injEq] at stepped
      rw [← stepped, unclaimed] at claim
      cases claim
    next => trivial
  | progressWrite =>
    simp only [Separates]
    split
    next seen entry body stage =>
      have held := inv.drainers i
      rw [stage] at held
      simp only [drainerStep, stage, some.injEq] at stepped
      rw [← stepped] at claim
      exact (unique_writeEntry_iff held entry seen).mp (inv.claim _ claim.symm)
    next => trivial
  | _ => trivial

/-- A drainer's step leaves a claim without repetition exactly when it separates. -/
theorem unique_drainerStep_iff (inv : UniqueEverywhere s) (stepped : drainerStep s i action = some next) :
    (∀ body, next.claim = some body → Unique body) ↔ Separates s (.live (.drainer i action)) := by
  have held := inv.drainers i
  cases drainerStep_content stepped with
  | same session claim extracted =>
    rw [claim]
    exact iff_of_true inv.claim (separates_of_same inv claim stepped)
  | renamed entry stage unclaimed persisted moved claimed =>
    rw [forall_some claimed, unique_ofSessionFile_iff]
    simp only [Separates, stage, unclaimed, persisted]
  | dropped found unlinked stage session claim =>
    rw [claim]
    refine iff_of_true ?_ trivial
    intro body present
    cases unlinked with
    | false => exact inv.claim body present
    | true => cases present
  | wrote seen entry body stage session written =>
    rw [stage] at held
    rw [forall_some written, unique_writeEntry_iff held]
    simp only [Separates, stage]

theorem unique_ownerStep_iff {action : OwnerAction} (exclusive : Exclusive s) (inv : UniqueEverywhere s)
    (stepped : ownerStep s action = some next) :
    (∀ body, next.claim = some body → Unique body) ↔ Separates s (.live (.owner action)) := by
  have knows := exclusive.ownerKnows
  cases ownerStep_move stepped with
  | unlinkClaim unlinked drained releasing =>
    refine iff_of_true ?_ trivial
    intro body present
    cases unlinked with
    | false => exact inv.claim body present
    | true => cases present
  | writeMerge body entry writing present =>
    rw [writing] at knows
    rw [forall_some rfl, unique_mergeEntries_iff (inv.claim body knows)]
    simp only [Separates, writing, present]
  | _ => exact iff_of_true inv.claim trivial

theorem unique_staleStep_iff {action : StaleAction} (exclusive : Exclusive s) (inv : UniqueEverywhere s)
    (stepped : staleStep s action = some next) : (∀ body, next.claim = some body → Unique body) ↔ Separates s action := by
  cases action with
  | live action =>
    cases action with
    | owner action => exact unique_ownerStep_iff exclusive inv stepped
    | drainer i action => exact unique_drainerStep_iff inv stepped
  | remember entry =>
    rw [staleStep_remember stepped]
    exact iff_of_true inv.claim trivial

theorem uniqueDrain_staleStep {action : StaleAction} (inv : UniqueEverywhere s) (stepped : staleStep s action = some next) :
    ∀ i, uniqueDrain (next.drainers i) := by
  cases action with
  | live action =>
    cases action with
    | owner action =>
      have drainers : next.drainers = s.drainers := by cases ownerStep_move stepped <;> rfl
      rw [drainers]
      exact inv.drainers
    | drainer i action =>
      intro j
      by_cases same : j = i
      · subst same
        exact drainerStep_unique inv.claim stepped
      · rw [(drainerStep_frame stepped).others j same]
        exact inv.drainers j
  | remember entry =>
    rw [staleStep_remember stepped]
    exact inv.drainers

theorem invariant_of_separate_run (reached : Reaches staleStep Separates (initial none) s) : Exclusive s ∧ UniqueEverywhere s := by
  apply reached.invariant fun s => Exclusive s ∧ UniqueEverywhere s
  · exact ⟨exclusive_initial none, uniqueEverywhere_initial⟩
  · intro s action next inv meets stepped
    exact ⟨exclusive_staleStep inv.1 stepped,
      (unique_staleStep_iff inv.1 inv.2 stepped).mpr meets, uniqueDrain_staleStep inv.2 stepped⟩

/-- The owner defers a turn that a drainer has claimed meanwhile, and hands its copy over. -/
def deferredAfterClaim : List StaleAction := [
  .live (.owner (.record firstTurn)), .live (.owner .beginSave), .live (.owner .writeSession),
  .live (.owner (.settle true)),
  .live (.drainer 2 (.preRead true)), .live (.drainer 2 .claimLock), .live (.drainer 2 .claimRename),
  .live (.drainer 2 (.claimRead true)), .live (.drainer 2 .claimLease),
  .remember { turns := [], retainedTurns := [firstTurn] },
  .live (.owner .beginSave), .live (.owner (.readClaim true)), .live (.owner .takeLock),
  .live (.owner (.mergeRead true)), .live (.owner .writeMerge)]

end Remnic.Buffer.ClaimUnique
