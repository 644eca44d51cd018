import Remnic.Buffer.Exclusion

/-!
Where a saved turn can be. A turn whose save reported success stays in the
session file or in the claim until a drainer has extracted and acknowledged it,
as long as no merge loses its claim and no moved file is dropped unread.
-/

namespace Remnic.Buffer.NoLostTurn

open Library.Transition Turn DrainClaims Handover Exclusion List

def entryTurns (file : Option BufferEntryState) : List BufferTurn := (file.map (·.pending)).getD []

def claimPending (claim : Option DrainClaimFile) : List BufferTurn := (claim.map (·.entry.pending)).getD []

def claimTombstones (claim : Option DrainClaimFile) : List BufferTurn := (claim.map (·.tombstones)).getD []

variable {next : State} {under : List BufferTurn} {entry : BufferEntryState} {outcome : BufferSessionSaveOutcome}
  {drained : List BufferTurn} {s : State} {before gone after : List BufferTurn} {action : Action} {body : DrainClaimFile}
  {i : Nat} {start : Option BufferEntryState} {right left : List BufferTurn} (claim : DrainClaimFile)

@[simp] theorem entryTurns_none : entryTurns none = [] := rfl

@[simp] theorem entryTurns_some (entry : BufferEntryState) : entryTurns (some entry) = entry.pending := rfl

@[simp] theorem claimPending_none : claimPending none = [] := rfl

@[simp] theorem claimPending_some : claimPending (some claim) = claim.entry.pending := rfl

@[simp] theorem claimTombstones_none : claimTombstones none = [] := rfl

@[simp] theorem claimTombstones_some : claimTombstones (some claim) = claim.tombstones := rfl

/-- In the session file, in the claim, or in memory still marked for saving. -/
def Held (s : State) (turn : BufferTurn) : Prop :=
  turn ∈ entryTurns s.session ∨ turn ∈ claimPending s.claim ∨ turn ∈ claimTombstones s.claim ∨
    s.dirty = true ∧ turn ∈ entryTurns s.memory

instance (s : State) (turn : BufferTurn) : Decidable (Held s turn) := inferInstanceAs (Decidable (_ ∨ _))

/-- A merge finds a readable claim under the lock, and a moved session file is
dropped as empty only if it was read. -/
def KeepsClaim (s : State) : Action → Prop
  | .owner (.mergeRead readable) => (readFile readable s.claim).isSome = true
  | .drainer i (.dropClaim _) => s.drainers i ≠ .dropping none
  | _ => True

/-- The owner consumes the tombstone of acknowledged turns only. -/
def ReleasesAcknowledged (s : State) : Action → Prop
  | .owner (.readDrained _) => claimTombstones s.claim ⊆ s.acknowledged
  | _ => True

instance (s : State) (action : Action) : Decidable (KeepsClaim s action) := by
  unfold KeepsClaim
  split
  · infer_instance
  · infer_instance
  · infer_instance

instance (s : State) (action : Action) : Decidable (ReleasesAcknowledged s action) := by
  unfold ReleasesAcknowledged
  split
  · exact decidable_of_iff (∀ turn ∈ claimTombstones s.claim, turn ∈ s.acknowledged) Iff.rfl
  · infer_instance

/-- What the claim holds, with the turns that need no holder any more. -/
def safe (gone : List BufferTurn) (claim : Option DrainClaimFile) : List BufferTurn :=
  claimPending claim ++ (claimTombstones claim ++ gone)

def SaveFacts (gone : List BufferTurn) (s : State) : SaveStage → Prop
  | .checkingLease | .readingDrained =>
    entryTurns s.session ⊆ entryTurns s.memory ++ (claimTombstones s.claim ++ gone) ∧
      s.saved ⊆ entryTurns s.session ++ (claimTombstones s.claim ++ gone)
  | .writingFresh drained =>
    drained ⊆ gone ∧ entryTurns s.session ⊆ entryTurns s.memory ++ gone ∧ s.saved ⊆ entryTurns s.session ++ gone
  | .releasingClaim drained =>
    drained ⊆ gone ∧ entryTurns s.session ⊆ entryTurns s.memory ++ gone ∧ s.saved ⊆ entryTurns s.session ++ gone ∧
      entryTurns s.memory ⊆ entryTurns s.session ++ gone
  | .releasingLease drained | .settling ⟨.saved, drained⟩ =>
    drained ⊆ gone ∧ entryTurns s.memory ⊆ entryTurns s.session ++ safe gone s.claim
  | .settling ⟨.handedOver, _⟩ => entryTurns s.memory ⊆ safe gone s.claim
  | _ => True

/-- No turn is lost: a session file's turns are still in memory unless they are
safe, and a saved turn is in the session file unless it is safe. -/
structure Conserved (gone : List BufferTurn) (s : State) : Prop where
  session : entryTurns s.session ⊆ entryTurns s.memory ++ safe gone s.claim
  saved : s.saved ⊆ entryTurns s.session ++ safe gone s.claim
  facts : SaveFacts gone s s.saving

theorem conserved_initial (gone : List BufferTurn) (start : Option BufferEntryState) :
    Conserved gone (initial start) where
  session := subset_append_left _ _
  saved := subset_append_left _ _
  facts := trivial

/-- A step that leaves session, memory and save alone and lets nothing out of the claim. -/
structure Grows (before after : List BufferTurn) (s next : State) : Prop where
  session : next.session = s.session
  memory : next.memory = s.memory
  saved : next.saved = s.saved
  saving : next.saving = s.saving
  gone : before ⊆ after
  marked : claimTombstones s.claim ++ before ⊆ claimTombstones next.claim ++ after
  safe : safe before s.claim ⊆ safe after next.claim

private theorem widen {wider : List BufferTurn} (more : right ⊆ wider) (sub : under ⊆ left ++ right) : under ⊆ left ++ wider := by
  intro turn member
  rcases mem_append.mp (sub member) with inLeft | inRight
  · exact mem_append_left _ inLeft
  · exact mem_append_right _ (more inRight)

theorem saveFacts_grows (grows : Grows before after s next) {stage : SaveStage} (facts : SaveFacts before s stage) :
    SaveFacts after next stage := by
  unfold SaveFacts at facts ⊢
  rw [grows.session, grows.memory, grows.saved]
  split at facts
  · exact ⟨widen grows.marked facts.1, widen grows.marked facts.2⟩
  · exact ⟨widen grows.marked facts.1, widen grows.marked facts.2⟩
  · exact ⟨Subset.trans facts.1 grows.gone, widen grows.gone facts.2.1, widen grows.gone facts.2.2⟩
  · exact ⟨Subset.trans facts.1 grows.gone, widen grows.gone facts.2.1, widen grows.gone facts.2.2.1,
      widen grows.gone facts.2.2.2⟩
  · exact ⟨Subset.trans facts.1 grows.gone, widen grows.safe facts.2⟩
  · exact ⟨Subset.trans facts.1 grows.gone, widen grows.safe facts.2⟩
  · exact Subset.trans facts grows.safe
  · trivial

theorem conserved_grows (grows : Grows before after s next) (inv : Conserved before s) : Conserved after next where
  session := by
    rw [grows.session, grows.memory]
    exact widen grows.safe inv.session
  saved := by
    rw [grows.session, grows.saved]
    exact widen grows.safe inv.saved
  facts := by
    rw [grows.saving]
    exact saveFacts_grows grows inv.facts

theorem safe_subset (more : before ⊆ after)
    (pending : claimPending s.claim ⊆ claimPending next.claim ++ claimTombstones next.claim)
    (marked : claimTombstones s.claim ⊆ claimTombstones next.claim) : safe before s.claim ⊆ safe after next.claim := by
  intro turn member
  simp only [safe, mem_append] at member ⊢
  rcases member with held | held | held
  · exact (mem_append.mp (pending held)).imp_right .inl
  · exact .inr (.inl (marked held))
  · exact .inr (.inr (more held))

/-- A drainer's step keeps what the claim holds; only the rename moves turns into it. -/
theorem grows_of_content {action : DrainerAction} (exclusive : Exclusive s) (more : before ⊆ after)
    (keeps : KeepsClaim s (.drainer i action)) (frame : DrainerFrame s i next) (content : DrainerContent s i action next)
    (moved : next.session = s.session) : Grows before after s next := by
  have knows := exclusive.drainerKnows i
  have kept : claimPending s.claim ⊆ claimPending next.claim ++ claimTombstones next.claim ∧
      claimTombstones s.claim ⊆ claimTombstones next.claim := by
    cases content with
    | same _ claim _ =>
      rw [claim]
      exact ⟨subset_append_left _ _, Subset.refl _⟩
    | renamed entry stage unclaimed =>
      rw [unclaimed]
      exact ⟨nil_subset _, nil_subset _⟩
    | dropped found unlinked stage =>
      rw [stage] at knows
      have read : found.isSome = true := by
        cases found with
        | none => exact absurd stage keeps
        | some body => rfl
      cases claim : s.claim with
      | none => exact ⟨nil_subset _, nil_subset _⟩
      | some body =>
        have empty := knows body claim
        simp [empty.1, pending_eq_nil_of_isEmpty (empty.2 read)]
    | wrote seen entry body stage _ written =>
      rw [stage] at knows
      rw [written]
      cases claim : s.claim with
      | none => exact ⟨nil_subset _, nil_subset _⟩
      | some current =>
        rw [knows current claim]
        refine ⟨fun turn held => ?_, tombstones_subset_writeEntry body entry seen⟩
        exact mem_append.mpr (pending_kept_by_writeEntry entry seen held)
  exact ⟨moved, frame.memory, frame.saved, frame.saving, more,
    append_subset.mpr ⟨subset_append_of_subset_left _ kept.2, subset_append_of_subset_right _ more⟩,
    safe_subset more kept.1 kept.2⟩

theorem conserved_renamed (exclusive : Exclusive s) (more : before ⊆ after) (frame : DrainerFrame s i next)
    (unclaimed : s.claim = none) (persisted : s.session = some entry) (moved : next.session = none)
    (claimed : next.claim = some (ofSessionFile entry)) (inv : Conserved before s) : Conserved after next := by
  have carried : entryTurns s.session ++ safe before s.claim ⊆ safe after next.claim := by
    intro turn member
    simp only [safe, unclaimed, persisted, claimed, entryTurns_some, claimPending_none, claimPending_some,
      claimTombstones_none, nil_append, mem_append] at member ⊢
    exact member.imp id fun held => .inr (more held)
  have knows := exclusive.ownerKnows
  rw [unclaimed] at knows
  have facts := inv.facts
  constructor
  · rw [moved]
    exact nil_subset _
  · rw [frame.saved]
    exact subset_append_of_subset_right _ (Subset.trans inv.saved carried)
  · rw [frame.saving]
    cases stage : s.saving with
    | checkingLease | readingDrained | writingFresh drained | releasingClaim drained =>
      rw [stage] at knows
      obtain ⟨body, present, _⟩ := knows
      cases present
    | releasingLease drained =>
      rw [stage] at facts
      refine ⟨Subset.trans facts.1 more, ?_⟩
      rw [frame.memory]
      exact subset_append_of_subset_right _ (Subset.trans facts.2 carried)
    | settling outcome =>
      rw [stage] at facts
      obtain ⟨status, drained⟩ := outcome
      cases status with
      | saved =>
        refine ⟨Subset.trans facts.1 more, ?_⟩
        rw [frame.memory]
        exact subset_append_of_subset_right _ (Subset.trans facts.2 carried)
      | handedOver =>
        unfold SaveFacts
        rw [frame.memory]
        exact Subset.trans (Subset.trans facts (subset_append_right _ _)) carried
    | _ => trivial

theorem conserved_drainerStep {action : DrainerAction} (exclusive : Exclusive s) (more : before ⊆ after)
    (keeps : KeepsClaim s (.drainer i action)) (inv : Conserved before s) (stepped : drainerStep s i action = some next) :
    Conserved after next := by
  have frame := drainerStep_frame stepped
  have content := drainerStep_content stepped
  have grow := grows_of_content exclusive more keeps frame content
  cases content with
  | same session => exact conserved_grows (grow session) inv
  | renamed entry _ unclaimed persisted moved claimed =>
    exact conserved_renamed exclusive more frame unclaimed persisted moved claimed inv
  | dropped _ _ _ session => exact conserved_grows (grow session) inv
  | wrote _ _ _ _ session => exact conserved_grows (grow session) inv

theorem conserved_mono (more : before ⊆ after) (inv : Conserved before s) : Conserved after s :=
  conserved_grows
    ⟨rfl, rfl, rfl, rfl, more,
      append_subset.mpr ⟨subset_append_left _ _, subset_append_of_subset_right _ more⟩,
      safe_subset more (subset_append_left _ _) (Subset.refl _)⟩ inv

theorem safe_subset_writeMerge (gone : List BufferTurn) (body : DrainClaimFile) (entry : BufferEntryState) :
    safe gone (some body) ++ entry.pending ⊆ safe gone (some (mergeEntries body entry)) := by
  intro turn member
  simp only [safe, claimPending_some, claimTombstones_some, mergeEntries_tombstones,
    mem_append] at member ⊢
  by_cases marked : turn ∈ body.tombstones
  · exact .inr (.inl marked)
  · rw [mem_mergeEntries_of_not_mem entry marked]
    tauto

theorem subset_subtract (reported : drained ⊆ gone) : entry.pending ⊆ (entry.subtract drained).pending ++ gone := by
  intro turn member
  by_cases marked : turn ∈ drained
  · exact mem_append_right _ (reported marked)
  · exact mem_append_left _ ((mem_subtract_of_not_mem marked).mpr member)

theorem session_covered_settle (inv : Conserved gone s) (settling : s.saving = .settling outcome)
    (present : s.memory = some entry) : entryTurns s.session ⊆ entryTurns (afterSave outcome entry) ++ safe gone s.claim := by
  have covered := inv.session
  have facts := inv.facts
  rw [settling] at facts
  rw [present] at covered
  obtain ⟨status, drained⟩ := outcome
  intro turn member
  rcases mem_append.mp (covered member) with inMemory | kept
  · cases status with
    | saved =>
      rcases mem_append.mp (subset_subtract facts.1 inMemory) with left | gone
      · exact mem_append_left _ left
      · simp [safe, gone]
    | handedOver =>
      rw [SaveFacts, present] at facts
      exact mem_append_right _ (facts inMemory)
  · exact mem_append_right _ kept

private theorem strip {pending : List BufferTurn} (empty : pending = []) (sub : under ⊆ left ++ (pending ++ right)) :
    under ⊆ left ++ right := by
  rwa [empty, nil_append] at sub

private theorem through {left' : List BufferTurn} (more : left ⊆ left' ++ right) (sub : under ⊆ left ++ right) :
    under ⊆ left' ++ right := by
  intro turn member
  rcases mem_append.mp (sub member) with inLeft | inRight
  · exact more inLeft
  · exact mem_append_right _ inRight

private theorem absorb {marked : List BufferTurn} (known : marked ⊆ gone) (sub : under ⊆ left ++ (marked ++ gone)) :
    under ⊆ left ++ gone :=
  widen (append_subset.mpr ⟨known, Subset.refl _⟩) sub

theorem conserved_readFinished (present : s.claim = some body) (finished : body.finished = true) (inv : Conserved gone s) :
    Conserved gone { s with saving := .checkingLease } := by
  have empty : claimPending s.claim = [] := by
    simp only [DrainClaimFile.finished, Bool.and_eq_true] at finished
    rw [present, claimPending_some, pending_eq_nil_of_isEmpty finished.2]
  exact ⟨inv.session, inv.saved, strip empty inv.session, strip empty inv.saved⟩

theorem conserved_readDrained (readable : Bool) (reading : s.saving = .readingDrained) (marked : claimTombstones s.claim ⊆ gone)
    (inv : Conserved gone s) :
    Conserved gone
      { s with saving := .writingFresh (((readFile readable s.claim).map (·.drained)).getD []) } := by
  have facts := inv.facts
  rw [reading] at facts
  refine ⟨inv.session, inv.saved, ?_, absorb marked facts.1, absorb marked facts.2⟩
  intro turn member
  apply marked
  cases readable with
  | false => cases member
  | true =>
    cases claim : s.claim with
    | none =>
      rw [claim] at member
      cases member
    | some body =>
      rw [claim] at member
      exact mem_append_left _ member

theorem conserved_writeFresh (writing : s.saving = .writingFresh drained) (present : s.memory = some entry)
    (inv : Conserved gone s) :
    Conserved gone { s with session := some (entry.subtract drained), saving := .releasingClaim drained } := by
  have facts := inv.facts
  rw [writing] at facts
  obtain ⟨reported, session, saved⟩ := facts
  rw [present, entryTurns_some] at session
  have fresh : (entry.subtract drained).pending ⊆ entry.pending := fun turn left => mem_of_mem_subtract left
  have remembered : entry.pending ⊆ (entry.subtract drained).pending ++ gone := subset_subtract reported
  have stored := through (through remembered session) saved
  have wide : gone ⊆ safe gone s.claim := fun turn member => by simp [safe, member]
  refine ⟨?_, widen wide stored, reported, ?_, stored, ?_⟩
  · simp only [present, entryTurns_some]
    exact subset_append_of_subset_left _ fresh
  · simp only [present, entryTurns_some]
    exact subset_append_of_subset_left _ fresh
  · simp only [present, entryTurns_some]
    exact remembered

theorem conserved_unlinkClaim (unlinked : Bool) (releasing : s.saving = .releasingClaim drained) (inv : Conserved gone s) :
    Conserved gone { s with claim := unlinkFile unlinked s.claim, saving := .releasingLease drained } := by
  have facts := inv.facts
  rw [releasing] at facts
  obtain ⟨reported, session, saved, memory⟩ := facts
  have wide : ∀ claim, gone ⊆ safe gone claim :=
    fun claim turn member => by simp [safe, member]
  exact ⟨widen (wide _) session, widen (wide _) saved, reported, widen (wide _) memory⟩

theorem conserved_writeMerge (present : s.claim = some body) (memory : s.memory = some entry) (inv : Conserved gone s) :
    Conserved gone { s with
      claim := some (mergeEntries body entry), lock := none, saving := .settling { status := .handedOver } } := by
  have merged := append_subset.mp (safe_subset_writeMerge gone body entry)
  rw [← present] at merged
  refine ⟨widen merged.1 inv.session, widen merged.1 inv.saved, ?_⟩
  rw [SaveFacts, memory]
  exact merged.2

theorem conserved_settle (applied : Bool) (settling : s.saving = .settling outcome) (present : s.memory = some entry)
    (inv : Conserved gone s) :
    Conserved gone { s with
      dirty := false, saved := s.saved ++ entry.pending, saving := .idle
      memory := if applied then afterSave outcome entry else some entry } := by
  have facts := inv.facts
  rw [settling] at facts
  refine ⟨?_, append_subset.mpr ⟨inv.saved, ?_⟩, trivial⟩
  · cases applied with
    | false => simpa only [Bool.false_eq_true, if_false, ← present] using inv.session
    | true =>
      have covered := session_covered_settle inv settling present
      exact covered
  · obtain ⟨status, drained⟩ := outcome
    cases status with
    | saved => simpa only [present, entryTurns_some] using facts.2
    | handedOver =>
      rw [SaveFacts, present] at facts
      exact subset_append_of_subset_right _ facts

theorem conserved_ownerStep {action : OwnerAction} (exclusive : Exclusive s) (keeps : KeepsClaim s (.owner action))
    (marked : ∀ readable, action = .readDrained readable → claimTombstones s.claim ⊆ gone) (inv : Conserved gone s)
    (stepped : ownerStep s action = some next) : Conserved gone next := by
  have move := ownerStep_move stepped
  have facts := inv.facts
  have knows := exclusive.ownerKnows
  cases move with
  | record turn idle =>
    rw [idle] at facts
    refine ⟨?_, inv.saved, by simp only [idle]; trivial⟩
    intro turn' member
    have covered := inv.session member
    cases memory : s.memory with
    | none =>
      rw [memory] at covered
      exact mem_append_right _ covered
    | some entry =>
      rw [memory] at covered
      simp only [entryTurns_some, recorded, Option.getD_some, mem_append, mem_pending] at covered ⊢
      tauto
  | writeSession entry unclaimed memory =>
    have session := inv.session
    rw [memory] at session
    refine ⟨?_, ?_, nil_subset _, ?_⟩
    · simp only [memory]
      exact subset_append_left _ _
    · exact through session inv.saved
    · simp only [memory]
      exact subset_append_left _ _
  | readFinished readable body claimed present finished => exact conserved_readFinished present finished inv
  | unleased readable checking =>
    rw [checking] at facts
    exact ⟨inv.session, inv.saved, facts⟩
  | readDrained readable reading => exact conserved_readDrained readable reading (marked readable rfl) inv
  | writeFresh drained entry writing memory => exact conserved_writeFresh writing memory inv
  | unlinkClaim unlinked drained releasing => exact conserved_unlinkClaim unlinked releasing inv
  | unlinkLease unlinked drained releasing =>
    rw [releasing] at facts
    exact ⟨inv.session, inv.saved, facts⟩
  | mergeVanished readable merging vanished =>
    rw [KeepsClaim, vanished] at keeps
    cases keeps
  | writeMerge body entry writing memory =>
    rw [writing] at knows
    exact conserved_writeMerge knows memory inv
  | settle applied outcome entry settling memory => exact conserved_settle applied settling memory inv
  | _ => exact ⟨inv.session, inv.saved, trivial⟩

/-- The claim's tombstones are among the turns recorded as extracted. -/
def TombstonesExtracted (s : State) : Prop := claimTombstones s.claim ⊆ s.extracted

theorem tombstonesExtracted_step (exclusive : Exclusive s) (inv : TombstonesExtracted s) (stepped : step s action = some next) :
    TombstonesExtracted next := by
  unfold TombstonesExtracted at inv ⊢
  cases action with
  | owner action =>
    have move := ownerStep_move stepped
    have knows := exclusive.ownerKnows
    cases move with
    | unlinkClaim unlinked drained releasing =>
      cases unlinked with
      | false => exact inv
      | true => exact nil_subset _
    | writeMerge body entry writing memory =>
      rw [writing] at knows
      rw [show s.claim = some body from knows] at inv
      exact inv
    | _ => exact inv
  | drainer i action =>
    have content := drainerStep_content stepped
    cases content with
    | same _ claim extracted => rwa [claim, extracted]
    | renamed entry _ _ _ _ claimed extracted =>
      rw [claimed]
      exact nil_subset _
    | dropped found unlinked _ _ claim extracted =>
      rw [claim, extracted]
      cases unlinked with
      | false => exact inv
      | true => exact nil_subset _
    | wrote seen entry body _ _ written extracted =>
      rw [written, extracted]
      exact subset_append_right _ _

theorem extracted_grows (stepped : step s action = some next) : s.extracted ⊆ next.extracted := by
  cases action with
  | owner action =>
    have move := ownerStep_move stepped
    cases move <;> exact Subset.refl _
  | drainer i action =>
    have content := drainerStep_content stepped
    cases content with
    | same _ _ extracted => exact extracted ▸ Subset.refl _
    | renamed _ _ _ _ _ _ extracted => exact extracted ▸ Subset.refl _
    | dropped _ _ _ _ _ extracted => exact extracted ▸ Subset.refl _
    | wrote _ _ _ _ _ _ extracted =>
      rw [extracted]
      exact subset_append_left _ _

theorem acknowledged_grows (stepped : step s action = some next) : s.acknowledged ⊆ next.acknowledged := by
  cases action with
  | owner action =>
    have move := ownerStep_move stepped
    cases move <;> exact Subset.refl _
  | drainer i action => exact (drainerStep_frame stepped).acknowledged

/-- One step conserves turns against any history that grows and holds the
tombstones the owner consumes. -/
theorem conserved_step (exclusive : Exclusive s) (more : before ⊆ after) (keeps : KeepsClaim s action)
    (marked : ∀ readable, action = .owner (.readDrained readable) → claimTombstones s.claim ⊆ before) (inv : Conserved before s)
    (stepped : step s action = some next) : Conserved after next := by
  cases action with
  | owner action =>
    apply conserved_mono more
    exact conserved_ownerStep exclusive keeps (fun readable same => marked readable (same ▸ rfl)) inv stepped
  | drainer i action => exact conserved_drainerStep exclusive more keeps inv stepped

theorem held_of_conserved (inv : Conserved gone s) {turn : BufferTurn} (saved : turn ∈ s.saved) : Held s turn ∨ turn ∈ gone := by
  have covered := inv.saved saved
  simp only [safe, mem_append] at covered
  unfold Held
  tauto

theorem held_until_extracted (reached : Reaches step KeepsClaim (initial start) s) :
    Exclusive s ∧ TombstonesExtracted s ∧ Conserved s.extracted s := by
  apply reached.invariant fun s => Exclusive s ∧ TombstonesExtracted s ∧ Conserved s.extracted s
  · exact ⟨exclusive_initial start, nil_subset _, conserved_initial _ start⟩
  · intro s action next inv keeps stepped
    obtain ⟨exclusive, marked, conserved⟩ := inv
    exact ⟨exclusive_step exclusive stepped, tombstonesExtracted_step exclusive marked stepped,
      conserved_step exclusive (extracted_grows stepped) keeps (fun _ _ => marked) conserved stepped⟩

theorem held_until_acknowledged
    (reached : Reaches step (fun s action => KeepsClaim s action ∧ ReleasesAcknowledged s action) (initial start) s) :
    Exclusive s ∧ Conserved s.acknowledged s := by
  apply reached.invariant fun s => Exclusive s ∧ Conserved s.acknowledged s
  · exact ⟨exclusive_initial start, conserved_initial _ start⟩
  · intro s action next inv meets stepped
    obtain ⟨exclusive, conserved⟩ := inv
    refine ⟨exclusive_step exclusive stepped,
      conserved_step exclusive (acknowledged_grows stepped) meets.1 ?_ conserved stepped⟩
    intro readable same
    have released := meets.2
    rw [same] at released
    exact released

def firstTurn : BufferTurn := { role := .user, content := [1], timestamp := [1] }

def secondTurn : BufferTurn := { role := .user, content := [2], timestamp := [2] }

def thirdTurn : BufferTurn := { role := .user, content := [3], timestamp := [3] }

/-- A session is saved, claimed, merged into, drained and acknowledged, and its
tombstone is consumed by the next save. -/
def drainedSession : List Action := [
  .owner (.record firstTurn), .owner .beginSave, .owner .writeSession, .owner (.settle true),
  .drainer 2 (.preRead true), .drainer 2 .claimLock, .drainer 2 .claimRename, .drainer 2 (.claimRead true),
  .drainer 2 .claimLease,
  .owner (.record secondTurn), .owner .beginSave, .owner (.readClaim true), .owner .takeLock,
  .owner (.mergeRead true), .owner .writeMerge, .owner (.settle true),
  .drainer 2 (.load true), .drainer 2 .adoptBegin, .drainer 2 .adoptLock, .drainer 2 (.adoptJudge true false true true),
  .drainer 2 (.progress emptyEntry), .drainer 2 .progressLock, .drainer 2 (.progressFence true),
  .drainer 2 (.progressRead true), .drainer 2 .progressWrite,
  .drainer 2 (.ackFence true), .drainer 2 (.ackRead true), .drainer 2 (.ackUnlink true),
  .owner (.record firstTurn), .owner .beginSave, .owner (.readClaim true), .owner (.readLease true),
  .owner (.readDrained true), .owner .writeFresh, .owner (.unlinkClaim true), .owner (.unlinkLease true),
  .owner (.settle true)]

/-- A second drainer read the session before it was claimed, renames the emptied
file afterwards and drops it while the owner already waits to merge. -/
def vanishingClaim : List Action :=
  [.owner (.record firstTurn), .owner .beginSave, .owner .writeSession, .owner (.settle true),
    .drainer 1 (.preRead true)] ++
  drainedSession.drop 4 ++
  [.drainer 1 .claimLock, .drainer 1 .claimRename,
    .owner (.record thirdTurn), .owner .beginSave, .owner (.readClaim true),
    .drainer 1 (.claimRead true), .drainer 1 (.dropClaim true),
    .owner .takeLock, .owner (.mergeRead true), .owner (.settle true)]

end Remnic.Buffer.NoLostTurn
