import Remnic.Buffer.Turn

/-!
The content of a drain claim: the turns not yet extracted, and the tombstone
lists of the turns a drain already extracted. This module has the three changes
of that content: the birth from a session file, the merge of the owner's entry
and the progress of a drainer.
-/

namespace Remnic.Buffer.DrainClaims

open Text.CodeUnits Turn

structure DrainClaimFile where
  entry : BufferEntryState
  drained : List BufferTurn := []
  drainedRetained : List BufferTurn := []
  deriving DecidableEq, Repr

/-- Both tombstone lists: a turn in either one left the claim for good. -/
def DrainClaimFile.tombstones (claim : DrainClaimFile) : List BufferTurn := claim.drained ++ claim.drainedRetained

/-- A renamed session file read as a claim: the flat shape carries no tombstone. -/
def ofSessionFile (entry : BufferEntryState) : DrainClaimFile := { entry }

def latestStamp (first second : Option JsString) : Option JsString :=
  (((first.toList ++ second.toList).mergeSort fun a b => decide (a ≤ b))).getLast?

def mergeEntries (claim : DrainClaimFile) (incoming : BufferEntryState) : DrainClaimFile :=
  let gone := claim.tombstones
  { claim with
    entry := {
      turns := mergeBufferTurnsByIdentity
        (subtractBufferTurns claim.entry.turns gone) (subtractBufferTurns incoming.turns gone)
      retainedTurns := mergeBufferTurnsByIdentity []
        (subtractBufferTurns claim.entry.retainedTurns gone ++ subtractBufferTurns incoming.retainedTurns gone)
      lastExtractionAt := latestStamp claim.entry.lastExtractionAt incoming.lastExtractionAt
      extractionCount := max claim.entry.extractionCount incoming.extractionCount } }

/-- Still held by the drainer: in its remaining turns or retained for a retry. -/
def kept (entry : BufferEntryState) (turn : BufferTurn) : Bool :=
  decide (turn ∈ entry.turns) || decide (turn ∈ entry.retainedTurns)

/-- `writeEntry` on the claim it read. A turn of the drainer's snapshot that the
written entry no longer holds was extracted; a turn merged in after the snapshot
stays pending behind the entry. -/
def writeEntry (claim : DrainClaimFile) (entry seen : BufferEntryState) : DrainClaimFile :=
  let extracted := claim.entry.turns.filter fun turn => decide (turn ∈ seen.turns) && !kept entry turn
  let drained := mergeBufferTurnsByIdentity claim.drained extracted
  let extractedRetained := claim.entry.retainedTurns.filter fun turn =>
    (decide (turn ∈ seen.retainedTurns) && !kept entry turn) && !decide (turn ∈ drained)
  let late := claim.entry.turns.filter fun turn => !decide (turn ∈ seen.turns) && !kept entry turn
  let lateRetained := claim.entry.retainedTurns.filter fun turn =>
    !decide (turn ∈ seen.retainedTurns) && !kept entry turn
  { entry := { entry with
      turns := entry.turns ++ late
      retainedTurns := mergeBufferTurnsByIdentity entry.retainedTurns lateRetained }
    drained
    drainedRetained := mergeBufferTurnsByIdentity claim.drainedRetained extractedRetained }

/-- The content part of `isDrained`: extracted turns recorded, nothing pending. -/
def DrainClaimFile.finished (claim : DrainClaimFile) : Bool :=
  !claim.tombstones.isEmpty && claim.entry.isEmpty

variable (claim : DrainClaimFile) (entry incoming seen : BufferEntryState) (turn : BufferTurn)

@[simp] theorem mem_tombstones : turn ∈ claim.tombstones ↔ turn ∈ claim.drained ∨ turn ∈ claim.drainedRetained := List.mem_append

@[simp] theorem kept_iff : kept entry turn = true ↔ turn ∈ entry.pending := by
  rw [kept, Bool.or_eq_true, decide_eq_true_iff, decide_eq_true_iff, mem_pending]

@[simp] theorem kept_eq_false_iff : kept entry turn = false ↔ turn ∉ entry.pending := by
  rw [← kept_iff, Bool.not_eq_true]

@[simp] theorem ofSessionFile_tombstones : (ofSessionFile entry).tombstones = [] := rfl

@[simp] theorem mergeEntries_tombstones : (mergeEntries claim incoming).tombstones = claim.tombstones := rfl

theorem mem_mergeEntries_of_not_mem {claim : DrainClaimFile} {turn : BufferTurn} (fresh : turn ∉ claim.tombstones) :
    turn ∈ (mergeEntries claim incoming).entry.pending ↔ turn ∈ claim.entry.pending ∨ turn ∈ incoming.pending := by
  simp only [mem_pending, mergeEntries, mem_mergeBufferTurnsByIdentity, List.mem_append, List.not_mem_nil, false_or,
    mem_subtractBufferTurns_of_not_mem fresh]
  exact or_or_or_comm

theorem once_mergeEntries {claim : DrainClaimFile} (once : claim.entry.Once) (incoming : BufferEntryState) :
    (mergeEntries claim incoming).entry.Once :=
  ⟨nodup_mergeBufferTurnsByIdentity (nodup_subtractBufferTurns once.1 _),
    nodup_mergeBufferTurnsByIdentity List.nodup_nil⟩

theorem not_mem_mergeEntries_of_once {claim : DrainClaimFile} {incoming : BufferEntryState} {turn : BufferTurn}
    (once : claim.entry.Once) (onceIncoming : incoming.Once) (gone : turn ∈ claim.tombstones) :
    turn ∉ (mergeEntries claim incoming).entry.pending := by
  simp only [mem_pending, mergeEntries, mem_mergeBufferTurnsByIdentity, List.mem_append, List.not_mem_nil, false_or,
    mem_subtractBufferTurns_of_nodup once.1, mem_subtractBufferTurns_of_nodup once.2,
    mem_subtractBufferTurns_of_nodup onceIncoming.1, mem_subtractBufferTurns_of_nodup onceIncoming.2]
  simp [gone]

theorem mem_writeEntry_drained :
    turn ∈ (writeEntry claim entry seen).drained ↔
      turn ∈ claim.drained ∨ turn ∈ claim.entry.turns ∧ turn ∈ seen.turns ∧ turn ∉ entry.pending := by
  simp [writeEntry]

theorem mem_writeEntry_drainedRetained :
    turn ∈ (writeEntry claim entry seen).drainedRetained ↔ turn ∈ claim.drainedRetained ∨
      turn ∈ claim.entry.retainedTurns ∧ (turn ∈ seen.retainedTurns ∧ turn ∉ entry.pending) ∧
        turn ∉ (writeEntry claim entry seen).drained := by
  change turn ∈ mergeBufferTurnsByIdentity claim.drainedRetained (claim.entry.retainedTurns.filter fun turn =>
    (decide (turn ∈ seen.retainedTurns) && !kept entry turn) &&
      !decide (turn ∈ (writeEntry claim entry seen).drained)) ↔ _
  simp

theorem mem_writeEntry_turns :
    turn ∈ (writeEntry claim entry seen).entry.turns ↔
      turn ∈ entry.turns ∨ turn ∈ claim.entry.turns ∧ turn ∉ seen.turns ∧ turn ∉ entry.pending := by
  simp [writeEntry]

theorem mem_writeEntry_retainedTurns :
    turn ∈ (writeEntry claim entry seen).entry.retainedTurns ↔ turn ∈ entry.retainedTurns ∨
      turn ∈ claim.entry.retainedTurns ∧ turn ∉ seen.retainedTurns ∧ turn ∉ entry.pending := by
  simp [writeEntry]

theorem tombstones_subset_writeEntry : claim.tombstones ⊆ (writeEntry claim entry seen).tombstones := by
  intro turn gone
  rw [mem_tombstones] at gone ⊢
  rw [mem_writeEntry_drained, mem_writeEntry_drainedRetained]
  exact gone.imp .inl .inl

/-- A progress write keeps every pending turn, as pending or as extracted. -/
theorem pending_kept_by_writeEntry {claim : DrainClaimFile} {turn : BufferTurn} (held : turn ∈ claim.entry.pending) :
    turn ∈ (writeEntry claim entry seen).entry.pending ∨ turn ∈ (writeEntry claim entry seen).tombstones := by
  rw [mem_pending, mem_tombstones, mem_writeEntry_turns, mem_writeEntry_retainedTurns, mem_writeEntry_drainedRetained,
    mem_writeEntry_drained]
  rw [mem_pending] at held ⊢
  by_cases still : turn ∈ entry.turns ∨ turn ∈ entry.retainedTurns
  · tauto
  · tauto

theorem once_writeEntry {claim : DrainClaimFile} {entry : BufferEntryState} (once : claim.entry.Once) (onceEntry : entry.Once) :
    (writeEntry claim entry seen).entry.Once := by
  constructor
  · apply onceEntry.1.append (once.1.filter _)
    intro turn written late
    have fresh := (List.mem_filter.mp late).2
    simp [kept, written] at fresh
  · exact nodup_mergeBufferTurnsByIdentity onceEntry.2

end Remnic.Buffer.DrainClaims
