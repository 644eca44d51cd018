import Remnic.Library.AppendNew
import Remnic.Text.CodeUnits

/-!
Turns of the extraction buffer and the entry that holds one session's turns.
Every operation on a list of turns compares them by identity.
-/

namespace Remnic.Buffer.Turn

open Library.AppendNew Text.CodeUnits

inductive Role where
  | user
  | assistant
  deriving DecidableEq, Repr

inductive OriginRole where
  | user
  | assistant
  | tool
  deriving DecidableEq, Repr

structure CodingContext where
  projectId : JsString
  branch : Option JsString
  rootPath : JsString
  defaultBranch : Option JsString
  deriving DecidableEq, Repr

/-- A turn as `bufferTurnsEqual` sees it: the fields it compares, with the scope
plan given by its identity string. Equality of these records is that comparison. -/
structure BufferTurn where
  role : Role
  content : JsString
  timestamp : JsString
  sessionKey : Option JsString := none
  sessionOwnerPrincipal : Option JsString := none
  logicalSessionKey : Option JsString := none
  /-- Absent, `null` or a string. -/
  providerThreadId : Option (Option JsString) := none
  turnFingerprint : Option JsString := none
  persistProcessedFingerprint : Option Bool := none
  sourceConnector : Option JsString := none
  originRole : Option OriginRole := none
  ambientCapture : Option Bool := none
  sourceValidAt : Option JsString := none
  acceptedCapture : Option Bool := none
  codingContext : Option CodingContext := none
  writeNamespaceOverride : Option JsString := none
  principalOverride : Option JsString := none
  scopeProfilePlanIdentity : JsString := []
  deriving DecidableEq, Repr

/-- One session's buffered work; an absent `retainedTurns` is the empty list. -/
structure BufferEntryState where
  turns : List BufferTurn
  retainedTurns : List BufferTurn := []
  lastExtractionAt : Option JsString := none
  extractionCount : Nat := 0
  deriving DecidableEq, Repr

def emptyEntry : BufferEntryState := { turns := [] }

/-- The turns an entry still has to extract, retained ones included. -/
def BufferEntryState.pending (entry : BufferEntryState) : List BufferTurn := entry.turns ++ entry.retainedTurns

def BufferEntryState.isEmpty (entry : BufferEntryState) : Bool :=
  entry.turns.isEmpty && entry.retainedTurns.isEmpty

/-- Each drained turn takes the first equal one with it. -/
def subtractBufferTurns (turns drained : List BufferTurn) : List BufferTurn := drained.foldl List.erase turns

def mergeBufferTurnsByIdentity (existing incoming : List BufferTurn) : List BufferTurn := appendNew existing incoming

variable {turn : BufferTurn} {entry : BufferEntryState} {turns : List BufferTurn}

@[simp] theorem mem_pending (entry : BufferEntryState) (turn : BufferTurn) :
    turn ∈ entry.pending ↔ turn ∈ entry.turns ∨ turn ∈ entry.retainedTurns := List.mem_append

theorem pending_eq_nil_of_isEmpty (empty : entry.isEmpty = true) : entry.pending = [] := by
  simpa [BufferEntryState.isEmpty, BufferEntryState.pending] using empty

@[simp] theorem mem_mergeBufferTurnsByIdentity (existing incoming : List BufferTurn) (turn : BufferTurn) :
    turn ∈ mergeBufferTurnsByIdentity existing incoming ↔ turn ∈ existing ∨ turn ∈ incoming :=
  mem_appendNew existing incoming turn

theorem nodup_mergeBufferTurnsByIdentity {existing : List BufferTurn} (once : existing.Nodup)
    {incoming : List BufferTurn} : (mergeBufferTurnsByIdentity existing incoming).Nodup :=
  nodup_appendNew once incoming

theorem subtractBufferTurns_eq_diff (turns drained : List BufferTurn) :
    subtractBufferTurns turns drained = turns.diff drained := (List.diff_eq_foldl turns drained).symm

variable {drained : List BufferTurn}

theorem mem_of_mem_subtractBufferTurns (left : turn ∈ subtractBufferTurns turns drained) :
    turn ∈ turns := by
  rw [subtractBufferTurns_eq_diff] at left
  exact List.diff_subset turns drained left

theorem mem_subtractBufferTurns_of_not_mem (fresh : turn ∉ drained) :
    turn ∈ subtractBufferTurns turns drained ↔ turn ∈ turns := by
  rw [subtractBufferTurns_eq_diff]
  exact mem_diff_of_not_mem fresh

theorem mem_subtractBufferTurns_of_nodup (once : turns.Nodup) (drained : List BufferTurn) (turn : BufferTurn) :
    turn ∈ subtractBufferTurns turns drained ↔ turn ∈ turns ∧ turn ∉ drained := by
  rw [subtractBufferTurns_eq_diff]
  exact once.mem_sdiff_iff

theorem nodup_subtractBufferTurns (once : turns.Nodup) (drained : List BufferTurn) : (subtractBufferTurns turns drained).Nodup := by
  rw [subtractBufferTurns_eq_diff]
  exact once.diff

/-- What the owner drops from its copy once a drain reports the turns it extracted. -/
def BufferEntryState.subtract (entry : BufferEntryState) (drained : List BufferTurn) : BufferEntryState :=
  { entry with
    turns := subtractBufferTurns entry.turns drained
    retainedTurns := subtractBufferTurns entry.retainedTurns drained }

theorem mem_subtract_of_not_mem (fresh : turn ∉ drained) :
    turn ∈ (entry.subtract drained).pending ↔ turn ∈ entry.pending := by
  simp only [mem_pending, BufferEntryState.subtract, mem_subtractBufferTurns_of_not_mem fresh]

theorem mem_of_mem_subtract (left : turn ∈ (entry.subtract drained).pending) : turn ∈ entry.pending := by
  rw [mem_pending] at left ⊢
  exact left.imp mem_of_mem_subtractBufferTurns mem_of_mem_subtractBufferTurns

def BufferEntryState.Once (entry : BufferEntryState) : Prop := entry.turns.Nodup ∧ entry.retainedTurns.Nodup

instance (entry : BufferEntryState) : Decidable entry.Once := inferInstanceAs (Decidable (_ ∧ _))

theorem mem_subtract_of_once (once : entry.Once) (drained : List BufferTurn) (turn : BufferTurn) :
    turn ∈ (entry.subtract drained).pending ↔ turn ∈ entry.pending ∧ turn ∉ drained := by
  simp only [mem_pending, BufferEntryState.subtract, mem_subtractBufferTurns_of_nodup once.1,
    mem_subtractBufferTurns_of_nodup once.2, or_and_right]

theorem once_subtract (once : entry.Once) (drained : List BufferTurn) : (entry.subtract drained).Once :=
  ⟨nodup_subtractBufferTurns once.1 drained, nodup_subtractBufferTurns once.2 drained⟩

end Remnic.Buffer.Turn
