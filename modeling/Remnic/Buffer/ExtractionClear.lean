import Remnic.Buffer.Turn

/-!
What an extraction takes out of the entry it read: the part of its snapshot that still opens
the queue or, by identity, each turn of the snapshot.
-/

namespace Remnic.Buffer.ExtractionClear

open Text.CodeUnits Turn List

def matchingPrefixLength : List BufferTurn → List BufferTurn → Nat
  | live :: liveTurns, extracted :: extractedTurns =>
      if live = extracted then matchingPrefixLength liveTurns extractedTurns + 1 else 0
  | _, _ => 0

/-- The loop over the starts in the snapshot, with the best count so far. -/
def bestMatchFrom (liveTurns : List BufferTurn) : List BufferTurn → Nat → Nat
  | [], bestMatchedCount => bestMatchedCount
  | extracted :: later, bestMatchedCount =>
      let matchedCount := matchingPrefixLength liveTurns (extracted :: later)
      if bestMatchedCount < matchedCount then
        if matchedCount = liveTurns.length then matchedCount else bestMatchFrom liveTurns later matchedCount
      else bestMatchFrom liveTurns later bestMatchedCount

def matchingQueuedExtractionPrefixLength (liveTurns extractedTurns : List BufferTurn) : Nat :=
  bestMatchFrom liveTurns extractedTurns 0

def liveTurnsFromExtractionSnapshot (entry : BufferEntryState) (extractedTurns : List BufferTurn) : List BufferTurn :=
  if entry.retainedTurns ≠ [] ∧ entry.retainedTurns <+: extractedTurns then
    let withoutRetainedPrefix := extractedTurns.drop entry.retainedTurns.length
    if withoutRetainedPrefix ≠ [] ∧ 0 < matchingPrefixLength entry.turns withoutRetainedPrefix then withoutRetainedPrefix
    else extractedTurns
  else extractedTurns

/-- Each turn takes the first equal one with it; the flag tells whether any did. -/
def removeByIdentity (turns extractedTurns : List BufferTurn) : List BufferTurn × Bool :=
  extractedTurns.foldl (fun state turn => if turn ∈ state.1 then (state.1.erase turn, true) else state) (turns, false)

/-- The entry after a clear; without turns the whole queue goes. -/
def clearAfterExtraction (now : JsString) (entry : BufferEntryState) (extractedTurns : Option (List BufferTurn))
    (allowNonPrefix : Bool) : BufferEntryState :=
  let cleared (turns : List BufferTurn) : BufferEntryState :=
    { entry with turns, lastExtractionAt := some now, extractionCount := entry.extractionCount + 1 }
  match extractedTurns with
  | none => cleared []
  | some extractedTurns =>
      let liveExtractedTurns := liveTurnsFromExtractionSnapshot entry extractedTurns
      if allowNonPrefix then
        let remaining := removeByIdentity entry.turns liveExtractedTurns
        if remaining.2 then cleared remaining.1 else entry
      else
        let matchedCount := matchingQueuedExtractionPrefixLength entry.turns liveExtractedTurns
        if 0 < matchedCount then cleared (entry.turns.drop matchedCount) else entry

/-- The retained turns that a chunk leaves, and the turns of the chunk that are not retained ones. -/
def takeRetained (retained : List BufferTurn) : List BufferTurn → List BufferTurn × List BufferTurn
  | [] => (retained, [])
  | turn :: rest =>
      if turn ∈ retained then takeRetained (retained.erase turn) rest
      else ((takeRetained retained rest).1, turn :: (takeRetained retained rest).2)

/-- The entry after a drop, and the number of turns dropped. -/
def dropExtractionChunk (entry : BufferEntryState) (turns : List BufferTurn) (allowNonPrefix : Bool) : BufferEntryState × Nat :=
  let taken := takeRetained entry.retainedTurns turns
  let retainedDropped := entry.retainedTurns.length - taken.1.length
  let remaining :=
    if allowNonPrefix then (removeByIdentity entry.turns taken.2).1
    else entry.turns.drop (matchingQueuedExtractionPrefixLength entry.turns taken.2)
  let matchedCount := entry.turns.length - remaining.length + retainedDropped
  if matchedCount = 0 then (entry, 0) else ({ entry with turns := remaining, retainedTurns := taken.1 }, matchedCount)

/-- What is left of a snapshot when turns that the entry retains are taken off it, one for each. -/
structure LivePart (retained snapshot live : List BufferTurn) : Prop where
  part : live <+ snapshot
  others : ∀ turn, snapshot.count turn ≤ live.count turn + retained.count turn

/-- What goes from a queue is turns of the snapshot; all of the run that the live part has at the queue's head goes, or
each turn of the live part. -/
structure Takes (allowNonPrefix : Bool) (snapshot live queue remaining : List BufferTurn) : Prop where
  ordered : remaining <+ queue
  removed : ∀ turn, queue.count turn ≤ remaining.count turn + snapshot.count turn
  run : allowNonPrefix = false → ∃ count, remaining = queue.drop count ∧ queue.take count <:+: live ∧
    ∀ longer ≤ queue.length, queue.take longer <:+: live → longer ≤ count
  each : allowNonPrefix = true → ∀ turn, remaining.count turn = queue.count turn - live.count turn

variable {queue live retained snapshot extracted : List BufferTurn} {entry : BufferEntryState} {best count : Nat}

theorem take_prefix_iff (bound : count ≤ queue.length) :
    queue.take count <+: extracted ↔ count ≤ matchingPrefixLength queue extracted := by
  induction queue generalizing extracted count with
  | nil => simp [Nat.le_zero.mp bound]
  | cons turn queue ih =>
    cases count with
    | zero => simp
    | succ count =>
      cases extracted with
      | nil => simp [matchingPrefixLength]
      | cons first rest =>
        rw [matchingPrefixLength, take_succ_cons, cons_prefix_cons]
        by_cases same : turn = first
        · rw [if_pos same, Nat.succ_le_succ_iff, ← ih (Nat.le_of_succ_le_succ bound)]
          exact and_iff_right same
        · rw [if_neg same]
          exact iff_of_false (fun both => same both.1) (by omega)

theorem matchingPrefixLength_le (queue extracted : List BufferTurn) : matchingPrefixLength queue extracted ≤ queue.length := by
  induction queue generalizing extracted with
  | nil => simp [matchingPrefixLength]
  | cons turn queue ih =>
    cases extracted with
    | nil => simp [matchingPrefixLength]
    | cons first rest =>
      rw [matchingPrefixLength, length_cons]
      split
      · exact Nat.succ_le_succ (ih rest)
      · exact Nat.zero_le _

/-- The best count is that of a run of the snapshot, and no run at the head of the queue is longer. -/
theorem bestMatchFrom_spec (extracted : List BufferTurn) (bound : best ≤ queue.length) :
    best ≤ bestMatchFrom queue extracted best ∧ bestMatchFrom queue extracted best ≤ queue.length ∧
      (bestMatchFrom queue extracted best = best ∨ queue.take (bestMatchFrom queue extracted best) <:+: extracted) ∧
      ∀ longer ≤ queue.length, queue.take longer <:+: extracted → longer ≤ bestMatchFrom queue extracted best := by
  induction extracted generalizing best with
  | nil =>
    refine ⟨le_refl _, bound, .inl rfl, fun longer within run => ?_⟩
    have none := congrArg length (infix_nil.mp run)
    rw [length_take, Nat.min_eq_left within] at none
    exact none ▸ Nat.zero_le _
  | cons first later ih =>
    have matched := matchingPrefixLength_le queue (first :: later)
    have own : queue.take (matchingPrefixLength queue (first :: later)) <:+: first :: later :=
      ((take_prefix_iff matched).mpr (le_refl _)).isInfix
    rw [bestMatchFrom]
    split_ifs with better whole
    · exact ⟨better.le, matched, .inr own, fun longer within _ => whole ▸ within⟩
    · obtain ⟨above, below, found, longest⟩ := ih matched
      refine ⟨better.le.trans above, below, .inr ?_, fun longer within run => ?_⟩
      · exact found.elim (fun same => same.symm ▸ own) infix_cons
      · exact (infix_cons_iff.mp run).elim (fun opening => ((take_prefix_iff within).mp opening).trans above) (longest longer within)
    · obtain ⟨above, below, found, longest⟩ := ih bound
      refine ⟨above, below, found.imp_right infix_cons, fun longer within run => ?_⟩
      exact (infix_cons_iff.mp run).elim
        (fun opening => (((take_prefix_iff within).mp opening).trans (not_lt.mp better)).trans above) (longest longer within)

theorem takes_run (queue : List BufferTurn) (part : live <+ snapshot) :
    Takes false snapshot live queue (queue.drop (matchingQueuedExtractionPrefixLength queue live)) := by
  obtain ⟨_, _, found, longest⟩ := bestMatchFrom_spec live (Nat.zero_le queue.length)
  have run : queue.take (matchingQueuedExtractionPrefixLength queue live) <:+: live :=
    found.elim (fun none => by rw [matchingQueuedExtractionPrefixLength, none, take_zero]; exact nil_infix) id
  refine ⟨drop_sublist _ _, fun turn => ?_, fun _ => ⟨_, rfl, run, longest⟩, nofun⟩
  have taken := (run.sublist.trans part).count_le turn
  have whole := congrArg (count turn) (take_append_drop (matchingQueuedExtractionPrefixLength queue live) queue)
  rw [count_append] at whole
  omega

theorem removeByIdentity_eq (queue live : List BufferTurn) :
    (removeByIdentity queue live).1 = queue.diff live ∧ ((removeByIdentity queue live).2 = false → queue.diff live = queue) := by
  have build : ∀ (live : List BufferTurn) (state : List BufferTurn × Bool), (live.foldl (fun state turn =>
      if turn ∈ state.1 then (state.1.erase turn, true) else state) state).1 = state.1.diff live ∧
        ((live.foldl (fun state turn => if turn ∈ state.1 then (state.1.erase turn, true) else state) state).2 = false →
          state.2 = false ∧ state.1.diff live = state.1) := by
    intro live
    induction live with
    | nil => exact fun state => ⟨rfl, fun kept => ⟨kept, rfl⟩⟩
    | cons turn live ih =>
      intro state
      rw [foldl_cons, diff_cons]
      by_cases held : turn ∈ state.1
      · rw [if_pos held]
        exact ⟨(ih _).1, fun kept => absurd ((ih (state.1.erase turn, true)).2 kept).1 (by simp)⟩
      · rw [if_neg held, erase_of_not_mem held]
        exact ih state
  exact ⟨(build live _).1, fun kept => ((build live _).2 kept).2⟩

theorem takes_each (queue : List BufferTurn) (part : live <+ snapshot) : Takes true snapshot live queue (queue.diff live) := by
  refine ⟨diff_sublist _ _, fun turn => ?_, nofun, fun _ turn => count_diff turn queue live⟩
  have taken := part.count_le turn
  rw [count_diff]
  omega

theorem livePart_clear (entry : BufferEntryState) (snapshot : List BufferTurn) :
    LivePart entry.retainedTurns snapshot (liveTurnsFromExtractionSnapshot entry snapshot) := by
  unfold liveTurnsFromExtractionSnapshot
  dsimp only
  split_ifs with retained opens
  · obtain ⟨rest, rfl⟩ := retained.2
    rw [drop_left]
    exact ⟨sublist_append_right _ _, fun turn => by rw [count_append, Nat.add_comm]⟩
  · exact ⟨Sublist.refl _, fun turn => Nat.le_add_right _ _⟩
  · exact ⟨Sublist.refl _, fun turn => Nat.le_add_right _ _⟩

theorem livePart_drop (retained snapshot : List BufferTurn) :
    LivePart retained snapshot (takeRetained retained snapshot).2 ∧ (takeRetained retained snapshot).1 <+ retained ∧
      ∀ turn, retained.count turn ≤ (takeRetained retained snapshot).1.count turn + snapshot.count turn := by
  induction snapshot generalizing retained with
  | nil => exact ⟨⟨Sublist.refl _, fun _ => Nat.le_add_right _ _⟩, Sublist.refl _, fun _ => le_refl _⟩
  | cons first rest ih =>
    rw [takeRetained]
    split_ifs with held
    · obtain ⟨live, kept, dropped⟩ := ih (retained.erase first)
      have positive := count_pos_iff.mpr held
      refine ⟨⟨live.part.cons _, fun turn => ?_⟩, kept.trans erase_sublist, fun turn => ?_⟩
      · have others := live.others turn
        by_cases same : first = turn
        · subst same
          rw [count_erase_self] at others
          rw [count_cons_self]
          omega
        · rw [count_erase_of_ne (Ne.symm same)] at others
          rwa [count_cons_of_ne same]
      · have others := dropped turn
        by_cases same : first = turn
        · subst same
          rw [count_erase_self] at others
          rw [count_cons_self]
          omega
        · rw [count_erase_of_ne (Ne.symm same)] at others
          rwa [count_cons_of_ne same]
    · obtain ⟨live, kept, dropped⟩ := ih retained
      refine ⟨⟨live.part.cons_cons first, fun turn => ?_⟩, kept, fun turn => ?_⟩
      · have others := live.others turn
        rw [count_cons, count_cons]
        omega
      · exact (dropped turn).trans (Nat.add_le_add_left ((sublist_cons_self first rest).count_le turn) _)

def sampleTurn (content : JsString) : BufferTurn := { role := .user, content, timestamp := [0] }

/-- The second of three queued turns is also retained. -/
def keepingTurn : BufferEntryState :=
  { turns := [sampleTurn [1], sampleTurn [2], sampleTurn [3]], retainedTurns := [sampleTurn [2]] }

end Remnic.Buffer.ExtractionClear
