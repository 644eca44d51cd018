import Remnic.Contradiction.Resolution

/-! When an answer to a contradiction pair is given wholly, or undone wholly, or reported as neither. -/

namespace Remnic.Contradiction.AllOrNothing
open Library Text.CodeUnits Text.IsoDate Review Resolution
open List hiding merge

variable {host : Host} {memories after_ : Memories} {id other : JsString} {memory : MemoryFile} {dir : ReviewDir}
  {pairId : JsString} {verb : ResolutionVerb}

section Outcomes

def supersessionState (memories : Memories) (id : JsString) :
    Option (Option MemoryStatus × Option JsString × Option JsString) :=
  (memories.lookup id).map fun memory => (memory.status, memory.supersededBy, memory.supersededAt)

def Active (memories : Memories) (id : JsString) : Prop :=
  ∃ memory, memories.lookup id = some memory ∧ memory.effectiveStatus = .active

/-- The pair carries the verb, and the affected memories, which are those that changed, were superseded by an active one. -/
structure Committed (pairId : JsString) (verb : ResolutionVerb) (before : Memories) (settled : Settlement)
    (result : ResolutionResult) : Prop where
  stored : ∃ record, settled.dir.files.lookup pairId = some record ∧ record.resolution = some verb
  some_ : result.affectedIds ≠ []
  superseded : ∃ survivor, Active settled.memories survivor ∧ ∀ id ∈ result.affectedIds, ∃ memory,
    settled.memories.lookup id = some memory ∧ memory.status = some .superseded ∧ memory.supersededBy = some survivor
  exactly_ : ∀ id, before.lookup id ≠ none →
    (supersessionState settled.memories id ≠ supersessionState before id ↔ id ∈ result.affectedIds)

/-- No memory has changed its status, and none is new and active. -/
structure Back (before after : Memories) : Prop where
  restored : ∀ id, before.lookup id ≠ none → supersessionState after id = supersessionState before id
  uncreated : ∀ id, before.lookup id = none → ¬Active after id

def answerOf (dir : ReviewDir) (pairId : JsString) : Option (Option ResolutionVerb) :=
  (dir.files.lookup pairId).map fun record => record.resolution

/-- The call has left no trace. A call that throws affects nothing that it tells of. -/
structure Undone (pairId : JsString) (before : Memories) (later : ReviewDir) (settled : Settlement) : Prop where
  answer : answerOf settled.dir pairId = answerOf later pairId
  back : Back before settled.memories
  unaffected : ∀ result, settled.result = .ok result → result.affectedIds = []

/-- The three outcomes of a call, by the memories before it and the queue when its answer is written. -/
def Atomic (pairId : JsString) (verb : ResolutionVerb) (before : Memories) (later : ReviewDir)
    (settled : Settlement) : Prop :=
  (∃ result, settled.result = .ok result ∧ Committed pairId verb before settled result) ∨
    Undone pairId before later settled ∨
      ∃ result, settled.result = .ok result ∧ result.message.reportsIncompleteRollback = true

theorem Back.refl (memories : Memories) : Back memories memories where
  restored := fun _ _ => rfl
  uncreated := fun id absent active => by
    obtain ⟨memory, held, _⟩ := active
    rw [absent] at held
    cases held

end Outcomes

section Conditions

/-- The pair is there, and keeps an answer that it has or takes this one. -/
def Resolves (host : Host) (pairId : JsString) (dir : ReviewDir) : Prop :=
  host.pairUnreadable = false ∧ ∃ existing, dir.files.lookup pairId = some existing ∧
    (preservesDirectResolution existing.resolution = true ∨
      ((toISOString (host.moment.clock 0)).isSome = true ∧ host.moment.writeFails pairId = false))

def Overtaken (pairId : JsString) (verb : ResolutionVerb) (dir : ReviewDir) : Prop :=
  ∃ existing, dir.files.lookup pairId = some existing ∧ preservesDirectResolution existing.resolution = true ∧
    existing.resolution ≠ some verb

def Supersedes (host : Host) (side : Side) (memory : MemoryFile) : Prop :=
  host.faults (.supersede side) = .works ∧ memory.supersededBy = none

def Restores (host : Host) (side : Side) : Prop :=
  host.faults (.restoreRead side) = .works ∧ host.faults (.restoreWrite side) = .works

def Cleans (host : Host) : Prop :=
  (∀ landed, host.faults .cleanupRead ≠ .fails landed) ∧
    (host.faults .invalidate = .works ∨ host.faults .invalidate = .fails true)

end Conditions

section Storage

theorem lookup_set_other (memories : Memories) (memory : MemoryFile) (apart : other ≠ id) :
    (memories.set id memory).lookup other = memories.lookup other := by
  rw [OrderedMap.lookup_set, if_neg apart]

theorem lookup_set_same (memories : Memories) (id : JsString) (memory : MemoryFile) :
    (memories.set id memory).lookup id = some memory := by
  rw [OrderedMap.lookup_set, if_pos rfl]

theorem supersedeSafe_spec (side : Side) (newId : JsString) (held : memories.lookup id = some memory) :
    (Supersedes host side memory → supersedeSafe host side id newId memories =
      (memories.set id (supersededMemory newId (host.supersessionTime side) memory), true)) ∧
    (¬Supersedes host side memory → ∃ left, supersedeSafe host side id newId memories = (left, false) ∧
      (∀ other, other ≠ id → left.lookup other = memories.lookup other) ∧
        ∃ current, left.lookup id = some current) := by
  unfold supersedeSafe supersedeMemory Supersedes
  rw [held]
  dsimp only
  by_cases free : memory.supersededBy = none
  · have unsuperseded : ¬memory.supersededBy.isSome = true := by
      rw [free]
      exact nofun
    rw [if_neg unsuperseded]
    unfold attempt
    cases fate : host.faults (.supersede side) with
    | works => exact ⟨fun _ => rfl, fun fails => absurd ⟨rfl, free⟩ fails⟩
    | refuses => exact ⟨fun works => (by cases works.1), fun _ => ⟨memories, rfl, fun _ _ => rfl, memory, held⟩⟩
    | fails landed =>
      refine ⟨fun works => (by cases works.1), fun _ => ?_⟩
      cases landed with
      | false => exact ⟨memories, rfl, fun _ _ => rfl, memory, held⟩
      | true => exact ⟨_, rfl, fun other apart => lookup_set_other memories _ apart, _, lookup_set_same memories id _⟩
  · have superseded : memory.supersededBy.isSome = true := Option.isSome_iff_ne_none.mpr free
    rw [if_pos superseded]
    exact ⟨fun works => absurd works.2 free, fun _ => ⟨memories, rfl, fun _ _ => rfl, memory, held⟩⟩

theorem restore_spec (side : Side) (snapshot : MemoryFile) (held : memories.lookup id = some memory) :
    (Restores host side → restoreMemorySnapshot host side id snapshot memories =
      (memories.set id { snapshot with content := memory.content }, true)) ∧
    (¬Restores host side → ∃ left, restoreMemorySnapshot host side id snapshot memories = (left, false) ∧
      (∀ other, other ≠ id → left.lookup other = memories.lookup other) ∧
        ∃ current, left.lookup id = some current) := by
  unfold restoreMemorySnapshot Restores getMemoryById
  cases read : host.faults (.restoreRead side) with
  | works =>
    dsimp only
    rw [held]
    dsimp only
    unfold attempt
    cases write : host.faults (.restoreWrite side) with
    | works => exact ⟨fun _ => rfl, fun fails => absurd ⟨rfl, rfl⟩ fails⟩
    | refuses => exact ⟨fun works => (by cases works.2), fun _ => ⟨memories, rfl, fun _ _ => rfl, memory, held⟩⟩
    | fails landed =>
      refine ⟨fun works => (by cases works.2), fun _ => ?_⟩
      cases landed with
      | false => exact ⟨memories, rfl, fun _ _ => rfl, memory, held⟩
      | true => exact ⟨_, rfl, fun other apart => lookup_set_other memories _ apart, _, lookup_set_same memories id _⟩
  | refuses => exact ⟨fun works => (by cases works.1), fun _ => ⟨memories, rfl, fun _ _ => rfl, memory, held⟩⟩
  | fails landed => exact ⟨fun works => (by cases works.1), fun _ => ⟨memories, rfl, fun _ _ => rfl, memory, held⟩⟩

theorem cleanup_spec (held : memories.lookup id = some memory) :
    (Cleans host → cleanupMemoryId host id memories = memories.erase id) ∧
      (¬Cleans host → cleanupMemoryId host id memories = memories) := by
  have present : memories.contains id = true := by
    unfold OrderedMap.contains
    rw [held]
    rfl
  have invalidates : (invalidateMemory (host.faults .invalidate) id memories).1 =
      if host.faults .invalidate = .works ∨ host.faults .invalidate = .fails true then memories.erase id else memories := by
    unfold invalidateMemory attempt
    rw [if_pos present]
    cases host.faults .invalidate with
    | works => rw [if_pos (.inl rfl)]
    | refuses => rw [if_neg (by simp)]
    | fails landed => cases landed <;> simp
  unfold cleanupMemoryId getMemoryById Cleans
  rw [invalidates]
  cases host.faults .cleanupRead with
  | fails landed => exact ⟨fun cleans => absurd rfl (cleans.1 landed), fun _ => rfl⟩
  | _ =>
    refine ⟨fun cleans => if_pos cleans.2, fun fails => if_neg fun invalid => fails ⟨nofun, invalid⟩⟩

end Storage

section Answers

theorem persist_spec (named : pairPath pairId = .ok pairId) (answers : verb ≠ .needsMoreContext) (dir : ReviewDir) :
    (Resolves host pairId dir → (persistAnswer host pairId verb dir).2 = true ∧
      ∃ record, (persistAnswer host pairId verb dir).1.files.lookup pairId = some record ∧
        (record.resolution = some verb ↔ ¬Overtaken pairId verb dir)) ∧
    (¬Resolves host pairId dir → persistAnswer host pairId verb dir = (dir, false)) := by
  unfold persistAnswer Resolves Overtaken resolvePair answerPair
  rw [if_neg answers]
  have read : readPair dir pairId = .ok (dir.files.lookup pairId) := by
    unfold readPair
    rw [named]
    rfl
  rw [read]
  cases unreadable : host.pairUnreadable with
  | true => exact ⟨fun resolves => (by cases resolves.1), fun _ => rfl⟩
  | false =>
    rw [if_neg nofun]
    cases held : dir.files.lookup pairId with
    | none =>
      refine ⟨fun resolves => ?_, fun _ => rfl⟩
      obtain ⟨_, _, found, _⟩ := resolves
      cases found
    | some existing =>
      dsimp only
      by_cases kept : preservesDirectResolution existing.resolution = true
      · rw [if_pos kept]
        refine ⟨fun _ => ⟨rfl, existing, held, ?_⟩, fun fails => absurd ⟨rfl, existing, rfl, .inl kept⟩ fails⟩
        constructor
        · intro same overtaken
          obtain ⟨also, found, _, apart⟩ := overtaken
          rw [← Option.some.inj found] at apart
          exact apart same
        · intro kept_
          by_contra apart
          exact kept_ ⟨existing, rfl, kept, apart⟩
      · have unovertaken : ¬∃ existing_, some existing = some existing_ ∧
            preservesDirectResolution existing_.resolution = true ∧ existing_.resolution ≠ some verb := by
          intro overtaken
          obtain ⟨also, found, keeps, _⟩ := overtaken
          exact kept (Option.some.inj found ▸ keeps)
        rw [if_neg kept]
        unfold isoNow writePairFile
        cases clock : toISOString (host.moment.clock 0) with
        | none =>
          refine ⟨fun resolves => ?_, fun _ => rfl⟩
          obtain ⟨_, also, found, answered⟩ := resolves
          rw [← Option.some.inj found] at answered
          rcases answered with keeps | writes
          · exact absurd keeps kept
          · cases writes.1
        | some now =>
          dsimp only
          cases fails : host.moment.writeFails pairId with
          | true =>
            refine ⟨fun resolves => ?_, fun _ => rfl⟩
            obtain ⟨_, also, found, answered⟩ := resolves
            rw [← Option.some.inj found] at answered
            rcases answered with keeps | writes
            · exact absurd keeps kept
            · cases writes.2
          | false =>
            refine ⟨fun _ => ⟨rfl, _, by exact (OrderedMap.lookup_set_self _ _ _), iff_of_true rfl unovertaken⟩, fun refused => ?_⟩
            exact absurd ⟨rfl, existing, rfl, .inr ⟨rfl, rfl⟩⟩ refused

end Answers

section Backs

theorem supersessionState_congr {before : Memories} (same : after_.lookup id = before.lookup id) :
    supersessionState after_ id = supersessionState before id := by
  unfold supersessionState
  rw [same]

theorem back_of_states (same : ∀ id, supersessionState after_ id = supersessionState memories id) : Back memories after_ where
  restored := fun id _ => same id
  uncreated := by
    intro id absent active
    obtain ⟨memory, held, _⟩ := active
    have state := same id
    unfold supersessionState at state
    rw [absent, held] at state
    cases state

theorem states_of_restored {left : Memories} {snapshot : MemoryFile} (held : memories.lookup id = some snapshot)
    (content : JsString) (apart : ∀ other, other ≠ id → left.lookup other = memories.lookup other) (other : JsString) :
    supersessionState (left.set id { snapshot with content := content }) other = supersessionState memories other := by
  by_cases same : other = id
  · unfold supersessionState
    rw [same, lookup_set_same, held]
    rfl
  · exact supersessionState_congr ((lookup_set_other left _ same).trans (apart other same))

variable {idA idB : JsString} {message : ResolutionMessage} {left : Memories}

theorem atomic_failed (host : Host) (idA idB : JsString) (facts : message.reportsIncompleteRollback = true ∨ Back memories left) :
    Atomic pairId verb memories dir (concludeResolution host pairId verb idA idB dir (left, .failed message)) := by
  rcases facts with reports | back
  · exact .inr (.inr ⟨_, rfl, reports⟩)
  · exact .inr (.inl ⟨rfl, back, fun result given => by rw [← Except.ok.inj given]⟩)

theorem not_atomic_failed (host : Host) (idA idB : JsString) (silent : message.reportsIncompleteRollback = false) (lost : ¬Back memories left) :
    ¬Atomic pairId verb memories dir (concludeResolution host pairId verb idA idB dir (left, .failed message)) := by
  intro atomic
  rcases atomic with committed | undone | reported
  · obtain ⟨result, given, committed⟩ := committed
    rw [← Except.ok.inj given] at committed
    exact committed.some_ rfl
  · exact lost undone.back
  · obtain ⟨result, given, reports⟩ := reported
    rw [← Except.ok.inj given] at reports
    exact absurd reports (by rw [silent]; exact nofun)

end Backs

section Conclusions

variable {idA idB : JsString} {message : ResolutionMessage} {left : Memories} {affectedIds : List JsString}

theorem conclude_resolved (named : pairPath pairId = .ok pairId) (answers : verb ≠ .needsMoreContext)
    (resolves : Resolves host pairId dir) (idA idB : JsString) (left : Memories) (affectedIds : List JsString)
    (message : ResolutionMessage) (undo : Undo) : ∃ written record,
    concludeResolution host pairId verb idA idB dir (left, .done affectedIds message undo) =
      ⟨left, written, .ok ⟨pairId, verb, affectedIds, message⟩⟩ ∧
    written.files.lookup pairId = some record ∧ (record.resolution = some verb ↔ ¬Overtaken pairId verb dir) := by
  obtain ⟨done, record, held, answered⟩ := (persist_spec named answers dir).1 resolves
  cases persisted : persistAnswer host pairId verb dir with
  | mk written resolved =>
    rw [persisted] at done held
    have resolved_ : resolved = true := done
    refine ⟨written, record, ?_, held, answered⟩
    unfold concludeResolution
    dsimp only
    rw [persisted, resolved_]

/-- An answer that is written is atomic if the pair carries it, and one active memory supersedes those it tells of. -/
theorem atomic_resolved (undo : Undo) (named : pairPath pairId = .ok pairId) (answers : verb ≠ .needsMoreContext)
    (resolves : Resolves host pairId dir) (silent : message.reportsIncompleteRollback = false) (affects : affectedIds ≠ [])
    (changes : ∀ id, memories.lookup id ≠ none →
      (supersessionState left id ≠ supersessionState memories id ↔ id ∈ affectedIds)) :
    Atomic pairId verb memories dir (concludeResolution host pairId verb idA idB dir (left, .done affectedIds message undo)) ↔
      ¬Overtaken pairId verb dir ∧ ∃ survivor, Active left survivor ∧ ∀ id ∈ affectedIds, ∃ memory,
        left.lookup id = some memory ∧ memory.status = some .superseded ∧ memory.supersededBy = some survivor := by
  obtain ⟨written, record, settled, held, answered⟩ :=
    conclude_resolved named answers resolves idA idB left affectedIds message undo
  rw [settled]
  constructor
  · intro atomic
    rcases atomic with committed | undone | reported
    · obtain ⟨result, given, committed⟩ := committed
      rw [← Except.ok.inj given] at committed
      obtain ⟨stored, found, carries⟩ := committed.stored
      rw [← Option.some.inj (held.symm.trans found)] at carries
      exact ⟨answered.mp carries, committed.superseded⟩
    · exact absurd (undone.unaffected _ rfl) affects
    · obtain ⟨result, given, reports⟩ := reported
      rw [← Except.ok.inj given] at reports
      exact absurd reports (by rw [silent]; exact nofun)
  · intro facts
    exact .inl ⟨_, rfl, ⟨record, held, answered.mpr facts.1⟩, affects, facts.2, changes⟩

theorem conclude_unresolved (named : pairPath pairId = .ok pairId) (answers : verb ≠ .needsMoreContext)
    (unresolved : ¬Resolves host pairId dir) {last : Memories} {rolledBack : Bool}
    (undo : Undo) (rolled : rollback host idA idB undo left = (last, rolledBack)) (undoes : undo ≠ .nothing) :
    concludeResolution host pairId verb idA idB dir (left, .done affectedIds message undo) =
      concludeResolution host pairId verb idA idB dir
        (last, .failed (if rolledBack then .notPersistedRolledBack else .notPersistedIncomplete)) := by
  have persisted := (persist_spec named answers dir).2 unresolved
  unfold concludeResolution
  dsimp only
  rw [persisted]
  dsimp only
  split
  next => exact absurd rfl undoes
  next =>
    rw [rolled]
    cases rolledBack <;> rfl

end Conclusions

section Keep

variable {keptId loserId idA idB : JsString} {side : Side}

/-- The kept memory is there and active, and the other one is superseded by it. -/
def KeepGoes (host : Host) (side : Side) (keptId loserId : JsString) (memories : Memories) : Prop :=
  host.faults (.snapshot side) = .works ∧ Active memories keptId ∧ host.faults (.snapshot side.other) = .works ∧
    ∃ source, memories.lookup loserId = some source ∧ Supersedes host side.other source

theorem snapshot_some (found : loadSourceSnapshot host side id memories = some memory) :
    host.faults (.snapshot side) = .works ∧ memories.lookup id = some memory := by
  unfold loadSourceSnapshot getMemoryById at found
  cases fate : host.faults (.snapshot side) with
  | works =>
    rw [fate] at found
    exact ⟨rfl, found⟩
  | refuses =>
    rw [fate] at found
    cases found
  | fails landed =>
    rw [fate] at found
    cases found

theorem snapshot_works (works : host.faults (.snapshot side) = .works) (id : JsString) (memories : Memories) :
    loadSourceSnapshot host side id memories = memories.lookup id := by
  unfold loadSourceSnapshot getMemoryById
  rw [works]

theorem changes_superseded (newId time : JsString) (held : memories.lookup loserId = some memory)
    (free : memory.supersededBy = none) (id : JsString) (_ : memories.lookup id ≠ none) :
    supersessionState (memories.set loserId (supersededMemory newId time memory)) id ≠ supersessionState memories id ↔
      id ∈ [loserId] := by
  rw [mem_singleton]
  by_cases same : id = loserId
  · refine iff_of_true ?_ same
    unfold supersessionState
    rw [same, lookup_set_same, held]
    intro states
    have by_ : some newId = memory.supersededBy := congrArg (fun state => state.2.1) (Option.some.inj states)
    rw [free] at by_
    cases by_
  · exact iff_of_false (fun changed => changed (supersessionState_congr (lookup_set_other memories _ same))) same

theorem keep_goes (goes : KeepGoes host side keptId loserId memories) : ∃ source,
    memories.lookup loserId = some source ∧ source.supersededBy = none ∧ keep host side keptId loserId memories =
      (memories.set loserId (supersededMemory keptId (host.supersessionTime side.other) source),
        .done [loserId] (.kept keptId loserId) (.keep side.other loserId source)) := by
  obtain ⟨read, active, readLoser, source, held, supersedes⟩ := goes
  obtain ⟨kept, there, status⟩ := active
  refine ⟨source, held, supersedes.2, ?_⟩
  unfold keep validateKeepTarget
  rw [snapshot_works read, there, snapshot_works readLoser, held]
  dsimp only
  rw [if_pos status, (supersedeSafe_spec side.other keptId held).1 supersedes]

theorem keep_fails (fails : ¬KeepGoes host side keptId loserId memories) : ∃ left message,
    keep host side keptId loserId memories = (left, .failed message) ∧
      (message.reportsIncompleteRollback = true ∨ Back memories left) := by
  unfold keep
  cases target : validateKeepTarget host side keptId memories with
  | some message => exact ⟨memories, message, rfl, .inr (.refl memories)⟩
  | none =>
    dsimp only
    cases found : loadSourceSnapshot host side.other loserId memories with
    | none => exact ⟨memories, _, rfl, .inl rfl⟩
    | some source =>
      obtain ⟨readLoser, held⟩ := snapshot_some found
      have stays : ¬Supersedes host side.other source := by
        intro supersedes
        unfold validateKeepTarget at target
        cases kept : loadSourceSnapshot host side keptId memories with
        | none =>
          rw [kept] at target
          cases target
        | some memory =>
          rw [kept] at target
          dsimp only at target
          obtain ⟨read, there⟩ := snapshot_some kept
          split at target
          next active => exact fails ⟨read, ⟨memory, there, active⟩, readLoser, source, held, supersedes⟩
          next => cases target
      obtain ⟨left, same, apart, current, present⟩ := (supersedeSafe_spec side.other keptId held).2 stays
      dsimp only
      rw [same]
      dsimp only
      by_cases restores : Restores host side.other
      · rw [(restore_spec side.other source present).1 restores]
        exact ⟨_, _, rfl, .inr (back_of_states (states_of_restored held current.content apart))⟩
      · obtain ⟨last, incomplete, _⟩ := (restore_spec side.other source present).2 restores
        rw [incomplete]
        exact ⟨_, _, rfl, .inl rfl⟩

/-- A keep is atomic unless it goes through to a pair that another answer has taken, or keeps the memory it supersedes. -/
theorem atomic_keep (named : pairPath pairId = .ok pairId) (answers : verb ≠ .needsMoreContext) (dir : ReviewDir)
    (idA idB : JsString) :
    Atomic pairId verb memories dir (concludeResolution host pairId verb idA idB dir (keep host side keptId loserId memories)) ↔
      (KeepGoes host side keptId loserId memories → Resolves host pairId dir →
        keptId ≠ loserId ∧ ¬Overtaken pairId verb dir) := by
  by_cases goes : KeepGoes host side keptId loserId memories
  · obtain ⟨source, held, free, done⟩ := keep_goes goes
    rw [done, forall_prop_of_true goes]
    by_cases resolves : Resolves host pairId dir
    · rw [forall_prop_of_true resolves, atomic_resolved _ named answers resolves rfl (cons_ne_nil _ _)
        (changes_superseded keptId (host.supersessionTime side.other) held free)]
      rw [and_comm]
      refine and_congr_left fun _ => ?_
      constructor
      · intro survives same
        obtain ⟨survivor, active, superseded⟩ := survives
        obtain ⟨memory, found, _, by_⟩ := superseded loserId (mem_singleton_self _)
        obtain ⟨alive, there, status⟩ := active
        rw [lookup_set_same] at found
        rw [← Option.some.inj found] at by_
        have survivor_ : keptId = survivor := Option.some.inj by_
        rw [← survivor_, same, lookup_set_same] at there
        rw [← Option.some.inj there] at status
        cases status
      · intro apart
        obtain ⟨_, ⟨kept, there, status⟩, _⟩ := goes
        refine ⟨keptId, ⟨kept, (lookup_set_other memories _ apart).trans there, status⟩, fun id member => ?_⟩
        rw [mem_singleton.mp member]
        exact ⟨_, lookup_set_same memories loserId _, rfl, rfl⟩
    · refine iff_of_true ?_ fun works => absurd works resolves
      have present := lookup_set_same memories loserId
        (supersededMemory keptId (host.supersessionTime side.other) source)
      have undoes : Undo.keep side.other loserId source ≠ .nothing := nofun
      by_cases restores : Restores host side.other
      · have rolled := (restore_spec side.other source present).1 restores
        rw [conclude_unresolved named answers resolves (.keep side.other loserId source) rolled undoes]
        refine atomic_failed host idA idB (.inr (back_of_states (states_of_restored held _ ?_)))
        exact fun other apart => lookup_set_other memories _ apart
      · obtain ⟨last, incomplete, _⟩ := (restore_spec side.other source present).2 restores
        rw [conclude_unresolved named answers resolves (.keep side.other loserId source) incomplete undoes]
        exact atomic_failed host idA idB (.inl rfl)
  · obtain ⟨left, message, failed, facts⟩ := keep_fails goes
    rw [failed]
    exact iff_of_true (atomic_failed host idA idB facts) fun works => absurd works goes

end Keep

section Merge

variable {idA idB mergedId : JsString} {sourceA sourceB : MemoryFile} {created : Bool} {left base : Memories}

def BothSuperseded (host : Host) (idA idB : JsString) (sourceA sourceB : MemoryFile) : Prop :=
  Supersedes host .a sourceA ∧ Supersedes host .b sourceB ∧ idA ≠ idB

/-- Every source that the merge has touched is restored. -/
def RestoresTouched (host : Host) (sourceA : MemoryFile) : Prop :=
  Restores host .a ∧ (Supersedes host .a sourceA → Restores host .b)

/-- The memories are as they were but for the two sources, which are there. -/
structure Touched (idA idB : JsString) (memories left : Memories) : Prop where
  apart : ∀ other, other ≠ idA → other ≠ idB → left.lookup other = memories.lookup other
  presentA : ∃ current, left.lookup idA = some current
  presentB : ∃ current, left.lookup idB = some current

/-- The two sources have their states again, and all else is as it was. -/
structure Restored (idA idB : JsString) (memories left : Memories) : Prop where
  states : ∀ id, supersessionState left id = supersessionState memories id
  apart : ∀ other, other ≠ idA → other ≠ idB → left.lookup other = memories.lookup other

theorem restore_both (host : Host) (heldA : memories.lookup idA = some sourceA) (heldB : memories.lookup idB = some sourceB)
    (touched : Touched idA idB memories left) :
    (Restores host .a ∧ Restores host .b → ∃ first last, restoreMemorySnapshot host .a idA sourceA left = (first, true) ∧
      restoreMemorySnapshot host .b idB sourceB first = (last, true) ∧ Restored idA idB memories last) ∧
    (¬(Restores host .a ∧ Restores host .b) → ∃ first last firstBack lastBack,
      restoreMemorySnapshot host .a idA sourceA left = (first, firstBack) ∧
      restoreMemorySnapshot host .b idB sourceB first = (last, lastBack) ∧ (firstBack && lastBack) = false) := by
  obtain ⟨currentA, presentA⟩ := touched.presentA
  have presentB {first : Memories} (apart : ∀ other, other ≠ idA → first.lookup other = left.lookup other)
      (present : ∃ current, first.lookup idA = some current) : ∃ current, first.lookup idB = some current := by
    by_cases same : idB = idA
    · exact same ▸ present
    · rw [apart idB same]
      exact touched.presentB
  by_cases restoresA : Restores host .a
  · have first := (restore_spec .a sourceA presentA).1 restoresA
    obtain ⟨currentB, heldThen⟩ := presentB (fun other apart => lookup_set_other left { sourceA with content := currentA.content } apart)
      ⟨_, lookup_set_same left idA _⟩
    by_cases restoresB : Restores host .b
    · refine ⟨fun _ => ⟨_, _, first, (restore_spec .b sourceB heldThen).1 restoresB, ?_, ?_⟩, fun fails =>
        absurd ⟨restoresA, restoresB⟩ fails⟩
      · intro id
        by_cases sameB : id = idB
        · unfold supersessionState
          rw [sameB, lookup_set_same, heldB]
          rfl
        · rw [supersessionState_congr (lookup_set_other _ _ sameB)]
          by_cases sameA : id = idA
          · unfold supersessionState
            rw [sameA, lookup_set_same, heldA]
            rfl
          · rw [supersessionState_congr (lookup_set_other _ _ sameA)]
            exact supersessionState_congr (touched.apart id sameA sameB)
      · intro other apartA apartB
        rw [lookup_set_other _ _ apartB, lookup_set_other _ _ apartA]
        exact touched.apart other apartA apartB
    · obtain ⟨last, incomplete, _⟩ := (restore_spec .b sourceB heldThen).2 restoresB
      exact ⟨fun both => absurd both.2 restoresB, fun _ => ⟨_, last, true, false, first, incomplete, rfl⟩⟩
  · obtain ⟨first, incomplete, _⟩ := (restore_spec .a sourceA presentA).2 restoresA
    exact ⟨fun both => absurd both.1 restoresA, fun _ => ⟨first, _, false, _, incomplete, rfl, rfl⟩⟩

theorem touched_refl (heldA : memories.lookup idA = some sourceA) (heldB : memories.lookup idB = some sourceB) :
    Touched idA idB memories memories := ⟨fun _ _ _ => rfl, ⟨_, heldA⟩, ⟨_, heldB⟩⟩

theorem Touched.step {next : Memories} (touched : Touched idA idB memories left) (id : JsString) (one : id = idA ∨ id = idB)
    (apart : ∀ other, other ≠ id → next.lookup other = left.lookup other) (present : ∃ current, next.lookup id = some current) :
    Touched idA idB memories next where
  apart := by
    intro other apartA apartB
    have away : other ≠ id := by
      intro same
      rcases one with first | second
      · exact apartA (same.trans first)
      · exact apartB (same.trans second)
    rw [apart other away]
    exact touched.apart other apartA apartB
  presentA := by
    by_cases same : idA = id
    · exact same ▸ present
    · rw [apart idA same]
      exact touched.presentA
  presentB := by
    by_cases same : idB = id
    · exact same ▸ present
    · rw [apart idB same]
      exact touched.presentB

theorem mergeInto_both (heldA : memories.lookup idA = some sourceA) (heldB : memories.lookup idB = some sourceB)
    (both : BothSuperseded host idA idB sourceA sourceB) : mergeInto host idA idB mergedId sourceA sourceB created memories =
      ((memories.set idA (supersededMemory mergedId (host.supersessionTime .a) sourceA)).set idB
        (supersededMemory mergedId (host.supersessionTime .b) sourceB),
        .done [idA, idB] (.merged mergedId) (.merge mergedId sourceA sourceB created)) := by
  obtain ⟨supersedesA, supersedesB, apart⟩ := both
  unfold mergeInto
  rw [(supersedeSafe_spec .a mergedId heldA).1 supersedesA]
  dsimp only
  have heldThen := (lookup_set_other memories (supersededMemory mergedId (host.supersessionTime .a) sourceA) apart.symm).trans heldB
  rw [(supersedeSafe_spec .b mergedId heldThen).1 supersedesB]

theorem mergeInto_fails (mergedId : JsString) (created : Bool) (heldA : memories.lookup idA = some sourceA) (heldB : memories.lookup idB = some sourceB)
    (fails : ¬BothSuperseded host idA idB sourceA sourceB) : ∃ left message,
      mergeInto host idA idB mergedId sourceA sourceB created memories = (left, .failed message) ∧
      (RestoresTouched host sourceA → message.reportsIncompleteRollback = false ∧ ∃ restored,
        left = cleanupCreatedReplacement host mergedId created restored ∧ Restored idA idB memories restored) ∧
      (¬RestoresTouched host sourceA → message.reportsIncompleteRollback = true) := by
  unfold mergeInto
  by_cases supersedesA : Supersedes host .a sourceA
  · rw [(supersedeSafe_spec .a mergedId heldA).1 supersedesA]
    dsimp only
    have touched := (touched_refl heldA heldB).step idA (.inl rfl)
      (fun other apart => lookup_set_other memories (supersededMemory mergedId (host.supersessionTime .a) sourceA) apart)
      ⟨_, lookup_set_same memories idA _⟩
    obtain ⟨currentB, present⟩ := touched.presentB
    have staysB : ¬Supersedes host .b currentB := by
      intro supersedesB
      by_cases same : idA = idB
      · rw [← same, lookup_set_same] at present
        rw [← Option.some.inj present] at supersedesB
        cases supersedesB.2
      · rw [lookup_set_other _ _ (Ne.symm same), heldB] at present
        exact fails ⟨supersedesA, Option.some.inj present ▸ supersedesB, same⟩
    obtain ⟨next, refused, apart, still⟩ := (supersedeSafe_spec .b mergedId present).2 staysB
    rw [refused]
    dsimp only
    obtain ⟨whole, broken⟩ := restore_both host heldA heldB (touched.step idB (.inr rfl) apart still)
    have both : RestoresTouched host sourceA ↔ Restores host .a ∧ Restores host .b :=
      and_congr_right fun _ => ⟨fun needs => needs supersedesA, fun restores _ => restores⟩
    rw [both]
    by_cases restores : Restores host .a ∧ Restores host .b
    · obtain ⟨first, last, backA, backB, restored⟩ := whole restores
      rw [backA]
      dsimp only
      rw [backB]
      exact ⟨_, _, rfl, fun _ => ⟨rfl, last, rfl, restored⟩, fun not_ => absurd restores not_⟩
    · obtain ⟨first, last, firstBack, lastBack, backA, backB, incomplete⟩ := broken restores
      rw [backA]
      dsimp only
      rw [backB]
      dsimp only
      rw [if_neg (by rw [incomplete]; exact nofun)]
      exact ⟨_, _, rfl, fun works => absurd works restores, fun _ => rfl⟩
  · obtain ⟨next, refused, apart, present⟩ := (supersedeSafe_spec .a mergedId heldA).2 supersedesA
    obtain ⟨current, held⟩ := present
    rw [refused]
    dsimp only
    have first : RestoresTouched host sourceA ↔ Restores host .a :=
      and_iff_left fun supersedes => absurd supersedes supersedesA
    rw [first]
    by_cases restores : Restores host .a
    · rw [(restore_spec .a sourceA held).1 restores]
      refine ⟨_, _, rfl, fun _ => ⟨rfl, _, rfl, states_of_restored heldA current.content apart, ?_⟩, fun not_ => absurd restores not_⟩
      intro other apartA _
      rw [lookup_set_other _ _ apartA, apart other apartA]
    · obtain ⟨last, incomplete, _⟩ := (restore_spec .a sourceA held).2 restores
      rw [incomplete]
      exact ⟨_, _, rfl, fun works => absurd works restores, fun _ => rfl⟩

/-- A replacement that is ready: a memory that was there, or one that the call has made. -/
structure ReplacementReady (base memories : Memories) (idA idB mergedId : JsString) (created : Bool) : Prop where
  apartA : mergedId ≠ idA
  apartB : mergedId ≠ idB
  active : Active memories mergedId
  others : ∀ other, other ≠ mergedId → memories.lookup other = base.lookup other
  reused : created = false → memories = base
  made : created = true → base.lookup mergedId = none

theorem back_cleaned (host : Host) (ready : ReplacementReady base memories idA idB mergedId created)
    (restored : Restored idA idB memories left) :
    Back base (cleanupCreatedReplacement host mergedId created left) ↔ (created = true → Cleans host) := by
  unfold cleanupCreatedReplacement
  cases made : created with
  | false =>
    rw [if_neg nofun]
    refine iff_of_true (back_of_states fun id => ?_) nofun
    rw [restored.states id, ready.reused made]
  | true =>
    rw [if_pos rfl, forall_prop_of_true rfl]
    obtain ⟨merged, held, status⟩ := ready.active
    have there : left.lookup mergedId = some merged := by
      rw [restored.apart mergedId ready.apartA ready.apartB, held]
    by_cases cleans : Cleans host
    · rw [(cleanup_spec there).1 cleans]
      refine iff_of_true (back_of_states fun id => ?_) cleans
      by_cases same : id = mergedId
      · unfold supersessionState
        rw [OrderedMap.lookup_erase, if_pos same, same, ready.made made]
      · have erased : (left.erase mergedId).lookup id = left.lookup id := by rw [OrderedMap.lookup_erase, if_neg same]
        rw [supersessionState_congr erased, restored.states id]
        exact supersessionState_congr (ready.others id same)
    · rw [(cleanup_spec there).2 cleans]
      exact iff_of_false (fun back => back.uncreated mergedId (ready.made made) ⟨merged, there, status⟩) cleans

theorem changes_merged (ready : ReplacementReady base memories idA idB mergedId created)
    (heldA : memories.lookup idA = some sourceA) (heldB : memories.lookup idB = some sourceB)
    (both : BothSuperseded host idA idB sourceA sourceB) (id : JsString) (there : base.lookup id ≠ none) :
    supersessionState ((memories.set idA (supersededMemory mergedId (host.supersessionTime .a) sourceA)).set idB
      (supersededMemory mergedId (host.supersessionTime .b) sourceB)) id ≠ supersessionState base id ↔ id ∈ [idA, idB] := by
  obtain ⟨⟨_, freeA⟩, ⟨_, freeB⟩, apart⟩ := both
  have before : supersessionState memories id = supersessionState base id := by
    cases made : created with
    | false => rw [ready.reused made]
    | true => exact supersessionState_congr (ready.others id fun same => there (same ▸ ready.made made))
  have onlyB := changes_superseded mergedId (host.supersessionTime .b)
    ((lookup_set_other memories (supersededMemory mergedId (host.supersessionTime .a) sourceA) apart.symm).trans heldB) freeB
  have onlyA := changes_superseded mergedId (host.supersessionTime .a) heldA freeA
  rw [← before, mem_cons]
  by_cases sameB : id = idB
  · refine iff_of_true ?_ (.inr (mem_singleton.mpr sameB))
    have untouched : supersessionState (memories.set idA (supersededMemory mergedId (host.supersessionTime .a) sourceA)) id =
        supersessionState memories id := supersessionState_congr (lookup_set_other _ _ (sameB ▸ apart.symm))
    rw [← untouched]
    refine (onlyB id ?_).mpr (mem_singleton.mpr sameB)
    rw [sameB, lookup_set_other _ _ apart.symm, heldB]
    exact nofun
  · rw [supersessionState_congr (lookup_set_other _ _ sameB)]
    by_cases sameA : id = idA
    · refine iff_of_true ((onlyA id ?_).mpr (mem_singleton.mpr sameA)) (.inl sameA)
      rw [sameA, heldA]
      exact nofun
    · refine iff_of_false (fun changed => changed (supersessionState_congr (lookup_set_other _ _ sameA))) fun member => ?_
      exact member.elim sameA fun last => sameB (mem_singleton.mp last)

/-- A merge into a replacement that is ready is atomic, unless another answer has taken the pair, or the replacement that
the call has made is to be cleaned up and stays. -/
theorem atomic_mergeInto (named : pairPath pairId = .ok pairId) (dir : ReviewDir)
    (ready : ReplacementReady base memories idA idB mergedId created) (heldA : memories.lookup idA = some sourceA)
    (heldB : memories.lookup idB = some sourceB) :
    Atomic pairId .merge base dir (concludeResolution host pairId .merge idA idB dir
      (mergeInto host idA idB mergedId sourceA sourceB created memories)) ↔
    (BothSuperseded host idA idB sourceA sourceB → Resolves host pairId dir → ¬Overtaken pairId .merge dir) ∧
      (created = true → ¬(BothSuperseded host idA idB sourceA sourceB ∧ Resolves host pairId dir) →
        RestoresTouched host sourceA → Cleans host) := by
  have answers : ResolutionVerb.merge ≠ .needsMoreContext := nofun
  by_cases both : BothSuperseded host idA idB sourceA sourceB
  · rw [mergeInto_both heldA heldB both, forall_prop_of_true both]
    by_cases resolves : Resolves host pairId dir
    · rw [atomic_resolved _ named answers resolves rfl (cons_ne_nil _ _) (changes_merged ready heldA heldB both),
        forall_prop_of_true resolves]
      refine and_congr_right fun _ => iff_of_true ?_ fun _ fails => absurd ⟨both, resolves⟩ fails
      obtain ⟨merged, held, status⟩ := ready.active
      refine ⟨mergedId, ⟨merged, ?_, status⟩, fun id member => ?_⟩
      · rw [lookup_set_other _ _ ready.apartB, lookup_set_other _ _ ready.apartA, held]
      · rcases mem_cons.mp member with sameA | last
        · rw [sameA, lookup_set_other _ _ both.2.2]
          exact ⟨_, lookup_set_same memories idA _, rfl, rfl⟩
        · rw [mem_singleton.mp last]
          exact ⟨_, lookup_set_same _ idB _, rfl, rfl⟩
    · have touched := ((touched_refl heldA heldB).step idA (.inl rfl)
        (fun other apart => lookup_set_other memories (supersededMemory mergedId (host.supersessionTime .a) sourceA) apart)
        ⟨_, lookup_set_same memories idA _⟩).step idB (.inr rfl)
        (fun other apart => lookup_set_other _ (supersededMemory mergedId (host.supersessionTime .b) sourceB) apart)
        ⟨_, lookup_set_same _ idB _⟩
      obtain ⟨whole, broken⟩ := restore_both host heldA heldB touched
      have undoes : Undo.merge mergedId sourceA sourceB created ≠ .nothing := nofun
      have restores_iff : RestoresTouched host sourceA ↔ Restores host .a ∧ Restores host .b :=
        and_congr_right fun _ => ⟨fun needs => needs both.1, fun restores _ => restores⟩
      rw [restores_iff]
      by_cases restores : Restores host .a ∧ Restores host .b
      · obtain ⟨first, last, backA, backB, restored⟩ := whole restores
        have rolled : rollback host idA idB (.merge mergedId sourceA sourceB created)
            ((memories.set idA (supersededMemory mergedId (host.supersessionTime .a) sourceA)).set idB
              (supersededMemory mergedId (host.supersessionTime .b) sourceB)) =
              (cleanupCreatedReplacement host mergedId created last, true) := by
          unfold rollback
          dsimp only
          rw [backA]
          dsimp only
          rw [backB]
          rfl
        rw [conclude_unresolved named answers resolves _ rolled undoes]
        rw [and_iff_right fun works => absurd works resolves]
        have cleaned := back_cleaned host ready restored
        constructor
        · intro atomic made _ _
          refine cleaned.mp ?_ made
          by_contra lost
          exact not_atomic_failed host idA idB rfl lost atomic
        · intro needs
          exact atomic_failed host idA idB (.inr (cleaned.mpr fun made => needs made (fun facts => resolves facts.2) restores))
      · obtain ⟨first, last, firstBack, lastBack, backA, backB, incomplete⟩ := broken restores
        have rolled : rollback host idA idB (.merge mergedId sourceA sourceB created)
            ((memories.set idA (supersededMemory mergedId (host.supersessionTime .a) sourceA)).set idB
              (supersededMemory mergedId (host.supersessionTime .b) sourceB)) = (last, false) := by
          unfold rollback
          dsimp only
          rw [backA]
          dsimp only
          rw [backB]
          dsimp only
          rw [if_neg (by rw [incomplete]; exact nofun)]
        rw [conclude_unresolved named answers resolves _ rolled undoes]
        exact iff_of_true (atomic_failed host idA idB (.inl rfl))
          ⟨fun works => absurd works resolves, fun _ _ works => absurd works restores⟩
  · obtain ⟨left, message, failed, whole, broken⟩ :=
      mergeInto_fails mergedId created heldA heldB both
    rw [failed, and_iff_right fun works => absurd works both]
    by_cases restores : RestoresTouched host sourceA
    · obtain ⟨silent, restored, same, states⟩ := whole restores
      have cleaned := back_cleaned host ready states
      rw [← same] at cleaned
      constructor
      · intro atomic made _ _
        refine cleaned.mp ?_ made
        by_contra lost
        exact not_atomic_failed host idA idB silent lost atomic
      · intro needs
        exact atomic_failed host idA idB (.inr (cleaned.mpr fun made => needs made (fun facts => both facts.1) restores))
    · exact iff_of_true (atomic_failed host idA idB (.inl (broken restores))) fun _ _ works => absurd works restores

theorem atomic_error {fault : JsString} (back : Back memories left) :
    Atomic pairId verb memories dir ⟨left, dir, .error fault⟩ :=
  .inr (.inl ⟨rfl, back, nofun⟩)

theorem not_atomic_error {fault : JsString} (lost : ¬Back memories left) :
    ¬Atomic pairId verb memories dir ⟨left, dir, .error fault⟩ := by
  intro atomic
  rcases atomic with committed | undone | reported
  · obtain ⟨_, given, _⟩ := committed
    cases given
  · exact lost undone.back
  · obtain ⟨_, given, _⟩ := reported
    cases given

/-- A merge, from its replacement to its answer. -/
def mergeSettlement (host : Host) (pairId idA idB : JsString) (dir : ReviewDir) :
    Memories × Except JsString Mutation → Settlement
  | (memories, .error fault) => ⟨memories, dir, .error fault⟩
  | (memories, .ok mutation) => concludeResolution host pairId .merge idA idB dir (memories, mutation)

def mergePrepared (host : Host) (idA idB : JsString) :
    Memories × Except JsString MergeReplacement → Memories × Except JsString Mutation
  | (memories, .error fault) => (memories, .error fault)
  | (memories, .ok (.unready message)) => (memories, .ok (.failed message))
  | (memories, .ok (.ready mergedId sourceA sourceB created)) =>
    ((mergeInto host idA idB mergedId sourceA sourceB created memories).1,
      .ok (mergeInto host idA idB mergedId sourceA sourceB created memories).2)

theorem merge_prepared (host : Host) (idA idB : JsString) (options : ExecuteResolutionOptions) (memories : Memories) :
    merge host idA idB options memories = mergePrepared host idA idB (prepareMergeReplacement host idA idB options memories) := by
  unfold merge mergePrepared
  generalize prepareMergeReplacement host idA idB options memories = prepared
  obtain ⟨left, replacement⟩ := prepared
  cases replacement with
  | error fault => rfl
  | ok replacement => cases replacement <;> rfl

/-- The two ways in which an answer that goes through, or a replacement that is to go, breaks a merge. -/
def IntoSound (host : Host) (pairId idA idB : JsString) (sourceA sourceB : MemoryFile) (created : Bool) (dir : ReviewDir) :
    Prop :=
  (BothSuperseded host idA idB sourceA sourceB → Resolves host pairId dir → ¬Overtaken pairId .merge dir) ∧
    (created = true → ¬(BothSuperseded host idA idB sourceA sourceB ∧ Resolves host pairId dir) →
      RestoresTouched host sourceA → Cleans host)

/-- The creation of a merged memory does not leave one behind that nothing accounts for. -/
def CreationSound (host : Host) (pairId idA idB : JsString) (sourceA sourceB : MemoryFile) (dir : ReviewDir) : Prop :=
  host.tombstoneBlocked = false → host.faults .create ≠ .fails true ∧ (host.faults .create = .works →
    (∀ landed, host.faults .verify ≠ .fails landed) ∧ (host.faults .verify = .refuses → Cleans host) ∧
      (host.faults .verify = .works → IntoSound host pairId idA idB sourceA sourceB true dir))

section Creation

theorem created_ready (host : Host) (held : memories.lookup id = some memory) : host.mintId memories ≠ id := by
  intro same
  have fresh := host.mintFresh memories
  rw [same, held] at fresh
  cases fresh

theorem not_back_created (absent : memories.lookup mergedId = none) (active : memory.effectiveStatus = .active) :
    ¬Back memories (memories.set mergedId memory) := fun back =>
  back.uncreated mergedId absent ⟨memory, lookup_set_same memories mergedId memory, active⟩

theorem states_created (absent : memories.lookup mergedId = none) (other : JsString) (there : memories.lookup other ≠ none) :
    (memories.set mergedId memory).lookup other = memories.lookup other :=
  lookup_set_other memories memory fun same => there (same ▸ absent)

theorem back_erased (absent : memories.lookup mergedId = none) :
    Back memories ((memories.set mergedId memory).erase mergedId) := by
  refine back_of_states fun id => supersessionState_congr ?_
  rw [OrderedMap.lookup_erase]
  by_cases same : id = mergedId
  · rw [if_pos same, same, absent]
  · rw [if_neg same, lookup_set_other memories memory same]

theorem back_blocked (host : Host) (absent : memories.lookup mergedId = none) (blocked : memory.effectiveStatus ≠ .active) :
    Back memories (memories.set mergedId memory) ∧
      Back memories (cleanupMemoryId host mergedId (memories.set mergedId memory)) := by
  have kept : Back memories (memories.set mergedId memory) := by
    refine ⟨fun id there => supersessionState_congr (states_created absent id there), fun id missing active => ?_⟩
    obtain ⟨found, held, status⟩ := active
    by_cases same : id = mergedId
    · rw [same, lookup_set_same] at held
      exact blocked (Option.some.inj held ▸ status)
    · rw [lookup_set_other memories memory same, missing] at held
      cases held
  refine ⟨kept, ?_⟩
  have there := lookup_set_same memories mergedId memory
  by_cases cleans : Cleans host
  · rw [(cleanup_spec there).1 cleans]
    exact back_erased absent
  · rw [(cleanup_spec there).2 cleans]
    exact kept

theorem atomic_created (options : ExecuteResolutionOptions) (content : JsString)
    (named : pairPath pairId = .ok pairId) (dir : ReviewDir) (heldA : memories.lookup idA = some sourceA)
    (heldB : memories.lookup idB = some sourceB) :
    Atomic pairId .merge memories dir (mergeSettlement host pairId idA idB dir
      (mergePrepared host idA idB (createReplacement host options content sourceA sourceB memories))) ↔
        CreationSound host pairId idA idB sourceA sourceB dir := by
  have absent : memories.lookup (host.mintId memories) = none := host.mintFresh memories
  unfold createReplacement CreationSound
  dsimp only
  generalize shape : mergedMemory host content options.mergedCategory sourceA sourceB = merged
  have status : merged.effectiveStatus = if host.tombstoneBlocked then .pendingReview else .active := by
    rw [← shape]
    unfold mergedMemory MemoryFile.effectiveStatus
    dsimp only
    split <;> rfl
  cases blocked : host.tombstoneBlocked with
  | true =>
    rw [blocked, if_pos rfl] at status
    obtain ⟨kept, cleaned⟩ := back_blocked host absent (show merged.effectiveStatus ≠ .active by rw [status]; exact nofun)
    refine iff_of_true ?_ nofun
    unfold attempt
    cases host.faults .create with
    | works => exact atomic_failed host idA idB (.inr cleaned)
    | refuses => exact atomic_failed host idA idB (.inr (.refl memories))
    | fails landed =>
      cases landed with
      | false => exact atomic_failed host idA idB (.inr (.refl memories))
      | true => exact atomic_failed host idA idB (.inr kept)
  | false =>
    rw [blocked, if_neg nofun] at status
    have lost := not_back_created absent status
    have there := lookup_set_same memories (host.mintId memories) merged
    rw [forall_prop_of_true rfl]
    unfold attempt
    cases host.faults .create with
    | refuses => exact iff_of_true (atomic_failed host idA idB (.inr (.refl memories))) ⟨nofun, nofun⟩
    | fails landed =>
      cases landed with
      | false => exact iff_of_true (atomic_failed host idA idB (.inr (.refl memories))) ⟨nofun, nofun⟩
      | true => exact iff_of_false (not_atomic_failed host idA idB rfl lost) fun sound => sound.1 rfl
    | works =>
      dsimp only
      rw [if_neg nofun, and_iff_right (by exact nofun), forall_prop_of_true rfl]
      unfold getMemoryById
      cases host.faults .verify with
      | fails landed => exact iff_of_false (not_atomic_error lost) fun sound => sound.1 landed rfl
      | refuses =>
        rw [and_iff_right (by exact nofun), forall_prop_of_true rfl, and_iff_left (by exact nofun)]
        by_cases cleans : Cleans host
        · refine iff_of_true (atomic_failed host idA idB (.inr ?_)) cleans
          rw [(cleanup_spec there).1 cleans]
          exact back_erased absent
        · refine iff_of_false (not_atomic_failed host idA idB rfl ?_) cleans
          rw [(cleanup_spec there).2 cleans]
          exact lost
      | works =>
        dsimp only
        rw [and_iff_right (by exact nofun), and_iff_right (by exact nofun), forall_prop_of_true rfl, there]
        have apartA := created_ready host heldA
        have apartB := created_ready host heldB
        exact atomic_mergeInto named dir ⟨apartA, apartB, ⟨merged, there, status⟩,
          fun other apart => lookup_set_other memories merged apart, nofun, fun _ => absent⟩
          ((lookup_set_other memories merged apartA.symm).trans heldA) ((lookup_set_other memories merged apartB.symm).trans heldB)

end Creation

/-- A merge whose sources are there, into a memory that is there or that it makes. -/
def MergeSound (host : Host) (pairId idA idB : JsString) (options : ExecuteResolutionOptions) (memories : Memories)
    (dir : ReviewDir) : Prop :=
  ∀ sourceA sourceB, host.faults (.snapshot .a) = .works → memories.lookup idA = some sourceA →
    host.faults (.snapshot .b) = .works → memories.lookup idB = some sourceB →
      let requestedMergedId := trim (options.mergedMemoryId.getD [])
      (requestedMergedId ≠ [] → ¬(requestedMergedId = idA ∨ requestedMergedId = idB) → host.faults .replacement = .works →
        Active memories requestedMergedId → IntoSound host pairId idA idB sourceA sourceB false dir) ∧
      (requestedMergedId = [] → trim (options.mergedContent.getD []) ≠ [] →
        CreationSound host pairId idA idB sourceA sourceB dir)

structure Sources (host : Host) (idA idB : JsString) (memories : Memories) (sourceA sourceB : MemoryFile) : Prop where
  readA : host.faults (.snapshot .a) = .works
  heldA : memories.lookup idA = some sourceA
  readB : host.faults (.snapshot .b) = .works
  heldB : memories.lookup idB = some sourceB

def Unprepared (memories : Memories) (prepared : Memories × Except JsString MergeReplacement) : Prop :=
  (∃ fault, prepared = (memories, .error fault)) ∨ ∃ message, prepared = (memories, .ok (.unready message))

theorem atomic_unprepared {prepared : Memories × Except JsString MergeReplacement} (idA idB : JsString)
    (unprepared : Unprepared memories prepared) :
    Atomic pairId .merge memories dir (mergeSettlement host pairId idA idB dir (mergePrepared host idA idB prepared)) := by
  rcases unprepared with thrown | unready
  · obtain ⟨fault, same⟩ := thrown
    rw [same]
    exact atomic_error (.refl memories)
  · obtain ⟨message, same⟩ := unready
    rw [same]
    exact atomic_failed host idA idB (.inr (.refl memories))

theorem read_cases (fate : Fate) (memories : Memories) (id : JsString) :
    (∃ memory, fate = .works ∧ memories.lookup id = some memory ∧ getMemoryById fate memories id = .ok (some memory)) ∨
      getMemoryById fate memories id = .ok none ∨ ∃ fault, getMemoryById fate memories id = .error fault := by
  cases fate with
  | works =>
    cases held : memories.lookup id with
    | none => exact .inr (.inl (congrArg Except.ok held))
    | some memory => exact .inl ⟨memory, rfl, rfl, congrArg Except.ok held⟩
  | refuses => exact .inr (.inl rfl)
  | fails landed => exact .inr (.inr ⟨_, rfl⟩)

theorem prepare_cases (host : Host) (idA idB : JsString) (options : ExecuteResolutionOptions) (memories : Memories) :
    (∃ sourceA sourceB, Sources host idA idB memories sourceA sourceB) ∨
      Unprepared memories (prepareMergeReplacement host idA idB options memories) := by
  unfold prepareMergeReplacement
  rcases read_cases (host.faults (.snapshot .a)) memories idA with foundA | absentA | thrownA
  · obtain ⟨sourceA, readA, heldA, givenA⟩ := foundA
    rcases read_cases (host.faults (.snapshot .b)) memories idB with foundB | absentB | thrownB
    · obtain ⟨sourceB, readB, heldB, _⟩ := foundB
      exact .inl ⟨sourceA, sourceB, readA, heldA, readB, heldB⟩
    · rw [givenA, absentB]
      exact .inr (.inr ⟨_, rfl⟩)
    · obtain ⟨fault, thrown⟩ := thrownB
      rw [givenA, thrown]
      exact .inr (.inl ⟨_, rfl⟩)
  · rw [absentA]
    rcases read_cases (host.faults (.snapshot .b)) memories idB with foundB | absentB | thrownB
    · obtain ⟨sourceB, _, _, givenB⟩ := foundB
      rw [givenB]
      exact .inr (.inr ⟨_, rfl⟩)
    · rw [absentB]
      exact .inr (.inr ⟨_, rfl⟩)
    · obtain ⟨fault, thrown⟩ := thrownB
      rw [thrown]
      exact .inr (.inl ⟨_, rfl⟩)
  · obtain ⟨fault, thrown⟩ := thrownA
    rw [thrown]
    exact .inr (.inl ⟨_, rfl⟩)

theorem prepare_sources (options : ExecuteResolutionOptions) (sources : Sources host idA idB memories sourceA sourceB) :
    (trim (options.mergedMemoryId.getD []) ≠ [] →
      (¬(trim (options.mergedMemoryId.getD []) = idA ∨ trim (options.mergedMemoryId.getD []) = idB) ∧
        host.faults .replacement = .works ∧ Active memories (trim (options.mergedMemoryId.getD [])) ∧
          prepareMergeReplacement host idA idB options memories =
            (memories, .ok (.ready (trim (options.mergedMemoryId.getD [])) sourceA sourceB false))) ∨
      (¬(¬(trim (options.mergedMemoryId.getD []) = idA ∨ trim (options.mergedMemoryId.getD []) = idB) ∧
        host.faults .replacement = .works ∧ Active memories (trim (options.mergedMemoryId.getD []))) ∧
          Unprepared memories (prepareMergeReplacement host idA idB options memories))) ∧
    (trim (options.mergedMemoryId.getD []) = [] →
      prepareMergeReplacement host idA idB options memories = if trim (options.mergedContent.getD []) = [] then
        (memories, .ok (.unready .mergeNeedsContent))
      else createReplacement host options (options.mergedContent.getD []) sourceA sourceB memories) := by
  have givenA : getMemoryById (host.faults (.snapshot .a)) memories idA = .ok (some sourceA) := by
    rw [sources.readA]
    exact congrArg Except.ok sources.heldA
  have givenB : getMemoryById (host.faults (.snapshot .b)) memories idB = .ok (some sourceB) := by
    rw [sources.readB]
    exact congrArg Except.ok sources.heldB
  unfold prepareMergeReplacement
  rw [givenA, givenB]
  dsimp only
  generalize trim (options.mergedMemoryId.getD []) = requested
  refine ⟨fun asked => ?_, fun blank => by rw [if_neg (not_not.mpr blank)]⟩
  rw [if_pos asked]
  by_cases distinct : requested = idA ∨ requested = idB
  · rw [if_pos distinct]
    exact .inr ⟨fun facts => facts.1 distinct, .inr ⟨_, rfl⟩⟩
  · rw [if_neg distinct]
    rcases read_cases (host.faults .replacement) memories requested with found | absent | thrown
    · obtain ⟨replacement, works, held, given⟩ := found
      rw [given]
      dsimp only
      by_cases active : replacement.effectiveStatus = .active
      · rw [if_pos active]
        exact .inl ⟨distinct, works, ⟨replacement, held, active⟩, rfl⟩
      · rw [if_neg active]
        refine .inr ⟨fun facts => ?_, .inr ⟨_, rfl⟩⟩
        obtain ⟨also, again, status⟩ := facts.2.2
        exact active (Option.some.inj (held.symm.trans again) ▸ status)
    · rw [absent]
      refine .inr ⟨fun facts => ?_, .inr ⟨_, rfl⟩⟩
      obtain ⟨_, works, also, again, _⟩ := facts
      rw [works] at absent
      exact absurd (Except.ok.inj absent) (by rw [again]; exact nofun)
    · obtain ⟨fault, thrown⟩ := thrown
      rw [thrown]
      refine .inr ⟨fun facts => ?_, .inl ⟨_, rfl⟩⟩
      rw [facts.2.1] at thrown
      cases thrown

theorem atomic_prepared (named : pairPath pairId = .ok pairId) (dir : ReviewDir) (options : ExecuteResolutionOptions) :
    Atomic pairId .merge memories dir (mergeSettlement host pairId idA idB dir
      (mergePrepared host idA idB (prepareMergeReplacement host idA idB options memories))) ↔
        MergeSound host pairId idA idB options memories dir := by
  unfold MergeSound
  by_cases there : ∃ sourceA sourceB, Sources host idA idB memories sourceA sourceB
  · obtain ⟨sourceA, sourceB, sources⟩ := there
    obtain ⟨asks, makes⟩ := prepare_sources options sources
    have both {P : MemoryFile → MemoryFile → Prop} : (∀ sourceA sourceB, host.faults (.snapshot .a) = .works →
        memories.lookup idA = some sourceA → host.faults (.snapshot .b) = .works → memories.lookup idB = some sourceB →
          P sourceA sourceB) ↔ P sourceA sourceB := by
      refine ⟨fun all => all _ _ sources.readA sources.heldA sources.readB sources.heldB, fun one alsoA alsoB _ heldA _ heldB => ?_⟩
      rw [← Option.some.inj (sources.heldA.symm.trans heldA), ← Option.some.inj (sources.heldB.symm.trans heldB)]
      exact one
    refine Iff.trans ?_ (both (P := fun sourceA sourceB => _)).symm
    dsimp only
    by_cases blank : trim (options.mergedMemoryId.getD []) = []
    · rw [makes blank, and_iff_right fun asked => absurd blank asked, forall_prop_of_true blank]
      by_cases content : trim (options.mergedContent.getD []) = []
      · rw [if_pos content]
        exact iff_of_true (atomic_unprepared idA idB (.inr ⟨_, rfl⟩)) fun given => absurd content given
      · rw [if_neg content, forall_prop_of_true content]
        exact atomic_created options _ named dir sources.heldA sources.heldB
    · rw [and_iff_left fun none_ => absurd none_ blank, forall_prop_of_true blank]
      rcases asks blank with ready | unready
      · obtain ⟨distinct, works, active, prepared⟩ := ready
        rw [prepared, forall_prop_of_true distinct, forall_prop_of_true works, forall_prop_of_true active]
        obtain ⟨apartA, apartB⟩ := not_or.mp distinct
        exact atomic_mergeInto named dir ⟨apartA, apartB, active, fun _ _ => rfl, fun _ => rfl, nofun⟩
          sources.heldA sources.heldB
      · exact iff_of_true (atomic_unprepared idA idB unready.2) fun distinct works active =>
          absurd ⟨distinct, works, active⟩ unready.1
  · refine iff_of_true (atomic_unprepared idA idB ((prepare_cases host idA idB options memories).resolve_left there)) ?_
    intro sourceA sourceB readA heldA readB heldB
    exact absurd ⟨sourceA, sourceB, readA, heldA, readB, heldB⟩ there

end Merge

section Resolutions

/-- When a verb's answer to an open pair is given wholly, undone wholly, or reported as neither. -/
def AnswerSound (host : Host) (pairId : JsString) (verb : ResolutionVerb) (idA idB : JsString)
    (options : ExecuteResolutionOptions) (memories : Memories) (dir : ReviewDir) : Prop :=
  match verb with
  | .keepA => KeepGoes host .a idA idB memories → Resolves host pairId dir → idA ≠ idB ∧ ¬Overtaken pairId verb dir
  | .keepB => KeepGoes host .b idB idA memories → Resolves host pairId dir → idB ≠ idA ∧ ¬Overtaken pairId verb dir
  | .merge => MergeSound host pairId idA idB options memories dir
  | _ => True

theorem atomic_contradiction (named : pairPath pairId = .ok pairId) (changing : verb ∈ [.keepA, .keepB, .merge])
    (pair : ContradictionPair) (options : ExecuteResolutionOptions) (dir : ReviewDir) :
    Atomic pairId verb memories dir (resolveContradiction host pairId pair verb options memories dir) ↔
      AnswerSound host pairId verb pair.memoryIds.1 pair.memoryIds.2 options memories dir := by
  unfold resolveContradiction AnswerSound
  simp only [mem_cons, not_mem_nil, or_false] at changing
  rcases changing with same | same | same
  · rw [same]
    have answers : ResolutionVerb.keepA ≠ .needsMoreContext := nofun
    exact atomic_keep named answers dir pair.memoryIds.1 pair.memoryIds.2
  · rw [same]
    have answers : ResolutionVerb.keepB ≠ .needsMoreContext := nofun
    exact atomic_keep named answers dir pair.memoryIds.1 pair.memoryIds.2
  · rw [same]
    dsimp only
    rw [← atomic_prepared named dir options, merge_prepared]
    unfold mergeSettlement
    generalize mergePrepared host pair.memoryIds.1 pair.memoryIds.2
      (prepareMergeReplacement host pair.memoryIds.1 pair.memoryIds.2 options memories) = prepared
    obtain ⟨left, mutation⟩ := prepared
    cases mutation <;> rfl

theorem pairPath_named {file : JsString} (named : pairPath pairId = .ok file) : pairPath pairId = .ok pairId := by
  unfold pairPath at named ⊢
  split at named
  next => cases named
  next refused => exact if_neg refused

theorem atomic_told (message : ResolutionMessage) :
    Atomic pairId verb memories dir ⟨memories, dir, .ok ⟨pairId, verb, [], message⟩⟩ :=
  .inr (.inl ⟨rfl, .refl memories, fun _ given => by rw [← Except.ok.inj given]⟩)

theorem not_drift {pair : ContradictionPair} (changing : verb ∈ [.keepA, .keepB, .merge]) (accepted : refusal pair verb = none) :
    ¬pair.kind = some .preferenceDrift := by
  intro drift
  unfold refusal at accepted
  split at accepted
  next => cases accepted
  next =>
    rw [if_pos drift] at accepted
    split at accepted
    next known =>
      unfold preferenceDriftVerbs at known
      simp only [mem_cons, not_mem_nil, or_false] at changing known
      rcases changing with same | same | same <;> rw [same] at known <;> simp at known
    next => cases accepted

/-- The main result: an answer to a pair is given wholly, or undone wholly, or reported as incompletely rolled back,
exactly if the pair is not open, or its answer is sound. -/
theorem resolution_all_or_nothing (host : Host) (pairId : JsString) (verb : ResolutionVerb)
    (changing : verb ∈ [.keepA, .keepB, .merge]) (options : ExecuteResolutionOptions) (memories : Memories) (dir : ReviewDir) :
    Atomic pairId verb memories (laterDir host dir) (executeResolution host pairId verb options memories dir) ↔
      ∀ pair, readPair dir pairId = .ok (some pair) → storageReady pair options = true → refusal pair verb = none →
        AnswerSound host pairId verb pair.memoryIds.1 pair.memoryIds.2 options memories (laterDir host dir) := by
  unfold executeResolution
  dsimp only
  cases read : readPair dir pairId with
  | error fault => exact iff_of_true (atomic_error (.refl memories)) fun _ found => by cases found
  | ok found =>
    cases found with
    | none => exact iff_of_true (atomic_told .pairNotFound) fun _ found => by cases found
    | some pair =>
      have named : pairPath pairId = .ok pairId := by
        unfold readPair at read
        cases path : pairPath pairId with
        | error fault =>
          rw [path] at read
          cases read
        | ok file => exact path ▸ pairPath_named path
      have one {P : ContradictionPair → Prop} :
          (∀ other, (.ok (some pair) : Except JsString (Option ContradictionPair)) = .ok (some other) → P other) ↔ P pair :=
        ⟨fun all => all pair rfl, fun holds other same => Option.some.inj (Except.ok.inj same) ▸ holds⟩
      refine Iff.trans ?_ (one (P := fun pair => _)).symm
      dsimp only
      cases ready : storageReady pair options with
      | false => exact iff_of_true (atomic_error (.refl memories)) nofun
      | true =>
        rw [if_neg nofun, forall_prop_of_true rfl]
        cases refused : refusal pair verb with
        | some message => exact iff_of_true (atomic_told message) nofun
        | none =>
          rw [forall_prop_of_true rfl]
          dsimp only
          rw [if_neg (not_drift changing refused)]
          exact atomic_contradiction named changing pair options _

end Resolutions

section Samples

theorem length_le_sum {key : JsString} {keys : List JsString} (member : key ∈ keys) :
    key.length ≤ (keys.map List.length).sum := by
  induction keys with
  | nil => cases member
  | cons first rest ih =>
    rw [map_cons, sum_cons]
    cases member with
    | head => omega
    | tail _ later =>
      have short := ih later
      omega

def sampleMint (memories : Memories) : JsString := List.replicate ((memories.keys.map List.length).sum + 1) (unit 0x6D)

theorem sampleMint_fresh (memories : Memories) : memories.lookup (sampleMint memories) = none := by
  cases held : memories.lookup (sampleMint memories) with
  | none => rfl
  | some memory =>
    have member : sampleMint memories ∈ memories.keys := (OrderedMap.mem_keys_iff _ _).mpr ⟨memory, held⟩
    have short := length_le_sum member
    unfold sampleMint at short
    rw [length_replicate] at short
    omega

def sampleHost (faults : Site → Fate) : Host where
  faults := faults
  supersessionTime := fun _ => text "2026-01-01T00:00:00.000Z"
  mintId := sampleMint
  mintFresh := sampleMint_fresh
  tombstoneBlocked := false
  env := ⟨fun text_ => text_, fun _ => none, fun first second => decide (first ≤ second)⟩
  meanwhile := []
  pairUnreadable := false
  moment := ⟨fun _ => 0, fun files => files, fun _ => false, fun _ => false, false, false⟩
  resolvePreferenceDrift := fun _ _ memories => (memories, [], [])

def sampleMemories : Memories :=
  (OrderedMap.empty.set (text "a") ⟨text "tea", text "fact", none, none, none, none⟩).set (text "b")
    ⟨text "coffee", text "fact", none, none, none, none⟩

def samplePair : ContradictionPair where
  memoryIds := (text "a", text "b")
  verdict := .contradicts
  rationale := []
  confidence := 1
  detectedAt := []
  pairId := text "p"

def sampleDir : ReviewDir := ⟨true, OrderedMap.empty.set (text "p") samplePair, []⟩

/-- The supersession of the first memory fails, and so does the removal of the merged one. -/
def sampleFaults : Site → Fate
  | .supersede .a | .invalidate => .fails false
  | _ => .works

def sampleMerge : Settlement := executeResolution (sampleHost sampleFaults) (text "p") .merge
  { mergedContent := some (text "tea and coffee") } sampleMemories sampleDir

/-- A merge that is told to be undone leaves its merged memory active. -/
theorem sample_merge_half_undone : (sampleMerge.result.toOption.map fun result => (result.affectedIds, result.message)) =
      some ([], .mergeFailedRestored (text "a") [text "a"]) ∧ Active sampleMerge.memories (sampleMint sampleMemories) ∧
    ¬Atomic (text "p") .merge sampleMemories (laterDir (sampleHost sampleFaults) sampleDir) sampleMerge := by
  have told : (sampleMerge.result.toOption.map fun result => (result.affectedIds, result.message)) =
      some ([], .mergeFailedRestored (text "a") [text "a"]) := by decide +kernel
  have left : Active sampleMerge.memories (sampleMint sampleMemories) := by
    cases held : sampleMerge.memories.lookup (sampleMint sampleMemories) with
    | none => exact absurd held (by decide +kernel)
    | some memory =>
      refine ⟨memory, held, ?_⟩
      have status : (sampleMerge.memories.lookup (sampleMint sampleMemories)).map (fun memory => memory.effectiveStatus) =
          some .active := by decide +kernel
      rw [held] at status
      exact Option.some.inj status
  refine ⟨told, left, fun atomic => ?_⟩
  rcases atomic with committed | undone | reported
  · obtain ⟨result, given, committed⟩ := committed
    rw [given] at told
    exact committed.some_ (congrArg Prod.fst (Option.some.inj told))
  · exact undone.back.uncreated _ (sampleMint_fresh sampleMemories) left
  · obtain ⟨result, given, reports⟩ := reported
    rw [given] at told
    have same : result.message = .mergeFailedRestored (text "a") [text "a"] := congrArg Prod.snd (Option.some.inj told)
    rw [same] at reports
    cases reports

theorem sample_keep_undone : Atomic (text "p") .keepA sampleMemories (laterDir (sampleHost sampleFaults) sampleDir)
    (executeResolution (sampleHost fun site => if site = .supersede .b then .fails true else .works) (text "p") .keepA {}
      sampleMemories sampleDir) := by
  refine (resolution_all_or_nothing (sampleHost fun site => if site = .supersede .b then .fails true else .works) (text "p")
    .keepA (by decide) {} sampleMemories sampleDir).mpr fun pair read _ _ goes => ?_
  obtain ⟨_, _, _, source, _, works, _⟩ := goes
  exact absurd works (by decide)

end Samples

end Remnic.Contradiction.AllOrNothing
