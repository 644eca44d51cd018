import Remnic.Idempotency.StoreSteps

/-!
What the state file, the stores and the calls know of the records that have landed, and what
a step of one call leaves of it to the others.
-/

namespace Remnic.Idempotency.StoreInvariant

open Library Records StoreSteps List Option Function

variable {Response Store Call : Type}

/-- A put has recorded its entry in memory and has not yet fixed the text it writes. -/
def Stage.dirty : Stage Call Response → Bool
  | .locking _ | .readingShared _ | .merging _ _ | .merged _ => true
  | _ => false

def Stage.locked : Stage Call Response → Bool
  | .readingShared _ | .merging _ _ | .merged _ | .writing _ _ | .replacing _ _ _ | .remtiming _ | .resettling _ _ => true
  | _ => false

def Stage.reloading : Stage Call Response → Bool
  | .statting | .comparing _ | .reading | .assigning _ _ | .mtiming _ | .settling _ | .reloaded => true
  | _ => false

def Stage.flushing : Stage Call Response → Bool
  | .locking _ | .readingShared _ | .merging _ _ | .merged _ | .writing _ _ | .replacing _ _ _ | .remtiming _
  | .resettling _ _ | .unlocked _ => true
  | _ => false

def Holds (history : List (Entry Response)) (state : State Response) (record : Entry Response) : Prop :=
  Kept history record.1 record.2 → state.lookup record.1 = some record.2

def Has (history : List (Entry Response)) (state : State Response) (records : List (Entry Response)) : Prop :=
  ∀ record ∈ records, Holds history state record

def landedRecords (world : World Response Store Call) : List (Entry Response) := world.landed.map Prod.fst

def landedBefore (world : World Response Store Call) (mtimeMs : Nat) : List (Entry Response) :=
  (world.landed.filter fun landing => landing.2 < mtimeMs).map Prod.fst

def stateOf (calls : Calls Call Store Response) (world : World Response Store Call) (call : Call) : State Response :=
  (world.memories (calls.store call)).state

/-- What is in the file and in memory, whatever the calls are about to do. -/
structure Files (world : World Response Store Call) : Prop where
  fileKnown : ∀ file ∈ world.file, file.state.entries ⊆ world.history
  memoryKnown : ∀ store, (world.memories store).state.entries ⊆ world.history
  inFile : ∀ record ∈ landedRecords world, Kept world.history record.1 record.2 →
    ∃ file ∈ world.file, file.state.lookup record.1 = some record.2
  dated : ∀ record ∈ landedRecords world, record.2.recordedAt ≤ world.now
  timed : world.mtimeMs ≤ world.now
  landedBy : ∀ landing ∈ world.landed, landing.2 ≤ world.mtimeMs
  loaded : ∀ store, (world.memories store).loadedMtimeMs ≤ world.mtimeMs
  covered : ∀ store, Has world.history (world.memories store).state
    (landedBefore world (world.memories store).loadedMtimeMs)
  resolved : ∀ record ∈ world.resolved, record ∈ landedRecords world
  before : ∀ call, ∀ record ∈ world.resolvedBefore call, record ∈ landedRecords world

/-- A put of a store that is under way: it is the first in the queue. -/
def Taking (calls : Calls Call Store Response) (world : World Response Store Call) (call : Call) : Prop :=
  Stage.flushing (world.stages call) = true ∨
    (calls.request call).isPut = true ∧ Stage.reloading (world.stages call) = true

structure Turns (calls : Calls Call Store Response) (world : World Response Store Call) : Prop where
  locked : ∀ call, Stage.locked (world.stages call) = true → world.lock = some call
  first : ∀ call, Taking calls world call → (world.memories (calls.store call)).writeQueue.head? = some call

def Knows (calls : Calls Call Store Response) (world : World Response Store Call) (call : Call) :
    Stage Call Response → Prop
  | .comparing (some mtimeMs) => ∀ record ∈ world.resolvedBefore call, ∃ landedAt ≤ mtimeMs, (record, landedAt) ∈ world.landed
  | .assigning raw renames => renames ≤ world.renames ∧ (∀ state ∈ raw, state.entries ⊆ world.history) ∧
      (renames = world.renames → world.content = raw)
  | .mtiming renames => renames ≤ world.renames ∧
      (renames = world.renames → Has world.history (stateOf calls world call) (landedRecords world)) ∧
      Has world.history (stateOf calls world call) (world.resolvedBefore call)
  | .settling mtimeMs => mtimeMs ≤ world.mtimeMs ∧
      Has world.history (stateOf calls world call) (landedBefore world mtimeMs) ∧
      Has world.history (stateOf calls world call) (world.resolvedBefore call)
  | .reloaded => Has world.history (stateOf calls world call) (world.resolvedBefore call)
  | .answered given => ∀ record ∈ world.resolvedBefore call, calls.request call = .get record.1 record.2.requestHash →
      Kept world.history record.1 record.2 → given = ⟨some record.2.response, false⟩
  | .locking entry | .readingShared entry =>
      entry.recordedAt ≤ world.now ∧ Holds world.history (stateOf calls world call) (record calls call entry)
  | .merging entry raw => entry.recordedAt ≤ world.now ∧ world.content = raw ∧
      Holds world.history (stateOf calls world call) (record calls call entry)
  | .merged entry => entry.recordedAt ≤ world.now ∧
      Has world.history (stateOf calls world call) (landedRecords world) ∧
      Holds world.history (stateOf calls world call) (record calls call entry)
  | .writing entry content => entry.recordedAt ≤ world.now ∧
      Has world.history (stateOf calls world call) (landedRecords world) ∧ content.entries ⊆ world.history ∧
      Has world.history content (landedRecords world) ∧ Holds world.history content (record calls call entry)
  | .replacing entry content mtimeMs => entry.recordedAt ≤ world.now ∧
      Has world.history (stateOf calls world call) (landedRecords world) ∧ content.entries ⊆ world.history ∧
      Has world.history content (landedRecords world) ∧ Holds world.history content (record calls call entry) ∧
      world.mtimeMs ≤ mtimeMs ∧ mtimeMs ≤ world.now
  | .remtiming entry => record calls call entry ∈ landedRecords world ∧
      Has world.history (stateOf calls world call) (landedBefore world world.mtimeMs)
  | .resettling entry mtimeMs => record calls call entry ∈ landedRecords world ∧ mtimeMs ≤ world.mtimeMs ∧
      Has world.history (stateOf calls world call) (landedBefore world mtimeMs)
  | .unlocked entry => record calls call entry ∈ landedRecords world
  | _ => True

structure Sound (calls : Calls Call Store Response) (world : World Response Store Call) : Prop where
  files : Files world
  turns : Turns calls world
  knows : ∀ call, Knows calls world call (world.stages call)

variable {calls : Calls Call Store Response} {world next : World Response Store Call} {call other : Call}
  {history later : List (Entry Response)} {state : State Response} {records : List (Entry Response)}

variable {record : Entry Response}

theorem Holds.mono (holds : Holds history state record) (grown : history ⊆ later) :
    Holds later state record := fun kept => holds (kept.mono grown)

theorem mem_landedRecords_of_before {mtimeMs : Nat} (listed : record ∈ landedBefore world mtimeMs) :
    record ∈ landedRecords world := by
  obtain ⟨landing, filtered, same⟩ := mem_map.mp listed
  exact mem_map.mpr ⟨landing, (mem_filter.mp filtered).1, same⟩

theorem mem_landedBefore {mtimeMs landedAt : Nat} (listed : (record, landedAt) ∈ world.landed) (earlier : landedAt < mtimeMs) :
    record ∈ landedBefore world mtimeMs :=
  mem_map.mpr ⟨(record, landedAt), mem_filter.mpr ⟨listed, decide_eq_true earlier⟩, rfl⟩

structure SameFile (world next : World Response Store Call) : Prop where
  file : next.file = world.file
  renames : next.renames = world.renames
  landed : next.landed = world.landed

structure Lands (world next : World Response Store Call) : Prop where
  renames : world.renames < next.renames
  mtimeMs : world.mtimeMs ≤ next.mtimeMs
  landed : ∃ landing, next.landed = world.landed ++ [landing] ∧ world.mtimeMs ≤ landing.2

structure Frame (calls : Calls Call Store Response) (world next : World Response Store Call) (other : Call) : Prop where
  before : next.resolvedBefore other = world.resolvedBefore other
  history : world.history ⊆ next.history
  now : world.now ≤ next.now
  keeps : ∀ record ∈ landedRecords world, Holds world.history (stateOf calls world other) record →
    Holds next.history (stateOf calls next other) record
  dirty : Stage.dirty (world.stages other) = true → stateOf calls next other = stateOf calls world other
  file : SameFile world next ∨ Lands world next ∧ world.lock ≠ some other

theorem Frame.has (frame : Frame calls world next other) (held : Has world.history (stateOf calls world other) records)
    (landed : ∀ record ∈ records, record ∈ landedRecords world) : Has next.history (stateOf calls next other) records :=
  fun record listed => frame.keeps record (landed record listed) (held record listed)

theorem SameFile.landedRecords_eq (same : SameFile world next) : landedRecords next = landedRecords world := by
  unfold landedRecords
  rw [same.landed]

theorem SameFile.landedBefore_eq (same : SameFile world next) (mtimeMs : Nat) :
    landedBefore next mtimeMs = landedBefore world mtimeMs := by
  unfold landedBefore
  rw [same.landed]

theorem SameFile.mtimeMs (same : SameFile world next) : next.mtimeMs = world.mtimeMs := by
  unfold World.mtimeMs
  rw [same.file]

theorem SameFile.content (same : SameFile world next) : next.content = world.content := by
  unfold World.content
  rw [same.file]

theorem Frame.mtimeMs (frame : Frame calls world next other) : world.mtimeMs ≤ next.mtimeMs := by
  rcases frame.file with same | ⟨lands, _⟩
  · exact Nat.le_of_eq same.mtimeMs.symm
  · exact lands.mtimeMs

theorem Frame.landed (frame : Frame calls world next other) : world.landed ⊆ next.landed := by
  rcases frame.file with same | ⟨lands, _⟩
  · rw [same.landed]
    exact Subset.refl _
  · obtain ⟨landing, appended, _⟩ := lands.landed
    rw [appended]
    exact subset_append_left _ _

theorem Frame.landedRecords_subset (frame : Frame calls world next other) : landedRecords world ⊆ landedRecords next :=
  map_subset _ frame.landed

theorem landedBefore_append {landing : Entry Response × Nat} {mtimeMs : Nat} (appended : next.landed = world.landed ++ [landing])
    (late : mtimeMs ≤ landing.2) : landedBefore next mtimeMs = landedBefore world mtimeMs := by
  have outside : decide (landing.2 < mtimeMs) = false := decide_eq_false (Nat.not_lt.mpr late)
  unfold landedBefore
  rw [appended, filter_append, filter_singleton, outside, cond_false, append_nil]

section

variable (frame : Frame calls world next other)
include frame

theorem Frame.landedBefore_eq {mtimeMs : Nat} (bound : mtimeMs ≤ world.mtimeMs) :
    landedBefore next mtimeMs = landedBefore world mtimeMs := by
  rcases frame.file with same | ⟨lands, _⟩
  · exact same.landedBefore_eq mtimeMs
  · obtain ⟨landing, appended, late⟩ := lands.landed
    exact landedBefore_append appended (bound.trans late)

theorem Frame.stays (lock : world.lock = some other) : SameFile world next := by
  rcases frame.file with same | ⟨_, elsewhere⟩
  · exact same
  · exact absurd lock elsewhere

theorem Frame.has_before (files : Files world)
    (held : Has world.history (stateOf calls world other) (world.resolvedBefore other)) :
    Has next.history (stateOf calls next other) (next.resolvedBefore other) := by
  rw [frame.before]
  exact frame.has held (files.before other)

theorem Frame.has_landed (same : SameFile world next)
    (held : Has world.history (stateOf calls world other) (landedRecords world)) :
    Has next.history (stateOf calls next other) (landedRecords next) := by
  rw [same.landedRecords_eq]
  exact frame.has held fun _ => id

theorem Frame.has_landedBefore {mtimeMs : Nat} (bound : mtimeMs ≤ world.mtimeMs)
    (held : Has world.history (stateOf calls world other) (landedBefore world mtimeMs)) :
    Has next.history (stateOf calls next other) (landedBefore next mtimeMs) := by
  rw [frame.landedBefore_eq bound]
  exact frame.has held fun _ => mem_landedRecords_of_before

theorem Frame.holds (dirty : Stage.dirty (world.stages other) = true)
    (held : Holds world.history (stateOf calls world other) record) : Holds next.history (stateOf calls next other) record := by
  rw [frame.dirty dirty]
  exact held.mono frame.history

theorem Frame.has_text (same : SameFile world next) (held : Has world.history state (landedRecords world)) : Has next.history state (landedRecords next) := by
  rw [same.landedRecords_eq]
  exact fun record listed => (held record listed).mono frame.history

end

theorem Knows.frame {stage : Stage Call Response} (reached : world.stages other = stage)
    (knows : Knows calls world other stage) (frame : Frame calls world next other) (files : Files world)
    (turns : Turns calls world) : Knows calls next other stage := by
  have stays (locked : Stage.locked stage = true) : SameFile world next :=
    frame.stays (turns.locked other (reached ▸ locked))
  have dirty (holding : Stage.dirty stage = true) : Stage.dirty (world.stages other) = true := reached ▸ holding
  cases stage with
  | comparing mtimeMs =>
    cases mtimeMs with
    | none => trivial
    | some mtimeMs =>
      intro record listed
      rw [frame.before] at listed
      obtain ⟨landedAt, bound, landed⟩ := knows record listed
      exact ⟨landedAt, bound, frame.landed landed⟩
  | assigning raw renames =>
    obtain ⟨bound, known, current⟩ := knows
    rcases frame.file with same | ⟨lands, _⟩
    · rw [Knows, same.renames, same.content]
      exact ⟨bound, fun state listed => Subset.trans (known state listed) frame.history, current⟩
    · refine ⟨bound.trans (Nat.le_of_lt lands.renames), fun state listed => Subset.trans (known state listed) frame.history, ?_⟩
      intro same
      exact absurd (same ▸ bound) (Nat.not_le.mpr lands.renames)
  | mtiming renames =>
    obtain ⟨bound, current, before⟩ := knows
    rcases frame.file with same | ⟨lands, _⟩
    · rw [Knows, same.renames]
      exact ⟨bound, fun renamed => frame.has_landed same (current renamed), frame.has_before files before⟩
    · refine ⟨bound.trans (Nat.le_of_lt lands.renames), ?_, frame.has_before files before⟩
      intro same
      exact absurd (same ▸ bound) (Nat.not_le.mpr lands.renames)
  | settling mtimeMs =>
    obtain ⟨bound, loaded, before⟩ := knows
    exact ⟨bound.trans frame.mtimeMs, frame.has_landedBefore bound loaded, frame.has_before files before⟩
  | reloaded => exact frame.has_before files knows
  | answered given =>
    intro record listed asked kept
    rw [frame.before] at listed
    exact knows record listed asked (kept.mono frame.history)
  | locking entry => exact ⟨knows.1.trans frame.now, frame.holds (dirty rfl) knows.2⟩
  | readingShared entry => exact ⟨knows.1.trans frame.now, frame.holds (dirty rfl) knows.2⟩
  | merging entry raw =>
    obtain ⟨dated, current, own⟩ := knows
    exact ⟨dated.trans frame.now, (stays rfl).content.trans current, frame.holds (dirty rfl) own⟩
  | merged entry =>
    obtain ⟨dated, landed, own⟩ := knows
    exact ⟨dated.trans frame.now, frame.has_landed (stays rfl) landed, frame.holds (dirty rfl) own⟩
  | writing entry content =>
    obtain ⟨dated, landed, known, text, own⟩ := knows
    exact ⟨dated.trans frame.now, frame.has_landed (stays rfl) landed, Subset.trans known frame.history,
      frame.has_text (stays rfl) text, own.mono frame.history⟩
  | replacing entry content mtimeMs =>
    obtain ⟨dated, landed, known, text, own, late, past⟩ := knows
    exact ⟨dated.trans frame.now, frame.has_landed (stays rfl) landed, Subset.trans known frame.history,
      frame.has_text (stays rfl) text, own.mono frame.history, (stays rfl).mtimeMs.le.trans late, past.trans frame.now⟩
  | remtiming entry =>
    obtain ⟨landed, loaded⟩ := knows
    rw [Knows, (stays rfl).mtimeMs]
    exact ⟨frame.landedRecords_subset landed, frame.has_landedBefore (Nat.le_refl _) loaded⟩
  | resettling entry mtimeMs =>
    obtain ⟨landed, bound, loaded⟩ := knows
    exact ⟨frame.landedRecords_subset landed, bound.trans frame.mtimeMs, frame.has_landedBefore bound loaded⟩
  | unlocked entry => exact frame.landedRecords_subset knows
  | _ => trivial

/-- A step of one call keeps the invariant if it keeps what is in the files and whose turn it is. -/
theorem Sound.moves (sound : Sound calls world) (call : Call)
    (others : ∀ other, other ≠ call → next.stages other = world.stages other ∧ Frame calls world next other)
    (files : Files next) (turns : Turns calls next) (knows : Knows calls next call (next.stages call)) : Sound calls next where
  files := files
  turns := turns
  knows := by
    intro other
    by_cases same : other = call
    · exact same ▸ knows
    · obtain ⟨stays, frame⟩ := others other same
      rw [stays]
      exact (sound.knows other).frame rfl frame sound.files sound.turns

theorem Sound.stands (sound : Sound calls world) (stages : next.stages = world.stages)
    (frame : ∀ other, Frame calls world next other) (files : Files next) (turns : Turns calls next) : Sound calls next where
  files := files
  turns := turns
  knows := by
    intro other
    rw [stages]
    exact (sound.knows other).frame rfl (frame other) sound.files sound.turns

theorem Files.congr (files : Files world) (file : next.file = world.file) (history : next.history = world.history)
    (landed : next.landed = world.landed) (now : world.now ≤ next.now)
    (memory : ∀ store, (next.memories store).state = (world.memories store).state ∧
      (next.memories store).loadedMtimeMs = (world.memories store).loadedMtimeMs)
    (resolved : ∀ record ∈ next.resolved, record ∈ landedRecords world)
    (before : ∀ call, ∀ record ∈ next.resolvedBefore call, record ∈ landedRecords world) : Files next := by
  have mtimeMs : next.mtimeMs = world.mtimeMs := by
    unfold World.mtimeMs
    rw [file]
  have records : landedRecords next = landedRecords world := by
    unfold landedRecords
    rw [landed]
  have records_ (bound : Nat) : landedBefore next bound = landedBefore world bound := by
    unfold landedBefore
    rw [landed]
  exact {
    fileKnown := by
      rw [file, history]
      exact files.fileKnown
    memoryKnown := by
      intro store
      rw [(memory store).1, history]
      exact files.memoryKnown store
    inFile := by
      rw [records, history, file]
      exact files.inFile
    dated := by
      rw [records]
      exact fun record listed => (files.dated record listed).trans now
    timed := by
      rw [mtimeMs]
      exact files.timed.trans now
    landedBy := by
      rw [landed, mtimeMs]
      exact files.landedBy
    loaded := by
      intro store
      rw [(memory store).2, mtimeMs]
      exact files.loaded store
    covered := by
      intro store
      rw [(memory store).1, (memory store).2, history, records_]
      exact files.covered store
    resolved := by
      rw [records]
      exact resolved
    before := by
      rw [records]
      exact before }

theorem Turns.goes (turns : Turns calls world) (call : Call)
    (others : ∀ other, other ≠ call → next.stages other = world.stages other)
    (lock : ∀ other, other ≠ call → world.lock = some other → next.lock = some other)
    (queue : ∀ other, other ≠ call → Taking calls world other →
      (next.memories (calls.store other)).writeQueue.head? = some other)
    (locked : Stage.locked (next.stages call) = true → next.lock = some call)
    (first : Taking calls next call → (next.memories (calls.store call)).writeQueue.head? = some call) :
    Turns calls next where
  locked := by
    intro other holding
    by_cases same : other = call
    · exact same ▸ locked (same ▸ holding)
    · rw [others other same] at holding
      exact lock other same (turns.locked other holding)
  first := by
    intro other taking
    by_cases same : other = call
    · exact same ▸ first (same ▸ taking)
    · unfold Taking at taking
      rw [others other same] at taking
      exact queue other same taking

theorem Turns.alone (turns : Turns calls world) (taking : Taking calls world call) (also : Taking calls world other)
    (same : calls.store other = calls.store call) : other = call := by
  have mine := turns.first call taking
  have theirs := turns.first other also
  rw [same, mine, some.injEq] at theirs
  exact theirs.symm

theorem flushing_of_dirty {stage : Stage Call Response} (dirty : Stage.dirty stage = true) : Stage.flushing stage = true := by
  cases stage <;> first | rfl | contradiction

theorem Turns.clean (turns : Turns calls world) (taking : Taking calls world call) (different : other ≠ call)
    (same : calls.store other = calls.store call) : Stage.dirty (world.stages other) = false := by
  by_contra dirty
  rw [Bool.not_eq_false] at dirty
  exact different (turns.alone taking (.inl (flushing_of_dirty dirty)) same)

theorem frame_still (before : next.resolvedBefore other = world.resolvedBefore other) (history : next.history = world.history)
    (now : world.now ≤ next.now) (same : SameFile world next) (state : stateOf calls next other = stateOf calls world other) :
    Frame calls world next other where
  before := before
  history := by
    rw [history]
    exact Subset.refl _
  now := now
  keeps := by
    intro record _ held
    rw [history, state]
    exact held
  dirty := fun _ => state
  file := .inl same

theorem sound_initial (now : Nat) : Sound calls (initial now) where
  files := {
    fileKnown := nofun
    memoryKnown := fun _ => Subset.refl _
    inFile := nofun
    dated := nofun
    timed := Nat.zero_le _
    landedBy := nofun
    loaded := fun _ => Nat.le_refl _
    covered := nofun
    resolved := nofun
    before := nofun }
  turns := {
    locked := nofun
    first := by
      intro call taking
      rcases taking with flushing | ⟨_, reloading⟩
      · contradiction
      · contradiction }
  knows := fun _ => trivial

theorem sound_tick (sound : Sound calls world) (elapsed : Nat) : Sound calls { world with now := world.now + elapsed } := by
  refine sound.stands rfl ?_ ?_ ?_
  · exact fun other => frame_still rfl rfl (Nat.le_add_right _ _) ⟨rfl, rfl, rfl⟩ rfl
  · exact sound.files.congr rfl rfl rfl (Nat.le_add_right _ _) (fun _ => ⟨rfl, rfl⟩) sound.files.resolved sound.files.before
  · exact ⟨sound.turns.locked, sound.turns.first⟩

section At

variable [DecidableEq Call] {stage before : Stage Call Response}

@[simp] theorem stages_at (world : World Response Store Call) (call : Call) (stage : Stage Call Response) :
    (world.at call stage).stages call = stage := update_self ..

theorem others_at (world : World Response Store Call) (call : Call) (stage : Stage Call Response) (other : Call)
    (different : other ≠ call) : (world.at call stage).stages other = world.stages other := update_of_ne different ..

theorem files_at (files : Files world) (call : Call) (stage : Stage Call Response) : Files (world.at call stage) :=
  files.congr rfl rfl rfl (Nat.le_refl _) (fun _ => ⟨rfl, rfl⟩) files.resolved files.before

theorem Sound.goes (sound : Sound calls world) (locked : Stage.locked stage = true → world.lock = some call)
    (first : Stage.flushing stage = true ∨ (calls.request call).isPut = true ∧ Stage.reloading stage = true →
      (world.memories (calls.store call)).writeQueue.head? = some call)
    (knows : Knows calls world call stage) : Sound calls (world.at call stage) := by
  apply sound.moves call
  · intro other different
    exact ⟨others_at world call stage other different, frame_still rfl rfl (Nat.le_refl _) ⟨rfl, rfl, rfl⟩ rfl⟩
  · exact files_at sound.files call stage
  · apply sound.turns.goes call (others_at world call stage)
    · exact fun _ _ lock => lock
    · exact fun other _ taking => sound.turns.first other taking
    · rw [stages_at]
      exact locked
    · unfold Taking
      rw [stages_at]
      exact first
  · rw [stages_at]
    exact knows

section

variable (sound : Sound calls world) (reached : world.stages call = before)
include sound reached

theorem Sound.goesOn (locked : Stage.locked stage = true → Stage.locked before = true)
    (flushing : Stage.flushing stage = true → Stage.flushing before = true)
    (reloading : Stage.reloading stage = true → Stage.reloading before = true ∨ Stage.flushing before = true)
    (knows : Knows calls world call stage) : Sound calls (world.at call stage) := by
  apply sound.goes
  · exact fun holding => sound.turns.locked call (reached ▸ locked holding)
  · intro taking
    apply sound.turns.first call
    unfold Taking
    rw [reached]
    rcases taking with flush | ⟨put, reload⟩
    · exact .inl (flushing flush)
    · rcases reloading reload with again | flush
      · exact .inr ⟨put, again⟩
      · exact .inl flush
  · exact knows

theorem Sound.reloads (reloading : Stage.reloading before = true) (unlocked : Stage.locked stage = false)
    (idle : Stage.flushing stage = false) (knows : Knows calls world call stage) : Sound calls (world.at call stage) := by
  apply sound.goesOn reached
  · exact fun locked => absurd locked (Bool.not_eq_true _ ▸ unlocked)
  · exact fun flushing => absurd flushing (Bool.not_eq_true _ ▸ idle)
  · exact fun _ => .inl reloading
  · exact knows

theorem Sound.flushes (flushing : Stage.flushing before = true)
    (locked : Stage.locked stage = true → Stage.locked before = true) (knows : Knows calls world call stage) : Sound calls (world.at call stage) := by
  apply sound.goesOn reached locked
  · exact fun _ => flushing
  · exact fun _ => .inr flushing
  · exact knows

end

end At

section Memory

variable [DecidableEq Store]

variable {store : Store}

@[simp] theorem state_remember (world : World Response Store Call) (store : Store) (state : State Response) :
    ((world.remember store state).memories store).state = state := by
  simp only [World.remember, update_self]

theorem memories_remember (world : World Response Store Call) {elsewhere : Store} (different : elsewhere ≠ store)
    (state : State Response) : (world.remember store state).memories elsewhere = world.memories elsewhere :=
  update_of_ne different ..

theorem unstate_remember (world : World Response Store Call) (store elsewhere : Store) (state : State Response) :
    ((world.remember store state).memories elsewhere).loadedMtimeMs = (world.memories elsewhere).loadedMtimeMs ∧
      ((world.remember store state).memories elsewhere).writeQueue = (world.memories elsewhere).writeQueue := by
  by_cases same : elsewhere = store
  · simp only [same, World.remember, update_self, and_self]
  · rw [memories_remember world same]
    exact ⟨rfl, rfl⟩

theorem files_remember (files : Files world) (known : state.entries ⊆ world.history)
    (keeps : ∀ record ∈ landedRecords world, Holds world.history (world.memories store).state record →
      Holds world.history state record) :
    Files (world.remember store state) where
  fileKnown := files.fileKnown
  memoryKnown := by
    intro elsewhere
    by_cases same : elsewhere = store
    · rw [same, state_remember]
      exact known
    · rw [memories_remember world same]
      exact files.memoryKnown elsewhere
  inFile := files.inFile
  dated := files.dated
  timed := files.timed
  landedBy := files.landedBy
  loaded := by
    intro elsewhere
    rw [(unstate_remember world store elsewhere state).1]
    exact files.loaded elsewhere
  covered := by
    intro elsewhere record listed
    rw [(unstate_remember world store elsewhere state).1] at listed
    have held := files.covered elsewhere record listed
    by_cases same : elsewhere = store
    · rw [same, state_remember]
      exact keeps record (mem_landedRecords_of_before listed) (same ▸ held)
    · rw [memories_remember world same]
      exact held
  resolved := files.resolved
  before := files.before

theorem frame_remember
    (keeps : ∀ record ∈ landedRecords world, Holds world.history (world.memories store).state record → Holds world.history state record)
    (clean : calls.store other = store → Stage.dirty (world.stages other) = false) :
    Frame calls world (world.remember store state) other where
  before := rfl
  history := Subset.refl _
  now := Nat.le_refl _
  keeps := by
    intro record listed held
    unfold stateOf at held ⊢
    by_cases same : calls.store other = store
    · rw [same, state_remember]
      exact keeps record listed (same ▸ held)
    · rw [memories_remember world same]
      exact held
  dirty := by
    intro holding
    unfold stateOf
    by_cases same : calls.store other = store
    · rw [clean same] at holding
      contradiction
    · rw [memories_remember world same]
  file := .inl ⟨rfl, rfl, rfl⟩

theorem sound_remember (sound : Sound calls world) (known : state.entries ⊆ world.history)
    (keeps : ∀ record ∈ landedRecords world, Holds world.history (world.memories store).state record → Holds world.history state record)
    (clean : ∀ other, calls.store other = store → Stage.dirty (world.stages other) = false) :
    Sound calls (world.remember store state) := by
  refine sound.stands rfl ?_ ?_ ?_
  · exact fun other => frame_remember keeps (clean other)
  · exact files_remember sound.files known keeps
  · refine ⟨sound.turns.locked, fun other taking => ?_⟩
    rw [(unstate_remember world store (calls.store other) state).2]
    exact sound.turns.first other taking

theorem state_load (world : World Response Store Call) (store elsewhere : Store) (mtimeMs : Nat) :
    ((world.load store mtimeMs).memories elsewhere).state = (world.memories elsewhere).state ∧
      ((world.load store mtimeMs).memories elsewhere).writeQueue = (world.memories elsewhere).writeQueue := by
  by_cases same : elsewhere = store
  · simp only [same, World.load, update_self, and_self]
  · simp only [World.load, update_of_ne same, and_self]

theorem sound_load {mtimeMs : Nat} (sound : Sound calls world) (bound : mtimeMs ≤ world.mtimeMs)
    (held : Has world.history (world.memories store).state (landedBefore world mtimeMs)) :
    Sound calls (world.load store mtimeMs) := by
  refine sound.stands rfl ?_ ?_ ?_
  · exact fun other => frame_still rfl rfl (Nat.le_refl _) ⟨rfl, rfl, rfl⟩ (state_load world store (calls.store other) mtimeMs).1
  · exact {
      fileKnown := sound.files.fileKnown
      memoryKnown := by
        intro elsewhere
        rw [(state_load world store elsewhere mtimeMs).1]
        exact sound.files.memoryKnown elsewhere
      inFile := sound.files.inFile
      dated := sound.files.dated
      timed := sound.files.timed
      landedBy := sound.files.landedBy
      loaded := by
        intro elsewhere
        by_cases same : elsewhere = store
        · simp only [same, World.load, update_self]
          exact bound
        · simp only [World.load, update_of_ne same]
          exact sound.files.loaded elsewhere
      covered := by
        intro elsewhere
        by_cases same : elsewhere = store
        · simp only [same, World.load, update_self]
          exact held
        · simp only [World.load, update_of_ne same]
          exact sound.files.covered elsewhere
      resolved := sound.files.resolved
      before := sound.files.before }
  · refine ⟨sound.turns.locked, fun other taking => ?_⟩
    rw [(state_load world store (calls.store other) mtimeMs).2]
    exact sound.turns.first other taking

end Memory

theorem landedBefore_zero (world : World Response Store Call) : landedBefore world 0 = [] := by
  unfold landedBefore
  rw [filter_eq_nil_iff.mpr, map_nil]
  intro landing _
  simp

theorem unkept_of_absent (files : Files world) (absent : world.file = none) (listed : record ∈ landedRecords world)
    (state : State Response) : Holds world.history state record := by
  intro kept
  obtain ⟨file, there, _⟩ := files.inFile record listed kept
  rw [absent] at there
  cases there

theorem has_content (files : Files world) {raw : State Response} (content : world.content = some raw) :
    raw.entries ⊆ world.history ∧ Has world.history raw (landedRecords world) := by
  obtain ⟨file, there, same⟩ := map_eq_some_iff.mp content
  refine ⟨same ▸ files.fileKnown file there, fun record listed kept => ?_⟩
  obtain ⟨found, placed, held⟩ := files.inFile record listed kept
  rw [there, mem_def, some.injEq] at placed
  rw [← same, placed]
  exact held

theorem mtimeMs_of_file {file : StateFile Response} (there : world.file = some file) : world.mtimeMs = file.mtimeMs := by
  unfold World.mtimeMs
  rw [there]
  rfl

theorem sound_record (sound : Sound calls world) (entry : Entry Response) :
    Sound calls { world with history := world.history ++ [entry] } := by
  have grown : world.history ⊆ world.history ++ [entry] := subset_append_left _ _
  refine sound.stands rfl ?_ ?_ ?_
  · exact fun other => {
      before := rfl
      history := grown
      now := Nat.le_refl _
      keeps := fun _ _ held => held.mono grown
      dirty := fun _ => rfl
      file := .inl ⟨rfl, rfl, rfl⟩ }
  · exact {
      fileKnown := fun file there => Subset.trans (sound.files.fileKnown file there) grown
      memoryKnown := fun store => Subset.trans (sound.files.memoryKnown store) grown
      inFile := fun record listed kept => sound.files.inFile record listed (kept.mono grown)
      dated := sound.files.dated
      timed := sound.files.timed
      landedBy := sound.files.landedBy
      loaded := sound.files.loaded
      covered := fun store record listed => (sound.files.covered store record listed).mono grown
      resolved := sound.files.resolved
      before := sound.files.before }
  · exact ⟨sound.turns.locked, sound.turns.first⟩

end Remnic.Idempotency.StoreInvariant
