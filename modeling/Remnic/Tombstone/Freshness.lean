import Remnic.Tombstone.SharedLog
import Remnic.Library.Transition

/-!
What a process knows of the shared log after `ensureFreshAgainstDisk`, over all
interleavings of the calls of several processes.
-/

namespace Remnic.Tombstone.Freshness

open Library.Transition Text.CodeUnits Entry SharedLog List Function

variable {Process Call : Type}

def Phase.holdsLock : Phase Call → Bool
  | .stamping (.sync _) | .reading (.sync _) | .publishing (.sync _) _ | .syncing _ | .appending _ | .releasing _ _ => true
  | _ => false

/-- What a load knows of the log; `seen` is the number of lines it reads. -/
def GoalKnows (lines : List LogLine) (stampedAt seen : Nat) : Goal → Prop
  | .read since => since ≤ seen
  | .enter _ => True
  | .sync _ => stampedAt = lines.length

/-- What a call knows of the log and of the store of its process between two steps. -/
def Knows (lines : List LogLine) (store : Store Call) (call : Call) : Phase Call → Prop
  | .stamping goal =>
    store.running = some call ∧ store.loaded = false ∧ GoalKnows lines store.stampedAt lines.length goal
  | .reading goal => GoalKnows lines store.stampedAt lines.length goal
  | .publishing goal content =>
    content.getD [] <+: lines ∧ GoalKnows lines store.stampedAt (content.getD []).length goal
  | .appending _ => store.stampedAt = lines.length
  | .releasing entry position | .indexing entry position =>
    position ≤ store.stampedAt ∧ lines[position]? = some (some entry)
  | .idle | .joining _ _ | .waiting _ | .syncing _ => True

/-- The stamp of a store stands for the lines the index has to hold. -/
structure Fits (world : World Process Call) (store : Store Call) : Prop where
  bounded : store.stampedAt ≤ world.lines.length
  stamped : world.file.isSome → store.fileMtimeMs = world.mtimeMs → store.stampedAt = world.lines.length
  covers : store.loaded = true → entriesOf (world.lines.take store.stampedAt) ⊆ store.index.entries

/-- The read has left an index with every entry that was durable before it. -/
def Complete (lines : List LogLine) (answer : Answer) : Prop :=
  answer.since ≤ lines.length ∧ entriesOf (lines.take answer.since) ⊆ answer.index.entries

structure Synchronized (owner : Call → Process) (world : World Process Call) : Prop where
  fits : ∀ process, Fits world (world.stores process)
  held : ∀ call, Phase.holdsLock (world.phases call) = true → world.lock = some call
  knows : ∀ call, Knows world.lines (world.stores (owner call)) call (world.phases call)
  answered : ∀ answer ∈ world.answers, Complete world.lines answer

theorem entriesOf_append (first second : List LogLine) : entriesOf (first ++ second) = entriesOf first ++ entriesOf second := by
  simp [entriesOf]

theorem entriesOf_mono {first second : List LogLine} (start : first <+: second) : entriesOf first ⊆ entriesOf second := by
  obtain ⟨rest, same⟩ := start
  rw [← same, entriesOf_append]
  exact subset_append_left _ _

variable {lines : List LogLine} {entry : CurrentEntry} {content : Option (List LogLine)} {count : Nat}
  {action : Action Call}
  (running : Option Call) (goal : Goal) (lock : Option Call)

theorem take_prefix_of_le {content : List LogLine} (start : content <+: lines) (short : count ≤ content.length) :
    lines.take count <+: content := by
  obtain ⟨rest, same⟩ := start
  rw [← same, take_append_of_le_length short]
  exact take_prefix _ _

variable {owner : Call → Process} {world next : World Process Call}

theorem Complete.append {answer : Answer} (complete : Complete lines answer) (line : LogLine) :
    Complete (lines ++ [line]) answer := by
  refine ⟨?_, ?_⟩
  · rw [length_append]
    exact complete.1.trans (Nat.le_add_right _ _)
  · rw [take_append_of_le_length complete.1]
    exact complete.2

theorem knows_append {store : Store Call} {call : Call} {phase : Phase Call} (knows : Knows lines store call phase)
    (free : Phase.holdsLock phase = false) (line : LogLine) : Knows (lines ++ [line]) store call phase := by
  have longer : lines.length ≤ (lines ++ [line]).length := by simp
  cases phase with
  | idle | joining | waiting | syncing => trivial
  | stamping goal =>
    obtain ⟨running, unloaded, holds⟩ := knows
    refine ⟨running, unloaded, ?_⟩
    cases goal with
    | read since => exact Nat.le_trans holds longer
    | enter => trivial
    | sync => contradiction
  | reading goal =>
    cases goal with
    | read since => exact Nat.le_trans knows longer
    | enter => trivial
    | sync => contradiction
  | publishing goal content =>
    refine ⟨knows.1.trans (prefix_append _ _), ?_⟩
    cases goal with
    | read since => exact knows.2
    | enter => trivial
    | sync => contradiction
  | appending => contradiction
  | releasing => contradiction
  | indexing entry position =>
    obtain ⟨stamped, placed⟩ := knows
    refine ⟨stamped, ?_⟩
    rw [List.getElem?_append_left (List.getElem?_eq_some_iff.mp placed).1]
    exact placed

theorem knows_store {before after : Store Call} {call : Call} {phase : Phase Call} (knows : Knows lines before call phase)
    (interruptible : ∀ goal, phase ≠ .stamping goal) (bounded : before.stampedAt ≤ lines.length)
    (stamped : after.stampedAt = before.stampedAt ∨ after.stampedAt = lines.length) : Knows lines after call phase := by
  have goals {seen : Nat} {goal : Goal} (holds : GoalKnows lines before.stampedAt seen goal) :
      GoalKnows lines after.stampedAt seen goal := by
    cases goal with
    | read => exact holds
    | enter => trivial
    | sync => exact stamped.elim (fun same => same.trans holds) id
  have grown : before.stampedAt ≤ after.stampedAt := by
    rcases stamped with same | newest
    · exact same ▸ Nat.le_refl _
    · exact newest ▸ bounded
  cases phase with
  | idle | joining | waiting | syncing => trivial
  | stamping goal => exact absurd rfl (interruptible goal)
  | reading goal => exact goals knows
  | publishing goal content => exact ⟨knows.1, goals knows.2⟩
  | appending => exact stamped.elim (fun same => same.trans knows) id
  | releasing entry position | indexing entry position => exact ⟨knows.1.trans grown, knows.2⟩

/-- A step of one call that leaves the log and the other processes alone. -/
structure Local (owner : Call → Process) (world next : World Process Call) (call : Call) (store : Store Call)
    (phase : Phase Call) : Prop where
  file : next.file = world.file
  mtimeMs : next.mtimeMs = world.mtimeMs
  own : next.stores (owner call) = store
  elsewhere : ∀ process, process ≠ owner call → next.stores process = world.stores process
  reached : next.phases call = phase
  others : ∀ other, other ≠ call → next.phases other = world.phases other
  lock : Phase.holdsLock phase = true → next.lock = some call
  unlock : ∀ other, other ≠ call → world.lock = some other → next.lock = some other

def Ready (owner : Call → Process) (world : World Process Call) (call : Call) : Prop :=
  ∀ running, (world.stores (owner call)).running = some running → running = call

theorem Fits.of_file {store : Store Call} (fits : Fits world store) (file : next.file = world.file)
    (mtimeMs : next.mtimeMs = world.mtimeMs) : Fits next store := by
  have lines : next.lines = world.lines := congrArg (Option.getD · []) file
  refine ⟨?_, ?_, ?_⟩
  · rw [lines]
    exact fits.bounded
  · rw [lines, file, mtimeMs]
    exact fits.stamped
  · rw [lines]
    exact fits.covers

variable {call : Call} {store : Store Call} {phase : Phase Call}

theorem Synchronized.local (synced : Synchronized owner world) (ready : Ready owner world call)
    (changes : Local owner world next call store phase) (fits : Fits world store)
    (stamped : store.stampedAt = (world.stores (owner call)).stampedAt ∨ store.stampedAt = world.lines.length)
    (knows : Knows world.lines store call phase) (answered : ∀ answer ∈ next.answers, Complete world.lines answer) :
    Synchronized owner next := by
  have lines : next.lines = world.lines := congrArg (Option.getD · []) changes.file
  refine ⟨fun process => ?_, fun other => ?_, fun other => ?_, ?_⟩
  · by_cases own : process = owner call
    · rw [own, changes.own]
      exact fits.of_file changes.file changes.mtimeMs
    · rw [changes.elsewhere process own]
      exact (synced.fits process).of_file changes.file changes.mtimeMs
  · by_cases own : other = call
    · rw [own, changes.reached]
      exact changes.lock
    · rw [changes.others other own]
      exact fun holds => changes.unlock other own (synced.held other holds)
  · rw [lines]
    by_cases own : other = call
    · rw [own, changes.reached, changes.own]
      exact knows
    · rw [changes.others other own]
      by_cases same : owner other = owner call
      · rw [same, changes.own]
        have before := synced.knows other
        rw [same] at before
        refine knows_store before (fun goal stamping => ?_) (synced.fits (owner call)).bounded stamped
        rw [stamping] at before
        exact own (ready other before.1)
      · rw [changes.elsewhere _ same]
        exact synced.knows other
  · rw [lines]
    exact answered

theorem held_unlock (synced : Synchronized owner world) (holds : Phase.holdsLock (world.phases call) = true) (other : Call)
    (different : other ≠ call) (locked : world.lock = some other) (lock : Option Call) : lock = some other := by
  rw [synced.held call holds] at locked
  exact absurd (Option.some.inj locked).symm different

theorem Fits.invalidated (loading : Option Call) (fits : Fits world store) :
    Fits world { (store.stamp world).invalidate with running, loading } := by
  cases file : world.file with
  | none =>
    simp only [Store.stamp, file, Store.invalidate]
    exact ⟨fits.bounded, fits.stamped, nofun⟩
  | some lines =>
    have all : world.lines = lines := by rw [World.lines, file, Option.getD_some]
    simp only [Store.stamp, file, Store.invalidate]
    exact ⟨all ▸ Nat.le_refl _, fun _ _ => by rw [all], nofun⟩

theorem Fits.stamped_unloaded (fits : Fits world store) (unloaded : store.loaded = false) :
    Fits world { store.stamp world with running } := by
  cases file : world.file with
  | none =>
    simp only [Store.stamp, file]
    exact ⟨fits.bounded, fits.stamped, fits.covers⟩
  | some lines =>
    have all : world.lines = lines := by rw [World.lines, file, Option.getD_some]
    simp only [Store.stamp, file]
    exact ⟨all ▸ Nat.le_refl _, fun _ _ => by rw [all], fun loaded => absurd loaded (by simp [unloaded])⟩

theorem Fits.append {line : LogLine} (fits : Fits world store) (distinct : store.fileMtimeMs ≠ next.mtimeMs)
    (grown : next.lines = world.lines ++ [line]) : Fits next store := by
  refine ⟨?_, fun _ same => absurd same distinct, fun loaded => ?_⟩
  · rw [grown, length_append]
    exact fits.bounded.trans (Nat.le_add_right _ _)
  · rw [grown, take_append_of_le_length fits.bounded]
    exact fits.covers loaded

theorem Fits.written {position : Nat} (fits : Fits world store) (known : position ≤ store.stampedAt)
    (placed : world.lines[position]? = some (some entry)) (last : world.lines.length = position + 1) :
    Fits world ({ store with index := indexEntry store.index entry.val }.stamp world) := by
  cases file : world.file with
  | none => simp [World.lines, file] at placed
  | some lines =>
    have all : world.lines = lines := by rw [World.lines, file, Option.getD_some]
    simp only [Store.stamp, file]
    refine ⟨all ▸ Nat.le_refl _, fun _ _ => by rw [all], fun loaded => ?_⟩
    change entriesOf (world.lines.take lines.length) ⊆ (indexEntry store.index entry.val).entries
    rw [← all, last, take_add_one, placed, entriesOf_append, entries_indexEntry]
    refine append_subset.mpr ⟨fun held listed => ?_, ?_⟩
    · exact mem_append_left _ (fits.covers loaded (entriesOf_mono (take_prefix_take_left known) listed))
    · exact subset_append_right _ _

theorem stampedAt_stamp (store : Store Call) (world : World Process Call) :
    (store.stamp world).stampedAt = store.stampedAt ∨ (store.stamp world).stampedAt = world.lines.length := by
  cases file : world.file with
  | none => exact .inl (by simp only [Store.stamp, file])
  | some lines => exact .inr (by simp only [Store.stamp, file, World.lines, Option.getD_some])

theorem stampedAt_settle (store : Store Call) : (goal.settle store).stampedAt = store.stampedAt := by
  cases goal <;> rfl

theorem Fits.settle (fits : Fits world store) (goal : Goal) : Fits world (goal.settle store) := by
  cases goal with
  | sync => exact fits
  | read | enter => exact ⟨fits.bounded, fits.stamped, fits.covers⟩

theorem index_settle (store : Store Call) : (goal.settle store).index = store.index := by
  cases goal <;> rfl

theorem publish_covers (start : content.getD [] <+: world.lines) (short : count ≤ (content.getD []).length) :
    entriesOf (world.lines.take count) ⊆ (store.publish content).index.entries := by
  have taken := entriesOf_mono (take_prefix_of_le start short)
  cases content with
  | none => exact List.Subset.trans taken (nil_subset _)
  | some lines =>
    simp only [Store.publish, entries_indexAll, Index.empty, nil_append]
    exact taken

theorem stampedAt_publish (store : Store Call) (content : Option (List LogLine)) :
    (store.publish content).stampedAt = store.stampedAt := by
  cases content <;> rfl

theorem Fits.publish (fits : Fits world store) (start : content.getD [] <+: world.lines)
    (short : store.stampedAt ≤ (content.getD []).length) : Fits world (store.publish content) := by
  have same := stampedAt_publish store content
  refine ⟨same ▸ fits.bounded, ?_, fun _ => publish_covers start (same ▸ short)⟩
  cases content <;> exact fits.stamped

/-- A store the probe leaves alone holds every durable entry. -/
theorem Fits.complete (fits : Fits world store) (current : store.current world = true) :
    store.stampedAt = world.lines.length ∧ entriesOf world.lines ⊆ store.index.entries := by
  unfold Store.current at current
  cases file : world.file with
  | none =>
    have empty : world.lines = [] := by rw [World.lines, file, Option.getD_none]
    refine ⟨?_, by rw [empty]; exact nil_subset _⟩
    have bounded := fits.bounded
    rw [empty, length_nil] at bounded ⊢
    exact Nat.le_zero.mp bounded
  | some lines =>
    simp only [file, Option.isNone_some, Bool.false_or, Bool.and_eq_true, decide_eq_true_eq] at current
    have newest := fits.stamped (by rw [file]; rfl) current.1
    refine ⟨newest, ?_⟩
    have covers := fits.covers current.2
    rwa [newest, take_length] at covers

theorem synchronized_initial (file : Option (List LogLine)) (mtimeMs : Int) :
    Synchronized owner (initial file mtimeMs : World Process Call) := by
  refine ⟨fun process => ⟨?_, fun _ same => ?_, nofun⟩, nofun, fun call => trivial, nofun⟩
  · change (if mtimeMs = 0 then (file.getD []).length else 0) ≤ (file.getD []).length
    split <;> omega
  · exact if_pos same.symm

variable [DecidableEq Call]

theorem local_phase (answers : List Answer) (locked : Phase.holdsLock phase = true → lock = some call)
    (unlocked : ∀ other, other ≠ call → world.lock = some other → lock = some other) :
    Local owner world ({ world with lock, answers }.at call phase) call (world.stores (owner call)) phase where
  file := rfl
  mtimeMs := rfl
  own := rfl
  elsewhere _ _ := rfl
  reached := update_self _ _ _
  others _ other := update_of_ne other _ _
  lock := locked
  unlock := unlocked

theorem Synchronized.moves (synced : Synchronized owner world) (ready : Ready owner world call) (lock : Option Call)
    (knows : Knows world.lines (world.stores (owner call)) call phase)
    (locked : Phase.holdsLock phase = true → lock = some call)
    (unlocked : ∀ other, other ≠ call → world.lock = some other → lock = some other) :
    Synchronized owner ({ world with lock }.at call phase) :=
  synced.local ready (local_phase lock world.answers locked unlocked) (synced.fits _) (.inl rfl) knows synced.answered

theorem synchronized_write {mtimeMs : Int} (synced : Synchronized owner world) (phase : world.phases call = .appending entry)
    (distinct : ∀ process, (world.stores process).fileMtimeMs ≠ mtimeMs) :
    Synchronized owner
      ({ world with file := some (world.lines ++ [some entry]), mtimeMs }.at call (.releasing entry world.lines.length)) := by
  have locked : world.lock = some call := synced.held call (by rw [phase]; rfl)
  refine ⟨fun process => ?_, fun other => ?_, fun other => ?_, fun answer listed => (synced.answered answer listed).append _⟩
  · exact (synced.fits process).append (distinct process) rfl
  · by_cases own : other = call
    · rw [own]
      exact fun _ => locked
    · simp only [World.at, update_of_ne own]
      exact synced.held other
  · by_cases own : other = call
    · have before := synced.knows call
      rw [phase] at before
      rw [own]
      simp only [World.at, update_self]
      exact ⟨Nat.le_of_eq before.symm, List.getElem?_concat_length ..⟩
    · simp only [World.at, update_of_ne own]
      refine knows_append (synced.knows other) ?_ (some entry)
      by_contra holds
      exact own (Option.some.inj ((synced.held other (by simpa using holds)).symm.trans locked))

variable [DecidableEq Process]

theorem local_store (answers : List Answer) (locked : Phase.holdsLock phase = true → lock = some call)
    (unlocked : ∀ other, other ≠ call → world.lock = some other → lock = some other) :
    Local owner world ({ world.store (owner call) store with lock, answers }.at call phase) call store phase where
  file := rfl
  mtimeMs := rfl
  own := update_self _ _ _
  elsewhere _ other := update_of_ne other _ _
  reached := update_self _ _ _
  others _ other := update_of_ne other _ _
  lock := locked
  unlock := unlocked

def Phase.readLines : Phase Call → Option (List LogLine)
  | .publishing _ content => some (content.getD [])
  | _ => none

/-- The position of an own line that is about to be stamped. -/
def Phase.appendedAt : Phase Call → Option Nat
  | .indexing _ position => some position
  | _ => none

/-- The condition of each step: a write gets a time that no process remembers, a load
publishes lines its store has no later stamp for, and no other line follows an appended
one before it is stamped. -/
def Undisturbed (owner : Call → Process) (world : World Process Call) : Action Call → Prop
  | .write _ mtimeMs => ∀ process, (world.stores process).fileMtimeMs ≠ mtimeMs
  | .publish call =>
    ∀ lines ∈ Phase.readLines (world.phases call), (world.stores (owner call)).stampedAt ≤ lines.length
  | .markWritten call => ∀ position ∈ Phase.appendedAt (world.phases call), world.lines.length = position + 1
  | _ => True

variable {host : Host} {nameSpace : Process → JsString}

section

variable (synced : Synchronized owner world) (ready : Ready owner world call)
include synced ready

theorem synchronized_ensureFresh (stepped : perform owner host nameSpace world (.ensureFreshAgainstDisk call) = some next) : Synchronized owner next := by
  simp only [perform] at stepped
  split_ifs at stepped with busy current
  · cases stepped
    obtain ⟨_, complete⟩ := (synced.fits (owner call)).complete current
    refine synced.local ready (local_phase world.lock (_ :: world.answers) nofun fun _ _ => id) (synced.fits _) (.inl rfl)
      trivial (forall_mem_cons.mpr ⟨⟨Nat.le_refl _, ?_⟩, synced.answered⟩)
    rw [take_length]
    exact complete
  · cases stepped
    have stamped := stampedAt_stamp (world.stores (owner call)) world
    refine synced.local ready (local_store world.lock world.answers nofun fun _ _ => id)
      ((synced.fits _).invalidated _ _) stamped ⟨rfl, rfl, Nat.le_refl _⟩ synced.answered

theorem synchronized_enter (entry : CurrentEntry) : Synchronized owner (world.enter owner call entry) := by
  unfold World.enter
  dsimp only
  have fits := synced.fits (owner call)
  split_ifs with loaded
  · exact synced.moves ready world.lock trivial nofun fun _ _ => id
  · split
    · exact synced.moves ready world.lock trivial nofun fun _ _ => id
    · exact synced.local ready (local_store world.lock world.answers nofun fun _ _ => id)
        ⟨fits.bounded, fits.stamped, fits.covers⟩ (.inl rfl) ⟨rfl, by simpa using loaded, trivial⟩ synced.answered

theorem synchronized_load (stepped : perform owner host nameSpace world (.recordFileMtime call) = some next) : Synchronized owner next := by
  simp only [perform] at stepped
  split at stepped
  next goal phase =>
    cases stepped
    have before := synced.knows call
    rw [phase] at before
    obtain ⟨_, unloaded, holds⟩ := before
    have stamped := stampedAt_stamp (world.stores (owner call)) world
    refine synced.local ready (local_store world.lock world.answers (fun sync => ?_) fun _ _ => id)
      ((synced.fits _).stamped_unloaded none unloaded) stamped ?_ synced.answered
    · exact synced.held call (by rw [phase]; cases goal <;> exact sync)
    · cases goal with
      | read => exact holds
      | enter => trivial
      | sync => exact stamped.elim (fun same => same.trans holds) id
  next => contradiction

theorem synchronized_read (stepped : perform owner host nameSpace world (.read call) = some next) : Synchronized owner next := by
  simp only [perform] at stepped
  split at stepped
  next goal phase =>
    cases stepped
    have before := synced.knows call
    rw [phase] at before
    refine synced.moves ready world.lock ⟨prefix_rfl, before⟩ (fun sync => ?_) fun _ _ => id
    exact synced.held call (by rw [phase]; cases goal <;> exact sync)
  next => contradiction

theorem synchronized_readFails (stepped : perform owner host nameSpace world (.readFails call) = some next) : Synchronized owner next := by
  simp only [perform] at stepped
  split at stepped
  next goal phase =>
    cases stepped
    have fits := (synced.fits (owner call)).settle goal
    have stamped := stampedAt_settle goal (world.stores (owner call))
    cases goal with
    | read | enter =>
      exact synced.local ready (local_store world.lock world.answers nofun fun _ _ => id) fits (.inl stamped) trivial
        synced.answered
    | sync entry =>
      have holds : Phase.holdsLock (world.phases call) = true := by rw [phase]; rfl
      exact synced.local ready
        (local_store none world.answers nofun fun other different locked => held_unlock synced holds other different locked _)
        fits (.inl stamped) trivial synced.answered
  next => contradiction

theorem synchronized_publish (undisturbed : Undisturbed owner world (.publish call))
    (stepped : perform owner host nameSpace world (.publish call) = some next) : Synchronized owner next := by
  simp only [perform] at stepped
  split at stepped
  next goal content phase =>
    cases stepped
    have before := synced.knows call
    rw [phase] at before
    obtain ⟨start, holds⟩ := before
    have recent := undisturbed (content.getD []) (by rw [phase]; rfl)
    have fits := ((synced.fits (owner call)).publish start recent).settle goal
    have stamped := (stampedAt_settle goal _).trans (stampedAt_publish (world.stores (owner call)) content)
    cases goal with
    | read since =>
      refine synced.local ready (local_store world.lock (_ :: world.answers) nofun fun _ _ => id) fits (.inl stamped) trivial
        (forall_mem_cons.mpr ⟨⟨Nat.le_trans holds start.length_le, ?_⟩, synced.answered⟩)
      simp only [World.store, update_self, index_settle]
      exact publish_covers start holds
    | enter entry =>
      exact synced.local ready (local_store world.lock world.answers nofun fun _ _ => id) fits (.inl stamped) trivial
        synced.answered
    | sync entry =>
      have locked : world.lock = some call := synced.held call (by rw [phase]; rfl)
      exact synced.local ready (local_store world.lock world.answers (fun _ => locked) fun _ _ => id) fits (.inl stamped)
        (stamped.trans holds) synced.answered
  next => contradiction

theorem synchronized_sync (stepped : perform owner host nameSpace world (.sync call) = some next) : Synchronized owner next := by
  simp only [perform] at stepped
  split at stepped
  next entry phase =>
    have locked : world.lock = some call := synced.held call (by rw [phase]; rfl)
    split_ifs at stepped with current
    · cases stepped
      exact synced.moves ready world.lock ((synced.fits _).complete current).1 (fun _ => locked) fun _ _ => id
    · cases stepped
      have stamped := stampedAt_stamp (world.stores (owner call)) world
      have newest : ((world.stores (owner call)).stamp world).stampedAt = world.lines.length := by
        cases file : world.file with
        | none => simp [Store.current, file] at current
        | some lines => simp only [Store.stamp, file, World.lines, Option.getD_some]
      exact synced.local ready (local_store world.lock world.answers (fun _ => locked) fun _ _ => id)
        ((synced.fits _).invalidated _ _) stamped ⟨rfl, rfl, newest⟩ synced.answered
  next => contradiction

theorem synchronized_markWritten (undisturbed : Undisturbed owner world (.markWritten call))
    (stepped : perform owner host nameSpace world (.markWritten call) = some next) : Synchronized owner next := by
  simp only [perform] at stepped
  split at stepped
  next entry position phase =>
    cases stepped
    have before := synced.knows call
    rw [phase] at before
    obtain ⟨known, placed⟩ := before
    have last := undisturbed position (by rw [phase]; rfl)
    exact synced.local ready (local_store world.lock world.answers nofun fun _ _ => id)
      ((synced.fits (owner call)).written known placed last)
      (stampedAt_stamp { world.stores (owner call) with index := _ } world) trivial synced.answered
  next => contradiction

end

theorem synchronized_perform (synced : Synchronized owner world) (ready : Ready owner world action.call)
    (undisturbed : Undisturbed owner world action) (stepped : perform owner host nameSpace world action = some next) :
    Synchronized owner next := by
  cases action with
  | ensureFreshAgainstDisk call => exact synchronized_ensureFresh synced ready stepped
  | appendTombstone call mint input | revoke call mint tombstoneId createdBy =>
    simp only [perform] at stepped
    split_ifs at stepped
    cases stepped
    exact synchronized_enter synced ready _
  | recordFileMtime call => exact synchronized_load synced ready stepped
  | read call => exact synchronized_read synced ready stepped
  | readFails call => exact synchronized_readFails synced ready stepped
  | publish call => exact synchronized_publish synced ready undisturbed stepped
  | joined call =>
    simp only [perform] at stepped
    split at stepped
    next entry other phase =>
      split_ifs at stepped
      cases stepped
      exact synced.moves ready world.lock trivial nofun fun _ _ => id
    next => contradiction
  | acquire call =>
    simp only [perform] at stepped
    split at stepped
    next entry phase free =>
      cases stepped
      exact synced.moves ready (some call) trivial (fun _ => rfl) fun other _ locked => absurd locked (by simp [free])
    next => contradiction
  | giveUp call =>
    simp only [perform] at stepped
    split at stepped
    next entry phase =>
      cases stepped
      exact synced.moves ready world.lock trivial nofun fun _ _ => id
    next => contradiction
  | sync call => exact synchronized_sync synced ready stepped
  | write call mtimeMs =>
    simp only [perform] at stepped
    split at stepped
    next entry phase =>
      cases stepped
      exact synchronized_write synced phase undisturbed
    next => contradiction
  | writeFails call =>
    simp only [perform] at stepped
    split at stepped
    next entry phase =>
      cases stepped
      have holds : Phase.holdsLock (world.phases call) = true := by rw [phase]; rfl
      exact synced.moves ready none trivial nofun fun other different locked => held_unlock synced holds other different locked _
    next => contradiction
  | release call =>
    simp only [perform] at stepped
    split at stepped
    next entry position phase =>
      cases stepped
      have holds : Phase.holdsLock (world.phases call) = true := by rw [phase]; rfl
      have before := synced.knows call
      rw [phase] at before
      exact synced.moves ready none before nofun fun other different locked => held_unlock synced holds other different locked _
    next => contradiction
  | markWritten call => exact synchronized_markWritten synced ready undisturbed stepped

theorem synchronized_step (synced : Synchronized owner world) (undisturbed : Undisturbed owner world action)
    (stepped : step owner host nameSpace world action = some next) : Synchronized owner next := by
  unfold step at stepped
  split_ifs at stepped with ready
  have alone : Ready owner world action.call := by
    unfold Ready
    simpa [Option.all_eq_true] using ready
  exact synchronized_perform synced alone undisturbed stepped

/-- In every run whose steps are undisturbed each read leaves an index with every entry
that was durable before it. -/
theorem index_complete {file : Option (List LogLine)} {mtimeMs : Int}
    (reached : Reaches (step owner host nameSpace) (Undisturbed owner) (initial file mtimeMs) world) :
    ∀ answer ∈ world.answers, ∀ entry ∈ entriesOf (world.lines.take answer.since), entry ∈ answer.index.entries := by
  have synced : Synchronized owner world := by
    apply reached.invariant (Synchronized owner)
    · exact synchronized_initial file mtimeMs
    · exact fun _ _ _ synced undisturbed stepped => synchronized_step synced undisturbed stepped
  exact fun answer listed entry durable => (synced.answered answer listed).2 durable

instance (world : World Bool Call) (action : Action Call) (owner : Call → Bool) : Decidable (Undisturbed owner world action) := by
  cases action <;> unfold Undisturbed <;> infer_instance

def sampleHost : Host := ⟨id, id⟩

def sampleMint (random : String) : Mint := ⟨text "t", text "2026-01-01T00:00:00.000Z", text random⟩

def sampleInput (content : String) : AppendInput where
  reason := .retraction
  createdBy := .userCorrection
  sourceMemoryId := text "fact-1"
  rawContent := text content

/-- The file operations of an append up to the release of the lock; a new store loads first. -/
def appendUntilRelease (call : Nat) (content : String) (mtimeMs : Int) : List (Action Nat) :=
  [.appendTombstone call (sampleMint content) (sampleInput content), .recordFileMtime call, .read call, .publish call,
    .acquire call, .sync call, .write call mtimeMs, .release call]

/-- Even calls belong to one process, odd calls to the other. -/
def sampleOwner (call : Nat) : Bool := call % 2 = 1

/-- One process appends, the other reads before and after. -/
def appendThenRead : List (Action Nat) :=
  [.ensureFreshAgainstDisk 1] ++ appendUntilRelease 0 "tea" 5 ++
    [.markWritten 0, .ensureFreshAgainstDisk 1, .recordFileMtime 1, .read 1, .publish 1]

theorem index_complete_appendThenRead : ∃ world : World Bool Nat,
    Reaches (step sampleOwner sampleHost fun _ => []) (Undisturbed sampleOwner) (initial none 0) world ∧
      ∃ answer ∈ world.answers, answer.since = 1 ∧
        ∀ entry ∈ entriesOf (world.lines.take answer.since), entry ∈ answer.index.entries := by
  refine exists_reached (fun world => ∃ answer ∈ world.answers, answer.since = 1) appendThenRead (by decide +kernel) ?_
  intro world reached ⟨answer, listed, since⟩
  exact ⟨answer, listed, since, index_complete reached answer listed⟩

/-- The other process appends between the release of the lock and the stamp. -/
def appendBeforeStamp : List (Action Nat) :=
  appendUntilRelease 0 "tea" 5 ++ appendUntilRelease 1 "milk" 7 ++ [.markWritten 1, .markWritten 0, .ensureFreshAgainstDisk 0]

theorem unseen_append : ∃ world : World Bool Nat,
    run (step sampleOwner sampleHost fun _ => []) appendBeforeStamp (initial none 0) = some world ∧
      ∃ answer ∈ world.answers, ∃ entry ∈ entriesOf (world.lines.take answer.since), entry ∉ answer.index.entries :=
  exists_run (fun world => ∃ answer ∈ world.answers, ∃ entry ∈ entriesOf (world.lines.take answer.since),
    entry ∉ answer.index.entries) (by decide +kernel) fun _ => id

end Remnic.Tombstone.Freshness
