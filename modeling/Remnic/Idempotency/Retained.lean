import Mathlib.Data.Fintype.Basic
import Remnic.Idempotency.StoreInvariant
import Remnic.Library.Transition

/-!
When a `get` that starts after a `put` has resolved returns its response, over all
interleavings of the calls on any number of stores over one directory.
-/

namespace Remnic.Idempotency.Retained

open Library Library.Transition Text.CodeUnits Records StoreSteps StoreInvariant List Option Function

variable {Response Store Call : Type}

/-- No other put of the store has an entry in memory that it has not written. -/
def Undisturbed (calls : Calls Call Store Response) (world : World Response Store Call) (call : Call) : Prop :=
  ∀ other, calls.store other = calls.store call → Stage.dirty (world.stages other) = false

/-- The condition of each step. The state file can be read while it exists; a reload replaces the state in memory only by
what the file still holds and while no put has an unwritten entry there; the time it takes for loaded is of the file it has
read; a put merges no record that is older than the one in the file; and no key is `__proto__`. -/
def CarefulAt (calls : Calls Call Store Response) (world : World Response Store Call) (call : Call) (works : Bool) :
    Stage Call Response → Prop
  | .statting | .reading | .readingShared _ => works = true
  | .comparing none => world.file.isNone ∧ Undisturbed calls world call
  | .assigning _ renames => renames = world.renames ∧ Undisturbed calls world call
  | .mtiming renames => works = true → renames = world.renames
  | .reloaded => (calls.request call).isPut = true → (calls.request call).key ≠ proto
  | .merging _ (some raw) => NoOlder raw (world.memories (calls.store call)).state
  | _ => True

def Careful (calls : Calls Call Store Response) (world : World Response Store Call) : Action Call → Prop
  | .proceed call works => CarefulAt calls world call works (world.stages call)
  | _ => True

/-- A get answers with each record of its key that had been resolved when it started, if it is to be kept. -/
def Remembers (calls : Calls Call Store Response) (world : World Response Store Call) : Prop :=
  ∀ call given, world.stages call = .answered given → ∀ record ∈ world.resolvedBefore call,
    calls.request call = .get record.1 record.2.requestHash → Kept world.history record.1 record.2 →
      given = ⟨some record.2.response, false⟩

variable {calls : Calls Call Store Response} {world next : World Response Store Call} {call other : Call}

section Reload

variable [DecidableEq Call] {stage : Stage Call Response} {works : Bool}

variable [DecidableEq Store]

theorem sound_empty (sound : Sound calls world) (reached : world.stages call = stage) (absent : world.file = none)
    (clean : Undisturbed calls world call) (reloading : Stage.reloading stage = true) :
    Sound calls (((world.remember (calls.store call) OrderedMap.empty).load (calls.store call) 0).at call .reloaded) := by
  have emptied : Sound calls (world.remember (calls.store call) OrderedMap.empty) :=
    sound_remember sound nofun (fun record listed _ => unkept_of_absent sound.files absent listed _) clean
  have loaded : Sound calls ((world.remember (calls.store call) OrderedMap.empty).load (calls.store call) 0) := by
    apply sound_load emptied (Nat.zero_le _)
    rw [landedBefore_zero]
    nofun
  refine loaded.reloads reached reloading rfl rfl ?_
  exact fun record listed => unkept_of_absent sound.files absent (sound.files.before call record listed) _

theorem sound_reload (sound : Sound calls world) (careful : CarefulAt calls world call works stage)
    (reached : world.stages call = stage) (stepped : reloadStep calls world call works stage = some next) :
    Sound calls next := by
  have knows : Knows calls world call stage := reached ▸ sound.knows call
  cases stage with
  | queued behind =>
    simp only [reloadStep] at stepped
    split_ifs at stepped with put first
    · cases stepped
      exact sound.goes (fun locked => by cases locked) (fun _ => first) trivial
    · cases stepped
      refine sound.goes (fun locked => by cases locked) (fun taking => ?_) trivial
      rcases taking with flushing | ⟨again, _⟩
      · cases flushing
      · exact absurd again put
  | statting =>
    cases stepped
    obtain rfl : works = true := careful
    refine sound.reloads reached rfl rfl rfl ?_
    cases there : world.file with
    | none => trivial
    | some file =>
      intro record listed
      obtain ⟨landing, landed, same⟩ := mem_map.mp (sound.files.before call record listed)
      refine ⟨landing.2, ?_, same ▸ landed⟩
      rw [← mtimeMs_of_file there]
      exact sound.files.landedBy landing landed
  | comparing mtimeMs =>
    cases mtimeMs with
    | none =>
      cases stepped
      exact sound_empty sound reached (isNone_iff_eq_none.mp careful.1) careful.2 rfl
    | some mtimeMs =>
      simp only [reloadStep] at stepped
      split_ifs at stepped with newer
      · cases stepped
        refine sound.reloads reached rfl rfl rfl ?_
        intro record listed
        obtain ⟨landedAt, bound, landed⟩ := knows record listed
        exact sound.files.covered (calls.store call) record (mem_landedBefore landed (Nat.lt_of_le_of_lt bound newer))
      · cases stepped
        exact sound.reloads reached rfl rfl rfl trivial
  | reading =>
    cases stepped
    obtain rfl : works = true := careful
    refine sound.reloads reached rfl rfl rfl ?_
    exact ⟨Nat.le_refl _, fun state content => (has_content sound.files content).1, fun _ => rfl⟩
  | assigning raw renames =>
    obtain ⟨current, clean⟩ := careful
    have content := knows.2.2 current
    cases raw with
    | none =>
      cases stepped
      exact sound_empty sound reached (map_eq_none_iff.mp content) clean rfl
    | some raw =>
      cases stepped
      obtain ⟨known, landed⟩ := has_content sound.files content
      have assigned : Sound calls (world.remember (calls.store call) raw) :=
        sound_remember sound known (fun record listed _ => landed record listed) clean
      have state : stateOf calls (world.remember (calls.store call) raw) call = raw := state_remember world _ raw
      refine assigned.reloads reached rfl rfl rfl ?_
      rw [Knows, state]
      exact ⟨knows.1, fun _ => landed, fun record listed => landed record (sound.files.before call record listed)⟩
  | mtiming renames =>
    obtain ⟨_, landed, before⟩ := knows
    cases stepped
    refine sound.reloads reached rfl rfl rfl ?_
    cases works with
    | true =>
      exact ⟨Nat.le_refl _, fun record listed => landed (careful rfl) record (mem_landedRecords_of_before listed), before⟩
    | false =>
      refine ⟨Nat.zero_le _, ?_, before⟩
      simp only [Bool.false_eq_true, if_false, landedBefore_zero]
      exact fun record listed => absurd listed not_mem_nil
  | settling mtimeMs =>
    obtain ⟨bound, loaded, before⟩ := knows
    cases stepped
    refine (sound_load sound bound loaded).reloads reached rfl rfl rfl ?_
    intro record listed
    have state : stateOf calls (world.load (calls.store call) mtimeMs) call = stateOf calls world call :=
      (state_load world _ _ mtimeMs).1
    rw [state]
    exact before record listed
  | _ => cases stepped

end Reload

section Put

variable [DecidableEq Store] [DecidableEq Call] {stage : Stage Call Response} {works : Bool}

theorem sound_request (sound : Sound calls world) (careful : CarefulAt calls world call works .reloaded)
    (reached : world.stages call = .reloaded) : Sound calls (requestStep calls world call) := by
  have knows : Has world.history (stateOf calls world call) (world.resolvedBefore call) := by
    have known := sound.knows call
    rw [reached] at known
    exact known
  unfold requestStep
  cases asked : calls.request call with
  | get key requestHash =>
    refine sound.reloads reached rfl rfl rfl ?_
    intro record listed again kept
    rw [asked, Request.get.injEq] at again
    obtain ⟨rfl, rfl⟩ := again
    exact answer_found (knows record listed kept) rfl
  | put key requestHash response =>
    have named : key ≠ proto := by
      have unproto := careful (by rw [asked]; rfl)
      rw [asked] at unproto
      exact unproto
    have taking : Taking calls world call := .inr ⟨by rw [asked]; rfl, by rw [reached]; rfl⟩
    let entry : AccessIdempotencyEntry Response := ⟨world.now, requestHash, response⟩
    let state := (world.memories (calls.store call)).state
    have recorded := sound_record sound (key, entry)
    have listed : (key, entry) ∈ world.history ++ [(key, entry)] :=
      mem_append_right _ (mem_singleton_self _)
    have known : state.entries ⊆ world.history ++ [(key, entry)] := recorded.files.memoryKnown (calls.store call)
    have assigned : (assignProperty state key entry).entries ⊆ world.history ++ [(key, entry)] :=
      entries_assignProperty known listed
    have remembered := sound_remember recorded (entries_prune assigned)
      (fun record landed held kept =>
        lookup_prune kept assigned (lookup_assignProperty kept listed (sound.files.dated record landed) (held kept)))
      (fun other same => by
        by_cases itself : other = call
        · rw [itself]
          change Stage.dirty (world.stages call) = false
          rw [reached]
          rfl
        · exact sound.turns.clean taking itself same)
    refine remembered.goes nofun (fun _ => ?_) ?_
    · rw [(unstate_remember _ _ _ _).2]
      exact sound.turns.first call taking
    · refine ⟨Nat.le_refl _, fun kept => ?_⟩
      have mine : record calls call entry = (key, entry) := by
        unfold record
        rw [asked]
        rfl
      rw [mine] at kept ⊢
      unfold stateOf
      rw [state_remember]
      exact lookup_prune kept assigned (lookup_assignProperty_self named)

theorem sound_settle (sound : Sound calls world) (taking : Taking calls world call) {lock : Option Call}
    {resolved : List (Entry Response)} (lockKept : ∀ other, other ≠ call → world.lock = some other → lock = some other)
    (known : ∀ record ∈ resolved, record ∈ landedRecords world) (unlocked : Stage.locked stage = false)
    (idle : Stage.flushing stage = false) (still : Stage.reloading stage = false) (knows : Knows calls world call stage) :
    Sound calls ({ world.release (calls.store call) with lock, resolved }.at call stage) := by
  have state (elsewhere : Store) : ((world.release (calls.store call)).memories elsewhere).state =
        (world.memories elsewhere).state ∧
      ((world.release (calls.store call)).memories elsewhere).loadedMtimeMs = (world.memories elsewhere).loadedMtimeMs := by
    by_cases same : elsewhere = calls.store call
    · simp only [same, World.release, World.queue, update_self, and_self]
    · simp only [World.release, World.queue, update_of_ne same, and_self]
  have frame (other : Call) :
      Frame calls world ({ world.release (calls.store call) with lock, resolved }.at call stage) other :=
    frame_still rfl rfl (Nat.le_refl _) ⟨rfl, rfl, rfl⟩ (state (calls.store other)).1
  apply sound.moves call
  · exact fun other different => ⟨others_at _ call stage other different, frame other⟩
  · exact sound.files.congr rfl rfl rfl (Nat.le_refl _) state known sound.files.before
  · apply sound.turns.goes call (others_at { world.release (calls.store call) with lock, resolved } call stage) lockKept
    · intro other different also
      have elsewhere : calls.store other ≠ calls.store call := fun same => different (sound.turns.alone taking also same)
      have memory : (world.release (calls.store call)).memories (calls.store other) = world.memories (calls.store other) :=
        update_of_ne elsewhere ..
      change ((world.release (calls.store call)).memories (calls.store other)).writeQueue.head? = some other
      rw [memory]
      exact sound.turns.first other also
    · rw [stages_at, unlocked]
      nofun
    · unfold Taking
      rw [stages_at, idle, still]
      intro taken
      rcases taken with flushing | ⟨_, reloading⟩
      · cases flushing
      · cases reloading
  · rw [stages_at]
    cases stage <;> trivial

end Put

section Flush

variable [DecidableEq Call] {stage : Stage Call Response} {works : Bool}

variable {entry : AccessIdempotencyEntry Response}

theorem sound_lock (sound : Sound calls world) (reached : world.stages call = .locking entry) (free : world.lock = none)
    (knows : Knows calls world call (.locking entry)) :
    Sound calls ({ world with lock := some call }.at call (.readingShared entry)) := by
  apply sound.moves call
  · exact fun other different => ⟨others_at _ call _ other different,
      frame_still rfl rfl (Nat.le_refl _) ⟨rfl, rfl, rfl⟩ rfl⟩
  · exact sound.files.congr rfl rfl rfl (Nat.le_refl _) (fun _ => ⟨rfl, rfl⟩) sound.files.resolved sound.files.before
  · apply sound.turns.goes call (others_at { world with lock := some call } call _)
    · intro other _ lock
      rw [free] at lock
      cases lock
    · exact fun other _ taking => sound.turns.first other taking
    · exact fun _ => rfl
    · exact fun _ => sound.turns.first call (.inl (by rw [reached]; rfl))
  · rw [stages_at]
    exact knows

theorem sound_unlock (sound : Sound calls world) (lock : world.lock = some call)
    (first : (world.memories (calls.store call)).writeQueue.head? = some call)
    (landed : record calls call entry ∈ landedRecords world) :
    Sound calls ({ world with lock := none }.at call (.unlocked entry)) := by
  apply sound.moves call
  · exact fun other different => ⟨others_at _ call _ other different,
      frame_still rfl rfl (Nat.le_refl _) ⟨rfl, rfl, rfl⟩ rfl⟩
  · exact sound.files.congr rfl rfl rfl (Nat.le_refl _) (fun _ => ⟨rfl, rfl⟩) sound.files.resolved sound.files.before
  · apply sound.turns.goes call (others_at { world with lock := none } call _)
    · intro other different held
      rw [lock, some.injEq] at held
      exact absurd held.symm different
    · exact fun other _ taking => sound.turns.first other taking
    · rw [stages_at]
      nofun
    · exact fun _ => first
  · rw [stages_at]
    exact landed

theorem sound_land (sound : Sound calls world) {content : State Response} {mtimeMs : Nat}
    (reached : world.stages call = .replacing entry content mtimeMs)
    (knows : Knows calls world call (.replacing entry content mtimeMs)) :
    Sound calls ({ world with
      file := some ⟨content, mtimeMs⟩
      renames := world.renames + 1
      landed := world.landed ++ [(record calls call entry, mtimeMs)] }.at call (.remtiming entry)) := by
  obtain ⟨dated, landed, known, text, own, late, past⟩ := knows
  have lock : world.lock = some call := sound.turns.locked call (by rw [reached]; rfl)
  let next : World Response Store Call := { world with
    file := some ⟨content, mtimeMs⟩
    renames := world.renames + 1
    landed := world.landed ++ [(record calls call entry, mtimeMs)] }
  have lands : Lands world next := ⟨Nat.lt_succ_self _, late, _, rfl, late⟩
  have records (listed : Entry Response) (member : listed ∈ landedRecords next) :
      listed ∈ landedRecords world ∨ listed = record calls call entry := by
    have both : landedRecords next = landedRecords world ++ [record calls call entry] := map_append
    rw [both, mem_append, mem_singleton] at member
    exact member
  have more : landedRecords world ⊆ landedRecords next := map_subset _ (subset_append_left _ _)
  have files : Files next := {
    fileKnown := by
      intro file there
      cases there
      exact known
    memoryKnown := sound.files.memoryKnown
    inFile := by
      intro listed member kept
      rcases records listed member with before | itself
      · exact ⟨_, rfl, text listed before kept⟩
      · exact ⟨_, rfl, itself ▸ own (itself ▸ kept)⟩
    dated := by
      intro listed member
      rcases records listed member with before | itself
      · exact sound.files.dated listed before
      · exact itself ▸ dated
    timed := past
    landedBy := by
      intro landing member
      rcases mem_append.mp member with before | itself
      · exact (sound.files.landedBy landing before).trans late
      · rw [mem_singleton.mp itself]
        exact Nat.le_refl _
    loaded := fun store => (sound.files.loaded store).trans late
    covered := by
      intro store
      have same : landedBefore next (world.memories store).loadedMtimeMs =
          landedBefore world (world.memories store).loadedMtimeMs :=
        landedBefore_append rfl ((sound.files.loaded store).trans late)
      change Has world.history (world.memories store).state (landedBefore next (world.memories store).loadedMtimeMs)
      rw [same]
      exact sound.files.covered store
    resolved := fun listed member => more (sound.files.resolved listed member)
    before := fun other listed member => more (sound.files.before other listed member) }
  apply sound.moves call
  · intro other different
    refine ⟨others_at next call _ other different, rfl, Subset.refl _, Nat.le_refl _, fun _ _ held => held,
      fun _ => rfl, .inr ⟨⟨lands.renames, lands.mtimeMs, lands.landed⟩, ?_⟩⟩
    rw [lock, Ne, some.injEq]
    exact Ne.symm different
  · exact files_at files call _
  · apply sound.turns.goes call (others_at next call _)
    · exact fun _ _ lock => lock
    · exact fun other _ taking => sound.turns.first other taking
    · exact fun _ => lock
    · exact fun _ => sound.turns.first call (.inl (by rw [reached]; rfl))
  · rw [stages_at]
    refine ⟨mem_map.mpr ⟨_, mem_append_right _ (mem_singleton_self _), rfl⟩, ?_⟩
    have same : landedBefore next mtimeMs = landedBefore world mtimeMs := landedBefore_append rfl (Nat.le_refl _)
    change Has world.history (stateOf calls world call) (landedBefore next mtimeMs)
    rw [same]
    exact fun record listed => landed record (mem_landedRecords_of_before listed)

variable [DecidableEq Store]

theorem sound_merge (sound : Sound calls world) {raw : State Response} (reached : world.stages call = .merging entry (some raw))
    (newer : NoOlder raw (stateOf calls world call)) (knows : Knows calls world call (.merging entry (some raw))) :
    Sound calls ((world.remember (calls.store call) (prune (merge raw (stateOf calls world call)))).at call
      (.merged entry)) := by
  obtain ⟨dated, content, own⟩ := knows
  obtain ⟨rawKnown, landed⟩ := has_content sound.files content
  have taking : Taking calls world call := .inl (by rw [reached]; rfl)
  have known : (stateOf calls world call).entries ⊆ world.history := sound.files.memoryKnown (calls.store call)
  have merged : (merge raw (stateOf calls world call)).entries ⊆ world.history := entries_merge known rawKnown
  have has : Has world.history (prune (merge raw (stateOf calls world call))) (landedRecords world) :=
    fun record listed kept => lookup_prune kept merged (lookup_merge_parsed kept known newer (landed record listed kept))
  have state : stateOf calls (world.remember (calls.store call) (prune (merge raw (stateOf calls world call)))) call =
      prune (merge raw (stateOf calls world call)) := state_remember world _ _
  apply sound.moves call
  · intro other different
    have frame : Frame calls world (world.remember (calls.store call) (prune (merge raw (stateOf calls world call)))) other :=
      frame_remember (fun record listed _ => has record listed) (sound.turns.clean taking different)
    exact ⟨others_at _ call _ other different, frame.before, frame.history, frame.now, frame.keeps, frame.dirty,
      .inl ⟨rfl, rfl, rfl⟩⟩
  · exact files_at (files_remember sound.files (entries_prune merged) fun record listed _ => has record listed) call _
  · refine sound.turns.goes call (others_at _ call _) ?_ ?_ ?_ ?_
    · exact fun _ _ lock => lock
    · intro other _ also
      exact (unstate_remember world _ _ _).2.symm ▸ sound.turns.first other also
    · exact fun _ => sound.turns.locked call (by rw [reached]; rfl)
    · intro _
      exact (unstate_remember world _ _ _).2.symm ▸ sound.turns.first call taking
  · rw [stages_at, Knows]
    refine ⟨dated, state.symm ▸ has, ?_⟩
    intro kept
    exact state.symm ▸ lookup_prune kept merged ((lookup_merge _ _ _ _).mpr (.inl (own kept)))

theorem sound_flush (sound : Sound calls world) (careful : CarefulAt calls world call works stage)
    (reached : world.stages call = stage) (stepped : flushStep calls world call works stage = some next) :
    Sound calls next := by
  have knows : Knows calls world call stage := reached ▸ sound.knows call
  have taking (flushing : Stage.flushing stage = true) : Taking calls world call := .inl (reached ▸ flushing)
  have unlocking (locked : Stage.locked stage = true) (other : Call) (different : other ≠ call)
      (held : world.lock = some other) : none = some other := by
    rw [sound.turns.locked call (reached ▸ locked), some.injEq] at held
    exact absurd held.symm different
  cases stage with
  | locking entry =>
    simp only [flushStep] at stepped
    split_ifs at stepped with fails free
    · cases stepped
      exact sound_settle sound (taking rfl) (fun _ _ held => held) sound.files.resolved rfl rfl rfl trivial
    · cases stepped
      exact sound_lock sound reached free knows
  | readingShared entry =>
    cases stepped
    obtain rfl : works = true := careful
    exact sound.flushes reached rfl id ⟨knows.1, rfl, knows.2⟩
  | merging entry raw =>
    cases raw with
    | none =>
      cases stepped
      refine sound.flushes reached rfl id ⟨knows.1, fun record listed => ?_, knows.2.2⟩
      exact unkept_of_absent sound.files (map_eq_none_iff.mp knows.2.1) listed _
    | some raw =>
      cases stepped
      exact sound_merge sound reached careful knows
  | merged entry =>
    cases stepped
    obtain ⟨dated, landed, own⟩ := knows
    exact sound.flushes reached rfl id ⟨dated, landed, sound.files.memoryKnown (calls.store call), landed, own⟩
  | writing entry content =>
    cases works with
    | true =>
      cases stepped
      obtain ⟨dated, landed, known, text, own⟩ := knows
      exact sound.flushes reached rfl id ⟨dated, landed, known, text, own, sound.files.timed, Nat.le_refl _⟩
    | false =>
      cases stepped
      exact sound_settle sound (taking rfl) (unlocking rfl) sound.files.resolved rfl rfl rfl trivial
  | replacing entry content mtimeMs =>
    cases works with
    | true =>
      cases stepped
      exact sound_land sound reached knows
    | false =>
      cases stepped
      exact sound_settle sound (taking rfl) (unlocking rfl) sound.files.resolved rfl rfl rfl trivial
  | remtiming entry =>
    obtain ⟨landed, loaded⟩ := knows
    cases stepped
    refine sound.flushes reached rfl id ⟨landed, ?_⟩
    cases works with
    | true => exact ⟨Nat.le_refl _, loaded⟩
    | false =>
      refine ⟨Nat.zero_le _, ?_⟩
      simp only [Bool.false_eq_true, if_false, landedBefore_zero]
      exact fun record listed => absurd listed not_mem_nil
  | resettling entry mtimeMs =>
    obtain ⟨landed, bound, loaded⟩ := knows
    cases stepped
    refine sound_unlock (sound_load sound bound loaded) ?_ ?_ landed
    · exact sound.turns.locked call (by rw [reached]; rfl)
    · rw [(state_load world _ _ mtimeMs).2]
      exact sound.turns.first call (taking rfl)
  | unlocked entry =>
    cases stepped
    refine sound_settle sound (taking rfl) (fun _ _ held => held) (fun listed member => ?_) rfl rfl rfl trivial
    rcases mem_append.mp member with before | itself
    · exact sound.files.resolved listed before
    · exact mem_singleton.mp itself ▸ knows
  | _ => cases stepped

end Flush

section Queue

variable [DecidableEq Store]

theorem sound_join (sound : Sound calls world) (store : Store) (call : Call) :
    Sound calls (world.queue store ((world.memories store).writeQueue ++ [call])) := by
  have memory (elsewhere : Store) : ((world.queue store ((world.memories store).writeQueue ++ [call])).memories elsewhere).state =
        (world.memories elsewhere).state ∧
      ((world.queue store ((world.memories store).writeQueue ++ [call])).memories elsewhere).loadedMtimeMs =
        (world.memories elsewhere).loadedMtimeMs := by
    by_cases same : elsewhere = store
    · simp only [same, World.queue, update_self, and_self]
    · simp only [World.queue, update_of_ne same, and_self]
  refine sound.stands rfl ?_ ?_ ?_
  · exact fun other => frame_still rfl rfl (Nat.le_refl _) ⟨rfl, rfl, rfl⟩ (memory (calls.store other)).1
  · exact sound.files.congr rfl rfl rfl (Nat.le_refl _) memory sound.files.resolved sound.files.before
  · refine ⟨sound.turns.locked, fun other taking => ?_⟩
    have first := sound.turns.first other taking
    by_cases same : calls.store other = store
    · simp only [same, World.queue, update_self]
      rw [head?_append, ← same, first]
      rfl
    · simp only [World.queue, update_of_ne same]
      exact first

end Queue

section Runs

variable [DecidableEq Call]

theorem sound_begin (sound : Sound calls world) (call : Call) (behind : Option Call) :
    Sound calls ({ world with
      resolvedBefore := Function.update world.resolvedBefore call world.resolved }.at call (.queued behind)) := by
  apply sound.moves call
  · intro other different
    refine ⟨others_at _ call _ other different, frame_still ?_ rfl (Nat.le_refl _) ⟨rfl, rfl, rfl⟩ rfl⟩
    exact update_of_ne different ..
  · refine sound.files.congr rfl rfl rfl (Nat.le_refl _) (fun _ => ⟨rfl, rfl⟩) sound.files.resolved ?_
    intro other listed member
    by_cases same : other = call
    · rw [same] at member
      simp only [World.at, update_self] at member
      exact sound.files.resolved listed member
    · simp only [World.at, update_of_ne same] at member
      exact sound.files.before other listed member
  · refine sound.turns.goes call (others_at _ call _) ?_ ?_ ?_ ?_
    · exact fun _ _ lock => lock
    · exact fun other _ taking => sound.turns.first other taking
    · rw [stages_at]
      nofun
    · unfold Taking
      rw [stages_at]
      intro taking
      rcases taking with flushing | ⟨_, reloading⟩
      · cases flushing
      · cases reloading
  · rw [stages_at]
    trivial

variable [DecidableEq Store]

theorem sound_step {action : Action Call} (sound : Sound calls world) (careful : Careful calls world action)
    (stepped : step calls world action = some next) : Sound calls next := by
  cases action with
  | tick elapsed =>
    cases stepped
    exact sound_tick sound elapsed
  | start call =>
    simp only [step] at stepped
    split at stepped
    next =>
      cases stepped
      split_ifs
      · exact sound_begin (sound_join sound (calls.store call) call) call _
      · exact sound_begin sound call _
    next => cases stepped
  | proceed call works =>
    change proceed calls world call works = some next at stepped
    change CarefulAt calls world call works (world.stages call) at careful
    generalize reached : world.stages call = stage at careful
    unfold proceed at stepped
    rw [reached] at stepped
    cases stage with
    | reloaded =>
      cases stepped
      exact sound_request sound careful reached
    | _ => first
      | exact sound_reload sound careful reached stepped
      | exact sound_flush sound careful reached stepped

/-- In every run of careful steps, a get that starts after a put has resolved answers with its response, while no other
record of the key is as late and fewer than 512 other keys are recorded as late. -/
theorem resolved_records_remembered {now : Nat} (reached : Reaches (step calls) (Careful calls) (initial now) world) :
    Remembers calls world := by
  have sound : Sound calls world := by
    apply reached.invariant (Sound calls)
    · exact sound_initial now
    · exact fun _ _ _ sound careful stepped => sound_step sound careful stepped
  intro call given answered
  have knows := sound.knows call
  rw [answered] at knows
  exact knows

end Runs

instance [Fintype Call] [DecidableEq Store] (calls : Calls Call Store Response) (world : World Response Store Call)
    (call : Call) : Decidable (Undisturbed calls world call) := by
  unfold Undisturbed
  infer_instance

instance (parsed state : State Response) : Decidable (NoOlder parsed state) := by
  unfold NoOlder
  infer_instance

instance [Fintype Call] [DecidableEq Store] (calls : Calls Call Store Response) (world : World Response Store Call)
    (action : Action Call) : Decidable (Careful calls world action) := by
  unfold Careful CarefulAt
  split
  · split <;> infer_instance
  · infer_instance

def sampleKey : JsString := text "k"

def sampleHash : JsString := text "h"

/-- A get of another key, a put, and a get of its key, all on one store. -/
def sampleCalls : Calls (Fin 3) Unit Nat where
  store _ := ()
  request call := if call = 0 then .get (text "a") sampleHash else if call = 1 then .put sampleKey sampleHash 7
    else .get sampleKey sampleHash

def proceeds (call : Fin 3) (count : Nat) : List (Action (Fin 3)) := List.replicate count (.proceed call true)

def putThenGet : List (Action (Fin 3)) := [.start 1] ++ proceeds 1 13 ++ [.start 2] ++ proceeds 2 8

def sampleEntry : AccessIdempotencyEntry Nat := ⟨5, sampleHash, 7⟩

theorem resolved_records_remembered_putThenGet : ∃ world : World Nat Unit (Fin 3),
    Reaches (step sampleCalls) (Careful sampleCalls) (initial 5) world ∧
      world.stages 2 = .answered ⟨some 7, false⟩ ∧ Remembers sampleCalls world := by
  refine exists_reached (fun world => world.stages 2 = .answered ⟨some 7, false⟩) putThenGet (by decide +kernel) ?_
  intro world reached answered
  exact ⟨answered, resolved_records_remembered reached⟩

/-- The get of the other key has found no file when the put records its entry, and empties the state before the put writes
it. -/
def emptiedBeforeFlush : List (Action (Fin 3)) :=
  [.start 0] ++ proceeds 0 2 ++ [.start 1] ++ proceeds 1 4 ++ proceeds 0 1 ++ proceeds 1 9 ++ [.start 2] ++ proceeds 2 8

theorem resolved_record_lost : ∃ world : World Nat Unit (Fin 3),
    run (step sampleCalls) emptiedBeforeFlush (initial 5) = some world ∧ ¬ Remembers sampleCalls world := by
  refine exists_run (fun world => world.stages 2 = .answered ⟨none, false⟩ ∧
    world.resolvedBefore 2 = [(sampleKey, sampleEntry)] ∧ world.history = [(sampleKey, sampleEntry)]) (by decide +kernel) ?_
  intro world ⟨answered, resolved, history⟩ remembers
  have kept : Kept world.history sampleKey sampleEntry := by
    rw [history]
    refine ⟨fun other listed => .inl (congrArg Prod.snd (mem_singleton.mp listed)), ?_⟩
    decide +kernel
  have given := remembers 2 _ answered (sampleKey, sampleEntry) (by rw [resolved]; exact mem_singleton_self _) rfl kept
  exact absurd given (by decide)

end Remnic.Idempotency.Retained
