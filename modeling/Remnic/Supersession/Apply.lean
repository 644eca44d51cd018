import Remnic.Supersession.Calls

/-!
One call of `applyTemporalSupersession` alone, on a storage that answers, and the
run of steps that it is.
-/

namespace Remnic.Supersession.Apply

open Library.InsertionSet Library.Transition Text.CodeUnits Memory.SupersessionKey Decision Store Calls

/-- The chunks of a marked memory, read again one by one. -/
def expireChildChunks (newMemoryId : JsString) (mutation : TemporalSupersessionMutation) :
    List MemoryFile → List JsString → MemoryStore → MemoryStore
  | [], _, store => store
  | chunk :: chunks, processedChunkIds, store =>
    if chunk.frontmatter.id ∈ processedChunkIds then expireChildChunks newMemoryId mutation chunks processedChunkIds store
    else
      match readMemoryByPath store chunk.path with
      | none => expireChildChunks newMemoryId mutation chunks processedChunkIds store
      | some fresh =>
        expireChildChunks newMemoryId mutation chunks (chunk.frontmatter.id :: processedChunkIds)
          (if expires newMemoryId fresh.frontmatter then
            writeMemoryFrontmatter store fresh.path (childPatch newMemoryId mutation)
          else store)

/-- `applyTemporalSupersessionPrimaryMutation` on a memory that has just been read. -/
def applyPrimaryMutation (scan : Scan) (fresh : MemoryFile) (mutation : TemporalSupersessionMutation) (store : MemoryStore) :
    MemoryStore :=
  expireChildChunks scan.newMemoryId (childMutation mutation fresh.frontmatter)
    (chunksOf scan.allCandidates fresh.frontmatter.id) []
    (writeMemoryFrontmatter store fresh.path (temporalMutationPatch scan.newMemoryId mutation))

structure TemporalSupersessionResult where
  store : MemoryStore
  supersededIds : List JsString := []
  matchedKeys : OrderedSet JsString := .empty

variable (host : Host)

def supersedeCandidates (scan : Scan) :
    List MemoryFile → List JsString → TemporalSupersessionResult → TemporalSupersessionResult
  | [], _, result => result
  | memory :: rest, processedIds, result =>
    match verdict host scan processedIds memory.frontmatter with
    | .skipped => supersedeCandidates scan rest processedIds result
    | .unaffected => supersedeCandidates scan rest (memory.frontmatter.id :: processedIds) result
    | .conflicting matchedKeys =>
      match readMemoryByPath result.store memory.path with
      | none => supersedeCandidates scan rest processedIds result
      | some fresh =>
        supersedeCandidates scan rest (memory.frontmatter.id :: processedIds)
          (if stillOpen fresh.frontmatter then
            { store := applyPrimaryMutation scan fresh (mutationOf host scan fresh.frontmatter matchedKeys) result.store
              supersededIds := result.supersededIds ++ [memory.frontmatter.id]
              matchedKeys := result.matchedKeys.addAll matchedKeys }
          else result)

def applyTemporalSupersession (store : MemoryStore) (args : SupersessionArgs) : TemporalSupersessionResult :=
  match accepted host args with
  | none => { store }
  | some (entityRef, attributes) =>
    let scan := scanOf args entityRef attributes store.hot store.cold
    supersedeCandidates host scan scan.allCandidates [] { store }

variable {host : Host} {Call : Type} [DecidableEq Call] {call : Call}

/-- The call can take steps that lead to a phase and a store. -/
def Leads (host : Host) (call : Call) (world : World Call) (phase : Phase) (store : MemoryStore) : Prop :=
  ∃ next : World Call, Reaches (step host) (fun _ _ => True) world next ∧ next.phases call = phase ∧ next.store = store

variable {world : World Call} {path : JsString}

theorem leads_step {middle : World Call} {action : Action Call} {phase : Phase} {store : MemoryStore}
    (stepped : step host world action = some middle) (rest : Leads host call middle phase store) :
    Leads host call world phase store := by
  obtain ⟨next, reached, ended⟩ := rest
  exact ⟨next, (Reaches.next (.refl _) trivial stepped).trans reached, ended⟩

theorem leads_trans {middle final : Phase} {between after : MemoryStore} (first : Leads host call world middle between)
    (second : ∀ next : World Call, next.phases call = middle → next.store = between → Leads host call next final after) :
    Leads host call world final after := by
  obtain ⟨next, reached, there, stored⟩ := first
  obtain ⟨last, on, ended⟩ := second next there stored
  exact ⟨last, reached.trans on, ended⟩

theorem phase_at (world : World Call) {phase : Phase} : (world.at call phase).phases call = phase :=
  Function.update_self _ _ _

theorem expire_stepped {expiry : Expiry} {chunk : MemoryFile} (phase : world.phases call = .expiringChunk expiry chunk)
    (read : readMemoryByPath world.store path = some chunk) :
    step host world (.expire call true) = some ((world.stored (writeMemoryFrontmatter world.store chunk.path
      (childPatch expiry.position.scan.newMemoryId expiry.mutation))).at call (.expiring expiry)) := by
  have written := writeMemoryFrontmatterIfUnchanged_fresh read (childPatch expiry.position.scan.newMemoryId expiry.mutation)
  simp only [step, phase, if_true, written]

theorem leads_expiring (position : Position) (mutation : TemporalSupersessionMutation) (chunks : List MemoryFile) :
    ∀ (processedChunkIds : List JsString) (world : World Call),
      world.phases call = .expiring ⟨position, mutation, chunks, processedChunkIds⟩ →
        Leads host call world (.scanning position)
          (expireChildChunks position.scan.newMemoryId mutation chunks processedChunkIds world.store) := by
  induction chunks with
  | nil =>
    intro processedChunkIds world phase
    have stepped : step host world (.nextChunk call true false) = some (world.at call (.scanning position)) := by
      simp only [step, phase, nextChunk]
    exact leads_step stepped ⟨_, .refl _, phase_at world, rfl⟩
  | cons chunk chunks ih =>
    intro processedChunkIds world phase
    have stepped : step host world (.nextChunk call true false) = some (world.at call
        (nextChunk world.store ⟨position, mutation, chunk :: chunks, processedChunkIds⟩ true false)) := by
      simp only [step, phase]
    refine leads_step stepped ?_
    unfold expireChildChunks
    simp only [nextChunk, Bool.not_true, Bool.false_eq_true, if_false, Bool.not_false, Bool.and_true]
    split_ifs with done
    · exact ih processedChunkIds _ (phase_at world)
    · cases read : readMemoryByPath world.store chunk.path with
      | none => exact ih processedChunkIds _ (phase_at world)
      | some fresh =>
        simp only
        split_ifs with due
        · refine leads_step (expire_stepped (phase_at world) read) ?_
          exact ih _ _ (phase_at _)
        · exact ih _ _ (phase_at world)

theorem leads_marking {position : Position} {fresh : MemoryFile} {mutation : TemporalSupersessionMutation}
    (phase : world.phases call = .marking position fresh mutation) (read : readMemoryByPath world.store path = some fresh) :
    Leads host call world (.scanning position) (applyPrimaryMutation position.scan fresh mutation world.store) := by
  have written := writeMemoryFrontmatterIfUnchanged_fresh read (temporalMutationPatch position.scan.newMemoryId mutation)
  have stepped : step host world (.mark call true) = some
      ((world.stored (writeMemoryFrontmatter world.store fresh.path
        (temporalMutationPatch position.scan.newMemoryId mutation))).at call
          (.expiring (expiryOf position fresh.frontmatter mutation))) := by
    simp only [step, phase, if_true, written]
  exact leads_step stepped (leads_expiring position _ _ _ _ (phase_at _))

theorem leads_scanning (scan : Scan) (rest : List MemoryFile) :
    ∀ (processedIds : List JsString) (world : World Call) (result : TemporalSupersessionResult),
      world.phases call = .scanning ⟨scan, rest, processedIds⟩ → world.store = result.store →
        Leads host call world .finished (supersedeCandidates host scan rest processedIds result).store := by
  induction rest with
  | nil =>
    intro processedIds world result phase stored
    have stepped : step host world (.next call true) = some (world.at call .finished) := by
      simp only [step, phase, nextCandidate]
    exact leads_step stepped ⟨_, .refl _, phase_at world, stored⟩
  | cons memory rest ih =>
    intro processedIds world result phase stored
    have stepped : step host world (.next call true) =
        some (world.at call (nextCandidate host world.store ⟨scan, memory :: rest, processedIds⟩ true)) := by
      simp only [step, phase]
    refine leads_step stepped ?_
    unfold supersedeCandidates
    simp only [nextCandidate, if_true, ← stored]
    cases judged : verdict host scan processedIds memory.frontmatter with
    | skipped => exact ih _ _ result (phase_at world) stored
    | unaffected => exact ih _ _ result (phase_at world) stored
    | conflicting matchedKeys =>
      simp only
      cases read : readMemoryByPath world.store memory.path with
      | none => exact ih _ _ result (phase_at world) stored
      | some fresh =>
        simp only
        split_ifs with still
        · refine leads_trans (leads_marking (phase_at world) read) fun next there kept => ?_
          exact ih _ _ _ there kept
        · exact ih _ _ result (phase_at world) stored

/-- What one call does alone is a run of its steps. -/
theorem apply_is_run (store : MemoryStore) (args : SupersessionArgs) :
    Leads host call (initial store : World Call) .finished (applyTemporalSupersession host store args).store := by
  unfold applyTemporalSupersession
  cases answer : accepted host args with
  | none =>
    have stepped : step host (initial store : World Call) (.begin call args) = some ((initial store).at call .finished) := by
      simp only [step, answer]
      rfl
    exact leads_step stepped ⟨_, .refl _, phase_at _, rfl⟩
  | some goesOn =>
    obtain ⟨entityRef, attributes⟩ := goesOn
    have begun : step host (initial store : World Call) (.begin call args) =
        some ((initial store).at call (.readingHot args entityRef attributes)) := by
      simp only [step, answer]
      rfl
    refine leads_step begun ?_
    generalize reading : (initial store : World Call).at call (.readingHot args entityRef attributes) = world
    have hot : step host world (.readHot call (some 0)) =
        some (world.at call (.readingCold args entityRef attributes store.hot)) := by
      rw [← reading]
      simp only [step, phase_at]
      rfl
    have cold : step host (world.at call (.readingCold args entityRef attributes store.hot)) (.readCold call (some 0)) =
        some ((world.at call (.readingCold args entityRef attributes store.hot)).at call
          (.scanning ⟨scanOf args entityRef attributes store.hot store.cold, store.files, []⟩)) := by
      rw [← reading]
      simp only [step, phase_at]
      rfl
    refine leads_step hot (leads_step cold (leads_scanning _ _ _ _ _ (phase_at _) ?_))
    rw [← reading]
    rfl

end Remnic.Supersession.Apply
