import Remnic.ContentHash.Sharing

/-!
Agreement of the processes that share an index file: the file holds a hash
exactly when the last published delta about it was an addition, and no delta is
dropped before it is published.
-/

namespace Remnic.ContentHash.Agreement

open Library.InsertionSet Library.Transition Text.CodeUnits IndexFile Index Sharing Function

/-- Additions, removals, loads and locked saves, but no rebuild of the index. -/
def Reconciles (_ : System) : Action → Prop
  | .mutate _ mutation => mutation ≠ .clear
  | .reconcile _ _ | .load _ | .loadDone _ _ => True
  | .save _ | .saveWrite _ _ | .saveDone _ _ | .saveFail _ _ | .rebuild _ | .rebuildDone _ => False

instance (system : System) (action : Action) : Decidable (Reconciles system action) := by
  cases action <;> unfold Reconciles <;> infer_instance

/-- Whether the last published delta about a hash was an addition. -/
def lastPublished : List Publication → IndexHash → Option Bool
  | [], _ => none
  | publication :: earlier, hash =>
    if hash ∈ publication.added then some true
    else if hash ∈ publication.removed then some false
    else lastPublished earlier hash

def Agrees (start : Option JsString) (system : System) : Prop :=
  ∀ hash, hash ∈ diskHashes system.disk ↔
    lastPublished system.history hash = some true ∨
      lastPublished system.history hash = none ∧ hash ∈ diskHashes start

/-- What the section a process runs knows about the file and its deltas. -/
def Fits (system : System) : Stage → Prop
  | .reading added removed => ∀ hash ∈ added, hash ∉ removed
  | .writing added removed merged =>
    (∀ hash ∈ added, hash ∉ removed) ∧ ∀ hash, hash ∈ merged ↔
      hash ∈ added ∨ hash ∈ diskHashes system.disk ∧ hash ∉ removed
  | .settling added removed _ =>
    (∀ hash ∈ added, hash ∈ diskHashes system.disk ∧ lastPublished system.history hash = some true) ∧
      ∀ hash ∈ removed, hash ∉ diskHashes system.disk ∧ lastPublished system.history hash = some false
  | .idle | .releasing | .rebuilding => True

structure Shared (start : Option JsString) (system : System) : Prop where
  pending : ∀ process, Pending (system.processes process).index
  exclusive : ∀ process, (system.processes process).stage ≠ .idle → system.lock = some process
  fits : ∀ process, Fits system (system.processes process).stage
  agrees : Agrees start system

theorem shared_initial (start : Option JsString) : Shared start (initial start) where
  pending _ := pending_fresh
  exclusive _ running := absurd rfl running
  fits _ := trivial
  agrees hash := by simp [initial, lastPublished]

variable {removed : HashSet} {next : System} {process : Nat} {system : System} {state : Process} {start : Option JsString}
  {action : Action} {added merged : HashSet}

theorem shared_set (shared : Shared start system) (pending : Pending state.index)
    (exclusive : state.stage ≠ .idle → system.lock = some process) (fits : Fits system state.stage) :
    Shared start (system.set process state) := by
  constructor
  · intro other
    by_cases same : other = process
    · subst same
      rwa [set_processes_self]
    · rw [set_processes_other system state same]
      exact shared.pending other
  · intro other
    by_cases same : other = process
    · subst same
      rwa [set_processes_self]
    · rw [set_processes_other system state same]
      exact shared.exclusive other
  · intro other
    by_cases same : other = process
    · subst same
      rw [set_processes_self]
      exact fits
    · rw [set_processes_other system state same]
      exact shared.fits other
  · exact shared.agrees

theorem written_fits (agrees : Agrees start system) (fits : Fits system (.writing added removed merged))
    (disk : next.disk = some (serializeHashIndex merged)) (history : next.history = ⟨added, removed⟩ :: system.history) :
    Agrees start next ∧ Fits next (.settling added removed merged) := by
  obtain ⟨apart, merges⟩ := fits
  have listed : ∀ hash, lastPublished next.history hash =
      if hash ∈ added then some true else if hash ∈ removed then some false else lastPublished system.history hash := by
    intro hash
    rw [history, lastPublished]
  have held : diskHashes next.disk = merged := by rw [disk, diskHashes_serialize]
  refine ⟨fun hash => ?_, fun hash member => ?_, fun hash member => ?_⟩
  · rw [held, merges, listed]
    by_cases isAdded : hash ∈ added
    · simp [isAdded]
    · by_cases isRemoved : hash ∈ removed
      · simp [isAdded, isRemoved]
      · simp only [isAdded, isRemoved, false_or, not_false_eq_true, and_true, if_false]
        exact agrees hash
  · rw [held, merges, listed, if_pos member]
    exact ⟨.inl member, rfl⟩
  · have fresh : hash ∉ added := fun isAdded => apart hash isAdded member
    rw [held, merges, listed, if_neg fresh, if_pos member]
    exact ⟨fun holds => holds.elim fresh fun kept => kept.2 member, rfl⟩

theorem others_idle (shared : Shared start system) (owned : system.lock = none ∨ system.lock = some process) (other : Nat)
    (different : other ≠ process) : (system.processes other).stage = .idle := by
  by_contra running
  have holder := shared.exclusive other running
  rcases owned with free | own
  · rw [free] at holder
    contradiction
  · rw [own] at holder
    exact different (Option.some.inj holder).symm

theorem shared_alone (shared : Shared start system) (owned : system.lock = none ∨ system.lock = some process)
    (processes : next.processes = Function.update system.processes process state) (pending : Pending state.index)
    (exclusive : state.stage ≠ .idle → next.lock = some process) (fits : Fits next state.stage) (agrees : Agrees start next) :
    Shared start next := by
  have alone := others_idle shared owned
  constructor
  · intro other
    rw [processes]
    by_cases same : other = process
    · rwa [same, update_self]
    · rw [update_of_ne same]
      exact shared.pending other
  · intro other running
    rw [processes] at running
    by_cases same : other = process
    · rw [same, update_self] at running
      rw [same, exclusive running]
    · rw [update_of_ne same] at running
      exact absurd (alone other same) running
  · intro other
    rw [processes]
    by_cases same : other = process
    · rwa [same, update_self]
    · rw [update_of_ne same, alone other same]
      trivial
  · exact agrees

theorem shared_moved (shared : Shared start system) {move : Move}
    (moved : Moved system process (system.processes process) move next) : Shared start next := by
  have pending := shared.pending process
  have exclusive := shared.exclusive process
  have fits := shared.fits process
  have running {stage : Stage} (stands : (system.processes process).stage = stage) (active : stage ≠ .idle) :
      system.lock = some process := exclusive (stands ▸ active)
  cases moved with
  | clean => exact shared
  | called => exact shared_set shared pending exclusive fits
  | timeout => exact shared_set shared pending exclusive fits
  | acquire idle free =>
    exact shared_alone shared (.inl free) rfl pending (fun _ => rfl) pending.apart shared.agrees
  | read added removed stands =>
    rw [stands] at fits
    exact shared_set shared pending (fun _ => running stands nofun)
      ⟨fits, mem_mergedHashes added removed system.disk⟩
  | write added removed merged stands =>
    rw [stands] at fits
    refine shared_alone shared (.inr (running stands nofun)) rfl pending (fun _ => running stands nofun) ?_ ?_
    · exact (written_fits shared.agrees fits rfl rfl).2
    · exact (written_fits shared.agrees fits rfl rfl).1
  | settle added removed merged stands =>
    exact shared_set shared (pending_settle pending added removed merged) (fun _ => running stands nofun) trivial
  | fail active => exact shared_set shared pending (fun _ => exclusive active) trivial
  | release stands =>
    exact shared_alone shared (.inr (running stands nofun)) rfl pending (fun held => absurd rfl held) trivial
      shared.agrees

theorem shared_step (shared : Shared start system) (reconciles : Reconciles system action)
    (stepped : step system action = some next) : Shared start next := by
  cases action with
  | mutate process mutation =>
    cases stepped
    exact shared_set shared (pending_mutate (shared.pending process) mutation) (shared.exclusive process)
      (shared.fits process)
  | reconcile process move => exact shared_moved shared (reconcileStep_moved stepped)
  | load process =>
    cases stepped
    exact shared_set shared (shared.pending process) (shared.exclusive process) (shared.fits process)
  | loadDone process call =>
    obtain ⟨disk, _, done⟩ := Option.map_eq_some_iff.mp stepped
    rw [← done]
    exact shared_set shared (pending_loaded (shared.pending process) disk) (shared.exclusive process)
      (shared.fits process)
  | save | saveWrite | saveDone | saveFail | rebuild | rebuildDone => exact False.elim reconciles

/-- Every run of additions, removals, loads and locked saves keeps the processes in agreement. -/
theorem shared_reaches (reached : Reaches step Reconciles (initial start) system) : Shared start system :=
  reached.invariant (Shared start) (shared_initial start) fun _ _ _ shared meets stepped =>
    shared_step shared meets stepped

/-- The step of the process itself that withdraws a pending addition. -/
def WithdrawsAt (action : Action) (process : Nat) (hash : IndexHash) : Prop :=
  ∃ mutation, action = .mutate process mutation ∧ mutation.Withdraws hash

def RestoresAt (action : Action) (process : Nat) (hash : IndexHash) : Prop :=
  ∃ mutation, action = .mutate process mutation ∧ mutation.Restores hash

/-- A step drops no pending delta unless the process withdraws it or the file
already holds what it says as the last published delta. -/
structure KeepsPending (system next : System) (action : Action) : Prop where
  added : ∀ process, ∀ hash ∈ (system.processes process).index.added,
    hash ∈ (next.processes process).index.added ∨ WithdrawsAt action process hash ∨
      hash ∈ diskHashes next.disk ∧ lastPublished next.history hash = some true
  removed : ∀ process, ∀ hash ∈ (system.processes process).index.removed,
    hash ∈ (next.processes process).index.removed ∨ RestoresAt action process hash ∨
      hash ∉ diskHashes next.disk ∧ lastPublished next.history hash = some false

theorem keepsPending_same
    (same : ∀ process, (next.processes process).index.added = (system.processes process).index.added ∧
      (next.processes process).index.removed = (system.processes process).index.removed) :
    KeepsPending system next action :=
  ⟨fun process _ member => .inl ((same process).1 ▸ member), fun process _ member => .inl ((same process).2 ▸ member)⟩

theorem set_pending (system : System) (process : Nat) (state : Process)
    (added : state.index.added = (system.processes process).index.added)
    (removed : state.index.removed = (system.processes process).index.removed) (other : Nat) :
    (Function.update system.processes process state other).index.added = (system.processes other).index.added ∧
      (Function.update system.processes process state other).index.removed =
        (system.processes other).index.removed := by
  by_cases same : other = process
  · rw [same, update_self]
    exact ⟨added, removed⟩
  · rw [update_of_ne same]
    exact ⟨rfl, rfl⟩

theorem keepsPending_mutate (system : System) (process : Nat) {mutation : Mutation} (kept : mutation ≠ .clear) :
    KeepsPending system
      (system.set process { system.processes process with index := mutate (system.processes process).index mutation })
      (.mutate process mutation) := by
  constructor
  · intro other hash member
    by_cases same : other = process
    · subst same
      rw [set_processes_self]
      exact (mutate_added kept member).imp_right fun withdraws => .inl ⟨mutation, rfl, withdraws⟩
    · rw [set_processes_other system _ same]
      exact .inl member
  · intro other hash member
    by_cases same : other = process
    · subst same
      rw [set_processes_self]
      exact (mutate_removed kept member).imp_right fun restores => .inl ⟨mutation, rfl, restores⟩
    · rw [set_processes_other system _ same]
      exact .inl member

theorem keepsPending_settle (shared : Shared start system)
    (stands : (system.processes process).stage = .settling added removed merged) (state : Process)
    (index : state.index = settle (system.processes process).index added removed merged) (action : Action) :
    KeepsPending system (system.set process state) action := by
  have fits := shared.fits process
  rw [stands] at fits
  constructor
  · intro other hash member
    by_cases same : other = process
    · subst same
      rw [set_processes_self, index]
      by_cases published : hash ∈ added
      · exact .inr (.inr (fits.1 hash published))
      · exact .inl ((mem_deleteAll _ _ _).mpr ⟨member, published⟩)
    · rw [set_processes_other system _ same]
      exact .inl member
  · intro other hash member
    by_cases same : other = process
    · subst same
      rw [set_processes_self, index]
      by_cases published : hash ∈ removed
      · exact .inr (.inr (fits.2 hash published))
      · exact .inl ((mem_deleteAll _ _ _).mpr ⟨member, published⟩)
    · rw [set_processes_other system _ same]
      exact .inl member

theorem keepsPending_step (shared : Shared start system) (reconciles : Reconciles system action)
    (stepped : step system action = some next) : KeepsPending system next action := by
  cases action with
  | mutate process mutation =>
    cases stepped
    exact keepsPending_mutate system process reconciles
  | reconcile process move =>
    cases reconcileStep_moved stepped with
    | clean => exact keepsPending_same fun _ => ⟨rfl, rfl⟩
    | called | timeout | acquire | read | write | fail | release =>
      exact keepsPending_same (set_pending system process _ rfl rfl)
    | settle added removed merged stands => exact keepsPending_settle shared stands _ rfl _
  | load process =>
    cases stepped
    exact keepsPending_same (set_pending system process _ rfl rfl)
  | loadDone process call =>
    obtain ⟨disk, _, done⟩ := Option.map_eq_some_iff.mp stepped
    have same := loaded_added (system.processes process).index disk
    rw [← done]
    exact keepsPending_same (set_pending system process _ same.1 same.2.1)
  | save | saveWrite | saveDone | saveFail | rebuild | rebuildDone => exact False.elim reconciles

/-- In every reached state the file agrees with the published deltas, pending deltas mark
their index dirty, so that the next save publishes them, and no step drops one unpublished. -/
theorem published_agrees {start : Option JsString} {system : System}
    (reached : Reaches step Reconciles (initial start) system) :
    Agrees start system ∧
      (∀ process hash, hash ∈ (system.processes process).index.added ∨ hash ∈ (system.processes process).index.removed →
        (system.processes process).index.dirty = true) ∧
      ∀ action next, Reconciles system action → step system action = some next → KeepsPending system next action := by
  have shared := shared_reaches reached
  exact ⟨shared.agrees, fun process => (shared.pending process).dirty, fun action next reconciles stepped =>
    keepsPending_step shared reconciles stepped⟩

def sampleHash : IndexHash := ⟨text "aa", by decide⟩

/-- A second process removes a hash while the first one publishes its addition. -/
def publishAndRemove : List Action :=
  [.mutate 0 (.add sampleHash), .reconcile 0 .call, .reconcile 0 .acquire, .reconcile 0 .read, .load 1,
    .mutate 1 (.remove sampleHash), .reconcile 0 .write, .reconcile 1 .call, .reconcile 0 .settle, .loadDone 1 0,
    .reconcile 0 .release, .reconcile 1 .acquire, .reconcile 1 .read, .reconcile 1 .write]

theorem published_agrees_sample :
    ∃ system, Reaches step Reconciles (initial none) system ∧ lastPublished system.history sampleHash = some false ∧
      Agrees none system ∧
        (∀ process hash,
          hash ∈ (system.processes process).index.added ∨ hash ∈ (system.processes process).index.removed →
            (system.processes process).index.dirty = true) ∧
          ∀ action next, Reconciles system action → step system action = some next →
            KeepsPending system next action := by
  refine exists_reached (fun system => lastPublished system.history sampleHash = some false) publishAndRemove
    (by decide +kernel) ?_
  intro system reached removed
  exact ⟨removed, published_agrees reached⟩

end Remnic.ContentHash.Agreement
