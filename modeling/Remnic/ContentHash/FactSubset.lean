import Remnic.ContentHash.Agreement

/-!
The subset invariant of the index: every hash of the fact-only partition is a
member. A locked save replaces the member set by the merged one, so it keeps the
invariant when every fact hash is on the file or still pending.
-/

namespace Remnic.ContentHash.FactSubset

open Library.InsertionSet Library.Transition Text.CodeUnits IndexFile Index Sharing Agreement Option

/-- `factHashes ⊆ hashes`. -/
def FactsHeld (index : ContentHashIndex) : Prop := ∀ hash ∈ index.factHashes.items, hash ∈ index.hashes

instance (index : ContentHashIndex) : Decidable (FactsHeld index) := List.decidableBAll _ _

/-- Who removes a fact hash removes it through the paired calls. -/
def Paired (system : System) : Action → Prop
  | .mutate process (.remove hash) => hash ∉ (system.processes process).index.factHashes
  | _ => True

/-- Every fact hash of the process is merged from the file or still pending. -/
def ReadsFacts (state : Process) (disk : Option JsString) : Stage → Prop
  | .reading added removed => ∀ hash ∈ state.index.factHashes.items,
      hash ∈ state.index.added ∨ hash ∈ added ∨ hash ∈ diskHashes disk ∧ hash ∉ removed
  | _ => True

/-- A text in the legacy format is loaded only where no fact hash is held. -/
def LoadsFacts (state : Process) (disk : Option JsString) : Prop :=
  ∀ raw ∈ disk, (parseHashIndex raw).versioned = true ∨ state.index.factHashes.items = []

/-- Between the read and the end of its locked section. -/
def Stage.Merging : Stage → Prop
  | .writing .. | .settling .. => True
  | _ => False

variable {removed : HashSet} {next : System} {state : Process} {system : System} {added merged : HashSet} {stage : Stage}

theorem merging_of (stands : stage = .writing added removed merged ∨ stage = .settling added removed merged) :
    Stage.Merging stage := by
  rcases stands with writing | settling
  · rw [writing]
    trivial
  · rw [settling]
    trivial

def KeepsFacts (system : System) (action : Action) : Prop :=
  Paired system action ∧
    match action with
    | .reconcile process .read =>
      ReadsFacts (system.processes process) system.disk (system.processes process).stage
    | .loadDone process call => ∀ disk ∈ (system.processes process).loads[call]?, LoadsFacts (system.processes process) disk
    | .saveDone process _ => ¬ Stage.Merging (system.processes process).stage
    | _ => True

instance (system : System) (action : Action) : Decidable (Paired system action) :=
  match action with
  | .mutate process (.remove hash) => inferInstanceAs (Decidable (hash ∉ (system.processes process).index.factHashes))
  | .mutate _ (.add _) | .mutate _ (.addFact _) | .mutate _ (.removeFact _) | .mutate _ (.removePaired _)
  | .mutate _ .clear | .reconcile .. | .load _ | .loadDone .. | .save _ | .saveWrite .. | .saveDone .. | .saveFail ..
  | .rebuild _ | .rebuildDone _ => .isTrue trivial

instance (state : Process) (disk : Option JsString) (stage : Stage) : Decidable (ReadsFacts state disk stage) := by
  cases stage <;> unfold ReadsFacts <;> infer_instance

instance (state : Process) (disk : Option JsString) : Decidable (LoadsFacts state disk) := by
  cases disk <;> unfold LoadsFacts <;> infer_instance

instance (stage : Stage) : Decidable (Stage.Merging stage) := by
  cases stage <;> unfold Stage.Merging <;> infer_instance

instance (system : System) (action : Action) : Decidable (KeepsFacts system action) :=
  @instDecidableAnd _ _ _ (match action with
    | .reconcile process .read =>
      inferInstanceAs (Decidable (ReadsFacts (system.processes process) system.disk (system.processes process).stage))
    | .loadDone process call =>
      inferInstanceAs (Decidable (∀ disk ∈ (system.processes process).loads[call]?, LoadsFacts (system.processes process) disk))
    | .saveDone process _ => inferInstanceAs (Decidable (¬ Stage.Merging (system.processes process).stage))
    | .reconcile _ .call | .reconcile _ .timeout | .reconcile _ .acquire | .reconcile _ .write | .reconcile _ .settle
    | .reconcile _ .fail | .reconcile _ .release
    | .mutate .. | .load _ | .save _ | .saveWrite .. | .saveFail .. | .rebuild _ | .rebuildDone _ => .isTrue trivial)

/-- Facts are members and no removal of one is pending; a running merge has every
fact in its set or among the additions it will add. -/
structure FactState (state : Process) : Prop where
  held : FactsHeld state.index
  standing : ∀ hash ∈ state.index.factHashes, hash ∉ state.index.removed
  merging : ∀ added removed merged,
    state.stage = .writing added removed merged ∨ state.stage = .settling added removed merged →
      (∀ hash ∈ added, hash ∈ merged) ∧
        ∀ hash ∈ state.index.factHashes, hash ∈ merged ∨ hash ∈ state.index.added

theorem factState_initial (start : Option JsString) (process : Nat) : FactState ((initial start).processes process) :=
  ⟨fun hash member => absurd member (not_mem_empty hash), fun hash member => absurd member (not_mem_empty hash),
    fun _ _ _ stands => by simp [initial] at stands⟩

section

variable (facts : FactState state)
include facts

theorem factState_index {index : ContentHashIndex} (held : FactsHeld index)
    (standing : ∀ hash ∈ index.factHashes, hash ∉ index.removed)
    (pending : ∀ hash ∈ index.factHashes, hash ∈ state.index.factHashes ∧
      (hash ∈ state.index.added → hash ∈ index.added) ∨ hash ∈ index.added) : FactState { state with index } := by
  refine ⟨held, standing, fun added removed merged stands => ?_⟩
  obtain ⟨published, covered⟩ := facts.merging added removed merged stands
  refine ⟨published, fun hash member => ?_⟩
  rcases pending hash member with ⟨old, keeps⟩ | new
  · exact (covered hash old).imp_right keeps
  · exact .inr new

theorem factState_mutate (mutation : Mutation) (paired : ∀ hash, mutation = .remove hash → hash ∉ state.index.factHashes) :
    FactState { state with index := mutate state.index mutation } := by
  have held := facts.held
  have standing := facts.standing
  cases mutation with
  | add other =>
    apply factState_index facts
    · exact fun hash member => (mem_add _).mpr (.inl (held hash member))
    · exact fun hash member removed => standing hash member ((mem_delete _).mp removed).1
    · exact fun hash member => .inl ⟨member, fun added => (mem_add _).mpr (.inl added)⟩
  | addFact other =>
    apply factState_index facts
    · intro hash member
      exact (mem_add _).mpr (((mem_add _).mp member).imp_left (held hash))
    · intro hash member removed
      have kept := (mem_delete _).mp removed
      exact ((mem_add _).mp member).elim (fun old => standing hash old kept.1) kept.2
    · intro hash member
      rcases (mem_add _).mp member with old | new
      · exact .inl ⟨old, fun added => (mem_add _).mpr (.inl added)⟩
      · exact .inr ((mem_add _).mpr (.inr new))
  | remove other =>
    have different {hash : IndexHash} (member : hash ∈ state.index.factHashes) : hash ≠ other :=
      fun same => paired other rfl (same ▸ member)
    apply factState_index facts
    · exact fun hash member => (mem_delete _).mpr ⟨held hash member, different member⟩
    · exact fun hash member removed => ((mem_add _).mp removed).elim (standing hash member) (different member)
    · exact fun hash member => .inl ⟨member, fun added => (mem_delete _).mpr ⟨added, different member⟩⟩
  | removeFact other =>
    have old {hash : IndexHash} (member : hash ∈ state.index.factHashes.delete other) :
        hash ∈ state.index.factHashes := ((mem_delete _).mp member).1
    apply factState_index facts
    · exact fun hash member => held hash (old member)
    · exact fun hash member => standing hash (old member)
    · exact fun hash member => .inl ⟨old member, id⟩
  | removePaired other =>
    apply factState_index facts
    · intro hash member
      have kept := (mem_delete _).mp member
      exact (mem_delete _).mpr ⟨held hash kept.1, kept.2⟩
    · intro hash member removed
      have kept := (mem_delete _).mp member
      exact ((mem_add _).mp removed).elim (standing hash kept.1) kept.2
    · intro hash member
      have kept := (mem_delete _).mp member
      exact .inl ⟨kept.1, fun added => (mem_delete _).mpr ⟨added, kept.2⟩⟩
  | clear =>
    apply factState_index facts <;> exact fun hash member => absurd member (not_mem_empty hash)

theorem factState_loaded (disk : Option JsString) (loads : LoadsFacts state disk) (rest : List (Option JsString)) : FactState { state with index := loaded state.index disk, loads := rest } := by
  have index : FactState { state with index := loaded state.index disk } := by
    cases disk with
    | none => exact facts
    | some raw =>
      rw [loaded]
      split
      · exact factState_index facts (fun hash member => (mem_addAll _ _ _).mpr (.inl (facts.held hash member)))
          facts.standing fun hash member => .inl ⟨member, id⟩
      next legacy =>
        have none : state.index.factHashes.items = [] := (loads raw rfl).resolve_left legacy
        refine factState_index facts (fun hash member => ?_) facts.standing fun hash member => .inl ⟨member, id⟩
        rw [none] at member
        exact absurd member List.not_mem_nil
  exact ⟨index.held, index.standing, index.merging⟩

theorem factState_consume (outside : ¬ Stage.Merging state.stage) (added removed : HashSet) (rest : List Overwrite) : FactState { state with index := consume state.index added removed, saves := rest } := by
  refine ⟨facts.held, fun hash member left => ?_, fun _ _ _ stands => ?_⟩
  · exact facts.standing hash member ((mem_deleteAll _ _ _).mp left).1
  · exact absurd (merging_of stands) outside

theorem factState_settle (stands : state.stage = .settling added removed merged) :
    FactState { state with index := settle state.index added removed merged, stage := .releasing } := by
  obtain ⟨published, covered⟩ := facts.merging added removed merged (.inr stands)
  have standing : ∀ hash ∈ state.index.factHashes, hash ∉ state.index.removed.deleteAll removed.items :=
    fun hash member left => facts.standing hash member ((mem_deleteAll _ _ _).mp left).1
  refine ⟨fun hash member => ?_, standing, fun _ _ _ again => ?_⟩
  · apply (mem_deleteAll _ _ _).mpr ⟨_, standing hash member⟩
    rw [mem_addAll]
    rcases covered hash member with inMerged | pending
    · exact .inl inMerged
    · by_cases consumed : hash ∈ added
      · exact .inl (published hash consumed)
      · exact .inr ((mem_deleteAll _ _ _).mpr ⟨pending, consumed⟩)
  · rcases again with writing | settling <;> contradiction

theorem factState_stage (outside : ¬ Stage.Merging stage) (waiting : Nat) :
    FactState { state with waiting, stage } :=
  ⟨facts.held, facts.standing, fun _ _ _ stands => absurd (merging_of stands) outside⟩

theorem factState_calls (waiting : Nat) {loads : List (Option JsString)} {saves : List Overwrite} :
    FactState { state with waiting, loads, saves } :=
  ⟨facts.held, facts.standing, facts.merging⟩

theorem factState_read {disk : Option JsString} (reads : ReadsFacts state disk (.reading added removed)) :
    FactState { state with stage := .writing added removed (mergedHashes added removed disk) } := by
  refine ⟨facts.held, facts.standing, fun pa pr merged stands => ?_⟩
  have same : Stage.writing added removed (mergedHashes added removed disk) = .writing pa pr merged :=
    stands.resolve_right nofun
  cases same
  refine ⟨fun hash member => (mem_mergedHashes _ _ _ _).mpr (.inl member), fun hash member => ?_⟩
  rw [mem_mergedHashes]
  exact (reads hash member).symm

theorem factState_write (stands : state.stage = .writing added removed merged) :
    FactState { state with stage := .settling added removed merged } := by
  refine ⟨facts.held, facts.standing, fun pa pr other settling => ?_⟩
  have same : Stage.settling added removed merged = .settling pa pr other := settling.resolve_left nofun
  cases same
  exact facts.merging added removed merged (.inl stands)

end

theorem factState_update (facts : ∀ process, FactState (system.processes process)) (process : Nat) (changed : FactState state)
    (other : Nat) : FactState (Function.update system.processes process state other) := by
  by_cases same : other = process
  · rwa [same, Function.update_self]
  · rw [Function.update_of_ne same]
    exact facts other

theorem factState_moved (facts : ∀ process, FactState (system.processes process)) {process : Nat} {move : Move}
    (keeps : KeepsFacts system (.reconcile process move)) (moved : Moved system process (system.processes process) move next)
    (other : Nat) : FactState (next.processes other) := by
  have own := facts process
  cases moved with
  | clean => exact facts other
  | called | timeout => exact factState_update facts process (factState_calls own _) other
  | acquire => exact factState_update facts process (factState_stage own id _) other
  | read added removed stands =>
    have reads : ReadsFacts (system.processes process) system.disk (.reading added removed) := stands ▸ keeps.2
    exact factState_update facts process (factState_read own reads) other
  | write added removed merged stands => exact factState_update facts process (factState_write own stands) other
  | settle added removed merged stands => exact factState_update facts process (factState_settle own stands) other
  | fail | release => exact factState_update facts process (factState_stage own id _) other

theorem factState_step {action : Action} (facts : ∀ process, FactState (system.processes process))
    (keeps : KeepsFacts system action) (stepped : step system action = some next) (other : Nat) :
    FactState (next.processes other) := by
  cases action with
  | mutate process mutation =>
    cases stepped
    apply factState_update facts process (factState_mutate (facts process) mutation _) other
    intro hash removes
    subst removes
    exact keeps.1
  | reconcile process move => exact factState_moved facts keeps (reconcileStep_moved stepped) other
  | load process =>
    cases stepped
    have own := facts process
    exact factState_update facts process (factState_calls own _) other
  | loadDone process call =>
    obtain ⟨disk, waiting, done⟩ := map_eq_some_iff.mp stepped
    rw [← done]
    exact factState_update facts process (factState_loaded (facts process) disk (keeps.2 disk waiting) _) other
  | save process =>
    have own := facts process
    simp only [step] at stepped
    split at stepped <;> cases stepped
    · exact factState_update facts process (factState_calls own _) other
    · exact facts other
  | saveWrite process call =>
    obtain ⟨overwrite, _, done⟩ := map_eq_some_iff.mp stepped
    have own := facts process
    rw [← done]
    exact factState_update facts process (factState_calls own _) other
  | saveDone process call =>
    obtain ⟨overwrite, _, done⟩ := map_eq_some_iff.mp stepped
    rw [← done]
    exact factState_update facts process (factState_consume (facts process) keeps.2 _ _ _) other
  | saveFail process call =>
    obtain ⟨overwrite, _, done⟩ := map_eq_some_iff.mp stepped
    have own := facts process
    rw [← done]
    exact factState_update facts process (factState_calls own _) other
  | rebuild process =>
    simp only [step] at stepped
    split at stepped <;> cases stepped
    exact factState_update facts process (factState_stage (facts process) id _) other
  | rebuildDone process =>
    simp only [step] at stepped
    split at stepped <;> cases stepped
    exact factState_update facts process (factState_stage (facts process) id _) other

/-- In every run whose steps meet the condition the fact hashes are members in every state. -/
theorem facts_held {start : Option JsString} {system : System}
    (reached : Reaches step KeepsFacts (initial start) system) (process : Nat) :
    FactsHeld (system.processes process).index :=
  (reached.invariant (fun system => ∀ process, FactState (system.processes process)) (factState_initial start)
    (fun _ _ _ facts keeps stepped => factState_step facts keeps stepped) process).held

def otherHash : IndexHash := ⟨text "bb", by decide⟩

def publish (process : Nat) : List Action :=
  [.reconcile process .call, .reconcile process .acquire, .reconcile process .read, .reconcile process .write,
    .reconcile process .settle, .reconcile process .release]

/-- A fact is published, a peer loads it and adds its own fact. -/
def factAdded : List Action :=
  [.mutate 0 (.addFact sampleHash)] ++ publish 0 ++ [.load 1, .loadDone 1 0, .mutate 1 (.addFact otherHash)] ++ publish 1

theorem facts_held_added : ∃ system, Reaches step KeepsFacts (initial none) system ∧
    otherHash ∈ (system.processes 1).index.factHashes ∧ FactsHeld (system.processes 1).index := by
  refine exists_reached (fun system => otherHash ∈ (system.processes 1).index.factHashes) factAdded (by decide +kernel) ?_
  intro system reached held
  exact ⟨held, facts_held reached 1⟩

/-- A peer withdraws a published fact, then its author publishes another hash. -/
def factWithdrawn : List Action :=
  [.mutate 0 (.addFact sampleHash)] ++ publish 0 ++ [.load 1, .loadDone 1 0, .mutate 1 (.removePaired sampleHash)] ++
    publish 1 ++ [.mutate 0 (.add otherHash)] ++ publish 0

theorem withdrawn_fact_stays :
    ∃ system, Reaches step Paired (initial none) system ∧ ¬ FactsHeld (system.processes 0).index :=
  exists_reached (fun system => ¬ FactsHeld (system.processes 0).index) factWithdrawn (by decide +kernel) fun _ _ => id

end Remnic.ContentHash.FactSubset
