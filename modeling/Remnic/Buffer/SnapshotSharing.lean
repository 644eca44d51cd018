import Mathlib.Data.List.Forall2
import Remnic.Library.Transition
import Remnic.Buffer.ScopeGroups

/-!
Queued snapshots of a buffer share the turns that they have in common, and their consumers
cannot tell. A chain is kept as long as some task holds it.
-/

namespace Remnic.Buffer.SnapshotSharing

open Library.Transition Text.CodeUnits Turn ScopeGroups List Function

/-- A turn with all that its consumers read. A `Value` is what `===` compares: a string, or the reference of an object. -/
structure SnapshotTurn (Value : Type) extends ScopedTurn where
  timestamp : JsString
  sourceValidAt : Option JsString := none
  sessionKey : Option JsString := none
  sessionOwnerPrincipal : Option JsString := none
  logicalSessionKey : Option JsString := none
  providerThreadId : Option (Option JsString) := none
  turnFingerprint : Option JsString := none
  persistProcessedFingerprint : Option Bool := none
  sourceConnector : Option JsString := none
  originRole : Option OriginRole := none
  ambientCapture : Option Bool := none
  extractionContextOnly : Option Bool := none
  parts : Option Value := none
  rawContent : Option Value := none
  sourceFormat : Option Value := none
  importProvenance : Option Value := none

variable {Value : Type}

/-- The fields that `bufferTurnsEqual` compares. -/
def SnapshotTurn.compared (turn : SnapshotTurn Value) : BufferTurn :=
  ⟨turn.role, turn.content, turn.timestamp, turn.sessionKey, turn.sessionOwnerPrincipal, turn.logicalSessionKey,
    turn.providerThreadId, turn.turnFingerprint, turn.persistProcessedFingerprint, turn.sourceConnector, turn.originRole,
    turn.ambientCapture, turn.sourceValidAt, turn.acceptedCapture, turn.codingContext, turn.writeNamespaceOverride,
    turn.principalOverride, scopeProfilePlanIdentity turn.scopeProfileWritePlan⟩

/-- A snapshot in the queue, as one node of a chain; `id` stands for the object. -/
structure ChainNode (Value : Type) where
  id : Nat
  key : JsString
  scopeClass : JsString
  baseLength : Nat
  tail : List (SnapshotTurn Value)
  total : Nat

/-- A node with the nodes below it, the nearest first. -/
structure SnapshotChain (Value : Type) where
  node : ChainNode Value
  base : List (ChainNode Value)

def chainNodes (chain : SnapshotChain Value) : List (ChainNode Value) := (chain.node :: chain.base).reverse

def materializeChain (chain : SnapshotChain Value) : List (SnapshotTurn Value) := (chainNodes chain).flatMap ChainNode.tail

def bucketKey (key scopeClass : JsString) : JsString := key ++ separator :: scopeClass

def ChainNode.bucket (node : ChainNode Value) : JsString := bucketKey node.key node.scopeClass

/-- The chains by bucket, an absent bucket being empty, and the holders of each node. -/
structure Registry (Value : Type) where
  buckets : JsString → List (SnapshotChain Value)
  holders : Nat → Nat
  nextId : Nat

def release (registry : Registry Value) (chain : SnapshotChain Value) : Registry Value :=
  let node := chain.node
  if registry.holders node.id = 0 then registry
  else
    let released := { registry with holders := Function.update registry.holders node.id (registry.holders node.id - 1) }
    if 0 < registry.holders node.id - 1 then released
    else
      { released with
        buckets := Function.update registry.buckets node.bucket ((registry.buckets node.bucket).eraseP fun other => other.node.id = node.id) }

/-- A queued task: its own snapshot, and the chain it was given for it. -/
structure Admission (Value : Type) where
  turns : List (SnapshotTurn Value)
  chain : SnapshotChain Value

structure World (Value : Type) where
  registry : Registry Value
  outstanding : List (Admission Value)

def initial : World Value := ⟨⟨fun _ => [], fun _ => 0, 0⟩, []⟩

def Registered (registry : Registry Value) (chain : SnapshotChain Value) : Prop := ∃ bucket, chain ∈ registry.buckets bucket

def represented (turn : SnapshotTurn Value) :
    BufferTurn × Option Bool × Option Value × Option Value × Option Value × Option Value :=
  (turn.compared, turn.extractionContextOnly, turn.importProvenance, turn.parts, turn.rawContent, turn.sourceFormat)

variable {chain : SnapshotChain Value} {turns : List (SnapshotTurn Value)} {registry : Registry Value}

theorem materializeChain_extend (node : ChainNode Value) (base : SnapshotChain Value) :
    materializeChain ⟨node, base.node :: base.base⟩ = materializeChain base ++ node.tail := by
  simp [materializeChain, chainNodes]

/-- Every chain gives back what was admitted, and its holders are the tasks that have it. -/
structure Sound (world : World Value) : Prop where
  faithful : ∀ admission ∈ world.outstanding,
    (materializeChain admission.chain).map represented = admission.turns.map represented
  fresh : ∀ admission ∈ world.outstanding, admission.chain.node.id < world.registry.nextId
  same : ∀ one ∈ world.outstanding, ∀ other ∈ world.outstanding,
    one.chain.node.id = other.chain.node.id → one.chain = other.chain
  held : ∀ id, world.registry.holders id = world.outstanding.countP (·.chain.node.id = id)
  registered : ∀ chain, Registered world.registry chain ↔ ∃ admission ∈ world.outstanding, admission.chain = chain
  placed : ∀ bucket, ∀ chain ∈ world.registry.buckets bucket, bucket = chain.node.bucket
  distinct : ∀ bucket, ((world.registry.buckets bucket).map (·.node.id)).Nodup

variable {outstanding rest : List (Admission Value)} {admission : Admission Value}

theorem Sound.perm (sound : Sound ⟨registry, outstanding⟩) (same : outstanding.Perm rest) : Sound ⟨registry, rest⟩ where
  faithful one member := sound.faithful one (same.mem_iff.mpr member)
  fresh one member := sound.fresh one (same.mem_iff.mpr member)
  same one member other listed := sound.same one (same.mem_iff.mpr member) other (same.mem_iff.mpr listed)
  held id := (sound.held id).trans (same.countP_eq _)
  registered chain := (sound.registered chain).trans (by simp only [same.mem_iff])
  placed := sound.placed
  distinct := sound.distinct

theorem Sound.shares (sound : Sound ⟨registry, outstanding⟩) (listed : Registered registry chain)
    (faithful : (materializeChain chain).map represented = turns.map represented) :
    Sound ⟨{ registry with holders := Function.update registry.holders chain.node.id (registry.holders chain.node.id + 1) },
      ⟨turns, chain⟩ :: outstanding⟩ := by
  obtain ⟨holder, member, rfl⟩ := (sound.registered chain).mp listed
  refine ⟨?_, ?_, ?_, ?_, ?_, sound.placed, sound.distinct⟩
  · exact forall_mem_cons.mpr ⟨faithful, sound.faithful⟩
  · exact forall_mem_cons.mpr ⟨sound.fresh holder member, sound.fresh⟩
  · simp only [forall_mem_cons]
    exact ⟨⟨fun _ => trivial, sound.same holder member⟩, fun one known => ⟨sound.same one known holder member, sound.same one known⟩⟩
  · intro id
    have held : registry.holders id = outstanding.countP (·.chain.node.id = id) := sound.held id
    by_cases same : id = holder.chain.node.id
    · subst same
      simp [held]
    · simpa [update_of_ne same, Ne.symm same] using held
  · intro other
    refine (sound.registered other).trans ⟨fun ⟨one, known, same⟩ => ⟨one, mem_cons_of_mem _ known, same⟩, ?_⟩
    rintro ⟨one, known, rfl⟩
    rcases mem_cons.mp known with rfl | known
    · exact ⟨holder, member, rfl⟩
    · exact ⟨one, known, rfl⟩

theorem Sound.opens (sound : Sound ⟨registry, outstanding⟩) (new : chain.node.id = registry.nextId)
    (faithful : (materializeChain chain).map represented = turns.map represented) :
    Sound ⟨⟨Function.update registry.buckets chain.node.bucket
        (registry.buckets chain.node.bucket ++ [chain]),
      Function.update registry.holders registry.nextId 1, registry.nextId + 1⟩, ⟨turns, chain⟩ :: outstanding⟩ := by
  have apart : ∀ admission ∈ outstanding, admission.chain.node.id ≠ registry.nextId := fun admission member =>
    Nat.ne_of_lt (sound.fresh admission member)
  have listed (bucket : JsString) (other : SnapshotChain Value) :
      other ∈ Function.update registry.buckets chain.node.bucket
        (registry.buckets chain.node.bucket ++ [chain]) bucket ↔
      other ∈ registry.buckets bucket ∨ other = chain ∧ bucket = chain.node.bucket := by
    by_cases here : bucket = chain.node.bucket
    · subst here
      simp
    · simp [here]
  refine ⟨forall_mem_cons.mpr ⟨faithful, sound.faithful⟩, ?_, ?_, ?_, ?_, ?_, ?_⟩
  · refine forall_mem_cons.mpr ⟨by simp [new], fun admission member => ?_⟩
    exact Nat.lt_succ_of_lt (sound.fresh admission member)
  · simp only [forall_mem_cons, new]
    exact ⟨⟨fun _ => trivial, fun other known same => absurd same.symm (apart other known)⟩,
      fun one known => ⟨fun same => absurd same (apart one known), sound.same one known⟩⟩
  · intro id
    have held : registry.holders id = outstanding.countP (·.chain.node.id = id) := sound.held id
    by_cases same : id = registry.nextId
    · subst same
      have none : outstanding.countP (·.chain.node.id = registry.nextId) = 0 :=
        countP_eq_zero.mpr fun admission member => by simpa using apart admission member
      simp [none, new]
    · simpa [update_of_ne same, new, Ne.symm same] using held
  · intro other
    have before := sound.registered other
    simp only [Registered, listed, exists_or, mem_cons, exists_eq_or_imp] at before ⊢
    rw [or_comm, before]
    simp [eq_comm]
  · intro bucket other member
    rcases (listed bucket other).mp member with old | ⟨rfl, here⟩
    · exact sound.placed bucket other old
    · exact here
  · intro bucket
    dsimp only
    by_cases here : bucket = chain.node.bucket
    · subst here
      rw [update_self, map_append, map_singleton, nodup_append]
      refine ⟨sound.distinct _, nodup_singleton _, fun id old last single same => ?_⟩
      obtain ⟨other, member, rfl⟩ := mem_map.mp old
      obtain rfl := mem_singleton.mp single
      obtain ⟨admission, known, rfl⟩ := (sound.registered other).mp ⟨_, member⟩
      exact apart admission known (same.trans new)
    · rw [update_of_ne here]
      exact sound.distinct bucket

theorem mem_eraseP_id {chains : List (SnapshotChain Value)} {id : Nat} (distinct : (chains.map (·.node.id)).Nodup) :
    chain ∈ chains.eraseP (fun other => other.node.id = id) ↔ chain ∈ chains ∧ chain.node.id ≠ id := by
  induction chains with
  | nil => simp
  | cons head tail ih =>
    rw [map_cons, nodup_cons] at distinct
    by_cases same : head.node.id = id
    · have apart : chain ∈ tail → chain.node.id ≠ id := by
        rintro member rfl
        exact distinct.1 (mem_map.mpr ⟨chain, member, same.symm⟩)
      rw [eraseP_cons_of_pos (by simpa using same), mem_cons]
      constructor
      · exact fun member => ⟨.inr member, apart member⟩
      · rintro ⟨rfl | member, other⟩
        · exact absurd same other
        · exact member
    · rw [eraseP_cons_of_neg (by simpa using same), mem_cons, ih distinct.2, mem_cons]
      constructor
      · rintro (rfl | ⟨member, other⟩)
        · exact ⟨.inl rfl, same⟩
        · exact ⟨.inr member, other⟩
      · rintro ⟨rfl | member, other⟩
        · exact .inl rfl
        · exact .inr ⟨member, other⟩

theorem mem_erased (sound : Sound ⟨registry, admission :: rest⟩) {bucket : JsString} :
    chain ∈ Function.update registry.buckets admission.chain.node.bucket
        ((registry.buckets admission.chain.node.bucket).eraseP
          fun other => other.node.id = admission.chain.node.id) bucket ↔
      chain ∈ registry.buckets bucket ∧ chain.node.id ≠ admission.chain.node.id := by
  by_cases here : bucket = admission.chain.node.bucket
  · subst here
    rw [update_self]
    exact mem_eraseP_id (sound.distinct _)
  · rw [update_of_ne here]
    refine ⟨fun member => ⟨member, fun same => here ?_⟩, And.left⟩
    obtain ⟨one, known, rfl⟩ := (sound.registered chain).mp ⟨bucket, member⟩
    rw [← sound.same one known admission mem_cons_self same]
    exact sound.placed bucket one.chain member

theorem sound_release (sound : Sound ⟨registry, admission :: rest⟩) : Sound ⟨release registry admission.chain, rest⟩ := by
  have held (id : Nat) : registry.holders id = (admission :: rest).countP (·.chain.node.id = id) := sound.held id
  have own : registry.holders admission.chain.node.id = rest.countP (·.chain.node.id = admission.chain.node.id) + 1 := by
    rw [held]
    simp
  have counted (id : Nat) : Function.update registry.holders admission.chain.node.id
      (registry.holders admission.chain.node.id - 1) id = rest.countP (·.chain.node.id = id) := by
    by_cases same : id = admission.chain.node.id
    · subst same
      simp [own]
    · rw [update_of_ne same, held]
      simp [Ne.symm same]
  have faithful := (forall_mem_cons.mp sound.faithful).2
  have fresh := (forall_mem_cons.mp sound.fresh).2
  have same : ∀ one ∈ rest, ∀ other ∈ rest, one.chain.node.id = other.chain.node.id → one.chain = other.chain :=
    fun one known other member => sound.same one (mem_cons_of_mem _ known) other (mem_cons_of_mem _ member)
  unfold release
  dsimp only
  rw [if_neg (by omega)]
  split_ifs with shared
  · refine ⟨faithful, fresh, same, counted, fun chain => ?_, sound.placed, sound.distinct⟩
    have remains : 0 < rest.countP (·.chain.node.id = admission.chain.node.id) := by omega
    obtain ⟨other, member, again⟩ := countP_pos_iff.mp remains
    have twin : other.chain = admission.chain :=
      sound.same other (mem_cons_of_mem _ member) admission mem_cons_self (of_decide_eq_true again)
    refine (sound.registered chain).trans ⟨?_, fun ⟨one, known, its⟩ => ⟨one, mem_cons_of_mem _ known, its⟩⟩
    rintro ⟨one, known, rfl⟩
    rcases mem_cons.mp known with rfl | known
    · exact ⟨other, member, twin⟩
    · exact ⟨one, known, rfl⟩
  · have gone : ∀ one ∈ rest, one.chain.node.id ≠ admission.chain.node.id := by
      have none : rest.countP (·.chain.node.id = admission.chain.node.id) = 0 := by omega
      simpa using countP_eq_zero.mp none
    refine ⟨faithful, fresh, same, counted, fun chain => ?_, fun bucket chain member => ?_, fun bucket => ?_⟩
    · simp only [Registered, mem_erased sound, exists_and_right]
      refine (and_congr_left fun _ => sound.registered chain).trans ⟨?_, ?_⟩
      · rintro ⟨⟨one, known, rfl⟩, other⟩
        rcases mem_cons.mp known with rfl | known
        · exact absurd rfl other
        · exact ⟨one, known, rfl⟩
      · rintro ⟨one, known, rfl⟩
        exact ⟨⟨one, mem_cons_of_mem _ known, rfl⟩, gone one known⟩
    · exact sound.placed bucket chain ((mem_erased sound).mp member).1
    · dsimp only
      by_cases here : bucket = admission.chain.node.bucket
      · subst here
        rw [update_self]
        exact (eraseP_sublist.map _).nodup (sound.distinct _)
      · rw [update_of_ne here]
        exact sound.distinct bucket

variable [DecidableEq Value]

def bufferTurnsEqual (left right : SnapshotTurn Value) : Bool := left.compared = right.compared

def turnRepresentationEquivalent (left right : SnapshotTurn Value) : Bool :=
  bufferTurnsEqual left right && decide (left.extractionContextOnly = right.extractionContextOnly) &&
    decide (left.importProvenance = right.importProvenance) && decide (left.parts = right.parts) &&
    decide (left.rawContent = right.rawContent) && decide (left.sourceFormat = right.sourceFormat)

/-- The offset after the chained turns, when each is equivalent to the turn at its own. -/
def prefixOffset (turns : List (SnapshotTurn Value)) : List (SnapshotTurn Value) → Nat → Option Nat
  | [], offset => some offset
  | chained :: later, offset =>
    match turns[offset]? with
    | none => none
    | some incoming => if turnRepresentationEquivalent chained incoming then prefixOffset turns later (offset + 1) else none

def chainPrefixEquivalent (chain : SnapshotChain Value) (turns : List (SnapshotTurn Value)) : Bool :=
  prefixOffset turns (materializeChain chain) 0 = some chain.node.total

def scopeClassOf : List (SnapshotTurn Value) → JsString
  | [] => []
  | first :: _ => scopeKey first.toScopedTurn

/-- The node of a snapshot that no chain in the queue stands for as a whole. -/
def newChain (registry : Registry Value) (bufferKey : JsString) (turns : List (SnapshotTurn Value)) : SnapshotChain Value :=
  let scopeClass := scopeClassOf turns
  match (registry.buckets (bucketKey bufferKey scopeClass)).getLast?.filter fun base =>
      base.node.total ≤ turns.length && chainPrefixEquivalent base turns with
  | some base =>
    ⟨⟨registry.nextId, bufferKey, scopeClass, base.node.total, turns.drop base.node.total, turns.length⟩, base.node :: base.base⟩
  | none => ⟨⟨registry.nextId, bufferKey, scopeClass, 0, turns, turns.length⟩, []⟩

/-- The registry's `admit`. -/
def admitTurns (registry : Registry Value) (bufferKey : JsString) (turns : List (SnapshotTurn Value)) :
    SnapshotChain Value × Registry Value :=
  let bucket := bucketKey bufferKey (scopeClassOf turns)
  match (registry.buckets bucket).getLast?.filter fun base =>
      base.node.total = turns.length && chainPrefixEquivalent base turns with
  | some base =>
    (base, { registry with holders := Function.update registry.holders base.node.id (registry.holders base.node.id + 1) })
  | none =>
    let chain := newChain registry bufferKey turns
    (chain, ⟨Function.update registry.buckets bucket (registry.buckets bucket ++ [chain]),
      Function.update registry.holders registry.nextId 1, registry.nextId + 1⟩)

inductive Action (Value : Type) where
  | admitTurns (bufferKey : JsString) (turns : List (SnapshotTurn Value))
  | release (position : Nat)

/-- A task releases its chain once. -/
def step (world : World Value) : Action Value → Option (World Value)
  | .admitTurns bufferKey turns =>
    let (chain, registry) := admitTurns world.registry bufferKey turns
    some ⟨registry, ⟨turns, chain⟩ :: world.outstanding⟩
  | .release position =>
    world.outstanding[position]?.map fun admission =>
      ⟨release world.registry admission.chain, world.outstanding.eraseIdx position⟩

theorem equivalent_iff {left right : SnapshotTurn Value} :
    turnRepresentationEquivalent left right = true ↔ represented left = represented right := by
  simp [turnRepresentationEquivalent, bufferTurnsEqual, represented, and_assoc]

theorem forall_equivalent_iff {left right : List (SnapshotTurn Value)} :
    List.Forall₂ (fun one other => turnRepresentationEquivalent one other = true) left right ↔
      left.map represented = right.map represented := by
  simp only [equivalent_iff]
  rw [← forall₂_eq_eq_eq, forall₂_map_left_iff, forall₂_map_right_iff]

theorem prefixOffset_spec {turns chained : List (SnapshotTurn Value)} {offset last : Nat}
    (compares : prefixOffset turns chained offset = some last) :
    last = offset + chained.length ∧
      chained.map represented = ((turns.drop offset).take chained.length).map represented := by
  induction chained generalizing offset with
  | nil => simpa [prefixOffset, eq_comm] using compares
  | cons first later ih =>
    unfold prefixOffset at compares
    split at compares
    next => contradiction
    next incoming here =>
      split_ifs at compares with equivalent
      obtain ⟨ended, same⟩ := ih compares
      obtain ⟨inside, rfl⟩ := List.getElem?_eq_some_iff.mp here
      refine ⟨by rw [length_cons]; omega, ?_⟩
      rw [drop_eq_getElem_cons inside, length_cons, take_succ_cons, map_cons, map_cons, ← same,
        equivalent_iff.mp equivalent]

theorem chainPrefixEquivalent_spec (equivalent : chainPrefixEquivalent chain turns = true) :
    (materializeChain chain).map represented = (turns.take chain.node.total).map represented := by
  obtain ⟨total, same⟩ := prefixOffset_spec (of_decide_eq_true equivalent)
  rwa [drop_zero, ← Nat.zero_add (materializeChain chain).length, ← total] at same

variable {bufferKey : JsString}

theorem materializeChain_newChain :
    (materializeChain (newChain registry bufferKey turns)).map represented = turns.map represented := by
  unfold newChain
  dsimp only
  split
  next base found =>
    obtain ⟨_, fits⟩ := Option.filter_eq_some_iff.mp found
    have same := chainPrefixEquivalent_spec (Bool.and_eq_true_iff.mp fits).2
    rw [materializeChain_extend, map_append, same, ← map_append, take_append_drop]
  next => simp [materializeChain, chainNodes]

theorem newChain_node : (newChain registry bufferKey turns).node.id = registry.nextId ∧
    (newChain registry bufferKey turns).node.bucket = bucketKey bufferKey (scopeClassOf turns) := by
  unfold newChain
  dsimp only
  split <;> exact ⟨rfl, rfl⟩

theorem sound_admitTurns (sound : Sound ⟨registry, outstanding⟩) (bufferKey : JsString) (turns : List (SnapshotTurn Value)) :
    Sound ⟨(admitTurns registry bufferKey turns).2, ⟨turns, (admitTurns registry bufferKey turns).1⟩ :: outstanding⟩ := by
  unfold admitTurns
  dsimp only
  split
  next base found =>
    obtain ⟨last, fits⟩ := Option.filter_eq_some_iff.mp found
    obtain ⟨whole, equivalent⟩ := Bool.and_eq_true_iff.mp fits
    have same := chainPrefixEquivalent_spec equivalent
    rw [of_decide_eq_true whole, take_length] at same
    exact sound.shares ⟨_, mem_of_getLast? last⟩ same
  next =>
    obtain ⟨new, here⟩ : (newChain registry bufferKey turns).node.id = registry.nextId ∧ _ := newChain_node
    rw [← here]
    exact sound.opens new materializeChain_newChain

theorem sound_step {world next : World Value} {action : Action Value} (sound : Sound world)
    (stepped : step world action = some next) : Sound next := by
  cases action with
  | admitTurns bufferKey turns =>
    cases stepped
    exact sound_admitTurns sound bufferKey turns
  | release position =>
    obtain ⟨admission, here, rfl⟩ := Option.map_eq_some_iff.mp stepped
    obtain ⟨inside, rfl⟩ := List.getElem?_eq_some_iff.mp here
    exact sound_release (sound.perm (getElem_cons_eraseIdx_perm inside).symm)

/-- What is queued is given back as it was admitted, and a chain is registered as long as a task holds it. -/
theorem sharing_is_transparent {world : World Value} (reached : Reaches step (fun _ _ => True) initial world) :
    (∀ admission ∈ world.outstanding, List.Forall₂ (fun one other => turnRepresentationEquivalent one other = true)
      (materializeChain admission.chain) admission.turns) ∧
    ∀ chain, Registered world.registry chain ↔ ∃ admission ∈ world.outstanding, admission.chain = chain := by
  have sound : Sound world := by
    apply reached.invariant Sound
    · exact ⟨nofun, nofun, nofun, fun _ => rfl, fun _ => by simp [initial, Registered], nofun, fun _ => nodup_nil⟩
    · exact fun _ _ _ sound _ stepped => sound_step sound stepped
  exact ⟨fun admission member => forall_equivalent_iff.mpr (sound.faithful admission member), sound.registered⟩

def sampleTurn (content : JsString) (reference : Nat) : SnapshotTurn Nat :=
  { toScopedTurn := ⟨.user, content, none, none, none, none, none⟩, timestamp := [], parts := some reference }

/-- A window, the longer one after it, and the release of the first. -/
def sampleActions : List (Action Nat) :=
  [.admitTurns [1] [sampleTurn [2] 0], .admitTurns [1] [sampleTurn [2] 0, sampleTurn [3] 1], .release 1]

theorem sharing_is_transparent_nested : ∃ world : World Nat, Reaches step (fun _ _ => True) initial world ∧
    world.outstanding.map (fun admission => admission.chain.base.length) = [1] ∧
    (∀ admission ∈ world.outstanding, List.Forall₂ (fun one other => turnRepresentationEquivalent one other = true)
      (materializeChain admission.chain) admission.turns) ∧
    ∀ chain, Registered world.registry chain ↔ ∃ admission ∈ world.outstanding, admission.chain = chain := by
  obtain ⟨world, ended, nested⟩ : ∃ world, run (checked step fun _ _ => True) sampleActions initial = some world ∧
      world.outstanding.map (fun admission => admission.chain.base.length) = [1] := ⟨_, rfl, by decide +kernel⟩
  have reached : Reaches step (fun _ _ => True) initial world := reaches_of_run sampleActions ended
  exact ⟨world, reached, nested, sharing_is_transparent reached⟩

end Remnic.Buffer.SnapshotSharing
