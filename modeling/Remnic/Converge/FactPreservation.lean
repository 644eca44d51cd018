import Mathlib.Order.WellFoundedSet
import Remnic.Converge.CollapsedRun

/-!
What becomes of an active fact whose transfer a collapse drops: which facts the
replica that was to receive it holds once the collapsed plan is carried out.
-/

namespace Remnic.Converge.FactPreservation
open Text.CodeUnits Library Library.GuardedFold List Option
open Reconcile.Census Reconcile.Plan Reconcile.PlanResult Reconcile.Manifest
open Reconcile.Collapse Converge.Apply Converge.Fixpoint Converge.CollapsedRun

inductive Participant where
  | localSide
  | peerSide
deriving DecidableEq

variable {Payload : Type}

namespace Participant

def opposite : Participant → Participant
  | .localSide => .peerSide
  | .peerSide => .localSide

/-- The action that moves a file to the participant. -/
def receives : Participant → ReconcileAction
  | .localSide => .pull
  | .peerSide => .push

def incoming : Participant → TransferType
  | .localSide => .pull
  | .peerSide => .push

def onlyReason : Participant → ReconcileReason
  | .localSide => .localOnly
  | .peerSide => .peerOnly

def files (side : Participant) (replicas : Replicas Payload) : Corpus Payload :=
  match side with
  | .localSide => replicas.localFiles
  | .peerSide => replicas.peerFiles

end Participant

def factsOf (maps : CollapseMaps) : Participant → OrderedMap JsString ActiveFactManifestFile
  | .localSide => maps.localByPath
  | .peerSide => maps.peerByPath

def filesOf (maps : CollapseMaps) : Participant → OrderedMap JsString ReconcileManifestFile
  | .localSide => maps.localFilesByPath
  | .peerSide => maps.peerFilesByPath

def candidatesOf (maps : CollapseMaps) (side : Participant) (hash : JsString) : List ActiveFactManifestFile :=
  match side with
  | .localSide => maps.localCandidates hash
  | .peerSide => maps.peerCandidates hash

def canonicalOf (maps : CollapseMaps) (side : Participant) (hash : JsString) : Option JsString :=
  match side with
  | .localSide => maps.localPath hash
  | .peerSide => maps.peerPath hash

/-- The identity that parsing a stored file yields, by its path and digest. -/
abbrev Identities := JsString → Sha256 → Option ReconcileMemoryIdentity

variable (identity : Identities) (digest : Payload → Sha256)

/-- A manifest of a corpus: a file for each stored path with its digest, and with
its identity wherever the file was read. -/
structure ManifestOf (corpus : Corpus Payload) (manifest : Option ReconcileManifest) : Prop where
  listed : ∀ file ∈ manifestFiles manifest, ∃ sha256, sha256At digest corpus file.path = some sha256 ∧
    asciiLower file.sha256 = sha256.val ∧ (file.memory = none ∨ file.memory = identity file.path sha256)
  complete : ∀ path, sha256At digest corpus path ≠ none → ∃ file ∈ manifestFiles manifest, file.path = path

/-- A corpus stores an active fact with this identity under the path. -/
def FactAt (corpus : Corpus Payload) (path : JsString) (memory : ReconcileMemoryIdentity) : Prop :=
  ∃ sha256, sha256At digest corpus path = some sha256 ∧ identity path sha256 = some memory ∧
    memory.category = text "fact" ∧ memory.status = .active

/-- Two active facts of the replicas with an identity hash in common. -/
def Adjacent (replicas : Replicas Payload) (first second : ReconcileMemoryIdentity) : Prop :=
  (∃ side path, FactAt identity digest (Participant.files side replicas) path first) ∧
    (∃ side path, FactAt identity digest (Participant.files side replicas) path second) ∧
    ∃ hash, hash ∈ memoryIdentityHashes first ∧ hash ∈ memoryIdentityHashes second

/-- A chain of active facts, each with an identity hash in common with the next. -/
def Linked (replicas : Replicas Payload) : ReconcileMemoryIdentity → ReconcileMemoryIdentity → Prop :=
  Relation.ReflTransGen (Adjacent identity digest replicas)

def Retracts (entry : ReconcilePlanEntry) : Prop :=
  transferType entry = .suppress ∨ transferType entry = .deleteLocal ∨ transferType entry = .deletePeer

instance (entry : ReconcilePlanEntry) : Decidable (Retracts entry) := inferInstanceAs (Decidable (_ ∨ _))

variable {identity digest}

variable {first : ReconcileMemoryIdentity} {corpus : Corpus Payload} {path : JsString} {replicas : Replicas Payload}
  {memory : ReconcileMemoryIdentity} {manifest : Option ReconcileManifest}

private theorem factAt_unique {second : ReconcileMemoryIdentity} (one : FactAt identity digest corpus path first)
    (two : FactAt identity digest corpus path second) : first = second := by
  obtain ⟨sha256, held, parsed, _⟩ := one
  obtain ⟨other, again, parsedAgain, _⟩ := two
  rw [held] at again
  cases again
  exact some.inj (parsed.symm.trans parsedAgain)

private theorem factAt_held (fact : FactAt identity digest corpus path memory) : sha256At digest corpus path ≠ none := by
  obtain ⟨sha256, held, _⟩ := fact
  rw [held]
  exact some_ne_none _

private theorem factAt_congr {first second : Corpus Payload} (same : sha256At digest second path = sha256At digest first path)
    (fact : FactAt identity digest first path memory) : FactAt identity digest second path memory := by
  obtain ⟨sha256, held, parsed⟩ := fact
  exact ⟨sha256, same.trans held, parsed⟩

theorem manifestOf_held (isManifest : ManifestOf identity digest corpus manifest) (path : JsString) :
    (filesByPath manifest).lookup path = none ↔ sha256At digest corpus path = none := by
  have contained : (filesByPath manifest).contains path = true ↔ sha256At digest corpus path ≠ none := by
    rw [filesByPath_contains]
    constructor
    · intro listed
      obtain ⟨file, member, rfl⟩ := mem_map.mp listed
      obtain ⟨sha256, held, _⟩ := isManifest.listed file member
      rw [held]
      exact some_ne_none _
    · intro held
      obtain ⟨file, member, rfl⟩ := isManifest.complete path held
      exact mem_map_of_mem member
  rw [OrderedMap.contains, isSome_iff_ne_none] at contained
  exact not_iff_not.mp contained

theorem manifestOf_fact (isManifest : ManifestOf identity digest corpus manifest) {fact : ActiveFactManifestFile}
    (found : (activeFactByPath manifest).lookup path = some fact) :
    fact.path = path ∧ FactAt identity digest corpus path fact.memory := by
  obtain ⟨samePath, file, member, active⟩ := activeFactByPath_lookup found
  obtain ⟨atPath, _, parsed⟩ := activeFact_path active
  obtain ⟨sha256, held, _, known⟩ := isManifest.listed file member
  rw [parsed] at known
  refine ⟨samePath, sha256, ?_, ?_, fact.isActiveFact⟩
  · rw [← samePath, atPath]
    exact held
  · rw [← samePath, atPath]
    exact (known.resolve_left (some_ne_none _)).symm

/-- What the maps of a collapse say about the replicas they were built from. -/
structure Indexes (identity : Identities) (digest : Payload → Sha256) (maps : CollapseMaps)
    (replicas : Replicas Payload) : Prop where
  fact : ∀ side path fact, (factsOf maps side).lookup path = some fact →
    fact.path = path ∧ FactAt identity digest (Participant.files side replicas) path fact.memory
  held : ∀ side path, (filesOf maps side).lookup path = none ↔
    sha256At digest (Participant.files side replicas) path = none
  candidate : ∀ side hash file, file ∈ candidatesOf maps side hash ↔
    (factsOf maps side).lookup file.path = some file ∧ hash ∈ memoryIdentityHashes file.memory ∧
      ((filesOf maps side.opposite).lookup file.path = none ∨
        ∃ opposite, (factsOf maps side.opposite).lookup file.path = some opposite ∧
          hash ∈ memoryIdentityHashes opposite.memory)
  canonical : ∀ side hash, canonicalOf maps side hash =
    resolvePathByHash hash (contentHashRows (candidatesOf maps side hash) hash)

theorem collapseMaps_indexes {localManifest peerManifest : Option ReconcileManifest}
    (localOf : ManifestOf identity digest replicas.localFiles localManifest)
    (peerOf : ManifestOf identity digest replicas.peerFiles peerManifest) (prior : List ReconcileSemanticAgreement) :
    Indexes identity digest (collapseMaps localManifest peerManifest prior) replicas := by
  refine ⟨fun side path fact found => ?_, fun side path => ?_, fun side hash file => ?_, fun side hash => ?_⟩
  · cases side with
    | localSide => exact manifestOf_fact localOf found
    | peerSide => exact manifestOf_fact peerOf found
  · cases side with
    | localSide => exact manifestOf_held localOf path
    | peerSide => exact manifestOf_held peerOf path
  · cases side with
    | localSide => exact mem_hashCandidates localManifest _ _ hash file
    | peerSide => exact mem_hashCandidates peerManifest _ _ hash file
  · cases side with
    | localSide => rfl
    | peerSide => rfl

section Indexed

variable {maps : CollapseMaps} {before : Replicas Payload} (indexes : Indexes identity digest maps before)

include indexes

private theorem contains_held (side : Participant) (path : JsString) :
    (filesOf maps side).contains path = true ↔ sha256At digest (side.files before) path ≠ none := by
  rw [OrderedMap.contains, isSome_iff_ne_none, Ne, indexes.held]

variable {hash : JsString} {side : Participant}

private theorem candidate_fact {path : JsString} (listed : path ∈ (candidatesOf maps side hash).map ActiveFactManifestFile.path) :
    ∃ fact, fact ∈ candidatesOf maps side hash ∧ fact.path = path ∧
      FactAt identity digest (side.files before) path fact.memory ∧ hash ∈ memoryIdentityHashes fact.memory ∧
      (sha256At digest (side.opposite.files before) path = none ∨
        ∃ other, FactAt identity digest (side.opposite.files before) path other ∧
          hash ∈ memoryIdentityHashes other) := by
  obtain ⟨fact, member, rfl⟩ := mem_map.mp listed
  obtain ⟨found, carried, opposite⟩ := (indexes.candidate side hash fact).mp member
  refine ⟨fact, member, rfl, (indexes.fact side _ fact found).2, carried, ?_⟩
  rcases opposite with absent | ⟨other, held, shared⟩
  · exact Or.inl ((indexes.held side.opposite _).mp absent)
  · exact Or.inr ⟨other.memory, (indexes.fact side.opposite _ other held).2, shared⟩

private theorem canonical_absent {canonicalPath : JsString} (receiver : canonicalOf maps side hash = none)
    (sender : canonicalOf maps side.opposite hash = some canonicalPath) (named : canonicalPath ≠ []) :
    sha256At digest (side.files before) canonicalPath = none := by
  rw [indexes.canonical] at sender receiver
  obtain ⟨isDigest, listed, _⟩ := resolvePathByHash_eq_some sender
  obtain ⟨fact, member, rfl⟩ := mem_map.mp listed
  obtain ⟨found, carried, opposite⟩ := (indexes.candidate side.opposite hash fact).mp member
  have twice : side.opposite.opposite = side := by cases side <;> rfl
  rw [twice] at opposite
  rcases opposite with absent | ⟨other, held, shared⟩
  · exact (indexes.held side _).mp absent
  · have samePath := (indexes.fact side _ other held).1
    have otherMember : other ∈ candidatesOf maps side hash := by
      rw [indexes.candidate, samePath]
      exact ⟨held, shared, Or.inr ⟨fact, found, carried⟩⟩
    obtain ⟨path, resolved⟩ := resolvePathByHash_resolves isDigest otherMember (samePath ▸ named)
    rw [receiver] at resolved
    cases resolved

end Indexed

section Facts

variable {evidence : PlanEvidence} {maps : CollapseMaps} {nameSpace : JsString} {entries : List ReconcilePlanEntry}
  {pass : CollapsePass} {before after : Replicas Payload}
  (facts : RunFacts digest evidence maps nameSpace entries pass before after)
  (indexes : Indexes identity digest maps before)

include facts

variable {memory : ReconcileMemoryIdentity} {entry : ReconcilePlanEntry} (side : Participant)

/-- A transfer to one side has the file on the other, and its reason says whether the receiver lacks the path. -/
private theorem receives_reason (member : entry ∈ entries) (side : Participant) (moves : entry.action = side.receives) :
    sha256At digest (side.opposite.files before) entry.path ≠ none ∧
      (sha256At digest (side.files before) entry.path = none ∧ entry.reason = side.opposite.onlyReason ∨
        sha256At digest (side.files before) entry.path ≠ none) := by
  have holds := facts.reason entry member
  unfold ReasonHolds at holds
  cases side with
  | localSide =>
    cases reason : entry.reason with
    | peerOnly =>
      simp only [reason] at holds
      exact ⟨holds.2.2.1, Or.inl ⟨holds.2.1, rfl⟩⟩
    | peerChanged =>
      simp only [reason] at holds
      exact ⟨holds.2.2.1, Or.inr holds.2.1⟩
    | tombstoned => simp [reason, moves, Participant.receives] at holds
    | _ => simp [reason, moves, Participant.receives] at holds
  | peerSide =>
    cases reason : entry.reason with
    | localOnly =>
      simp only [reason] at holds
      exact ⟨holds.2.1, Or.inl ⟨holds.2.2.1, rfl⟩⟩
    | localChanged =>
      simp only [reason] at holds
      exact ⟨holds.2.1, Or.inr holds.2.2.1⟩
    | tombstoned => simp [reason, moves, Participant.receives] at holds
    | _ => simp [reason, moves, Participant.receives] at holds

private theorem incoming_source (member : entry ∈ entries) (side : Participant) (moves : transferType entry = side.incoming) :
    sha256At digest (side.opposite.files before) entry.path ≠ none := by
  obtain ⟨localSha256, peerSha256⟩ := facts.digests entry member
  cases action : entry.action with
  | pull =>
    cases side with
    | localSide => exact (receives_reason facts member .localSide action).1
    | peerSide => simp [transferType, action, Participant.incoming] at moves
  | push =>
    cases side with
    | localSide => simp [transferType, action, Participant.incoming] at moves
    | peerSide => exact (receives_reason facts member .peerSide action).1
  | identical => cases side <;> simp [transferType, action, Participant.incoming] at moves
  | suppress => cases side <;> simp [transferType, action, Participant.incoming] at moves
  | conflict =>
    rw [transferType, action] at moves
    cases side with
    | localSide =>
      dsimp only at moves
      split at moves
      · split_ifs at moves with present
        · rw [peerSha256, isSome_iff_ne_none] at present
          exact present
        · cases moves
      · split_ifs at moves <;> cases moves
      · cases moves
    | peerSide =>
      dsimp only at moves
      split at moves
      · split_ifs at moves <;> cases moves
      · split_ifs at moves with present
        · rw [localSha256, isSome_iff_ne_none] at present
          exact present
        · cases moves
      · cases moves

private theorem kept_side (member : entry ∈ entries) (kept : entry ∉ pass.removed) (live : ¬ Retracts entry)
    (side : Participant) :
    sha256At digest (side.files after) entry.path =
      if transferType entry = side.incoming then sha256At digest (side.opposite.files before) entry.path
      else sha256At digest (side.files before) entry.path := by
  have outcome := facts.kept entry member kept
  simp only [Retracts, not_or] at live
  unfold outcomeOf at outcome
  cases kind : transferType entry with
  | pull =>
    simp only [kind, Prod.mk.injEq] at outcome
    cases side with
    | localSide => exact outcome.1
    | peerSide => exact outcome.2
  | push =>
    simp only [kind, Prod.mk.injEq] at outcome
    cases side with
    | localSide => exact outcome.1
    | peerSide => exact outcome.2
  | nothing =>
    simp only [kind, Prod.mk.injEq] at outcome
    cases side with
    | localSide => exact outcome.1
    | peerSide => exact outcome.2
  | suppress => exact absurd kind live.1
  | deleteLocal => exact absurd kind live.2.1
  | deletePeer => exact absurd kind live.2.2

/-- A side that holds a fact with a hash, under a path the other side lacks or holds
a fact with that hash under, still holds such a fact there at the end. -/
private theorem retained {path hash : JsString} (here : FactAt identity digest (side.files before) path memory)
    (carried : hash ∈ memoryIdentityHashes memory)
    (there : sha256At digest (side.opposite.files before) path = none ∨
      ∃ other, FactAt identity digest (side.opposite.files before) path other ∧ hash ∈ memoryIdentityHashes other)
    (live : ∀ entry ∈ entries, entry.path = path → ¬ Retracts entry) :
    ∃ last, FactAt identity digest (side.files after) path last ∧ hash ∈ memoryIdentityHashes last ∧
      ∃ source path, FactAt identity digest (Participant.files source before) path last := by
  by_cases known : ∃ entry ∈ entries, entry.path = path ∧ entry ∉ pass.removed
  · obtain ⟨entry, member, rfl, kept⟩ := known
    have ends := kept_side facts member kept (live entry member rfl) side
    split_ifs at ends with moves
    · rcases there with absent | ⟨other, held, shared⟩
      · exact absurd absent (incoming_source facts member side moves)
      · exact ⟨other, factAt_congr ends held, shared, side.opposite, entry.path, held⟩
    · exact ⟨memory, factAt_congr ends here, carried, side, entry.path, here⟩
  · push Not at known
    obtain ⟨sameLocal, samePeer⟩ := facts.still path known
    refine ⟨memory, ?_, carried, side, path, here⟩
    cases side with
    | localSide => exact factAt_congr sameLocal here
    | peerSide => exact factAt_congr samePeer here

include indexes

/-- How a transfer leaves the plan: its receiver lacks the path, the fact is a candidate of a
hash, and either the receiver has a canonical copy or the sender's canonical copy is another path. -/
private theorem removed_move (gone : entry ∈ pass.removed) (side : Participant) (moves : entry.action = side.receives) :
    sha256At digest (side.files before) entry.path = none ∧
      ∃ hash, entry.path ∈ (candidatesOf maps side.opposite hash).map ActiveFactManifestFile.path ∧
        ((∃ canonicalPath, canonicalOf maps side hash = some canonicalPath) ∨
          canonicalOf maps side hash = none ∧
            ∃ canonicalPath, canonicalOf maps side.opposite hash = some canonicalPath ∧ entry.path ≠ canonicalPath) := by
  obtain ⟨hash, _, ⟨opens, member, _, removable, plain⟩ | ⟨unpaired, member, sameSide, rest⟩⟩ :=
    (facts.tracks.removed entry).mp gone
  · rw [CollapseMaps.isRemovable, Bool.and_eq_true, contains_iff_mem] at removable
    have moving : entry.action ≠ .identical := by
      rw [moves]
      cases side <;> decide
    have notBoth : ¬ (maps.localFilesByPath.contains entry.path = true ∧
        maps.peerFilesByPath.contains entry.path = true) := by
      rintro ⟨inLocal, inPeer⟩
      simp [CollapseMaps.isAuthoritative, removable.1, inLocal, inPeer, moving] at plain
    obtain ⟨source, _⟩ := receives_reason facts member side moves
    have absent : sha256At digest (side.files before) entry.path = none := by
      by_contra held
      refine notBoth ⟨?_, ?_⟩
      · cases side with
        | localSide => exact (contains_held indexes .localSide _).mpr held
        | peerSide => exact (contains_held indexes .localSide _).mpr source
      · cases side with
        | localSide => exact (contains_held indexes .peerSide _).mpr source
        | peerSide => exact (contains_held indexes .peerSide _).mpr held
    have canonical : ∀ side, ∃ canonicalPath, canonicalOf maps side hash = some canonicalPath := by
      have keyed := opens.1
      unfold pairKey at keyed
      split at keyed
      · rintro (_ | _)
        · exact ⟨_, by assumption⟩
        · exact ⟨_, by assumption⟩
      · cases keyed
    have listed : ∀ other, entry.path ∈ (candidatesOf maps other hash).map ActiveFactManifestFile.path →
        other = side.opposite := by
      intro other inOther
      obtain ⟨fact, _, _, held, _⟩ := candidate_fact indexes inOther
      by_contra different
      have same : other = side := by cases other <;> cases side <;> simp_all [Participant.opposite]
      exact factAt_held held (same ▸ absent)
    refine ⟨absent, hash, ?_, Or.inl (canonical side)⟩
    rcases mem_append.mp removable.1 with inLocal | inPeer
    · exact listed .localSide inLocal ▸ inLocal
    · exact listed .peerSide inPeer ▸ inPeer
  · obtain ⟨_, holds⟩ := receives_reason facts member side moves
    have alone : sha256At digest (side.files before) entry.path = none ∧ entry.reason = side.opposite.onlyReason := by
      refine holds.resolve_right (fun held => ?_)
      have reasons := facts.reason entry member
      unfold ReasonHolds at reasons
      rcases sameSide_reason sameSide with reason | reason
      · rw [reason] at reasons
        cases side with
        | localSide => rw [reasons.1] at moves; cases moves
        | peerSide => exact held reasons.2.2.1
      · rw [reason] at reasons
        cases side with
        | localSide => exact held reasons.2.1
        | peerSide => rw [reasons.1] at moves; cases moves
    obtain ⟨absent, reason⟩ := alone
    obtain ⟨canonicalPath, canonical, apart, _⟩ := rest
    have candidate : (canonicalOf maps side.opposite hash).isSome = true ∧
        entry.path ∈ (candidatesOf maps side.opposite hash).map ActiveFactManifestFile.path := by
      unfold CollapseMaps.isSameSide at sameSide
      cases side with
      | localSide =>
        rw [reason] at sameSide
        simp only [Participant.opposite, Participant.onlyReason, reduceCtorEq, decide_false, Bool.and_false,
          Bool.false_eq_true, if_false, decide_true, Bool.and_true] at sameSide
        split_ifs at sameSide with present
        have found : ∃ file ∈ maps.peerCandidates hash, file.path = entry.path := by simpa using sameSide
        exact ⟨present, mem_map.mpr found⟩
      | peerSide =>
        rw [reason] at sameSide
        simp only [Participant.opposite, Participant.onlyReason, reduceCtorEq, decide_false, Bool.and_false,
          Bool.false_eq_true, if_false, decide_true, Bool.and_true] at sameSide
        split_ifs at sameSide with present
        have found : ∃ file ∈ maps.localCandidates hash, file.path = entry.path := by simpa using sameSide
        exact ⟨present, mem_map.mpr found⟩
    refine ⟨absent, hash, candidate.2, ?_⟩
    cases receiver : canonicalOf maps side hash with
    | some path => exact Or.inl ⟨path, rfl⟩
    | none =>
      obtain ⟨path, sender⟩ := isSome_iff_exists.mp candidate.1
      refine Or.inr ⟨rfl, path, sender, ?_⟩
      cases side with
      | localSide =>
        rw [show maps.localPath hash = none from receiver, show maps.peerPath hash = some path from sender,
          none_or, some.injEq] at canonical
        exact canonical ▸ apart
      | peerSide =>
        rw [show maps.localPath hash = some path from sender, some_or, some.injEq] at canonical
        exact canonical ▸ apart

omit indexes

private theorem sender_moves (member : entry ∈ entries) (side : Participant)
    (absent : sha256At digest (side.files before) entry.path = none)
    (source : sha256At digest (side.opposite.files before) entry.path ≠ none) (live : ¬ Retracts entry)
    (settled : Settled entry) : transferType entry = side.incoming := by
  have left := facts.ending entry member settled
  simp only [Retracts, not_or] at live
  obtain ⟨sha256, held⟩ := ne_none_iff_exists'.mp source
  cases kind : transferType entry with
  | suppress => exact absurd kind live.1
  | deleteLocal => exact absurd kind live.2.1
  | deletePeer => exact absurd kind live.2.2
  | pull =>
    cases side with
    | localSide => rfl
    | peerSide => exact absurd absent (incoming_source facts member .localSide kind)
  | push =>
    cases side with
    | localSide => exact absurd absent (incoming_source facts member .peerSide kind)
    | peerSide => rfl
  | nothing =>
    have still : entry.action ≠ .suppress := by
      intro suppressed
      simp [transferType, suppressed] at kind
    simp only [outcomeOf, kind] at left
    cases side with
    | localSide =>
      rw [show sha256At digest before.localFiles entry.path = none from absent,
        show sha256At digest before.peerFiles entry.path = some sha256 from held] at left
      cases left with
      | peerLeft _ _ _ leaves => simp [leavesPeerCopy, still] at leaves
    | peerSide =>
      rw [show sha256At digest before.peerFiles entry.path = none from absent,
        show sha256At digest before.localFiles entry.path = some sha256 from held] at left
      cases left with
      | localLeft _ _ _ leaves => simp [leavesLocalCopy, still] at leaves

private theorem removed_action (gone : entry ∈ pass.removed) :
    entry ∈ entries ∧ (entry.action = .pull ∨ entry.action = .push ∨ entry.action = .identical) := by
  obtain ⟨hash, _, ⟨_, member, _, removable, _⟩ | ⟨_, member, sameSide, _⟩⟩ := (facts.tracks.removed entry).mp gone
  · simp only [CollapseMaps.isRemovable, Bool.and_eq_true, Bool.or_eq_true, decide_eq_true_eq] at removable
    exact ⟨member, by tauto⟩
  · have holds := facts.reason entry member
    unfold ReasonHolds at holds
    rcases sameSide_reason sameSide with reason | reason
    · rw [reason] at holds
      exact ⟨member, Or.inr (Or.inl holds.1)⟩
    · rw [reason] at holds
      exact ⟨member, Or.inl holds.1⟩

private theorem removed_receives (gone : entry ∈ pass.removed) (side : Participant)
    (absent : sha256At digest (side.files before) entry.path = none)
    (source : sha256At digest (side.opposite.files before) entry.path ≠ none) (live : ¬ Retracts entry) :
    entry.action = side.receives := by
  obtain ⟨member, action⟩ := removed_action facts gone
  have settled : Settled entry := by
    intro conflict
    rcases action with pull | push | same
    · rw [conflict] at pull; cases pull
    · rw [conflict] at push; cases push
    · rw [conflict] at same; cases same
  have moved := sender_moves facts member side absent source live settled
  rcases action with pull | push | same
  · cases side with
    | localSide => exact pull
    | peerSide => simp [transferType, pull, Participant.incoming] at moved
  · cases side with
    | localSide => simp [transferType, push, Participant.incoming] at moved
    | peerSide => exact push
  · cases side with
    | localSide => simp [transferType, same, Participant.incoming] at moved
    | peerSide => simp [transferType, same, Participant.incoming] at moved

omit facts

def SparesClass (identity : Identities) (digest : Payload → Sha256) (entries : List ReconcilePlanEntry)
    (before : Replicas Payload) (memory : ReconcileMemoryIdentity) : Prop :=
  ∀ side path other, FactAt identity digest (Participant.files side before) path other →
    Linked identity digest before memory other → ∀ entry ∈ entries, entry.path = path → ¬ Retracts entry

private theorem sparesClass_linked {other : ReconcileMemoryIdentity}
    (spared : SparesClass identity digest entries before memory) (near : Linked identity digest before memory other) :
    SparesClass identity digest entries before other :=
  fun side path last fact further => spared side path last fact (near.trans further)

/-- The receiver of the transfers of a path that a collapse dropped ends with a linked fact. -/
private def Received (identity : Identities) (digest : Payload → Sha256) (entries : List ReconcilePlanEntry)
    (pass : CollapsePass) (side : Participant) (before after : Replicas Payload) (path : JsString) : Prop :=
  ∀ entry ∈ pass.removed, entry.path = path → entry.action = side.receives →
    ∀ memory, FactAt identity digest (side.opposite.files before) path memory →
      SparesClass identity digest entries before memory →
      ∃ place last, FactAt identity digest (side.files after) place last ∧ Linked identity digest before memory last

include facts indexes

private theorem received (settled : ∀ entry ∈ entries, entry ∉ pass.removed → Settled entry) (path : JsString)
    (listed : path ∈ entries.map ReconcilePlanEntry.path) : Received identity digest entries pass side before after path := by
  have finite : Set.Finite {path | path ∈ entries.map ReconcilePlanEntry.path} := finite_toSet _
  refine Set.WellFoundedOn.induction (finite.wellFoundedOn (r := (· < ·))) listed ?_
  rintro path - shorter entry gone rfl moves memory fact spared
  obtain ⟨member, _⟩ := removed_action facts gone
  obtain ⟨absent, hash, candidate, rest⟩ := removed_move facts indexes gone side moves
  obtain ⟨own, ownMember, ownPath, ownFact, carried, _⟩ := candidate_fact indexes candidate
  rw [factAt_unique ownFact fact] at carried
  have near : ∀ place other, (∃ source, FactAt identity digest (Participant.files source before) place other) →
      hash ∈ memoryIdentityHashes other → Linked identity digest before memory other := by
    intro place other ⟨source, held⟩ shared
    exact .single ⟨⟨_, _, fact⟩, ⟨source, place, held⟩, hash, carried, shared⟩
  rcases rest with ⟨canonicalPath, receiver⟩ | ⟨receiver, canonicalPath, sender, apart⟩
  · rw [indexes.canonical] at receiver
    obtain ⟨_, inside, _⟩ := resolvePathByHash_eq_some receiver
    obtain ⟨copy, _, _, copyFact, copyCarried, there⟩ := candidate_fact indexes inside
    obtain ⟨last, ends, lastCarried, source, place, origin⟩ := retained facts side copyFact copyCarried there
      (spared side canonicalPath copy.memory copyFact (near canonicalPath _ ⟨side, copyFact⟩ copyCarried))
    exact ⟨canonicalPath, last, ends, near place last ⟨source, origin⟩ lastCarried⟩
  · have least := sender
    rw [indexes.canonical] at least
    obtain ⟨_, inside, below⟩ := resolvePathByHash_eq_some least
    obtain ⟨copy, _, _, copyFact, copyCarried, _⟩ := candidate_fact indexes inside
    have copyNear := near canonicalPath copy.memory ⟨side.opposite, copyFact⟩ copyCarried
    obtain ⟨next, nextMember, rfl⟩ := facts.covered canonicalPath (by
      cases side with
      | localSide => exact Or.inr (factAt_held copyFact)
      | peerSide => exact Or.inl (factAt_held copyFact))
    have lacks := canonical_absent indexes receiver sender (facts.named next nextMember)
    have live := spared side.opposite next.path copy.memory copyFact copyNear next nextMember rfl
    by_cases nextGone : next ∈ pass.removed
    · have order : next.path < entry.path := by
        refine lt_of_le_of_ne ?_ (Ne.symm apart)
        rw [← ownPath]
        exact below own ownMember (ownPath ▸ facts.named entry member)
      obtain ⟨place, last, ends, further⟩ := shorter next.path (mem_map_of_mem nextMember) order next nextGone rfl
        (removed_receives facts nextGone side lacks (factAt_held copyFact) live) copy.memory copyFact
        (sparesClass_linked spared copyNear)
      exact ⟨place, last, ends, copyNear.trans further⟩
    · have moved := sender_moves facts nextMember side lacks (factAt_held copyFact) live
        (settled next nextMember nextGone)
      have ends := kept_side facts nextMember nextGone live side
      rw [if_pos moved] at ends
      exact ⟨next.path, copy.memory, factAt_congr ends copyFact, copyNear⟩

end Facts

private theorem linked_contentHash {last : ReconcileMemoryIdentity}
    (bare : ∀ side path other, FactAt identity digest (Participant.files side replicas) path other →
      other.contentHashAliases = [])
    (linked : Linked identity digest replicas first last) : last.contentHash = first.contentHash := by
  induction linked with
  | refl => rfl
  | tail _ next ih =>
    obtain ⟨⟨side, path, fact⟩, ⟨other, place, held⟩, hash, here, there⟩ := next
    rw [memoryIdentityHashes, bare side path _ fact, mem_singleton] at here
    rw [memoryIdentityHashes, bare other place _ held, mem_singleton] at there
    rw [← there, here, ih]

/-- For each fact whose transfer a collapse drops, its receiver ends with an active fact linked
to it by a chain of shared identity hashes, as long as the plan spares the copies of the chain. -/
theorem collapse_preserves_linked_facts (identity : Identities) (digest : Payload → Sha256)
    (prefersIncoming : JsString → Bool) (call : ConvergeCall) (input : ReconcileNamespaceInput)
    (planned : ReconcilePlan) (before after : Replicas Payload)
    (run : AppliedRun digest prefersIncoming call input planned before after)
    (localOf : ManifestOf identity digest before.localFiles (call.localManifests.lookup (spaceOf input)))
    (peerOf : ManifestOf identity digest before.peerFiles (call.peerManifests.lookup (spaceOf input)))
    (settled : ∀ entry ∈ ofNamespace (spaceOf input) (call.collapse planned).entries, Settled entry)
    (side : Participant) (entry : ReconcilePlanEntry)
    (member : entry ∈ ofNamespace (spaceOf input) planned.entries)
    (dropped : entry ∉ ofNamespace (spaceOf input) (call.collapse planned).entries)
    (moves : entry.action = side.receives) (memory : ReconcileMemoryIdentity)
    (fact : FactAt identity digest (side.opposite.files before) entry.path memory)
    (spared : SparesClass identity digest (ofNamespace (spaceOf input) planned.entries) before memory) :
    ∃ path last, FactAt identity digest (side.files after) path last ∧ Linked identity digest before memory last ∧
      ((∀ side path other, FactAt identity digest (Participant.files side before) path other →
        other.contentHashAliases = []) → last.contentHash = memory.contentHash) := by
  obtain ⟨evidence, facts⟩ := runFacts run
  have indexes : Indexes identity digest (call.maps (spaceOf input)) before := collapseMaps_indexes localOf peerOf _
  have perm := collapse_ofNamespace call.localManifests call.peerManifests call.priorSemanticAgreements planned
    (spaceOf input)
  have kept : ∀ other ∈ ofNamespace (spaceOf input) planned.entries,
      other ∉ (call.pass planned (spaceOf input)).removed →
        other ∈ ofNamespace (spaceOf input) (call.collapse planned).entries := by
    intro other listed stays
    refine perm.mem_iff.mpr (mem_append_left _ (mem_filter.mpr ⟨listed, ?_⟩))
    simpa [ConvergeCall.pass] using stays
  have gone : entry ∈ (call.pass planned (spaceOf input)).removed := by
    by_contra stays
    exact dropped (kept entry member stays)
  obtain ⟨path, last, ends, linked⟩ := received facts indexes side
    (fun other listed stays => settled other (kept other listed stays)) entry.path (mem_map_of_mem member) entry
    gone rfl moves memory fact spared
  exact ⟨path, last, ends, linked, fun bare => linked_contentHash bare linked⟩

/-- A replica's copy of a fact kept under a legacy hash, with its recovered current hash as an alias. -/
def legacyMemory : ReconcileMemoryIdentity where
  category := text "fact"
  contentHash := digestA.val
  contentHashAliases := [digestC.val]
  status := .active

def currentMemory : ReconcileMemoryIdentity where
  category := text "fact"
  contentHash := digestC.val
  status := .active

def sampleIdentity : Identities := fun _ sha256 =>
  if sha256 = digestA then some legacyMemory else if sha256 = digestB then some currentMemory else none

def samplePath (name : String) : JsString := text "facts/" ++ text name

def sampleReplicas : Replicas Sha256 :=
  ⟨OrderedMap.empty.set (samplePath "a.md") ⟨digestA, none⟩, OrderedMap.empty.set (samplePath "b.md") ⟨digestB, none⟩⟩

def sampleInput (replicas : Replicas Sha256) (retracted : List Sha256) : ReconcileNamespaceInput where
  nameSpace := some (text "team")
  localCensus := .items (corpusCensus id replicas.localFiles)
  peerCensus := .items (corpusCensus id replicas.peerFiles)
  base := .absent
  localDeletionMtimeMs := .absent
  peerDeletionMtimeMs := .absent
  tombstonedFileSha256 := .items (retracted.map (fun sha256 => some sha256.val))
  peerTombstonedFileSha256 := .absent

def sampleManifest (corpus : Corpus Sha256) (identity : Identities) : ReconcileManifest :=
  ⟨corpus.entries.map (fun entry => ⟨entry.1, entry.2.content.val, identity entry.1 entry.2.content⟩)⟩

def sampleCall (replicas : Replicas Sha256) (identity : Identities) (retracted : List Sha256) : ConvergeCall where
  tables := plainTables
  processPlatform := text "linux"
  inputs := [sampleInput replicas retracted]
  options := ⟨none, some (text "linux"), none⟩
  localManifests := OrderedMap.empty.set (text "team") (sampleManifest replicas.localFiles identity)
  peerManifests := OrderedMap.empty.set (text "team") (sampleManifest replicas.peerFiles identity)
  priorSemanticAgreements := .empty

def planOf (entries : List ReconcilePlanEntry) : ReconcilePlan :=
  ⟨entries, summarizeReconcilePlan entries, isConverged entries⟩

def droppedPull (sha256 : Sha256) : ReconcilePlanEntry where
  path := samplePath "b.md"
  nameSpace := text "team"
  action := .pull
  reason := .peerOnly
  peerSha256 := some sha256

def samplePlan : ReconcilePlan :=
  planOf [{ path := samplePath "a.md", nameSpace := text "team", action := .push, reason := .localOnly
            localSha256 := some digestA }, droppedPull digestB]

theorem sampleManifest_of (identity : Identities) (corpus : Corpus Sha256) :
    ManifestOf identity id corpus (some (sampleManifest corpus identity)) := by
  constructor
  · intro file member
    obtain ⟨stored, held, rfl⟩ := mem_map.mp member
    have found := (OrderedMap.lookup_eq_some_iff corpus stored.1 stored.2).mpr held
    exact ⟨stored.2.content, by rw [sha256At, found]; rfl, stored.2.content.property.2, Or.inr rfl⟩
  · intro path held
    obtain ⟨sha256, found⟩ := ne_none_iff_exists'.mp held
    obtain ⟨stored, held, rfl⟩ := map_eq_some_iff.mp found
    exact ⟨_, mem_map_of_mem ((OrderedMap.lookup_eq_some_iff corpus _ _).mp held), rfl⟩

theorem sampleRun : AppliedRun id (fun _ => false) (sampleCall sampleReplicas sampleIdentity [])
    (sampleInput sampleReplicas []) samplePlan sampleReplicas sampleReplicas where
  member := mem_singleton_self _
  localListed := isCensusOf_corpus id sampleReplicas.localFiles
  peerListed := isCensusOf_corpus id sampleReplicas.peerFiles
  plan := by decide +kernel
  applied := by decide +kernel

/-- A shared path whose local revision is retracted, beside a peer copy of the same fact. -/
def retractedReplicas : Replicas Sha256 :=
  ⟨OrderedMap.empty.set (samplePath "a.md") ⟨digestA, none⟩,
    (OrderedMap.empty.set (samplePath "a.md") ⟨digestC, none⟩).set (samplePath "b.md") ⟨digestB, none⟩⟩

def retractedPlan : ReconcilePlan :=
  planOf [{ path := samplePath "a.md", nameSpace := text "team", action := .suppress, reason := .tombstoned
            localSha256 := some digestA, peerSha256 := some digestC, suppressSide := some .localCopy },
    droppedPull digestB]

def retractedAfter : Replicas Sha256 := { retractedReplicas with localFiles := OrderedMap.empty }

theorem retractedRun : AppliedRun id (fun _ => false)
    (sampleCall retractedReplicas (fun _ _ => some currentMemory) [digestA])
    (sampleInput retractedReplicas [digestA]) retractedPlan retractedReplicas retractedAfter where
  member := mem_singleton_self _
  localListed := isCensusOf_corpus id retractedReplicas.localFiles
  peerListed := isCensusOf_corpus id retractedReplicas.peerFiles
  plan := by decide +kernel
  applied := by decide +kernel

private theorem factAt_single {other : JsString} {file : StoredFile Sha256} {identity : Identities}
    (fact : FactAt identity id (OrderedMap.empty.set path file) other memory) : identity path file.content = some memory := by
  obtain ⟨sha256, held, parsed, _⟩ := fact
  rw [sha256At, OrderedMap.lookup_set] at held
  split_ifs at held with same
  · cases held
    exact same ▸ parsed
  · simp at held

/-- The claim at two inputs: a pull dropped for an alias leaves its receiver without the fact's primary
hash, and one dropped beside a suppression leaves it without the fact. -/
theorem collapse_loses_primary_hash :
    (AppliedRun id (fun _ => false) (sampleCall sampleReplicas sampleIdentity []) (sampleInput sampleReplicas [])
        samplePlan sampleReplicas sampleReplicas ∧
      droppedPull digestB ∈ samplePlan.entries ∧
      droppedPull digestB ∉ ((sampleCall sampleReplicas sampleIdentity []).collapse samplePlan).entries ∧
      FactAt sampleIdentity id sampleReplicas.peerFiles (samplePath "b.md") currentMemory ∧
      ¬ ∃ path last, FactAt sampleIdentity id sampleReplicas.localFiles path last ∧
        last.contentHash = currentMemory.contentHash) ∧
    (AppliedRun id (fun _ => false) (sampleCall retractedReplicas (fun _ _ => some currentMemory) [digestA])
        (sampleInput retractedReplicas [digestA]) retractedPlan retractedReplicas retractedAfter ∧
      droppedPull digestB ∈ retractedPlan.entries ∧
      droppedPull digestB ∉
        ((sampleCall retractedReplicas (fun _ _ => some currentMemory) [digestA]).collapse retractedPlan).entries ∧
      FactAt (fun _ _ => some currentMemory) id retractedReplicas.peerFiles (samplePath "b.md") currentMemory ∧
      ¬ ∃ path last, FactAt (fun _ _ => some currentMemory) id retractedAfter.localFiles path last) := by
  refine ⟨⟨sampleRun, by decide +kernel, by decide +kernel,
    ⟨digestB, by decide +kernel, by decide +kernel, by decide, by decide⟩, ?_⟩, retractedRun, by decide +kernel,
    by decide +kernel, ⟨digestB, by decide +kernel, by decide +kernel, by decide, by decide⟩, ?_⟩
  · rintro ⟨path, last, fact, same⟩
    have parsed := factAt_single fact
    rw [sampleIdentity, if_pos rfl, some.injEq] at parsed
    rw [← parsed] at same
    exact absurd same (by decide)
  · rintro ⟨path, last, sha256, held, _⟩
    simp [retractedAfter, sha256At] at held

/-- The preservation result at the sample: the receiver keeps the legacy copy the alias links. -/
theorem collapse_preserves_linked_facts_sample :
    ∃ path last, FactAt sampleIdentity id sampleReplicas.localFiles path last ∧
      Linked sampleIdentity id sampleReplicas currentMemory last := by
  have live : ∀ entry ∈ ofNamespace (text "team") samplePlan.entries, ¬ Retracts entry := by decide +kernel
  obtain ⟨path, last, fact, linked, _⟩ := collapse_preserves_linked_facts sampleIdentity id (fun _ => false)
    (sampleCall sampleReplicas sampleIdentity []) (sampleInput sampleReplicas []) samplePlan sampleReplicas
    sampleReplicas sampleRun (sampleManifest_of sampleIdentity sampleReplicas.localFiles)
    (sampleManifest_of sampleIdentity sampleReplicas.peerFiles) (by decide +kernel) .localSide (droppedPull digestB)
    (by decide +kernel) (by decide +kernel) rfl currentMemory
    ⟨digestB, by decide +kernel, by decide +kernel, by decide, by decide⟩
    (fun _ _ _ _ _ entry member _ => live entry member)
  exact ⟨path, last, fact, linked⟩

end Remnic.Converge.FactPreservation
