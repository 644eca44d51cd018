import Remnic.Converge.CollapsedRun

/-!
Whether the base a collapsed run stores covers every path the two sides share
at its end, and what the next run then does with such a path.
-/

namespace Remnic.Converge.CursorCoverage
open Text.CodeUnits Library Library.GuardedFold Option Bool
open Reconcile.Census Reconcile.Plan Reconcile.PlanRun Reconcile.PlanResult
open Reconcile.Cursor Reconcile.Manifest Reconcile.Collapse
open Converge.Apply Converge.Fixpoint Converge.CollapsedRun

variable {Payload : Type}

/-- Every path both sides hold with one digest is in the base with that digest. -/
def Covers (digest : Payload → Sha256) (base : List ConvergeCursorFileState) (after : Replicas Payload) : Prop :=
  ∀ path sha256, sha256At digest after.localFiles path = some sha256 →
    sha256At digest after.peerFiles path = some sha256 → ⟨path, sha256⟩ ∈ base

def OneSided (later : Replicas Payload) (path : JsString) : Prop :=
  later.localFiles.lookup path = none ∧ later.peerFiles.lookup path ≠ none ∨
    later.localFiles.lookup path ≠ none ∧ later.peerFiles.lookup path = none

/-- No later plan over the base transfers a shared path that one side removed since. -/
def NeverResurrects (digest : Payload → Sha256) (base : List ConvergeCursorFileState) (after : Replicas Payload) :
    Prop :=
  ∀ path sha256, sha256At digest after.localFiles path = some sha256 →
    sha256At digest after.peerFiles path = some sha256 →
    ∀ (later : Replicas Payload) (tables : UnicodeTables) (processPlatform : JsString)
      (input : ReconcileNamespaceInput) (options : ReconcileOptions) (entries : List ReconcilePlanEntry),
      OneSided later path → IsCensusOf digest later.localFiles input.localCensus →
      IsCensusOf digest later.peerFiles input.peerCensus →
      input.base = .items (base.map ConvergeCursorFileState.raw) →
      planNamespaceReconciliation tables processPlatform input options = .ok entries →
      ∀ entry ∈ entries, entry.path = path → entry.action ≠ .push ∧ entry.action ≠ .pull

/-- A pair of duplicates is collapsed over an entry that calls one of its paths identical. -/
def DropsShared (maps : CollapseMaps) (entries : List ReconcilePlanEntry) : Prop :=
  ∃ hash ∈ maps.hashes, OpensPair maps maps.hashes hash ∧ ActsOnPair maps entries hash ∧
    ∃ entry ∈ entries, entry.path ∈ maps.duplicatePaths hash ∧ entry.action = .identical

instance (maps : CollapseMaps) (entries : List ReconcilePlanEntry) : Decidable (DropsShared maps entries) :=
  inferInstanceAs (Decidable (∃ _ ∈ _, _))

section Facts

variable {digest : Payload → Sha256} {evidence : PlanEvidence} {maps : CollapseMaps} {nameSpace : JsString}
  {entries : List ReconcilePlanEntry} {pass : CollapsePass} {before after : Replicas Payload}
  (facts : RunFacts digest evidence maps nameSpace entries pass before after)

include facts

variable {sha256 : Sha256} {entry : ReconcilePlanEntry}

private theorem removed_member (gone : entry ∈ pass.removed) : entry ∈ entries := by
  obtain ⟨_, _, ⟨_, removes⟩ | ⟨_, removes⟩⟩ := (facts.tracks.removed entry).mp gone
  · exact removes.1
  · exact removes.1

private theorem removed_identical_iff :
    (∃ entry ∈ pass.removed, entry.action = .identical) ↔ DropsShared maps entries := by
  constructor
  · rintro ⟨entry, gone, idle⟩
    obtain ⟨hash, listed, ⟨opens, member, acts, removable, _⟩ | ⟨_, member, sameSide, _⟩⟩ :=
      (facts.tracks.removed entry).mp gone
    · rw [CollapseMaps.isRemovable, and_eq_true, List.contains_iff_mem] at removable
      exact ⟨hash, listed, opens, acts, entry, member, removable.1, idle⟩
    · have holds := facts.reason entry member
      unfold ReasonHolds at holds
      rcases sameSide_reason sameSide with reason | reason
      · rw [reason] at holds
        rw [holds.1] at idle
        cases idle
      · rw [reason] at holds
        rw [holds.1] at idle
        cases idle
  · rintro ⟨hash, listed, opens, acts, entry, member, duplicate, idle⟩
    refine ⟨entry, (facts.tracks.removed entry).mpr ⟨hash, listed, Or.inl ⟨opens, member, acts, ?_, ?_⟩⟩, idle⟩
    · simp [CollapseMaps.isRemovable, duplicate, idle]
    · simp [CollapseMaps.isAuthoritative, idle]

private theorem removed_shared (gone : entry ∈ pass.removed) (here : sha256At digest before.localFiles entry.path = some sha256)
    (there : sha256At digest before.peerFiles entry.path = some sha256) : entry.action = .identical := by
  have holds := facts.reason entry (removed_member facts gone)
  rw [here, there] at holds
  unfold ReasonHolds at holds
  cases reason : entry.reason with
  | sameContent =>
    rw [reason] at holds
    exact holds.1
  | tombstoned =>
    rw [reason] at holds
    obtain ⟨hash, _, ⟨_, _, _, removable, _⟩ | ⟨_, _, sameSide, _⟩⟩ := (facts.tracks.removed entry).mp gone
    · simp [CollapseMaps.isRemovable, (show entry.action = .suppress from holds)] at removable
    · rcases sameSide_reason sameSide with other | other
      · rw [reason] at other
        cases other
      · rw [reason] at other
        cases other
  | _ => simp [reason] at holds

private theorem kept_digest (member : entry ∈ entries) (shared : outcomeOf entry (sha256At digest before.localFiles entry.path)
      (sha256At digest before.peerFiles entry.path) = (some sha256, some sha256)) : digestAfterReconcile entry = some sha256 := by
  by_cases settled : Settled entry
  · have left := facts.ending entry member settled
    rw [shared] at left
    cases left with
    | agreed _ _ base => exact base
  · rw [Settled, Classical.not_imp, not_eq_false] at settled
    obtain ⟨conflict, open_⟩ := settled
    have idle : transferType entry = .nothing := by
      rw [transferType, conflict]
      simp only [ReconcilePlanEntry.needsOperator, or_eq_true, decide_eq_true_eq] at open_
      rcases open_ with unresolved | linked
      · rw [unresolved]
      · rw [linked]
    have holds := facts.reason entry member
    simp only [outcomeOf, idle, Prod.mk.injEq] at shared
    rw [shared.1, shared.2] at holds
    unfold ReasonHolds at holds
    cases reason : entry.reason with
    | sameContent =>
      rw [reason] at holds
      rw [holds.1] at conflict
      cases conflict
    | tombstoned =>
      rw [reason] at holds
      rw [show entry.action = .suppress from holds] at conflict
      cases conflict
    | _ => simp [reason] at holds

end Facts

variable {base : List ConvergeCursorFileState}

private theorem baseSha256_of_member {tables : UnicodeTables} {processPlatform : JsString} {input : ReconcileNamespaceInput}
    {options : ReconcileOptions} {evidence : PlanEvidence} {locals peers : List CensusRecord}
    (reading : Reading tables processPlatform input options evidence locals peers)
    (given : input.base = .items (base.map ConvergeCursorFileState.raw)) {file : ConvergeCursorFileState} (member : file ∈ base) :
    evidence.baseSha256 file.path = some file.sha256 := by
  have parsed := reading.base
  rw [given] at parsed
  simp only [parseBase, assertIterable, bind_ok_iff, pure_ok_iff] at parsed
  obtain ⟨_, same, index, indexed, known⟩ := parsed
  cases same
  obtain ⟨records, accepted, tracked⟩ := indexDigestsByPath_reads _ _ _ _ _ indexed
  obtain ⟨record, listed, accepts⟩ := forall₂_mem_left accepted (List.mem_map_of_mem member)
  obtain ⟨_, held, _, lower⟩ := accepts.digest
  cases held
  have samePath : file.path = record.path := some.inj accepts.path
  have sameSha : record.sha256 = file.sha256 := Subtype.ext (lower.symm.trans file.sha256.property.2)
  rw [PlanEvidence.baseSha256, known, bind_some]
  exact (tracked _ _).mpr ⟨record, listed, samePath.symm, sameSha⟩

private theorem covers_neverResurrects {digest : Payload → Sha256} {after : Replicas Payload}
    (covers : Covers digest base after) : NeverResurrects digest base after := by
  intro path sha256 here there later tables processPlatform input options entries oneSided localListed peerListed given
    planned entry member samePath
  obtain ⟨evidence, locals, peers, reading, plan⟩ := planNamespaceReconciliation_ok_iff.mp planned
  obtain ⟨files, localItems, readLocals⟩ := reading.localRecords
  obtain ⟨peerFiles, peerItems, readPeers⟩ := reading.peerRecords
  have holds := reasonHolds_of_decided (decided_at (isPlan_entry plan member).1)
  rw [recordAt_census localListed localItems readLocals, recordAt_census peerListed peerItems readPeers,
    lookup_sha256, lookup_sha256, samePath, baseSha256_of_member reading given (covers path sha256 here there)] at holds
  have absent : sha256At digest later.localFiles path = none ∨ sha256At digest later.peerFiles path = none := by
    rcases oneSided with ⟨noLocal, _⟩ | ⟨_, noPeer⟩
    · exact Or.inl (by rw [sha256At, noLocal, map_none])
    · exact Or.inr (by rw [sha256At, noPeer, map_none])
  unfold ReasonHolds at holds
  cases reason : entry.reason with
  | peerOnly => simp [reason] at holds
  | localOnly => simp [reason] at holds
  | semanticDuplicate => simp [reason] at holds
  | peerChanged =>
    simp only [reason] at holds
    exact absurd absent (not_or.mpr ⟨holds.2.1, holds.2.2.1⟩)
  | localChanged =>
    simp only [reason] at holds
    exact absurd absent (not_or.mpr ⟨holds.2.1, holds.2.2.1⟩)
  | tombstoned =>
    simp only [reason] at holds
    simp [holds]
  | _ =>
    simp only [reason] at holds
    simp [holds.1]

def storedBase (call : ConvergeCall) (planned : ReconcilePlan) (nameSpace : JsString)
    (prior : List ReconcileSemanticAgreement) : List ConvergeCursorFileState :=
  (deriveConvergeCursorBase call.tables (call.collapse planned).entries nameSpace prior).baseFiles

private theorem mem_storedBase {digest : Payload → Sha256} {call : ConvergeCall} {planned : ReconcilePlan}
    {evidence : PlanEvidence} {nameSpace : JsString} {before after : Replicas Payload}
    (facts : RunFacts digest evidence (call.maps nameSpace) nameSpace (ofNamespace nameSpace planned.entries)
      (call.pass planned nameSpace) before after)
    (prior : List ReconcileSemanticAgreement) (file : ConvergeCursorFileState) :
    file ∈ storedBase call planned nameSpace prior ↔
      ∃ entry ∈ ofNamespace nameSpace planned.entries, entry ∉ (call.pass planned nameSpace).removed ∧
        digestAfterReconcile entry = some file.sha256 ∧ entry.path = file.path := by
  have perm := collapse_ofNamespace call.localManifests call.peerManifests call.priorSemanticAgreements planned nameSpace
  have members : ∀ entry, (entry ∈ (call.collapse planned).entries ∧ entry.nameSpace = nameSpace) ↔
      (entry ∈ ofNamespace nameSpace planned.entries ∧ entry ∉ (call.pass planned nameSpace).removed) ∨
        entry ∈ (call.pass planned nameSpace).replacements := by
    intro entry
    rw [← mem_ofNamespace, ConvergeCall.collapse, perm.mem_iff, List.mem_append, List.mem_filter]
    simp only [not_eq_true', ← not_eq_true, List.contains_iff_mem, ConvergeCall.pass]
  rw [storedBase, mem_baseFiles]
  constructor
  · rintro ⟨entry, listed, space, plain, digested, samePath⟩
    rcases (members entry).mp ⟨listed, space⟩ with ⟨member, kept⟩ | replaced
    · exact ⟨entry, member, kept, digested, samePath⟩
    · have semantic := (facts.tracks.replaced entry replaced).2.2
      rw [plain] at semantic
      cases semantic
  · rintro ⟨entry, member, kept, digested, samePath⟩
    obtain ⟨listed, space⟩ := (members entry).mpr (Or.inl ⟨member, kept⟩)
    exact ⟨entry, listed, space, (facts.place entry member).2, digested, samePath⟩

/-- The stored base covers the shared paths, and no later plan resurrects one of them,
exactly when the collapse drops no identical entry of the namespace. -/
theorem storedBase_covers_iff (digest : Payload → Sha256) (prefersIncoming : JsString → Bool) (call : ConvergeCall)
    (input : ReconcileNamespaceInput) (planned : ReconcilePlan) (before after : Replicas Payload)
    (prior : List ReconcileSemanticAgreement)
    (run : AppliedRun digest prefersIncoming call input planned before after) :
    Covers digest (storedBase call planned (spaceOf input) prior) after ∧
        NeverResurrects digest (storedBase call planned (spaceOf input) prior) after ↔
      ¬ DropsShared (call.maps (spaceOf input)) (ofNamespace (spaceOf input) planned.entries) := by
  obtain ⟨evidence, facts⟩ := runFacts run
  rw [← removed_identical_iff facts]
  constructor
  · rintro ⟨covers, _⟩ ⟨entry, gone, idle⟩
    have member := removed_member facts gone
    obtain ⟨sha256, here, there⟩ : ∃ sha256, sha256At digest before.localFiles entry.path = some sha256 ∧
        sha256At digest before.peerFiles entry.path = some sha256 := by
      have holds := facts.reason entry member
      unfold ReasonHolds at holds
      cases reason : entry.reason with
      | sameContent =>
        simp only [reason] at holds
        obtain ⟨sha256, found⟩ := ne_none_iff_exists'.mp holds.2.1
        exact ⟨sha256, found, holds.2.2 ▸ found⟩
      | tombstoned => simp [reason, idle] at holds
      | _ => simp [reason, idle] at holds
    obtain ⟨sameLocal, samePeer⟩ := facts.still entry.path
      (fun other listed samePath => facts.distinct other listed entry member samePath ▸ gone)
    have covered := covers entry.path sha256 (sameLocal.trans here) (samePeer.trans there)
    obtain ⟨other, listed, kept, _, samePath⟩ := (mem_storedBase facts prior _).mp covered
    exact kept (facts.distinct other listed entry member samePath ▸ gone)
  · intro keeps
    have covers : Covers digest (storedBase call planned (spaceOf input) prior) after := by
      intro path sha256 here there
      rw [mem_storedBase facts]
      by_cases known : ∃ entry ∈ ofNamespace (spaceOf input) planned.entries, entry.path = path ∧
          entry ∉ (call.pass planned (spaceOf input)).removed
      · obtain ⟨entry, member, rfl, kept⟩ := known
        have outcome := facts.kept entry member kept
        rw [here, there] at outcome
        exact ⟨entry, member, kept, kept_digest facts member outcome.symm, rfl⟩
      · push Not at known
        obtain ⟨sameLocal, samePeer⟩ := facts.still path known
        rw [here] at sameLocal
        rw [there] at samePeer
        obtain ⟨entry, member, rfl⟩ := facts.covered path (Or.inl (sameLocal ▸ some_ne_none _))
        have gone := known entry member rfl
        exact absurd ⟨entry, gone, removed_shared facts gone sameLocal.symm samePeer.symm⟩ keeps
    exact ⟨covers, covers_neverResurrects covers⟩

def sampleFact (path : JsString) (sha256 : Sha256) : ReconcileManifestFile :=
  ⟨path, sha256.val, some { category := text "fact", contentHash := digestC.val, status := .active }⟩

/-- One fact under a shared path, which the peer also stores under an earlier path of its own. -/
def sampleReplicas : Replicas Sha256 :=
  ⟨OrderedMap.empty.set (text "facts/c.md") ⟨digestA, none⟩,
    (OrderedMap.empty.set (text "facts/b.md") ⟨digestB, none⟩).set (text "facts/c.md") ⟨digestA, none⟩⟩

def sampleInput (replicas : Replicas Sha256) (base : RawCollection ReconcileFileState) : ReconcileNamespaceInput where
  nameSpace := some (text "team")
  localCensus := .items (corpusCensus id replicas.localFiles)
  peerCensus := .items (corpusCensus id replicas.peerFiles)
  base
  localDeletionMtimeMs := .absent
  peerDeletionMtimeMs := .absent
  tombstonedFileSha256 := .absent
  peerTombstonedFileSha256 := .absent

def sampleOptions : ReconcileOptions := ⟨none, some (text "linux"), none⟩

def sampleCall : ConvergeCall where
  tables := plainTables
  processPlatform := text "linux"
  inputs := [sampleInput sampleReplicas .absent]
  options := sampleOptions
  localManifests := OrderedMap.empty.set (text "team") ⟨[sampleFact (text "facts/c.md") digestA]⟩
  peerManifests := OrderedMap.empty.set (text "team")
    ⟨[sampleFact (text "facts/b.md") digestB, sampleFact (text "facts/c.md") digestA]⟩
  priorSemanticAgreements := .empty

def samplePlan : ReconcilePlan :=
  let entries : List ReconcilePlanEntry :=
    [{ path := text "facts/b.md", nameSpace := text "team", action := .pull, reason := .peerOnly
       peerSha256 := some digestB },
     { path := text "facts/c.md", nameSpace := text "team", action := .identical, reason := .sameContent
       localSha256 := some digestA, peerSha256 := some digestA }]
  ⟨entries, summarizeReconcilePlan entries, isConverged entries⟩

theorem sampleRun : AppliedRun id (fun _ => false) sampleCall (sampleInput sampleReplicas .absent) samplePlan
    sampleReplicas sampleReplicas where
  member := List.mem_singleton_self _
  localListed := isCensusOf_corpus id sampleReplicas.localFiles
  peerListed := isCensusOf_corpus id sampleReplicas.peerFiles
  plan := by decide +kernel
  applied := by decide +kernel

/-- The replicas once the local side removed the shared path. -/
def sampleLater : Replicas Sha256 := { sampleReplicas with localFiles := OrderedMap.empty }

/-- The claim at the sample: both sides share the path, the base misses it, and after
its local removal the next plan pulls the peer's copy back. -/
theorem storedBase_misses_shared_duplicate :
    AppliedRun id (fun _ => false) sampleCall (sampleInput sampleReplicas .absent) samplePlan sampleReplicas
        sampleReplicas ∧
      sha256At id sampleReplicas.localFiles (text "facts/c.md") = some digestA ∧
      sha256At id sampleReplicas.peerFiles (text "facts/c.md") = some digestA ∧
      storedBase sampleCall samplePlan (text "team") [] = [] ∧
      ∃ entries, planNamespaceReconciliation plainTables (text "linux") (sampleInput sampleLater (.items []))
          sampleOptions = .ok entries ∧
        ∃ entry ∈ entries, entry.path = text "facts/c.md" ∧ entry.action = .pull := by
  refine ⟨sampleRun, by decide +kernel, by decide +kernel, by decide +kernel,
    [{ path := text "facts/b.md", nameSpace := text "team", action := .pull, reason := .peerOnly
       peerSha256 := some digestB },
     { path := text "facts/c.md", nameSpace := text "team", action := .pull, reason := .peerOnly
       peerSha256 := some digestA }], ?_⟩
  decide +kernel

/-- The coverage result at the sample, where the pair drops the shared path. -/
theorem storedBase_covers_iff_sample :
    ¬ (Covers id (storedBase sampleCall samplePlan (text "team") []) sampleReplicas ∧
      NeverResurrects id (storedBase sampleCall samplePlan (text "team") []) sampleReplicas) := by
  have exactly := storedBase_covers_iff id (fun _ => false) sampleCall (sampleInput sampleReplicas .absent) samplePlan
    sampleReplicas sampleReplicas [] sampleRun
  have dropped : DropsShared (sampleCall.maps (text "team")) (ofNamespace (text "team") samplePlan.entries) := by
    decide +kernel
  exact fun kept => exactly.mp kept dropped

end Remnic.Converge.CursorCoverage
