import Remnic.Reconcile.Collapse
import Remnic.Converge.Fixpoint

/-!
A converge run whose plan was collapsed before it was carried out, seen from
one of its namespaces.
-/

namespace Remnic.Converge.CollapsedRun
open Text.CodeUnits Library Library.GuardedFold List
open Reconcile.Census Reconcile.Plan Reconcile.PlanResult Reconcile.Manifest
open Reconcile.Collapse Converge.Apply Converge.Fixpoint

structure ConvergeCall where
  tables : UnicodeTables
  processPlatform : JsString
  inputs : List ReconcileNamespaceInput
  options : ReconcileOptions
  localManifests : OrderedMap JsString ReconcileManifest
  peerManifests : OrderedMap JsString ReconcileManifest
  priorSemanticAgreements : OrderedMap JsString (List ReconcileSemanticAgreement)

namespace ConvergeCall

def plan (call : ConvergeCall) : Checked ReconcilePlan :=
  planReconciliation call.tables call.processPlatform call.inputs call.options

def collapse (call : ConvergeCall) (planned : ReconcilePlan) : ReconcilePlan :=
  collapseActiveFactDuplicates call.localManifests call.peerManifests call.priorSemanticAgreements planned

def maps (call : ConvergeCall) (nameSpace : JsString) : CollapseMaps :=
  namespaceMaps call.localManifests call.peerManifests call.priorSemanticAgreements nameSpace

def pass (call : ConvergeCall) (planned : ReconcilePlan) (nameSpace : JsString) : CollapsePass :=
  namespacePass call.localManifests call.peerManifests call.priorSemanticAgreements planned nameSpace

end ConvergeCall

deriving instance DecidableEq for ReconcilePlan

def spaceOf (input : ReconcileNamespaceInput) : JsString := input.nameSpace.getD []

variable {Payload : Type}

/-- One namespace of a run: planned, collapsed, and applied without a failure. -/
structure AppliedRun (digest : Payload → Sha256) (prefersIncoming : JsString → Bool) (call : ConvergeCall)
    (input : ReconcileNamespaceInput) (planned : ReconcilePlan) (before after : Replicas Payload) : Prop where
  member : input ∈ call.inputs
  localListed : IsCensusOf digest before.localFiles input.localCensus
  peerListed : IsCensusOf digest before.peerFiles input.peerCensus
  plan : call.plan = .ok planned
  applied : executeTransfers digest prefersIncoming (ofNamespace (spaceOf input) (call.collapse planned).entries)
    before = some after

/-- What is known of one namespace of a collapsed run, path by path. -/
structure RunFacts (digest : Payload → Sha256) (evidence : PlanEvidence) (maps : CollapseMaps) (nameSpace : JsString)
    (entries : List ReconcilePlanEntry) (pass : CollapsePass) (before after : Replicas Payload) : Prop where
  place : ∀ entry ∈ entries, entry.nameSpace = nameSpace ∧ entry.semanticAgreement = none
  named : ∀ entry ∈ entries, entry.path ≠ []
  distinct : ∀ entry ∈ entries, ∀ other ∈ entries, entry.path = other.path → entry = other
  covered : ∀ path, sha256At digest before.localFiles path ≠ none ∨ sha256At digest before.peerFiles path ≠ none →
    ∃ entry ∈ entries, entry.path = path
  reason : ∀ entry ∈ entries, ReasonHolds entry (sha256At digest before.localFiles entry.path)
    (sha256At digest before.peerFiles entry.path) (evidence.baseSha256 entry.path)
  digests : ∀ entry ∈ entries, entry.localSha256 = sha256At digest before.localFiles entry.path ∧
    entry.peerSha256 = sha256At digest before.peerFiles entry.path
  ending : ∀ entry ∈ entries, Settled entry → Aftermath evidence entry
    (outcomeOf entry (sha256At digest before.localFiles entry.path) (sha256At digest before.peerFiles entry.path))
  tracks : PassTracks maps entries nameSpace maps.hashes pass
  kept : ∀ entry ∈ entries, entry ∉ pass.removed →
    (sha256At digest after.localFiles entry.path, sha256At digest after.peerFiles entry.path) =
      outcomeOf entry (sha256At digest before.localFiles entry.path) (sha256At digest before.peerFiles entry.path)
  still : ∀ path, (∀ entry ∈ entries, entry.path = path → entry ∈ pass.removed) →
    sha256At digest after.localFiles path = sha256At digest before.localFiles path ∧
      sha256At digest after.peerFiles path = sha256At digest before.peerFiles path

variable {digest : Payload → Sha256} {prefersIncoming : JsString → Bool}

private theorem outcomeOf_identical {entry : ReconcilePlanEntry} (idle : entry.action = .identical)
    (localSha256 peerSha256 : Option Sha256) : outcomeOf entry localSha256 peerSha256 = (localSha256, peerSha256) := by
  rw [outcomeOf, transferType, idle]

/-- Carrying out what a collapse left of a plan: the kept entries reach their outcome, all else stays. -/
private theorem carried_collapsed {entries list removed replacements : List ReconcilePlanEntry}
    {before after : Replicas Payload} (plain : ∀ entry ∈ entries, entry.semanticAgreement = none)
    (distinct : (entries.map ReconcilePlanEntry.path).Nodup)
    (idle : ∀ entry ∈ replacements, entry.action = .identical)
    (perm : list.Perm (entries.filter (fun entry => !removed.contains entry) ++ replacements))
    (applied : executeTransfers digest prefersIncoming list before = some after) :
    (∀ entry ∈ entries, entry ∉ removed →
      (sha256At digest after.localFiles entry.path, sha256At digest after.peerFiles entry.path) =
        outcomeOf entry (sha256At digest before.localFiles entry.path) (sha256At digest before.peerFiles entry.path)) ∧
      ∀ path, (∀ entry ∈ entries, entry.path = path → entry ∈ removed) →
        sha256At digest after.localFiles path = sha256At digest before.localFiles path ∧
          sha256At digest after.peerFiles path = sha256At digest before.peerFiles path := by
  let moving := list.filter (fun entry => entry.action ≠ .identical)
  have members : ∀ entry, entry ∈ moving ↔ entry ∈ entries ∧ entry ∉ removed ∧ entry.action ≠ .identical := by
    intro entry
    rw [mem_filter, perm.mem_iff, mem_append, mem_filter, decide_eq_true_eq]
    simp only [Bool.not_eq_true', ← Bool.not_eq_true, contains_iff_mem]
    constructor
    · rintro ⟨⟨member, kept⟩ | replaced, moves⟩
      · exact ⟨member, kept, moves⟩
      · exact absurd (idle entry replaced) moves
    · rintro ⟨member, kept, moves⟩
      exact ⟨Or.inl ⟨member, kept⟩, moves⟩
  have movingPerm : moving.Perm ((entries.filter (fun entry => !removed.contains entry)).filter
      (fun entry => entry.action ≠ .identical)) := by
    have filtered := perm.filter (fun entry => decide (entry.action ≠ .identical))
    have none : replacements.filter (fun entry => decide (entry.action ≠ .identical)) = [] :=
      filter_eq_nil_iff.mpr (fun entry member => by simp [idle entry member])
    rw [filter_append, none, append_nil] at filtered
    exact filtered
  have movingDistinct : (moving.map ReconcilePlanEntry.path).Nodup := by
    rw [(movingPerm.map _).nodup_iff]
    exact ((filter_sublist.trans filter_sublist).map _).nodup distinct
  have same : executeTransfers digest prefersIncoming moving before = some after := by
    rw [← applied, executeTransfers, executeTransfers, filter_filter]
    simp only [Bool.and_self]
  have carried := executeTransfers_carried moving before after
    (fun entry member => plain entry ((members entry).mp member).1) movingDistinct same
  have unmoved : ∀ path, (∀ entry ∈ moving, entry.path ≠ path) →
      sha256At digest after.localFiles path = sha256At digest before.localFiles path ∧
        sha256At digest after.peerFiles path = sha256At digest before.peerFiles path := by
    intro path absent
    obtain ⟨sameLocal, samePeer⟩ := carried.frame path absent
    exact ⟨sha256At_congr sameLocal, sha256At_congr samePeer⟩
  constructor
  · intro entry member kept
    by_cases moves : entry.action = .identical
    · have absent : ∀ other ∈ moving, other.path ≠ entry.path := by
        intro other listed samePath
        obtain ⟨otherMember, _, otherMoves⟩ := (members other).mp listed
        rw [inj_on_of_nodup_map distinct otherMember member samePath] at otherMoves
        exact otherMoves moves
      obtain ⟨sameLocal, samePeer⟩ := unmoved entry.path absent
      rw [sameLocal, samePeer, outcomeOf_identical moves]
    · exact carried.outcome entry ((members entry).mpr ⟨member, kept, moves⟩)
  · intro path gone
    refine unmoved path (fun entry listed samePath => ?_)
    obtain ⟨member, kept, _⟩ := (members entry).mp listed
    exact kept (gone entry member samePath)

/-- A collapsed run read off: its evidence, and what is known of each path. -/
theorem runFacts {call : ConvergeCall} {input : ReconcileNamespaceInput} {planned : ReconcilePlan}
    {before after : Replicas Payload} (run : AppliedRun digest prefersIncoming call input planned before after) :
    ∃ evidence, RunFacts digest evidence (call.maps (spaceOf input)) (spaceOf input)
      (ofNamespace (spaceOf input) planned.entries) (call.pass planned (spaceOf input)) before after := by
  obtain ⟨nameSpace, named, own⟩ := planReconciliation_namespace run.plan run.member
  have space : spaceOf input = nameSpace := by rw [spaceOf, assertNamespace_ok named, Option.getD_some]
  rw [← space] at own
  obtain ⟨evidence, locals, peers, reading, plan⟩ := planNamespaceReconciliation_ok_iff.mp own
  obtain ⟨files, localItems, readLocals⟩ := reading.localRecords
  obtain ⟨peerFiles, peerItems, readPeers⟩ := reading.peerRecords
  have localCensus := recordAt_census run.localListed localItems readLocals
  have peerCensus := recordAt_census run.peerListed peerItems readPeers
  have sameSpace : evidence.nameSpace = spaceOf input :=
    (Except.ok.inj (named.symm.trans reading.nameSpace)).symm.trans space.symm
  have tracks := collapsePass_tracks (collapseMaps_indexed (call.localManifests.lookup (spaceOf input))
    (call.peerManifests.lookup (spaceOf input)) ((call.priorSemanticAgreements.lookup (spaceOf input)).getD []))
    (ofNamespace (spaceOf input) planned.entries) (spaceOf input)
  obtain ⟨kept, still⟩ := carried_collapsed (fun entry member => (isPlan_entry plan member).2.2) (isPlan_distinct plan)
    (fun entry member => (tracks.replaced entry member).2.1)
    (collapse_ofNamespace call.localManifests call.peerManifests call.priorSemanticAgreements planned (spaceOf input))
    run.applied
  refine ⟨evidence, ⟨?_, ?_, ?_, ?_, ?_, ?_, ?_, tracks, kept, still⟩⟩
  · exact fun entry member => ⟨(isPlan_entry plan member).2.1.trans sameSpace, (isPlan_entry plan member).2.2⟩
  · exact fun entry member => (entry_path reading plan member).1.1
  · exact fun entry member other listed samePath =>
      inj_on_of_nodup_map (isPlan_distinct plan) member listed samePath
  · intro path held
    have recorded : path ∈ locals.map CensusRecord.path ∨ path ∈ peers.map CensusRecord.path := by
      by_contra neither
      rw [not_or, ← recordAt_eq_none_iff, ← recordAt_eq_none_iff, localCensus, peerCensus, Option.map_eq_none_iff,
        Option.map_eq_none_iff] at neither
      simp [sha256At, neither.1, neither.2] at held
    obtain ⟨entry, decision⟩ := decidePath_of_held evidence locals peers path recorded
    exact ⟨entry, (plan.decided entry).mpr ⟨path, decision⟩,
      (decided_at decision).place.1⟩
  · intro entry member
    have holds := reasonHolds_of_decided (decided_at (isPlan_entry plan member).1)
    rw [localCensus, peerCensus, lookup_sha256, lookup_sha256] at holds
    exact holds
  · intro entry member
    have carried := (decided_at (isPlan_entry plan member).1).digests
    rw [localCensus, peerCensus, lookup_sha256, lookup_sha256] at carried
    exact carried
  · intro entry member settled
    have left := aftermath_of_decided (decided_at (isPlan_entry plan member).1) settled
    rw [localCensus, peerCensus, lookup_sha256, lookup_sha256] at left
    exact left

end Remnic.Converge.CollapsedRun
