import Mathlib.Data.List.Perm.Basic
import Remnic.Reconcile.PlanResult

/-!
Coverage of a plan, and its decisions as a first-match table over the facts
known about one path. The table states what the planner documents; the branch
cascade of the planner is proved equal to it.
-/

namespace Remnic.Reconcile.Precedence
open Text.CodeUnits Library
open Reconcile.Census Reconcile.Plan Reconcile.PlanRun Reconcile.PlanResult

/-- Everything the planner may weigh about one path. -/
structure PathFacts where
  localSha256 : Option Sha256
  peerSha256 : Option Sha256
  baseSha256 : Option Sha256
  retracted : Sha256 → Bool
  localMtimeMs : Option CensusMtime
  peerMtimeMs : Option CensusMtime
  localDeletionMtimeMs : Option CensusMtime
  peerDeletionMtimeMs : Option CensusMtime
  policy : ConvergeConflictPolicy

abbrev Rule := PathFacts → Option ReconcileAction

/-- A digest either side retracted is never moved. -/
def retractionRule : Rule := fun facts =>
  if facts.localSha256.any facts.retracted || facts.peerSha256.any facts.retracted then some .suppress else none

/-- The side that lacks the path recorded a deletion time for it. -/
def deletionRevisionRule : Rule := fun facts =>
  match facts.localSha256, facts.peerSha256 with
  | some _, none => if facts.peerDeletionMtimeMs.isSome then some .conflict else none
  | none, some _ => if facts.localDeletionMtimeMs.isSome then some .conflict else none
  | _, _ => none

/-- A path the base knows and one side lacks was deleted there. -/
def baseAbsenceRule : Rule := fun facts =>
  match facts.localSha256, facts.peerSha256, facts.baseSha256 with
  | some _, none, some _ => some .conflict
  | none, some _, some _ => some .conflict
  | _, _, _ => none

/-- Without a base the side that lacks a path never saw it. -/
def firstSeenRule : Rule := fun facts =>
  match facts.localSha256, facts.peerSha256 with
  | some _, none => some .push
  | none, some _ => some .pull
  | _, _ => none

def equalityRule : Rule := fun facts =>
  if facts.peerSha256 = facts.localSha256 then some .identical else none

/-- The side still at the base did not move; the other did. -/
def oneSidedChangeRule : Rule := fun facts =>
  if facts.baseSha256 = none then none
  else if facts.baseSha256 = facts.localSha256 then some .pull
  else if facts.baseSha256 = facts.peerSha256 then some .push
  else none

def conflictRule : Rule := fun _ => some .conflict

def firstMatch (rules : List Rule) (facts : PathFacts) : Option ReconcileAction :=
  rules.findSome? (fun rule => rule facts)

def documentedRules : List Rule :=
  [retractionRule, baseAbsenceRule, firstSeenRule, equalityRule, oneSidedChangeRule, conflictRule]

/-- The same order with a recorded deletion consulted before the base. -/
def deletionFirstRules : List Rule :=
  [retractionRule, deletionRevisionRule, baseAbsenceRule, firstSeenRule, equalityRule, oneSidedChangeRule,
    conflictRule]

/-- Who wins a conflict: a deletion counts by its recorded time, and only against an edit. -/
def documentedResolution (facts : PathFacts) : ReconcileResolution :=
  match facts.localSha256, facts.peerSha256 with
  | some _, none =>
    if facts.baseSha256 = facts.localSha256 then .unresolved
    else resolveConflict facts.policy facts.localMtimeMs facts.peerDeletionMtimeMs .unresolved
  | none, some _ =>
    if facts.baseSha256 = facts.peerSha256 then .unresolved
    else resolveConflict facts.policy facts.localDeletionMtimeMs facts.peerMtimeMs .unresolved
  | _, _ => resolveConflict facts.policy facts.localMtimeMs facts.peerMtimeMs .supersedeLink

def factsAt (evidence : PlanEvidence) (path : JsString) (localFile peerFile : Option CensusRecord) : PathFacts where
  localSha256 := localFile.map CensusRecord.sha256
  peerSha256 := peerFile.map CensusRecord.sha256
  baseSha256 := evidence.baseSha256 path
  retracted := evidence.retracted
  localMtimeMs := localFile.bind CensusRecord.mtimeMs
  peerMtimeMs := peerFile.bind CensusRecord.mtimeMs
  localDeletionMtimeMs := evidence.localDeletionMtimeMs.lookup path
  peerDeletionMtimeMs := evidence.peerDeletionMtimeMs.lookup path
  policy := evidence.policy

/-- An entry follows the table: its action, and its resolution when it is a conflict. -/
structure Documented (facts : PathFacts) (entry : ReconcilePlanEntry) : Prop where
  action : firstMatch documentedRules facts = some entry.action
  resolution : entry.resolution = if entry.action = .conflict then some (documentedResolution facts) else none

variable {facts : PathFacts} {entry : ReconcilePlanEntry} {rule : Rule} {rules : List Rule} (evidence : PlanEvidence)
  (localFile peerFile : CensusRecord)

theorem documented_of_decided {here there : Option CensusRecord} {path : JsString}
    (decided : Decided evidence path here there entry) : Documented (factsAt evidence path here there) entry := by
  have peerFirst {file : CensusRecord} (kept : evidence.retracted file.sha256 = false) :
      firstMatch documentedRules (factsAt evidence path none (some file)) =
        (baseAbsenceRule (factsAt evidence path none (some file))).or (some .pull) := by
    simp only [firstMatch, documentedRules, List.findSome?_cons, retractionRule, factsAt, Option.map_none, Option.map_some,
      Option.any_none, Option.any_some, kept, Bool.or_self, Bool.false_eq_true, if_false]
    cases evidence.baseSha256 path <;> rfl
  have localFirst {file : CensusRecord} (kept : evidence.retracted file.sha256 = false) :
      firstMatch documentedRules (factsAt evidence path (some file) none) =
        (baseAbsenceRule (factsAt evidence path (some file) none)).or (some .push) := by
    simp only [firstMatch, documentedRules, List.findSome?_cons, retractionRule, factsAt, Option.map_none, Option.map_some,
      Option.any_none, Option.any_some, kept, Bool.or_self, Bool.false_eq_true, if_false]
    cases evidence.baseSha256 path <;> rfl
  have shared {one other : CensusRecord} (kept : evidence.retracted one.sha256 = false)
      (keptOther : evidence.retracted other.sha256 = false) :
      firstMatch documentedRules (factsAt evidence path (some one) (some other)) =
        firstMatch [equalityRule, oneSidedChangeRule, conflictRule] (factsAt evidence path (some one) (some other)) := by
    simp [firstMatch, documentedRules, List.findSome?_cons, retractionRule, baseAbsenceRule, firstSeenRule, factsAt, kept, keptOther]
  cases decided with
  | tombstoned retracted =>
    exact ⟨by simp only [firstMatch, documentedRules, List.findSome?_cons, retractionRule, factsAt, Option.any_map,
      retracted, if_true], rfl⟩
  | peerOnly kept unknown => exact ⟨(peerFirst kept).trans (by simp [baseAbsenceRule, factsAt, unknown]), rfl⟩
  | localOnly kept unknown => exact ⟨(localFirst kept).trans (by simp [baseAbsenceRule, factsAt, unknown]), rfl⟩
  | localDeleted kept known =>
    exact ⟨(peerFirst kept).trans (by simp [baseAbsenceRule, factsAt, known]), by simp [documentedResolution, factsAt, known]⟩
  | peerDeleted kept known =>
    exact ⟨(localFirst kept).trans (by simp [baseAbsenceRule, factsAt, known]), by simp [documentedResolution, factsAt, known]⟩
  | localDeletedPeerModified kept known edited resolved =>
    exact ⟨(peerFirst kept).trans (by simp [baseAbsenceRule, factsAt, known]),
      by simp [documentedResolution, factsAt, known, edited, resolved]⟩
  | localModifiedPeerDeleted kept known edited resolved =>
    exact ⟨(localFirst kept).trans (by simp [baseAbsenceRule, factsAt, known]),
      by simp [documentedResolution, factsAt, known, edited, resolved]⟩
  | sameContent kept same =>
    exact ⟨(shared kept (by rwa [same])).trans (by simp [firstMatch, equalityRule, factsAt, same]), rfl⟩
  | peerChanged keptLocal keptPeer different known =>
    exact ⟨(shared keptLocal keptPeer).trans
      (by simp [firstMatch, equalityRule, oneSidedChangeRule, factsAt, different, known]), rfl⟩
  | localChanged keptLocal keptPeer different known =>
    exact ⟨(shared keptLocal keptPeer).trans
      (by simp [firstMatch, equalityRule, oneSidedChangeRule, factsAt, different, known]), rfl⟩
  | bothModified keptLocal keptPeer different notLocal notPeer resolved =>
    exact ⟨(shared keptLocal keptPeer).trans (by simp [firstMatch, List.findSome?_cons, equalityRule, oneSidedChangeRule, conflictRule,
      factsAt, different, notLocal, notPeer]), by simp [documentedResolution, factsAt, resolved]⟩

theorem documented_retracted (documented : Documented facts entry)
    (retracted : (facts.localSha256.any facts.retracted || facts.peerSha256.any facts.retracted) = true) :
    entry.action = .suppress := by
  have first := documented.action
  simp only [firstMatch, documentedRules, List.findSome?_cons, retractionRule, retracted, if_true,
    Option.some.injEq] at first
  exact first.symm

/-- A first contact: one local file, and a deletion time the peer recorded for its path. -/
def firstContact : ReconcileNamespaceInput where
  nameSpace := some (text "team")
  localCensus := .items [⟨some (text "a.md"), some digestA.val, .absent⟩]
  peerCensus := .items []
  base := .absent
  localDeletionMtimeMs := .absent
  peerDeletionMtimeMs := .items [(text "a.md", .finite 5)]
  tombstonedFileSha256 := .absent
  peerTombstonedFileSha256 := .absent

def firstContactOptions : ReconcileOptions := ⟨none, some (text "linux"), none⟩

def firstContactEvidence : PlanEvidence where
  nameSpace := text "team"
  policy := .newestWins
  base := none
  tombstoned := []
  peerTombstoned := []
  localDeletionMtimeMs := .empty
  peerDeletionMtimeMs := OrderedMap.empty.set (text "a.md") ⟨5, by decide +kernel⟩

def firstContactEntry : ReconcilePlanEntry :=
  { path := text "a.md", nameSpace := text "team", action := .push, reason := .localOnly
    localSha256 := some digestA }

private theorem firstContact_reading : Reading plainTables (text "linux") firstContact firstContactOptions
    firstContactEvidence [⟨text "a.md", digestA, none⟩] [] where
  nameSpace := by decide +kernel
  policy := by decide +kernel
  localRecords := ⟨_, rfl, .cons (accepts_raw _ ⟨text "a.md", digestA, none⟩
    (by unfold IsArchivePath; decide +kernel) (by unfold IsPortablePath; decide +kernel)) .nil, by simp⟩
  peerRecords := ⟨_, rfl, .nil, .nil⟩
  base := by decide +kernel
  tombstoned := by decide +kernel
  peerTombstoned := by decide +kernel
  localDeletions := by decide +kernel
  peerDeletions := by decide +kernel
  aliasFree := by unfold AliasFree NoAlias; decide +kernel

section Order

variable {platforms : Platforms} {files others peerFiles peerOthers : List ReconcileFileState} {records : List CensusRecord}

theorem readCensus_reorder (read : ReadCensus platforms files records) (same : others.Perm files) :
    ∃ later, ReadCensus platforms others later ∧ later.Perm records ∧ recordAt later = recordAt records := by
  obtain ⟨later, accepted, moved⟩ := List.perm_comp_forall₂ same read.accepted
  have agree : later.Pairwise Agree := (moved.pairwise_iff fun agree same => (agree same.symm).symm).mpr read.agree
  refine ⟨later, ⟨accepted, agree⟩, moved, funext fun path => Option.ext fun record => ?_⟩
  rw [recordAt_eq_some_iff _ agree, recordAt_eq_some_iff _ read.agree, moved.mem_iff]

/-- A plan depends on what the censuses list, not on the order they list it in. -/
theorem plan_reorder {tables : UnicodeTables} {processPlatform : JsString} {input : ReconcileNamespaceInput}
    {options : ReconcileOptions} {entries : List ReconcilePlanEntry} (same : others.Perm files) (samePeer : peerOthers.Perm peerFiles)
    (planned : planNamespaceReconciliation tables processPlatform
      { input with localCensus := .items files, peerCensus := .items peerFiles } options = .ok entries) :
    planNamespaceReconciliation tables processPlatform
      { input with localCensus := .items others, peerCensus := .items peerOthers } options = .ok entries := by
  obtain ⟨evidence, locals, peers, reading, plan⟩ := planNamespaceReconciliation_ok_iff.mp planned
  obtain ⟨_, ⟨⟩, readLocal⟩ := reading.localRecords
  obtain ⟨_, ⟨⟩, readPeer⟩ := reading.peerRecords
  obtain ⟨newLocals, readLocals, moved, atLocal⟩ := readCensus_reorder readLocal same
  obtain ⟨newPeers, readPeers, movedPeers, atPeer⟩ := readCensus_reorder readPeer samePeer
  refine planNamespaceReconciliation_ok_iff.mpr ⟨evidence, newLocals, newPeers, { reading with
    localRecords := ⟨_, rfl, readLocals⟩, peerRecords := ⟨_, rfl, readPeers⟩
    aliasFree := (aliasFree_congr tables _ _ fun path => ?_).mpr reading.aliasFree }, plan.sorted, ?_⟩
  · simp only [planPaths, List.mem_append, (moved.map _).mem_iff, (movedPeers.map _).mem_iff]
  · rw [atLocal, atPeer]
    exact plan.decided

end Order

theorem plan_reorder_firstContact :
    let file (path : String) : ReconcileFileState := ⟨some (text path), some digestA.val, .absent⟩
    planNamespaceReconciliation plainTables (text "linux")
      { firstContact with localCensus := .items [file "b.md", file "a.md"], peerCensus := .items [] } firstContactOptions =
        .ok [firstContactEntry, { firstContactEntry with path := text "b.md" }] := by
  intro file
  exact plan_reorder (.swap (file "a.md") (file "b.md") []) .nil (by decide +kernel)

end Remnic.Reconcile.Precedence
