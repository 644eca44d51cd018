import Remnic.Reconcile.Plan

/-!
What a run of the planner computes. The two loops are described by loop
specifications, and an accepted run is characterised by its reading of the
arguments together with one decision for each path either census holds.
-/

namespace Remnic.Reconcile.PlanRun
open Text.CodeUnits Library Library.GuardedFold List
open Reconcile.Census Reconcile.Plan

/-- Records of one census that may stand together: one path, one record. -/
def Agree (earlier later : CensusRecord) : Prop := earlier.path = later.path → earlier = later

/-- The names two paths fold to tell them apart. -/
def NoAlias (tables : UnicodeTables) (first second : JsString) : Prop :=
  foldPath tables first = foldPath tables second → first = second

def AliasFree (tables : UnicodeTables) (paths : List JsString) : Prop :=
  ∀ first ∈ paths, ∀ second ∈ paths, NoAlias tables first second

theorem rejectConflictingDuplicate_ok_iff (existing : Option RevisionStamp) (incoming : RevisionStamp)
    (path : JsString) (side : CensusSide) (nameSpace : JsString) (repeated : Bool) :
    rejectConflictingDuplicate existing incoming path side nameSpace = .ok repeated ↔
      (∀ known, existing = some known → known = incoming) ∧ repeated = existing.isSome := by
  cases existing with
  | none =>
    simp only [rejectConflictingDuplicate, Except.ok.injEq, reduceCtorEq, false_implies, implies_true, true_and,
      Option.isSome_none]
    exact eq_comm
  | some known =>
    obtain ⟨knownSha, knownTime⟩ := known
    obtain ⟨sha, time⟩ := incoming
    unfold rejectConflictingDuplicate
    by_cases sameSha : knownSha = sha
    · by_cases sameTime : knownTime = time
      · simp only [sameSha, sameTime, ne_eq, not_true_eq_false, if_false, Except.ok.injEq, Option.some.injEq,
          Option.isSome_some, forall_eq', true_and]
        exact eq_comm
      · simp [refuse, sameSha, sameTime]
    · simp [refuse, sameSha]

def IndexTracks (done : List CensusRecord) (index : OrderedMap JsString CensusRecord) : Prop :=
  ∀ path record, index.lookup path = some record ↔ record ∈ done ∧ record.path = path

def indexAdvance (index : OrderedMap JsString CensusRecord) (file : CensusRecord) :
    OrderedMap JsString CensusRecord :=
  if (index.lookup file.path).isSome then index else index.set file.path file

private theorem stamp_agree (known file : CensusRecord) (samePath : known.path = file.path) :
    known.stamp = file.stamp ↔ known = file := by
  obtain ⟨path, sha, time⟩ := known
  obtain ⟨filePath, fileSha, fileTime⟩ := file
  cases samePath
  simp [CensusRecord.stamp]

variable (files : List ReconcileFileState) (file : CensusRecord) (side : CensusSide) (nameSpace : JsString)

variable (platforms : Platforms) (records : List CensusRecord)

private theorem indexRound_ok_iff (done : List CensusRecord) (index next : OrderedMap JsString CensusRecord)
    (raw : ReconcileFileState) (tracked : IndexTracks done index) :
    indexRound side nameSpace platforms index raw = .ok next ↔
      ∃ file, Accepts platforms raw file ∧ (∀ earlier ∈ done, Agree earlier file) ∧
        next = indexAdvance index file := by
  simp only [indexRound, bind_ok_iff, assertCensusRecord_ok_iff, rejectConflictingDuplicate_ok_iff]
  refine exists_congr (fun file => and_congr_right (fun _ => ?_))
  have compatible : (∀ known, (index.lookup file.path).map CensusRecord.stamp = some known → known = file.stamp) ↔
      ∀ earlier ∈ done, Agree earlier file := by
    constructor
    · intro unique earlier member samePath
      have found := (tracked file.path earlier).mpr ⟨member, samePath⟩
      exact (stamp_agree earlier file samePath).mp (unique earlier.stamp (by rw [found, Option.map_some]))
    · intro agreed known held
      obtain ⟨earlier, found, rfl⟩ := Option.map_eq_some_iff.mp held
      obtain ⟨member, samePath⟩ := (tracked file.path earlier).mp found
      rw [agreed earlier member samePath]
  rw [compatible, Option.isSome_map]
  constructor
  · rintro ⟨repeated, ⟨agreed, rfl⟩, written⟩
    refine ⟨agreed, ?_⟩
    unfold indexAdvance
    split_ifs with known
    · rw [if_pos known] at written
      exact pure_ok_iff.mp written
    · rw [if_neg known] at written
      exact pure_ok_iff.mp written
  · rintro ⟨agreed, rfl⟩
    refine ⟨_, ⟨agreed, rfl⟩, ?_⟩
    unfold indexAdvance
    split_ifs with known
    · rfl
    · rfl

private theorem indexTracks_advance (done : List CensusRecord) (index : OrderedMap JsString CensusRecord)
    (file : CensusRecord) (tracked : IndexTracks done index) (agreed : ∀ earlier ∈ done, Agree earlier file) :
    IndexTracks (done ++ [file]) (indexAdvance index file) := by
  intro path record
  simp only [mem_append, mem_singleton, indexAdvance]
  split_ifs with known
  · obtain ⟨earlier, found⟩ := Option.isSome_iff_exists.mp known
    obtain ⟨member, samePath⟩ := (tracked file.path earlier).mp found
    have same := agreed earlier member samePath
    rw [tracked]
    constructor
    · exact fun held => ⟨Or.inl held.1, held.2⟩
    · rintro ⟨held | rfl, atPath⟩
      · exact ⟨held, atPath⟩
      · exact ⟨same ▸ member, atPath⟩
  · rw [OrderedMap.lookup_set]
    split_ifs with samePath
    · constructor
      · intro new
        cases new
        exact ⟨Or.inr rfl, samePath.symm⟩
      · rintro ⟨held | rfl, atPath⟩
        · exact absurd (Option.isSome_iff_exists.mpr ⟨record,
            (tracked file.path record).mpr ⟨held, atPath.trans samePath⟩⟩) known
        · rfl
    · rw [tracked]
      constructor
      · exact fun held => ⟨Or.inl held.1, held.2⟩
      · rintro ⟨held | rfl, atPath⟩
        · exact ⟨held, atPath⟩
        · exact absurd atPath.symm samePath

def indexSpec (side : CensusSide) (nameSpace : JsString) (platforms : Platforms) :
    LoopSpec CensusRecord (indexRound side nameSpace platforms) where
  Parses := Accepts platforms
  Agrees := Agree
  Tracks := IndexTracks
  advance := indexAdvance
  roundOk := fun done index raw next => indexRound_ok_iff side nameSpace platforms done index next raw
  keeps := fun done index _ file tracked _ agreed => indexTracks_advance done index file tracked agreed

/-- A census read in full: every record accepted, repeated paths in agreement. -/
structure ReadCensus (platforms : Platforms) (files : List ReconcileFileState) (records : List CensusRecord) :
    Prop where
  accepted : Forall₂ (Accepts platforms) files records
  agree : records.Pairwise Agree

private theorem indexTracks_empty : IndexTracks [] .empty := by
  intro path record
  simp

theorem indexByPath_reads (index : OrderedMap JsString CensusRecord)
    (run : indexByPath files side nameSpace platforms = .ok index) :
    ∃ records, ReadCensus platforms files records ∧ IndexTracks records index := by
  obtain ⟨records, accepted, agree, tracked⟩ :=
    (indexSpec side nameSpace platforms).run_reads files .empty index indexTracks_empty run
  exact ⟨records, ⟨accepted, agree⟩, tracked⟩

theorem indexByPath_finishes (read : ReadCensus platforms files records) :
    ∃ index, indexByPath files side nameSpace platforms = .ok index ∧ IndexTracks records index :=
  (indexSpec side nameSpace platforms).run_finishes files records .empty indexTracks_empty read.accepted read.agree

/-- A digest index holds exactly the paths and digests seen so far. -/
def DigestsTrack (done : List CensusRecord) (index : OrderedMap JsString Sha256) : Prop :=
  ∀ path sha256, index.lookup path = some sha256 ↔ ∃ file ∈ done, file.path = path ∧ file.sha256 = sha256

def digestsAdvance (index : OrderedMap JsString Sha256) (file : CensusRecord) : OrderedMap JsString Sha256 :=
  if (index.lookup file.path).isSome then index else index.set file.path file.sha256

def DigestsAgree (earlier later : CensusRecord) : Prop :=
  earlier.path = later.path → earlier.sha256 = later.sha256

private theorem indexDigestsRound_ok_iff (done : List CensusRecord) (index next : OrderedMap JsString Sha256)
    (raw : ReconcileFileState) (tracked : DigestsTrack done index) :
    indexDigestsRound side nameSpace platforms index raw = .ok next ↔
      ∃ file, Accepts platforms raw file ∧ (∀ earlier ∈ done, DigestsAgree earlier file) ∧
        next = digestsAdvance index file := by
  simp only [indexDigestsRound, bind_ok_iff, assertCensusRecord_ok_iff]
  refine exists_congr (fun file => and_congr_right (fun _ => ?_))
  have compatible : (∀ existing, index.lookup file.path = some existing → existing = file.sha256) ↔
      ∀ earlier ∈ done, DigestsAgree earlier file := by
    constructor
    · intro unique earlier member samePath
      exact unique earlier.sha256 ((tracked _ _).mpr ⟨earlier, member, samePath, rfl⟩)
    · intro agreed existing held
      obtain ⟨earlier, member, samePath, rfl⟩ := (tracked _ _).mp held
      exact agreed earlier member samePath
  rw [← compatible]
  unfold digestsAdvance
  cases found : index.lookup file.path with
  | none =>
    simp only [pure_ok_iff, reduceCtorEq, false_implies, implies_true, true_and, Option.isSome_none,
      Bool.false_eq_true, if_false]
  | some existing =>
    by_cases same : existing = file.sha256
    · simp only [same, ne_eq, not_true_eq_false, if_false, pure_ok_iff, Option.some.injEq, forall_eq',
        Option.isSome_some, if_true, true_and]
    · simp only [same, ne_eq, not_false_eq_true, if_true, refuse, reduceCtorEq, Option.some.injEq, forall_eq',
        false_and]

private theorem digestsTrack_advance (done : List CensusRecord) (index : OrderedMap JsString Sha256)
    (file : CensusRecord) (tracked : DigestsTrack done index)
    (agreed : ∀ earlier ∈ done, DigestsAgree earlier file) :
    DigestsTrack (done ++ [file]) (digestsAdvance index file) := by
  intro path sha256
  simp only [mem_append, mem_singleton, digestsAdvance]
  split_ifs with known
  · obtain ⟨held, found⟩ := Option.isSome_iff_exists.mp known
    obtain ⟨earlier, member, samePath, sameSha⟩ := (tracked _ _).mp found
    rw [tracked]
    constructor
    · intro before
      obtain ⟨other, old, facts⟩ := before
      exact ⟨other, Or.inl old, facts⟩
    · intro after
      obtain ⟨other, old | rfl, facts⟩ := after
      · exact ⟨other, old, facts⟩
      · exact ⟨earlier, member, samePath.trans facts.1, (agreed earlier member samePath).trans facts.2⟩
  · rw [OrderedMap.lookup_set]
    split_ifs with samePath
    · constructor
      · intro new
        exact ⟨file, Or.inr rfl, samePath.symm, Option.some.inj new⟩
      · intro after
        obtain ⟨other, old | rfl, atPath, sameSha⟩ := after
        · exact absurd (Option.isSome_iff_exists.mpr
            ⟨_, (tracked _ _).mpr ⟨other, old, atPath.trans samePath, rfl⟩⟩) known
        · rw [sameSha]
    · rw [tracked]
      constructor
      · intro before
        obtain ⟨other, old, facts⟩ := before
        exact ⟨other, Or.inl old, facts⟩
      · intro after
        obtain ⟨other, old | rfl, facts⟩ := after
        · exact ⟨other, old, facts⟩
        · exact absurd facts.1.symm samePath

def digestsSpec (side : CensusSide) (nameSpace : JsString) (platforms : Platforms) :
    LoopSpec CensusRecord (indexDigestsRound side nameSpace platforms) where
  Parses := Accepts platforms
  Agrees := DigestsAgree
  Tracks := DigestsTrack
  advance := digestsAdvance
  roundOk := fun done index raw next => indexDigestsRound_ok_iff side nameSpace platforms done index next raw
  keeps := fun done index _ file tracked _ agreed => digestsTrack_advance done index file tracked agreed

private theorem digestsTrack_empty : DigestsTrack [] .empty := by
  intro path sha256
  simp

theorem indexDigestsByPath_reads (index : OrderedMap JsString Sha256)
    (run : indexDigestsByPath files side nameSpace platforms = .ok index) :
    ∃ records, Forall₂ (Accepts platforms) files records ∧ DigestsTrack records index := by
  obtain ⟨records, accepted, _, tracked⟩ :=
    (digestsSpec side nameSpace platforms).run_reads files .empty index digestsTrack_empty run
  exact ⟨records, accepted, tracked⟩

theorem indexDigestsByPath_finishes (accepted : Forall₂ (Accepts platforms) files records)
    (agree : records.Pairwise DigestsAgree) :
    ∃ index, indexDigestsByPath files side nameSpace platforms = .ok index ∧ DigestsTrack records index :=
  (digestsSpec side nameSpace platforms).run_finishes files records .empty digestsTrack_empty accepted agree

/-- The name index holds the paths registered so far under their folded names. -/
def FoldTracks (tables : UnicodeTables) (paths : List JsString) (seen : OrderedMap JsString JsString) : Prop :=
  ∀ folded path, seen.lookup folded = some path ↔ path ∈ paths ∧ foldPath tables path = folded

def foldAdvance (tables : UnicodeTables) (seen : OrderedMap JsString JsString) (path : JsString) :
    OrderedMap JsString JsString := seen.set (foldPath tables path) path

theorem assertNoPathAlias_ok_iff (tables : UnicodeTables) (paths : List JsString)
    (seen next : OrderedMap JsString JsString) (path nameSpace : JsString) (tracked : FoldTracks tables paths seen) :
    assertNoPathAlias tables seen path nameSpace = .ok next ↔
      (∀ earlier ∈ paths, NoAlias tables earlier path) ∧ next = foldAdvance tables seen path := by
  have unique : (∀ earlier ∈ paths, NoAlias tables earlier path) ↔
      ∀ existing, seen.lookup (foldPath tables path) = some existing → existing = path := by
    constructor
    · intro free existing found
      obtain ⟨member, sameFold⟩ := (tracked _ _).mp found
      exact free existing member sameFold
    · intro known earlier member sameFold
      exact known earlier ((tracked _ _).mpr ⟨member, sameFold⟩)
  rw [unique]
  unfold assertNoPathAlias foldAdvance
  cases found : seen.lookup (foldPath tables path) with
  | none =>
    simp only [found, Except.ok.injEq, reduceCtorEq, false_implies, implies_true, true_and]
    exact eq_comm
  | some existing =>
    by_cases same : existing = path
    · simp only [found, same, ne_eq, not_true_eq_false, if_false, Except.ok.injEq, Option.some.injEq, forall_eq',
        true_and]
      exact eq_comm
    · simp only [found, same, ne_eq, not_false_eq_true, if_true, refuse, reduceCtorEq, Option.some.injEq,
        forall_eq', false_and]

theorem foldTracks_advance (tables : UnicodeTables) (paths : List JsString) (seen : OrderedMap JsString JsString)
    (path : JsString) (tracked : FoldTracks tables paths seen) (free : ∀ earlier ∈ paths, NoAlias tables earlier path) :
    FoldTracks tables (paths ++ [path]) (foldAdvance tables seen path) := by
  intro folded other
  rw [foldAdvance, OrderedMap.lookup_set]
  simp only [mem_append, mem_singleton]
  split_ifs with sameFold
  · constructor
    · intro new
      cases new
      exact ⟨Or.inr rfl, sameFold.symm⟩
    · rintro ⟨member | rfl, atFold⟩
      · rw [free other member (atFold.trans sameFold)]
      · rfl
  · rw [tracked]
    constructor
    · exact fun held => ⟨Or.inl held.1, held.2⟩
    · rintro ⟨member | rfl, atFold⟩
      · exact ⟨member, atFold⟩
      · exact absurd atFold.symm sameFold

/-- The decision for a path, by what the two sides and the base hold. -/
inductive Decided (evidence : PlanEvidence) (path : JsString) :
    Option CensusRecord → Option CensusRecord → ReconcilePlanEntry → Prop
  | tombstoned {here there : Option CensusRecord}
      (retracted : (here.any (evidence.retracted ·.sha256) || there.any (evidence.retracted ·.sha256)) = true) :
      Decided evidence path here there
        { path, nameSpace := evidence.nameSpace, action := .suppress, reason := .tombstoned
          localSha256 := here.map CensusRecord.sha256, peerSha256 := there.map CensusRecord.sha256
          baseSha256 := evidence.baseSha256 path
          suppressSide := some (if here.any (evidence.retracted ·.sha256) && there.any (evidence.retracted ·.sha256)
            then .bothCopies else if here.any (evidence.retracted ·.sha256) then .localCopy else .peerCopy) }
  | peerOnly {file : CensusRecord} (kept : evidence.retracted file.sha256 = false)
      (unknown : evidence.baseSha256 path = none) :
      Decided evidence path none (some file)
        { path, nameSpace := evidence.nameSpace, action := .pull, reason := .peerOnly, peerSha256 := some file.sha256 }
  | localDeleted {file : CensusRecord} (kept : evidence.retracted file.sha256 = false)
      (known : evidence.baseSha256 path = some file.sha256) :
      Decided evidence path none (some file)
        { path, nameSpace := evidence.nameSpace, action := .conflict, reason := .localDeleted
          peerSha256 := some file.sha256, baseSha256 := some file.sha256, resolution := some .unresolved }
  | localDeletedPeerModified {file : CensusRecord} {base : Sha256} {resolution : ReconcileResolution}
      (kept : evidence.retracted file.sha256 = false) (known : evidence.baseSha256 path = some base)
      (edited : base ≠ file.sha256) (resolved : resolveConflict evidence.policy
        (evidence.localDeletionMtimeMs.lookup path) file.mtimeMs .unresolved = resolution) :
      Decided evidence path none (some file)
        { path, nameSpace := evidence.nameSpace, action := .conflict, reason := .localDeletedPeerModified
          peerSha256 := some file.sha256, baseSha256 := some base, resolution := some resolution
          deletionMtimeMs := if resolution = .localWins then evidence.localDeletionMtimeMs.lookup path else none }
  | localOnly {file : CensusRecord} (kept : evidence.retracted file.sha256 = false)
      (unknown : evidence.baseSha256 path = none) :
      Decided evidence path (some file) none
        { path, nameSpace := evidence.nameSpace, action := .push, reason := .localOnly, localSha256 := some file.sha256 }
  | peerDeleted {file : CensusRecord} (kept : evidence.retracted file.sha256 = false)
      (known : evidence.baseSha256 path = some file.sha256) :
      Decided evidence path (some file) none
        { path, nameSpace := evidence.nameSpace, action := .conflict, reason := .peerDeleted
          localSha256 := some file.sha256, baseSha256 := some file.sha256, resolution := some .unresolved }
  | localModifiedPeerDeleted {file : CensusRecord} {base : Sha256} {resolution : ReconcileResolution}
      (kept : evidence.retracted file.sha256 = false) (known : evidence.baseSha256 path = some base)
      (edited : base ≠ file.sha256) (resolved : resolveConflict evidence.policy file.mtimeMs
        (evidence.peerDeletionMtimeMs.lookup path) .unresolved = resolution) :
      Decided evidence path (some file) none
        { path, nameSpace := evidence.nameSpace, action := .conflict, reason := .localModifiedPeerDeleted
          localSha256 := some file.sha256, baseSha256 := some base, resolution := some resolution
          deletionMtimeMs := if resolution = .peerWins then evidence.peerDeletionMtimeMs.lookup path else none }
  | sameContent {here there : CensusRecord} (kept : evidence.retracted here.sha256 = false)
      (same : there.sha256 = here.sha256) :
      Decided evidence path (some here) (some there)
        { path, nameSpace := evidence.nameSpace, action := .identical, reason := .sameContent
          localSha256 := some here.sha256, peerSha256 := some there.sha256, baseSha256 := evidence.baseSha256 path }
  | peerChanged {here there : CensusRecord} (keptLocal : evidence.retracted here.sha256 = false)
      (keptPeer : evidence.retracted there.sha256 = false) (different : there.sha256 ≠ here.sha256)
      (known : evidence.baseSha256 path = some here.sha256) :
      Decided evidence path (some here) (some there)
        { path, nameSpace := evidence.nameSpace, action := .pull, reason := .peerChanged
          localSha256 := some here.sha256, peerSha256 := some there.sha256, baseSha256 := some here.sha256 }
  | localChanged {here there : CensusRecord} (keptLocal : evidence.retracted here.sha256 = false)
      (keptPeer : evidence.retracted there.sha256 = false) (different : there.sha256 ≠ here.sha256)
      (known : evidence.baseSha256 path = some there.sha256) :
      Decided evidence path (some here) (some there)
        { path, nameSpace := evidence.nameSpace, action := .push, reason := .localChanged
          localSha256 := some here.sha256, peerSha256 := some there.sha256, baseSha256 := some there.sha256 }
  | bothModified {here there : CensusRecord} {resolution : ReconcileResolution}
      (keptLocal : evidence.retracted here.sha256 = false) (keptPeer : evidence.retracted there.sha256 = false)
      (different : there.sha256 ≠ here.sha256) (notLocal : evidence.baseSha256 path ≠ some here.sha256)
      (notPeer : evidence.baseSha256 path ≠ some there.sha256)
      (resolved : resolveConflict evidence.policy here.mtimeMs there.mtimeMs .supersedeLink = resolution) :
      Decided evidence path (some here) (some there)
        { path, nameSpace := evidence.nameSpace, action := .conflict, reason := .bothModified
          localSha256 := some here.sha256, peerSha256 := some there.sha256, baseSha256 := evidence.baseSha256 path
          resolution := some resolution }

section Decisions

variable (evidence : PlanEvidence) (localFile : CensusRecord) (path : JsString)

theorem decided_planPeerFile (file : CensusRecord) : Decided evidence path none (some file) (planPeerFile evidence path file) := by
  unfold planPeerFile
  cases retracted : evidence.retracted file.sha256 with
  | true => exact .tombstoned retracted
  | false =>
    cases known : evidence.baseSha256 path with
    | none => exact .peerOnly retracted known
    | some base =>
      by_cases edited : base = file.sha256
      · subst edited
        simp only [if_true]
        exact .localDeleted retracted known
      · simp only [edited, if_false]
        exact .localDeletedPeerModified retracted known edited rfl

theorem decided_planLocalFile (peerFile : Option CensusRecord) :
    Decided evidence localFile.path (some localFile) peerFile (planLocalFile evidence localFile peerFile) := by
  unfold planLocalFile
  dsimp only
  by_cases retracted : (evidence.retracted localFile.sha256 || peerFile.any (evidence.retracted ·.sha256)) = true
  · rw [if_pos retracted]
    exact @Decided.tombstoned evidence localFile.path (some localFile) peerFile retracted
  rw [if_neg retracted]
  rw [Bool.not_eq_true, Bool.or_eq_false_iff] at retracted
  obtain ⟨here, there⟩ := retracted
  cases peerFile with
  | none =>
    cases known : evidence.baseSha256 localFile.path with
    | none => exact .localOnly here known
    | some base =>
      by_cases edited : base = localFile.sha256
      · subst edited
        simp only [if_true]
        exact .peerDeleted here known
      · simp only [edited, if_false]
        exact .localModifiedPeerDeleted here known edited rfl
  | some peerFile =>
    dsimp only
    split_ifs with same atLocal atPeer
    · exact .sameContent here same
    · rw [atLocal]
      exact .peerChanged here there same atLocal
    · rw [atPeer]
      exact .localChanged here there same atPeer
    · exact .bothModified here there same atLocal atPeer rfl

variable {evidence path} {here there : Option CensusRecord} {entry : ReconcilePlanEntry}

theorem Decided.place (decided : Decided evidence path here there entry) :
    entry.path = path ∧ entry.nameSpace = evidence.nameSpace ∧ entry.semanticAgreement = none := by
  cases decided <;> exact ⟨rfl, rfl, rfl⟩

theorem Decided.digests (decided : Decided evidence path here there entry) :
    entry.localSha256 = here.map CensusRecord.sha256 ∧ entry.peerSha256 = there.map CensusRecord.sha256 := by
  cases decided <;> exact ⟨rfl, rfl⟩

end Decisions

structure LocalTracks (tables : UnicodeTables) (evidence : PlanEvidence) (known : List JsString)
    (peer : OrderedMap JsString CensusRecord) (done : List CensusRecord) (pass : LocalPass) : Prop where
  folds : FoldTracks tables (known ++ done.map CensusRecord.path) pass.caseFold
  seen : ∀ path stamp, pass.seenLocal.lookup path = some stamp ↔
    ∃ file ∈ done, file.path = path ∧ file.stamp = stamp
  unconsumed : ∀ path file, pass.peer.lookup path = some file ↔
    peer.lookup path = some file ∧ path ∉ done.map CensusRecord.path
  decided : ∀ entry, entry ∈ pass.entries ↔
    ∃ file ∈ done, entry = planLocalFile evidence file (peer.lookup file.path)
  distinct : (pass.entries.map ReconcilePlanEntry.path).Nodup

def localAdvance (tables : UnicodeTables) (evidence : PlanEvidence) (pass : LocalPass) (file : CensusRecord) :
    LocalPass :=
  let caseFold := foldAdvance tables pass.caseFold file.path
  if (pass.seenLocal.lookup file.path).isSome then { pass with caseFold }
  else
    { caseFold
      seenLocal := pass.seenLocal.set file.path file.stamp
      peer := pass.peer.erase file.path
      entries := pass.entries ++ [planLocalFile evidence file (pass.peer.lookup file.path)] }

def LocalParses (tables : UnicodeTables) (platforms : Platforms) (known : List JsString)
    (raw : ReconcileFileState) (file : CensusRecord) : Prop :=
  Accepts platforms raw file ∧ ∀ earlier ∈ known, NoAlias tables earlier file.path

def LocalAgrees (tables : UnicodeTables) (earlier later : CensusRecord) : Prop :=
  NoAlias tables earlier.path later.path ∧ Agree earlier later

variable {tables : UnicodeTables} {evidence : PlanEvidence} {known : List JsString}
  {peer : OrderedMap JsString CensusRecord} {done : List CensusRecord} {pass : LocalPass}

private theorem seen_agree (tracked : LocalTracks tables evidence known peer done pass) (file : CensusRecord) :
    (∀ stamp, pass.seenLocal.lookup file.path = some stamp → stamp = file.stamp) ↔
      ∀ earlier ∈ done, Agree earlier file := by
  constructor
  · intro unique earlier member samePath
    exact (stamp_agree earlier file samePath).mp
      (unique earlier.stamp ((tracked.seen _ _).mpr ⟨earlier, member, samePath, rfl⟩))
  · intro agreed stamp held
    obtain ⟨earlier, member, samePath, rfl⟩ := (tracked.seen _ _).mp held
    rw [agreed earlier member samePath]

private theorem localRound_ok_iff (raw : ReconcileFileState) (next : LocalPass)
    (tracked : LocalTracks tables evidence known peer done pass) :
    planLocalRound tables evidence platforms pass raw = .ok next ↔
      ∃ file, LocalParses tables platforms known raw file ∧ (∀ earlier ∈ done, LocalAgrees tables earlier file) ∧
        next = localAdvance tables evidence pass file := by
  simp only [planLocalRound, bind_ok_iff, assertCensusRecord_ok_iff, rejectConflictingDuplicate_ok_iff]
  refine exists_congr (fun file => ?_)
  have names : (∀ earlier ∈ known ++ done.map CensusRecord.path, NoAlias tables earlier file.path) ↔
      (∀ earlier ∈ known, NoAlias tables earlier file.path) ∧
        ∀ earlier ∈ done, NoAlias tables earlier.path file.path := by
    rw [forall_mem_append, forall_mem_map]
  constructor
  · rintro ⟨accepted, caseFold, named, repeated, ⟨unique, rfl⟩, written⟩
    obtain ⟨free, rfl⟩ := (assertNoPathAlias_ok_iff _ _ _ _ _ _ tracked.folds).mp named
    have agreed := (seen_agree tracked file).mp unique
    refine ⟨⟨accepted, (names.mp free).1⟩, fun earlier member => ⟨(names.mp free).2 earlier member,
      agreed earlier member⟩, ?_⟩
    unfold localAdvance
    dsimp only
    split_ifs with repeats
    · rw [if_pos repeats] at written
      exact pure_ok_iff.mp written
    · rw [if_neg repeats] at written
      exact pure_ok_iff.mp written
  · rintro ⟨⟨accepted, free⟩, agreed, rfl⟩
    refine ⟨accepted, foldAdvance tables pass.caseFold file.path, ?_, (pass.seenLocal.lookup file.path).isSome,
      ⟨(seen_agree tracked file).mpr (fun earlier member => (agreed earlier member).2), rfl⟩, ?_⟩
    · exact (assertNoPathAlias_ok_iff _ _ _ _ _ _ tracked.folds).mpr
        ⟨names.mpr ⟨free, fun earlier member => (agreed earlier member).1⟩, rfl⟩
    · unfold localAdvance
      dsimp only
      split_ifs with repeats
      · rfl
      · rfl

private theorem localTracks_repeat (member : file ∈ done) (tracked : LocalTracks tables evidence known peer done pass)
    (folds : FoldTracks tables (known ++ (done ++ [file]).map CensusRecord.path)
      (foldAdvance tables pass.caseFold file.path)) :
    LocalTracks tables evidence known peer (done ++ [file])
      { pass with caseFold := foldAdvance tables pass.caseFold file.path } := by
  have same : ∀ other, other ∈ done ++ [file] ↔ other ∈ done := by
    intro other
    rw [mem_append, mem_singleton]
    exact ⟨fun held => held.elim id (fun new => new ▸ member), Or.inl⟩
  refine ⟨folds, ?_, ?_, ?_, tracked.distinct⟩
  · simpa only [same] using tracked.seen
  · simpa only [mem_map, same] using tracked.unconsumed
  · simpa only [same] using tracked.decided

private theorem localTracks_fresh (fresh : file.path ∉ done.map CensusRecord.path)
    (tracked : LocalTracks tables evidence known peer done pass)
    (folds : FoldTracks tables (known ++ (done ++ [file]).map CensusRecord.path) (foldAdvance tables pass.caseFold file.path)) :
    LocalTracks tables evidence known peer (done ++ [file])
      { caseFold := foldAdvance tables pass.caseFold file.path
        seenLocal := pass.seenLocal.set file.path file.stamp
        peer := pass.peer.erase file.path
        entries := pass.entries ++ [planLocalFile evidence file (pass.peer.lookup file.path)] } := by
  have consumed : pass.peer.lookup file.path = peer.lookup file.path := by
    apply Option.ext
    intro held
    rw [tracked.unconsumed]
    exact and_iff_left fresh
  refine ⟨folds, ?_, ?_, ?_, ?_⟩
  · intro path stamp
    rw [OrderedMap.lookup_set]
    simp only [mem_append, mem_singleton]
    split_ifs with samePath
    · constructor
      · intro new
        cases new
        exact ⟨file, Or.inr rfl, samePath.symm, rfl⟩
      · rintro ⟨other, held | rfl, atPath, rfl⟩
        · exact absurd (mem_map.mpr ⟨other, held, atPath.trans samePath⟩) fresh
        · rfl
    · rw [tracked.seen]
      constructor
      · rintro ⟨other, held, atPath⟩
        exact ⟨other, Or.inl held, atPath⟩
      · rintro ⟨other, held | rfl, atPath, sameStamp⟩
        · exact ⟨other, held, atPath, sameStamp⟩
        · exact absurd atPath.symm samePath
  · intro path held
    rw [OrderedMap.lookup_erase]
    simp only [map_append, map_cons, map_nil, mem_append, mem_singleton, not_or]
    split_ifs with samePath
    · simp [samePath]
    · rw [tracked.unconsumed, and_congr_right_iff]
      exact fun _ => (and_iff_left samePath).symm
  · intro entry
    simp only [mem_append, mem_singleton, consumed, tracked.decided]
    constructor
    · rintro (⟨other, held, rfl⟩ | rfl)
      · exact ⟨other, Or.inl held, rfl⟩
      · exact ⟨file, Or.inr rfl, rfl⟩
    · rintro ⟨other, held | rfl, rfl⟩
      · exact Or.inl ⟨other, held, rfl⟩
      · exact Or.inr rfl
  · rw [map_append, nodup_append]
    refine ⟨tracked.distinct, by simp, ?_⟩
    intro old present new isNew samePath
    simp only [map_cons, map_nil, mem_singleton, (decided_planLocalFile _ _ _).place.1] at isNew
    obtain ⟨entry, member, rfl⟩ := mem_map.mp present
    obtain ⟨other, held, rfl⟩ := (tracked.decided entry).mp member
    rw [(decided_planLocalFile _ _ _).place.1] at samePath
    exact fresh (mem_map.mpr ⟨other, held, samePath.trans isNew⟩)

private theorem localTracks_advance (tracked : LocalTracks tables evidence known peer done pass)
    (free : ∀ earlier ∈ known, NoAlias tables earlier file.path) (agreed : ∀ earlier ∈ done, LocalAgrees tables earlier file) :
    LocalTracks tables evidence known peer (done ++ [file]) (localAdvance tables evidence pass file) := by
  have folds : FoldTracks tables (known ++ (done ++ [file]).map CensusRecord.path)
      (foldAdvance tables pass.caseFold file.path) := by
    rw [map_append, ← append_assoc]
    apply foldTracks_advance tables _ _ _ tracked.folds
    rw [forall_mem_append, forall_mem_map]
    exact ⟨free, fun earlier member => (agreed earlier member).1⟩
  unfold localAdvance
  dsimp only
  split_ifs with repeats
  · obtain ⟨stamp, held⟩ := Option.isSome_iff_exists.mp repeats
    obtain ⟨earlier, member, samePath, _⟩ := (tracked.seen _ _).mp held
    exact localTracks_repeat file ((agreed earlier member).2 samePath ▸ member) tracked folds
  · refine localTracks_fresh file ?_ tracked folds
    intro listed
    obtain ⟨earlier, member, samePath⟩ := mem_map.mp listed
    exact repeats (Option.isSome_iff_exists.mpr
      ⟨_, (tracked.seen _ _).mpr ⟨earlier, member, samePath, rfl⟩⟩)

def localSpec (tables : UnicodeTables) (evidence : PlanEvidence) (platforms : Platforms) (known : List JsString)
    (peer : OrderedMap JsString CensusRecord) :
    LoopSpec CensusRecord (planLocalRound tables evidence platforms) where
  Parses := LocalParses tables platforms known
  Agrees := LocalAgrees tables
  Tracks := LocalTracks tables evidence known peer
  advance := localAdvance tables evidence
  roundOk := fun _ _ raw next tracked => localRound_ok_iff platforms raw next tracked
  keeps := fun _ _ _ file tracked parsed agreed => localTracks_advance file tracked parsed.2 agreed

def aliasSpec (tables : UnicodeTables) (nameSpace : JsString) :
    LoopSpec JsString (fun seen path => assertNoPathAlias tables seen path nameSpace) where
  Parses := fun raw path => raw = path
  Agrees := NoAlias tables
  Tracks := FoldTracks tables
  advance := foldAdvance tables
  roundOk := by
    intro done seen raw next tracked
    simp only [exists_eq_left', assertNoPathAlias_ok_iff tables done seen next raw nameSpace tracked]
  keeps := fun done seen _ path tracked _ free => foldTracks_advance tables done seen path tracked free

/-- The peer loop's variables after the index entries visited so far. -/
structure PeerTracks (tables : UnicodeTables) (evidence : PlanEvidence) (known : List JsString)
    (start : List ReconcilePlanEntry) (done : List (JsString × CensusRecord))
    (pass : OrderedMap JsString JsString × List ReconcilePlanEntry) : Prop where
  folds : FoldTracks tables (known ++ done.map Prod.fst) pass.1
  decided : pass.2 = start ++ done.map (fun entry => planPeerFile evidence entry.1 entry.2)

def peerAdvance (tables : UnicodeTables) (evidence : PlanEvidence)
    (pass : OrderedMap JsString JsString × List ReconcilePlanEntry) (entry : JsString × CensusRecord) :
    OrderedMap JsString JsString × List ReconcilePlanEntry :=
  (foldAdvance tables pass.1 entry.1, pass.2 ++ [planPeerFile evidence entry.1 entry.2])

def peerSpec (tables : UnicodeTables) (evidence : PlanEvidence) (known : List JsString)
    (start : List ReconcilePlanEntry) :
    LoopSpec (JsString × CensusRecord) (planPeerRound tables evidence) where
  Parses := fun raw entry => raw = entry ∧ ∀ earlier ∈ known, NoAlias tables earlier entry.1
  Agrees := fun earlier later => NoAlias tables earlier.1 later.1
  Tracks := PeerTracks tables evidence known start
  advance := peerAdvance tables evidence
  roundOk := by
    intro done pass raw next tracked
    have names : (∀ earlier ∈ known ++ done.map Prod.fst, NoAlias tables earlier raw.1) ↔
        (∀ earlier ∈ known, NoAlias tables earlier raw.1) ∧ ∀ earlier ∈ done, NoAlias tables earlier.1 raw.1 := by
      rw [forall_mem_append, forall_mem_map]
    simp only [planPeerRound, bind_ok_iff, pure_ok_iff,
      assertNoPathAlias_ok_iff tables _ pass.1 _ raw.1 evidence.nameSpace tracked.folds, names, peerAdvance]
    constructor
    · rintro ⟨caseFold, ⟨⟨free, agreed⟩, rfl⟩, rfl⟩
      exact ⟨raw, ⟨rfl, free⟩, agreed, rfl⟩
    · rintro ⟨entry, ⟨rfl, free⟩, agreed, rfl⟩
      exact ⟨_, ⟨⟨free, agreed⟩, rfl⟩, rfl⟩
  keeps := by
    intro done pass raw entry tracked parsed agreed
    refine ⟨?_, ?_⟩
    · rw [map_append, ← append_assoc]
      apply foldTracks_advance tables _ _ _ tracked.folds
      rw [forall_mem_append, forall_mem_map]
      exact ⟨parsed.2, agreed⟩
    · rw [peerAdvance, tracked.decided, map_append, append_assoc]
      rfl

end Remnic.Reconcile.PlanRun
