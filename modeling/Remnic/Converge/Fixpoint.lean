import Remnic.Reconcile.PlanResult
import Remnic.Converge.Apply

/-!
Planning again after a plan was carried out. Each path ends in one of four
ways, and only a suppression that retracted one of two copies leaves work.
-/

namespace Remnic.Converge.Fixpoint
open Text.CodeUnits Library Library.GuardedFold List
open Reconcile.Census Reconcile.Plan Reconcile.PlanRun Reconcile.PlanResult
open Reconcile.Cursor Converge.Apply

/-- A suppression of the local copy beside a live copy on the peer. -/
def leavesPeerCopy (entry : ReconcilePlanEntry) : Bool :=
  entry.action = .suppress && entry.suppressSide = some .localCopy && entry.peerSha256.isSome

/-- A suppression of the peer's copy beside a live local copy. -/
def leavesLocalCopy (entry : ReconcilePlanEntry) : Bool :=
  entry.action = .suppress && entry.suppressSide = some .peerCopy && entry.localSha256.isSome

/-- The four ways a carried-out entry can leave the digests of its path. -/
inductive Aftermath (evidence : PlanEvidence) (entry : ReconcilePlanEntry) : Option Sha256 × Option Sha256 → Prop where
  | agreed (sha256 : Sha256) (kept : evidence.retracted sha256 = false)
      (base : digestAfterReconcile entry = some sha256) (noPeer : leavesPeerCopy entry = false)
      (noLocal : leavesLocalCopy entry = false) : Aftermath evidence entry (some sha256, some sha256)
  | gone (noPeer : leavesPeerCopy entry = false) (noLocal : leavesLocalCopy entry = false) :
      Aftermath evidence entry (none, none)
  | peerLeft (sha256 : Sha256) (kept : evidence.retracted sha256 = false) (base : digestAfterReconcile entry = none)
      (left : leavesPeerCopy entry = true) : Aftermath evidence entry (none, some sha256)
  | localLeft (sha256 : Sha256) (kept : evidence.retracted sha256 = false) (base : digestAfterReconcile entry = none)
      (left : leavesLocalCopy entry = true) : Aftermath evidence entry (some sha256, none)

def Settled (entry : ReconcilePlanEntry) : Prop := entry.action = .conflict → entry.needsOperator = false

instance (entry : ReconcilePlanEntry) : Decidable (Settled entry) := inferInstanceAs (Decidable (_ → _))

private theorem settled_resolution (resolution : ReconcileResolution)
    (settled : (some resolution = some ReconcileResolution.unresolved ∨
      some resolution = some ReconcileResolution.supersedeLink) → False) :
    resolution = .localWins ∨ resolution = .peerWins := by
  cases resolution with
  | localWins => exact Or.inl rfl
  | peerWins => exact Or.inr rfl
  | supersedeLink => exact absurd (Or.inr rfl) settled
  | unresolved => exact absurd (Or.inl rfl) settled

variable {path : JsString} {localFile peerFile : Option CensusRecord} {entry : ReconcilePlanEntry}
  {platforms : Platforms} {shas : Option Sha256 × Option Sha256}

/-- Every settled decision of the planner ends in one of the four ways. -/
theorem aftermath_of_decided {evidence : PlanEvidence} (decided : Decided evidence path localFile peerFile entry)
    (settled : Settled entry) :
    Aftermath evidence entry
      (outcomeOf entry (localFile.map CensusRecord.sha256) (peerFile.map CensusRecord.sha256)) := by
  cases decided with
  | tombstoned retracted =>
    rcases localFile with _ | here
    · rcases peerFile with _ | there
      · contradiction
      · exact .gone rfl rfl
    · cases atLocal : evidence.retracted here.sha256 with
      | true =>
        rcases peerFile with _ | there
        · simp only [Option.any_some, Option.any_none, atLocal]
          exact .gone rfl rfl
        · cases atPeer : evidence.retracted there.sha256 with
          | true =>
            simp only [Option.any_some, atLocal, atPeer]
            exact .gone rfl rfl
          | false =>
            simp only [Option.any_some, atLocal, atPeer]
            exact .peerLeft there.sha256 atPeer rfl rfl
      | false =>
        rw [Option.any_some, atLocal, Bool.false_or] at retracted
        simp only [Option.any_some, atLocal, retracted]
        obtain ⟨there, rfl, _⟩ := (Option.any_eq_true _ _).mp retracted
        exact .localLeft here.sha256 atLocal rfl rfl
  | peerOnly kept | localOnly kept => exact .agreed _ kept rfl rfl rfl
  | localDeleted | peerDeleted => exact absurd (settled rfl) (by simp [ReconcilePlanEntry.needsOperator])
  | localDeletedPeerModified kept =>
    rcases settled_resolution _ (by simpa [ReconcilePlanEntry.needsOperator] using settled rfl) with rfl | rfl
    · exact .gone rfl rfl
    · exact .agreed _ kept rfl rfl rfl
  | localModifiedPeerDeleted kept =>
    rcases settled_resolution _ (by simpa [ReconcilePlanEntry.needsOperator] using settled rfl) with rfl | rfl
    · exact .agreed _ kept rfl rfl rfl
    · exact .gone rfl rfl
  | @sameContent here _ kept same =>
    simp only [Option.map_some, same]
    refine .agreed here.sha256 kept ?_ rfl rfl
    simp [digestAfterReconcile]
  | peerChanged _ keptPeer => exact .agreed _ keptPeer rfl rfl rfl
  | localChanged keptLocal => exact .agreed _ keptLocal rfl rfl rfl
  | bothModified keptLocal keptPeer =>
    rcases settled_resolution _ (by simpa [ReconcilePlanEntry.needsOperator] using settled rfl) with rfl | rfl
    · exact .agreed _ keptLocal rfl rfl rfl
    · exact .agreed _ keptPeer rfl rfl rfl

private theorem Aftermath.kept {evidence : PlanEvidence} (left : Aftermath evidence entry shas) :
    (shas.1.any evidence.retracted || shas.2.any evidence.retracted) = false := by
  cases left with
  | agreed _ kept | peerLeft _ kept | localLeft _ kept => simp [kept]
  | gone => rfl

private theorem aftermath_shared {evidence : PlanEvidence} {here there : Sha256}
    (left : Aftermath evidence entry (some here, some there)) :
    there = here ∧ leavesPeerCopy entry = false ∧ leavesLocalCopy entry = false := by
  cases left with
  | agreed _ _ _ noPeer noLocal => exact ⟨rfl, noPeer, noLocal⟩

theorem decided_again {evidence later : PlanEvidence} {again : ReconcilePlanEntry}
    (left : Aftermath evidence entry (localFile.map CensusRecord.sha256, peerFile.map CensusRecord.sha256))
    (retractions : later.retracted = evidence.retracted)
    (base : later.baseSha256 entry.path = digestAfterReconcile entry)
    (decided : Decided later entry.path localFile peerFile again) :
    leavesPeerCopy entry = false ∧ leavesLocalCopy entry = false ∧ again.action = .identical ∨
      leavesPeerCopy entry = true ∧ again.action = .pull ∧ again.reason = .peerOnly ∨
      leavesLocalCopy entry = true ∧ again.action = .push ∧ again.reason = .localOnly := by
  cases decided with
  | tombstoned retracted =>
    have kept := left.kept
    rw [Option.any_map, Option.any_map, ← retractions] at kept
    exact absurd retracted (by simp [kept])
  | peerOnly =>
    cases left with
    | peerLeft _ _ _ leaves => exact Or.inr (Or.inl ⟨leaves, rfl, rfl⟩)
  | localOnly =>
    cases left with
    | localLeft _ _ _ leaves => exact Or.inr (Or.inr ⟨leaves, rfl, rfl⟩)
  | localDeleted _ known | localDeletedPeerModified _ known =>
    cases left with
    | peerLeft _ _ noBase => exact nomatch known.symm.trans (base.trans noBase)
  | peerDeleted _ known | localModifiedPeerDeleted _ known =>
    cases left with
    | localLeft _ _ noBase => exact nomatch known.symm.trans (base.trans noBase)
  | sameContent =>
    obtain ⟨_, noPeer, noLocal⟩ := aftermath_shared left
    exact Or.inl ⟨noPeer, noLocal, rfl⟩
  | peerChanged _ _ different | localChanged _ _ different | bothModified _ _ different =>
    exact absurd (aftermath_shared left).1 different

variable {Payload : Type}

private theorem corpusRecords_agree (digest : Payload → Sha256) (corpus : Corpus Payload) :
    (corpusRecords digest corpus).Pairwise Agree := by
  have apart : corpus.entries.Pairwise (fun a b => a.1 ≠ b.1) := pairwise_map.mp corpus.keysNodup
  refine pairwise_map.mpr (apart.imp ?_)
  intro a b different samePath
  exact absurd samePath different

theorem lookup_sha256 (digest : Payload → Sha256) (corpus : Corpus Payload) (path : JsString) :
    ((corpus.lookup path).map (censusRecord digest path)).map CensusRecord.sha256 = sha256At digest corpus path := by
  rw [Option.map_map]
  rfl

structure Lists (digest : Payload → Sha256) (raw : ReconcileFileState) (path : JsString) (file : StoredFile Payload) :
    Prop where
  path : raw.path = some path
  digest : raw.sha256.map asciiLower = some (digest file.content).val
  mtime : raw.mtimeMs = .ofCensus file.mtimeMs

/-- A census of a corpus: every record lists a stored file and every file is listed. -/
structure IsCensusOf (digest : Payload → Sha256) (corpus : Corpus Payload) (census : RawCollection ReconcileFileState) :
    Prop where
  listed : ∀ files, census = .items files → ∀ raw ∈ files, ∃ path file,
    corpus.lookup path = some file ∧ Lists digest raw path file
  complete : ∀ files, census = .items files → ∀ path file, corpus.lookup path = some file →
    ∃ raw ∈ files, Lists digest raw path file

private theorem accepts_lists {digest : Payload → Sha256} {raw : ReconcileFileState}
    {record : CensusRecord} {file : StoredFile Payload} (accepted : Accepts platforms raw record)
    (lists : Lists digest raw path file) : record = censusRecord digest path file := by
  obtain ⟨recordPath, sha256, mtime⟩ := record
  obtain ⟨text, held, _, lower⟩ := accepted.digest
  have samePath : recordPath = path := Option.some.inj (accepted.path.symm.trans lists.path)
  have sameSha : sha256 = digest file.content := by
    have read := lists.digest
    rw [held, Option.map_some, Option.some.injEq, lower] at read
    exact Subtype.ext read
  have sameTime : MtimeValue.ofCensus mtime = .ofCensus file.mtimeMs := accepted.mtime.symm.trans lists.mtime
  have sameMtime : mtime = file.mtimeMs := by
    cases mtime with
    | none => cases held : file.mtimeMs with
      | none => rfl
      | some time => rw [held] at sameTime; cases sameTime
    | some value => cases held : file.mtimeMs with
      | none => rw [held] at sameTime; cases sameTime
      | some time =>
        rw [held] at sameTime
        exact congrArg some (Subtype.ext (MtimeValue.finite.inj sameTime))
  rw [samePath, sameSha, sameMtime]
  rfl

theorem recordAt_census {digest : Payload → Sha256} {corpus : Corpus Payload}
    {census : RawCollection ReconcileFileState} {files : List ReconcileFileState} {records : List CensusRecord}
    (isCensus : IsCensusOf digest corpus census) (items : census = .items files)
    (read : ReadCensus platforms files records) (path : JsString) :
    recordAt records path = (corpus.lookup path).map (censusRecord digest path) := by
  apply Option.ext
  intro record
  rw [recordAt_eq_some_iff records read.agree, Option.map_eq_some_iff]
  constructor
  · intro ⟨member, atPath⟩
    obtain ⟨raw, rawMember, accepted⟩ := forall₂_mem_right read.accepted member
    obtain ⟨place, file, stored, lists⟩ := isCensus.listed files items raw rawMember
    have same := accepts_lists accepted lists
    subst same
    cases atPath
    exact ⟨file, stored, rfl⟩
  · intro ⟨file, stored, same⟩
    obtain ⟨raw, rawMember, lists⟩ := isCensus.complete files items path file stored
    obtain ⟨other, member, accepted⟩ := forall₂_mem_left read.accepted rawMember
    have equal := (accepts_lists accepted lists).trans same
    exact ⟨equal ▸ member, by rw [← same]; rfl⟩

private theorem recordAt_corpus (digest : Payload → Sha256) (corpus : Corpus Payload) (path : JsString) :
    recordAt (corpusRecords digest corpus) path = (corpus.lookup path).map (censusRecord digest path) := by
  have agree : (corpusRecords digest corpus).Pairwise Agree := corpusRecords_agree digest corpus
  apply Option.ext
  intro record
  rw [recordAt_eq_some_iff _ agree, Option.map_eq_some_iff]
  constructor
  · intro ⟨member, atPath⟩
    obtain ⟨entry, stored, rfl⟩ := mem_map.mp member
    cases atPath
    exact ⟨entry.2, (OrderedMap.lookup_eq_some_iff corpus _ _).mpr stored, rfl⟩
  · intro ⟨file, stored, same⟩
    subst same
    exact ⟨mem_map.mpr ⟨(path, file), (OrderedMap.lookup_eq_some_iff corpus _ _).mp stored, rfl⟩, rfl⟩

/-- The next run's arguments: the corpora as they now stand, and the derived base. -/
def nextInput (digest : Payload → Sha256) (tables : UnicodeTables) (input : ReconcileNamespaceInput)
    (entries : List ReconcilePlanEntry) (after : Replicas Payload) : ReconcileNamespaceInput :=
  { input with
    localCensus := .items (corpusCensus digest after.localFiles)
    peerCensus := .items (corpusCensus digest after.peerFiles)
    base := .items ((deriveConvergeCursorBase tables entries (input.nameSpace.getD []) []).baseFiles.map
      ConvergeCursorFileState.raw) }

section Finished

variable {digest : Payload → Sha256} {tables : UnicodeTables} {processPlatform : JsString}
  {input : ReconcileNamespaceInput} {options : ReconcileOptions} {evidence : PlanEvidence}
  {locals peers : List CensusRecord} {entries : List ReconcilePlanEntry} {before after : Replicas Payload}
  (reading : Reading tables processPlatform input options evidence locals peers)
  (plan : IsPlan evidence locals peers entries)
  (localCensus : ∀ path, recordAt locals path = (before.localFiles.lookup path).map (censusRecord digest path))
  (peerCensus : ∀ path, recordAt peers path = (before.peerFiles.lookup path).map (censusRecord digest path))
  (carried : CarriedAll digest entries before after)

include plan in
private theorem decidePath_none {path : JsString} (absent : ∀ entry ∈ entries, entry.path ≠ path) :
    recordAt locals path = none ∧ recordAt peers path = none := by
  cases decision : decidePath evidence path (recordAt locals path) (recordAt peers path) with
  | some entry =>
    have place := (decided_at decision).place
    exact absurd place.1 (absent entry ((plan.decided entry).mpr ⟨path, decision⟩))
  | none =>
    cases held : recordAt locals path with
    | some file => simp [held, decidePath] at decision
    | none =>
      cases there : recordAt peers path with
      | some file => simp [held, there, decidePath] at decision
      | none => exact ⟨rfl, rfl⟩

include plan localCensus peerCensus carried in
private theorem held_path {path : JsString}
    (held : after.localFiles.lookup path ≠ none ∨ after.peerFiles.lookup path ≠ none) :
    ∃ entry ∈ entries, entry.path = path := by
  by_contra missing
  have absent : ∀ entry ∈ entries, entry.path ≠ path := by
    intro entry member same
    exact missing ⟨entry, member, same⟩
  obtain ⟨noLocal, noPeer⟩ := decidePath_none plan absent
  rw [localCensus, Option.map_eq_none_iff] at noLocal
  rw [peerCensus, Option.map_eq_none_iff] at noPeer
  obtain ⟨sameLocal, samePeer⟩ := carried.frame path absent
  rw [sameLocal, samePeer] at held
  exact held.elim (absurd noLocal) (absurd noPeer)

include reading plan in
/-- The paths of a plan passed the path checks of the run that made it. -/
theorem entry_path {entry : ReconcilePlanEntry} (member : entry ∈ entries) :
    IsArchivePath entry.path ∧ IsPortablePath (effectivePlatforms processPlatform options) entry.path ∧
      entry.path ∈ planPaths evidence locals peers := by
  obtain ⟨files, _, readLocals⟩ := reading.localRecords
  obtain ⟨peerFiles, _, readPeers⟩ := reading.peerRecords
  have decision := (isPlan_entry plan member).1
  cases held : recordAt locals entry.path with
  | some file =>
    obtain ⟨listed, atPath⟩ := (recordAt_eq_some_iff locals readLocals.agree _ _).mp held
    obtain ⟨_, _, accepted⟩ := forall₂_mem_right readLocals.accepted listed
    rw [← atPath]
    exact ⟨accepted.archive, accepted.portable,
      mem_append_left _ (mem_append_right _ (mem_map_of_mem listed))⟩
  | none =>
    cases there : recordAt peers entry.path with
    | none => simp [held, there, decidePath] at decision
    | some file =>
      obtain ⟨listed, atPath⟩ := (recordAt_eq_some_iff peers readPeers.agree _ _).mp there
      obtain ⟨_, _, accepted⟩ := forall₂_mem_right readPeers.accepted listed
      rw [← atPath]
      exact ⟨accepted.archive, accepted.portable, mem_append_right _ (mem_map_of_mem listed)⟩

private theorem accepts_map (platforms : Platforms) (records : List CensusRecord)
    (good : ∀ record ∈ records, IsArchivePath record.path ∧ IsPortablePath platforms record.path) :
    Forall₂ (Accepts platforms) (records.map CensusRecord.raw) records := by
  rw [forall₂_map_left_iff, forall₂_same]
  exact fun record member => accepts_raw platforms record (good record member).1 (good record member).2

include reading plan in
private theorem readCensus_corpus (corpus : Corpus Payload)
    (paths : ∀ path, corpus.lookup path ≠ none → ∃ entry ∈ entries, entry.path = path) :
    ReadCensus (effectivePlatforms processPlatform options) (corpusCensus digest corpus)
      (corpusRecords digest corpus) := by
  refine ⟨accepts_map _ _ ?_, corpusRecords_agree digest corpus⟩
  intro record member
  obtain ⟨stored, held, rfl⟩ := mem_map.mp member
  have found := (OrderedMap.lookup_eq_some_iff corpus stored.1 stored.2).mpr held
  obtain ⟨entry, listed, samePath⟩ := paths stored.1 (by rw [found]; exact Option.some_ne_none _)
  obtain ⟨archive, portable, _⟩ := entry_path reading plan listed
  rw [samePath] at archive portable
  exact ⟨archive, portable⟩

include reading in
private theorem nameSpace_read : input.nameSpace.getD [] = evidence.nameSpace := by
  rw [assertNamespace_ok reading.nameSpace, Option.getD_some]

private def baseRecord (file : ConvergeCursorFileState) : CensusRecord := ⟨file.path, file.sha256, none⟩

variable (digest after) in
include reading plan in
private theorem parseBase_derived :
    ∃ index, parseBase (nextInput digest tables input entries after).base evidence.nameSpace
        (effectivePlatforms processPlatform options) = .ok (some index) ∧
      (∀ path sha256, index.lookup path = some sha256 ↔
        ∃ entry ∈ entries, digestAfterReconcile entry = some sha256 ∧ entry.path = path) := by
  let files := (deriveConvergeCursorBase tables entries (input.nameSpace.getD []) []).baseFiles
  have members : ∀ file, file ∈ files ↔
      ∃ entry ∈ entries, digestAfterReconcile entry = some file.sha256 ∧ entry.path = file.path := by
    intro file
    rw [mem_baseFiles, nameSpace_read reading]
    refine exists_congr (fun entry => and_congr_right (fun member => ?_))
    obtain ⟨_, space, plain⟩ := isPlan_entry plan member
    simp only [space, plain, true_and]
  have good : ∀ record ∈ files.map baseRecord, IsArchivePath record.path ∧
      IsPortablePath (effectivePlatforms processPlatform options) record.path := by
    intro record member
    obtain ⟨file, listed, rfl⟩ := mem_map.mp member
    obtain ⟨entry, held, _, samePath⟩ := (members file).mp listed
    obtain ⟨archive, portable, _⟩ := entry_path reading plan held
    rw [samePath] at archive portable
    exact ⟨archive, portable⟩
  have agree : (files.map baseRecord).Pairwise DigestsAgree := by
    apply pairwise_of_forall_mem_list
    intro first firstMember second secondMember samePath
    obtain ⟨firstFile, firstListed, rfl⟩ := mem_map.mp firstMember
    obtain ⟨secondFile, secondListed, rfl⟩ := mem_map.mp secondMember
    obtain ⟨one, oneMember, oneDigest, onePath⟩ := (members firstFile).mp firstListed
    obtain ⟨two, twoMember, twoDigest, twoPath⟩ := (members secondFile).mp secondListed
    have same := inj_on_of_nodup_map (isPlan_distinct plan) oneMember twoMember
      (onePath.trans (samePath.trans twoPath.symm))
    rw [same, twoDigest] at oneDigest
    exact (Option.some.inj oneDigest).symm
  obtain ⟨index, run, tracked⟩ := indexDigestsByPath_finishes _ .baseSide evidence.nameSpace
    (effectivePlatforms processPlatform options) _ (accepts_map _ _ good) agree
  refine ⟨index, ?_, ?_⟩
  · have sameRaw : files.map ConvergeCursorFileState.raw = (files.map baseRecord).map CensusRecord.raw := by
      rw [map_map]
      rfl
    change parseBase (.items (files.map ConvergeCursorFileState.raw)) _ _ = _
    simp only [parseBase, bind_ok_iff, pure_ok_iff]
    exact ⟨_, rfl, index, sameRaw ▸ run, rfl⟩
  · intro path sha256
    rw [tracked]
    constructor
    · intro kept
      obtain ⟨record, member, atPath, sameSha⟩ := kept
      obtain ⟨file, listed, rfl⟩ := mem_map.mp member
      obtain ⟨entry, held, digested, samePath⟩ := (members file).mp listed
      exact ⟨entry, held, digested.trans (congrArg some sameSha), samePath.trans atPath⟩
    · intro derived
      obtain ⟨entry, held, digested, samePath⟩ := derived
      exact ⟨baseRecord ⟨path, sha256⟩,
        mem_map_of_mem ((members ⟨path, sha256⟩).mpr ⟨entry, held, digested, samePath⟩), rfl, rfl⟩

include reading plan localCensus peerCensus carried in
/-- The next run reads its arguments: the corpora, and the base of this run. -/
private theorem reading_again :
    ∃ later, Reading tables processPlatform (nextInput digest tables input entries after) options later
        (corpusRecords digest after.localFiles) (corpusRecords digest after.peerFiles) ∧
      later.retracted = evidence.retracted ∧
      ∀ entry ∈ entries, later.baseSha256 entry.path = digestAfterReconcile entry := by
  obtain ⟨index, parsed, tracked⟩ := parseBase_derived digest after reading plan
  have inPlan : ∀ path, (∃ entry ∈ entries, entry.path = path) → path ∈ planPaths evidence locals peers := by
    intro path planned
    obtain ⟨entry, member, samePath⟩ := planned
    exact samePath ▸ (entry_path reading plan member).2.2
  have held : ∀ path, after.localFiles.lookup path ≠ none ∨ after.peerFiles.lookup path ≠ none →
      ∃ entry ∈ entries, entry.path = path := fun _ => held_path plan localCensus peerCensus carried
  refine ⟨{ evidence with base := some index }, ?_, rfl, ?_⟩
  · refine ⟨reading.nameSpace, reading.policy,
      ⟨_, rfl, readCensus_corpus reading plan _ (fun path some => held path (Or.inl some))⟩,
      ⟨_, rfl, readCensus_corpus reading plan _ (fun path some => held path (Or.inr some))⟩, parsed,
      reading.tombstoned, reading.peerTombstoned, reading.localDeletions, reading.peerDeletions, ?_⟩
    have known : ∀ path ∈ planPaths { evidence with base := some index } (corpusRecords digest after.localFiles)
        (corpusRecords digest after.peerFiles), path ∈ planPaths evidence locals peers := by
      intro path member
      apply inPlan
      simp only [planPaths, basePaths, mem_append] at member
      rcases member with (inBase | inLocal) | inPeer
      · obtain ⟨sha256, found⟩ := (OrderedMap.mem_keys_iff index path).mp inBase
        obtain ⟨entry, listed, _, samePath⟩ := (tracked path sha256).mp found
        exact ⟨entry, listed, samePath⟩
      · obtain ⟨record, listed, rfl⟩ := mem_map.mp inLocal
        obtain ⟨stored, member, rfl⟩ := mem_map.mp listed
        apply held _ (Or.inl _)
        change OrderedMap.lookup after.localFiles stored.1 ≠ none
        rw [(OrderedMap.lookup_eq_some_iff _ stored.1 stored.2).mpr member]
        exact Option.some_ne_none _
      · obtain ⟨record, listed, rfl⟩ := mem_map.mp inPeer
        obtain ⟨stored, member, rfl⟩ := mem_map.mp listed
        apply held _ (Or.inr _)
        change OrderedMap.lookup after.peerFiles stored.1 ≠ none
        rw [(OrderedMap.lookup_eq_some_iff _ stored.1 stored.2).mpr member]
        exact Option.some_ne_none _
    intro first inFirst second inSecond
    exact reading.aliasFree first (known first inFirst) second (known second inSecond)
  · intro entry member
    apply Option.ext
    intro sha256
    change index.lookup entry.path = some sha256 ↔ _
    rw [tracked]
    constructor
    · intro same
      obtain ⟨other, listed, digested, samePath⟩ := same
      rw [inj_on_of_nodup_map (isPlan_distinct plan) listed member samePath] at digested
      exact digested
    · intro digested
      exact ⟨entry, member, digested, rfl⟩

include localCensus peerCensus carried plan in
private theorem aftermath_entry {entry : ReconcilePlanEntry} (member : entry ∈ entries) (settled : Settled entry) :
    Aftermath evidence entry
      (sha256At digest after.localFiles entry.path, sha256At digest after.peerFiles entry.path) := by
  have ending := aftermath_of_decided (decided_at (isPlan_entry plan member).1) settled
  rw [localCensus, peerCensus, lookup_sha256, lookup_sha256] at ending
  rw [carried.outcome entry member]
  exact ending

end Finished

private theorem aftermath_peerLeft {evidence : PlanEvidence}
    (left : Aftermath evidence entry shas)
    (leaves : leavesPeerCopy entry = true) : shas.2 ≠ none := by
  cases left with
  | agreed sha256 => exact Option.some_ne_none _
  | gone noPeer => rw [noPeer] at leaves; cases leaves
  | peerLeft sha256 => exact Option.some_ne_none _
  | localLeft sha256 kept base left =>
    simp only [leavesPeerCopy, leavesLocalCopy, Bool.and_eq_true, decide_eq_true_eq] at leaves left
    rw [leaves.1.2] at left
    exact absurd left.1.2 (by decide)

private theorem aftermath_localLeft {evidence : PlanEvidence}
    (left : Aftermath evidence entry shas)
    (leaves : leavesLocalCopy entry = true) : shas.1 ≠ none := by
  cases left with
  | agreed sha256 => exact Option.some_ne_none _
  | gone _ noLocal => rw [noLocal] at leaves; cases leaves
  | localLeft sha256 => exact Option.some_ne_none _
  | peerLeft sha256 kept base left =>
    simp only [leavesPeerCopy, leavesLocalCopy, Bool.and_eq_true, decide_eq_true_eq] at leaves left
    rw [leaves.1.2] at left
    exact absurd left.1.2 (by decide)

private theorem decidePath_held (evidence : PlanEvidence) (path : JsString) (read : StoredFile Payload → CensusRecord)
    {localFile peerFile : Option (StoredFile Payload)} (held : localFile ≠ none ∨ peerFile ≠ none) :
    ∃ entry, decidePath evidence path (localFile.map read) (peerFile.map read) = some entry := by
  cases localFile with
  | some file => exact ⟨_, rfl⟩
  | none =>
    cases peerFile with
    | some file => exact ⟨_, rfl⟩
    | none => simp at held

theorem isCensusOf_corpus (digest : Payload → Sha256) (corpus : Corpus Payload) :
    IsCensusOf digest corpus (.items (corpusCensus digest corpus)) := by
  constructor
  · intro files same raw member
    cases same
    obtain ⟨record, listed, rfl⟩ := mem_map.mp member
    obtain ⟨stored, held, rfl⟩ := mem_map.mp listed
    refine ⟨stored.1, stored.2, (OrderedMap.lookup_eq_some_iff _ _ _).mpr held, rfl, ?_, rfl⟩
    exact congrArg some (digest stored.2.content).property.2
  · intro files same path file held
    cases same
    have stored := (OrderedMap.lookup_eq_some_iff _ _ _).mp held
    refine ⟨(censusRecord digest path file).raw, mem_map_of_mem (mem_map.mpr ⟨(path, file), stored, rfl⟩),
      rfl, ?_, rfl⟩
    exact congrArg some (digest file.content).property.2

/-- One path with a retracted local revision and a live peer revision, and one the peer alone holds. -/
def sampleReplicas : Replicas Sha256 :=
  ⟨OrderedMap.empty.set (text "a.md") ⟨digestA, none⟩,
    (OrderedMap.empty.set (text "a.md") ⟨digestB, none⟩).set (text "b.md") ⟨digestC, none⟩⟩

def sampleInput : ReconcileNamespaceInput where
  nameSpace := some (text "team")
  localCensus := .items (corpusCensus id sampleReplicas.localFiles)
  peerCensus := .items (corpusCensus id sampleReplicas.peerFiles)
  base := .absent
  localDeletionMtimeMs := .absent
  peerDeletionMtimeMs := .absent
  tombstonedFileSha256 := .items [some digestA.val]
  peerTombstonedFileSha256 := .absent

def sampleOptions : ReconcileOptions := ⟨none, some (text "linux"), none⟩

def samplePlan : List ReconcilePlanEntry :=
  [{ path := text "a.md", nameSpace := text "team", action := .suppress, reason := .tombstoned
     localSha256 := some digestA, peerSha256 := some digestB, suppressSide := some .localCopy },
   { path := text "b.md", nameSpace := text "team", action := .pull, reason := .peerOnly
     peerSha256 := some digestC }]

def sampleAfter : Replicas Sha256 :=
  { sampleReplicas with localFiles := OrderedMap.empty.set (text "b.md") ⟨digestC, none⟩ }

end Remnic.Converge.Fixpoint
