import Remnic.Reconcile.PlanRun

/-!
The result of an accepted plan in terms of its inputs: strictly sorted by path,
with exactly the decisions of the paths the two censuses hold.
-/

namespace Remnic.Reconcile.PlanResult
open Text.CodeUnits Library Library.GuardedFold List
open Reconcile.Census Reconcile.Plan Reconcile.PlanRun

theorem entryLe_iff (a b : ReconcilePlanEntry) :
    EntryLe a b ↔ a.nameSpace < b.nameSpace ∨ a.nameSpace = b.nameSpace ∧ a.path ≤ b.path := by
  unfold EntryLe compareReconcilePlanEntries
  by_cases sameSpace : a.nameSpace = b.nameSpace
  · by_cases samePath : a.path = b.path
    · simp [sameSpace, samePath, Ordering.isLE]
    · by_cases before : a.path < b.path
      · simp [sameSpace, samePath, before, before.le, Ordering.isLE]
      · simp [sameSpace, samePath, before, Ordering.isLE, (lt_of_le_of_ne (not_lt.mp before) (Ne.symm samePath))]
  · by_cases before : a.nameSpace < b.nameSpace
    · simp [sameSpace, before, Ordering.isLE]
    · simp [sameSpace, before, Ordering.isLE]

instance : Std.Total EntryLe where
  total a b := by
    rw [entryLe_iff, entryLe_iff]
    rcases lt_trichotomy a.nameSpace b.nameSpace with before | same | after
    · exact Or.inl (Or.inl before)
    · rcases le_total a.path b.path with below | above
      · exact Or.inl (Or.inr ⟨same, below⟩)
      · exact Or.inr (Or.inr ⟨same.symm, above⟩)
    · exact Or.inr (Or.inl after)

instance : IsTrans ReconcilePlanEntry EntryLe where
  trans a b c := by
    rw [entryLe_iff, entryLe_iff, entryLe_iff]
    rintro (first | ⟨sameFirst, first⟩) (second | ⟨sameSecond, second⟩)
    · exact Or.inl (first.trans second)
    · exact Or.inl (sameSecond ▸ first)
    · exact Or.inl (sameFirst ▸ second)
    · exact Or.inr ⟨sameFirst.trans sameSecond, first.trans second⟩

def SortedByPath (entries : List ReconcilePlanEntry) : Prop :=
  entries.Pairwise (fun a b => a.path < b.path)

variable {first : List ReconcilePlanEntry} {localFile : Option CensusRecord} {entry : ReconcilePlanEntry}
  {second : List ReconcilePlanEntry} {peerFile : Option CensusRecord} (records : List CensusRecord)
  (seen : OrderedMap JsString JsString) (nameSpace : JsString) (entries : List ReconcilePlanEntry) (arguments : PlanArguments)

theorem mem_sortEntries (entry : ReconcilePlanEntry) : entry ∈ sortEntries entries ↔ entry ∈ entries :=
  (perm_insertionSort EntryLe entries).mem_iff

theorem sortedByPath_of_ordered (nameSpace : JsString) (ordered : entries.Pairwise EntryLe)
    (oneSpace : ∀ entry ∈ entries, entry.nameSpace = nameSpace) (distinct : (entries.map ReconcilePlanEntry.path).Nodup) :
    SortedByPath entries := by
  have apart : entries.Pairwise (fun a b => a.path ≠ b.path) := pairwise_map.mp distinct
  refine Pairwise.imp_of_mem ?_ (ordered.and apart)
  rintro a b memberA memberB ⟨le, different⟩
  rcases (entryLe_iff a b).mp le with before | ⟨_, below⟩
  · exact absurd ((oneSpace a memberA).trans (oneSpace b memberB).symm) before.ne
  · exact lt_of_le_of_ne below different

theorem sortEntries_sortedByPath (nameSpace : JsString) (oneSpace : ∀ entry ∈ entries, entry.nameSpace = nameSpace)
    (distinct : (entries.map ReconcilePlanEntry.path).Nodup) : SortedByPath (sortEntries entries) :=
  sortedByPath_of_ordered _ nameSpace (pairwise_insertionSort EntryLe entries)
    (fun entry member => oneSpace entry ((mem_sortEntries entries entry).mp member))
    (((perm_insertionSort EntryLe entries).map _).nodup_iff.mpr distinct)

theorem sortedByPath_ext (first second : List ReconcilePlanEntry) (sortedFirst : SortedByPath first)
    (sortedSecond : SortedByPath second) (same : ∀ entry, entry ∈ first ↔ entry ∈ second) : first = second := by
  have nodupFirst : first.Nodup := sortedFirst.imp (fun before equal => absurd (equal ▸ before) (lt_irrefl _))
  have nodupSecond : second.Nodup := sortedSecond.imp (fun before equal => absurd (equal ▸ before) (lt_irrefl _))
  refine Perm.eq_of_pairwise ?_ sortedFirst sortedSecond ((perm_ext_iff_of_nodup nodupFirst nodupSecond).mpr same)
  intro a b _ _ before after
  exact absurd (before.trans after) (lt_irrefl _)

def recordAt (records : List CensusRecord) (path : JsString) : Option CensusRecord :=
  records.find? (fun record => record.path = path)

theorem aliasFree_iff_pairwise (tables : UnicodeTables) (paths : List JsString) :
    AliasFree tables paths ↔ paths.Pairwise (NoAlias tables) := by
  constructor
  · exact pairwise_of_forall_mem_list
  · intro pairwise
    refine Pairwise.forall_of_forall_of_flip (fun path _ _ => rfl) pairwise (pairwise.imp ?_)
    intro first second free sameFold
    exact (free sameFold.symm).symm

theorem aliasFree_append (tables : UnicodeTables) (front back : List JsString) :
    AliasFree tables (front ++ back) ↔ AliasFree tables front ∧ AliasFree tables back ∧
      ∀ first ∈ front, ∀ second ∈ back, NoAlias tables first second := by
  rw [aliasFree_iff_pairwise, aliasFree_iff_pairwise, aliasFree_iff_pairwise, pairwise_append]

theorem aliasFree_congr (tables : UnicodeTables) (first second : List JsString)
    (same : ∀ path, path ∈ first ↔ path ∈ second) : AliasFree tables first ↔ AliasFree tables second := by
  simp only [AliasFree, same]

theorem recordAt_eq_some_iff (agree : records.Pairwise Agree) (path : JsString) (record : CensusRecord) :
    recordAt records path = some record ↔ record ∈ records ∧ record.path = path := by
  have total : ∀ first ∈ records, ∀ second ∈ records, Agree first second :=
    Pairwise.forall_of_forall_of_flip (fun _ _ _ => rfl) agree
      (agree.imp (fun agreed samePath => (agreed samePath.symm).symm))
  constructor
  · intro found
    exact ⟨mem_of_find?_eq_some found, by simpa using find?_some found⟩
  · rintro ⟨member, atPath⟩
    have hit : (recordAt records path).isSome := by
      rw [recordAt, find?_isSome]
      exact ⟨record, member, by simpa using atPath⟩
    obtain ⟨other, found⟩ := Option.isSome_iff_exists.mp hit
    have otherPath : other.path = path := by simpa using find?_some found
    rw [found, total other (mem_of_find?_eq_some found) record member (otherPath.trans atPath.symm)]

/-- The decision for one path: the local loop's when a local record exists. -/
def decidePath (evidence : PlanEvidence) (path : JsString) :
    Option CensusRecord → Option CensusRecord → Option ReconcilePlanEntry
  | some localFile, peerFile => some (planLocalFile evidence localFile peerFile)
  | none, some peerFile => some (planPeerFile evidence path peerFile)
  | none, none => none

variable {path : JsString}

theorem recordAt_path {records : List CensusRecord} {file : CensusRecord}
    (found : recordAt records path = some file) : file.path = path := by
  simpa using find?_some found

theorem decided_of_decidePath {evidence : PlanEvidence} (localAt : ∀ file, localFile = some file → file.path = path)
    (decision : decidePath evidence path localFile peerFile = some entry) : Decided evidence path localFile peerFile entry := by
  rcases localFile with _ | localFile
  · rcases peerFile with _ | peerFile
    · cases decision
    · rw [decidePath, Option.some.injEq] at decision
      subst decision
      exact decided_planPeerFile evidence path peerFile
  · rw [decidePath, Option.some.injEq] at decision
    subst decision
    rw [← localAt localFile rfl]
    exact decided_planLocalFile evidence localFile peerFile

/-- What each reason says about the action and the digests of the two sides and the base. -/
def ReasonHolds (entry : ReconcilePlanEntry) (localSha256 peerSha256 baseSha256 : Option Sha256) : Prop :=
  match entry.reason with
  | .peerOnly => entry.action = .pull ∧ localSha256 = none ∧ peerSha256 ≠ none ∧ baseSha256 = none
  | .localOnly => entry.action = .push ∧ localSha256 ≠ none ∧ peerSha256 = none ∧ baseSha256 = none
  | .sameContent => entry.action = .identical ∧ localSha256 ≠ none ∧ localSha256 = peerSha256
  | .peerChanged => entry.action = .pull ∧ localSha256 ≠ none ∧ peerSha256 ≠ none ∧ localSha256 ≠ peerSha256
  | .localChanged => entry.action = .push ∧ localSha256 ≠ none ∧ peerSha256 ≠ none ∧ localSha256 ≠ peerSha256
  | .bothModified => entry.action = .conflict ∧ localSha256 ≠ none ∧ peerSha256 ≠ none ∧ localSha256 ≠ peerSha256
  | .peerDeleted => entry.action = .conflict ∧ localSha256 ≠ none ∧ peerSha256 = none
  | .localModifiedPeerDeleted => entry.action = .conflict ∧ localSha256 ≠ none ∧ peerSha256 = none
  | .localDeleted => entry.action = .conflict ∧ localSha256 = none ∧ peerSha256 ≠ none
  | .localDeletedPeerModified => entry.action = .conflict ∧ localSha256 = none ∧ peerSha256 ≠ none
  | .tombstoned => entry.action = .suppress
  | .semanticDuplicate => False

theorem reasonHolds_of_decided {evidence : PlanEvidence} (decided : Decided evidence path localFile peerFile entry) :
    ReasonHolds entry (localFile.map CensusRecord.sha256) (peerFile.map CensusRecord.sha256)
      (evidence.baseSha256 path) := by
  have apart {here there : Sha256} (different : there ≠ here) : some here ≠ some there :=
    fun equal => different (Option.some.inj equal).symm
  cases decided with
  | tombstoned => exact rfl
  | peerOnly _ unknown => exact ⟨rfl, rfl, Option.some_ne_none _, unknown⟩
  | localDeleted | localDeletedPeerModified => exact ⟨rfl, rfl, Option.some_ne_none _⟩
  | localOnly _ unknown => exact ⟨rfl, Option.some_ne_none _, rfl, unknown⟩
  | peerDeleted | localModifiedPeerDeleted => exact ⟨rfl, Option.some_ne_none _, rfl⟩
  | sameContent _ same => exact ⟨rfl, Option.some_ne_none _, congrArg some same.symm⟩
  | peerChanged _ _ different | localChanged _ _ different | bothModified _ _ different =>
    exact ⟨rfl, Option.some_ne_none _, Option.some_ne_none _, apart different⟩

theorem recordAt_eq_none_iff (path : JsString) : recordAt records path = none ↔ path ∉ records.map CensusRecord.path := by
  simp only [recordAt, find?_eq_none, decide_eq_true_eq, mem_map, not_exists, not_and]

theorem decidePath_of_held (evidence : PlanEvidence) (locals peers : List CensusRecord) (path : JsString)
    (held : path ∈ locals.map CensusRecord.path ∨ path ∈ peers.map CensusRecord.path) :
    ∃ entry, decidePath evidence path (recordAt locals path) (recordAt peers path) = some entry := by
  cases here : recordAt locals path with
  | some file => exact ⟨_, rfl⟩
  | none =>
    cases there : recordAt peers path with
    | some file => exact ⟨_, rfl⟩
    | none =>
      rw [recordAt_eq_none_iff] at here there
      exact absurd held (not_or.mpr ⟨here, there⟩)

theorem held_of_decidePath {evidence : PlanEvidence} {locals peers : List CensusRecord}
    (decision : decidePath evidence path (recordAt locals path) (recordAt peers path) = some entry) :
    path ∈ locals.map CensusRecord.path ∨ path ∈ peers.map CensusRecord.path := by
  by_contra neither
  rw [not_or, ← recordAt_eq_none_iff, ← recordAt_eq_none_iff] at neither
  simp [neither.1, neither.2, decidePath] at decision

theorem decided_at {evidence : PlanEvidence} {locals peers : List CensusRecord}
    (decision : decidePath evidence path (recordAt locals path) (recordAt peers path) = some entry) :
    Decided evidence path (recordAt locals path) (recordAt peers path) entry :=
  decided_of_decidePath (fun _ found => recordAt_path found) decision

structure IsPlan (evidence : PlanEvidence) (locals peers : List CensusRecord) (entries : List ReconcilePlanEntry) :
    Prop where
  sorted : SortedByPath entries
  decided : ∀ entry, entry ∈ entries ↔
    ∃ path, decidePath evidence path (recordAt locals path) (recordAt peers path) = some entry

theorem isPlan_entry {evidence : PlanEvidence} {locals peers : List CensusRecord} {entries : List ReconcilePlanEntry}
    (plan : IsPlan evidence locals peers entries) (member : entry ∈ entries) :
    decidePath evidence entry.path (recordAt locals entry.path) (recordAt peers entry.path) = some entry ∧
      entry.nameSpace = evidence.nameSpace ∧ entry.semanticAgreement = none := by
  obtain ⟨path, decision⟩ := (plan.decided entry).mp member
  obtain ⟨rfl, space, plain⟩ := (decided_at decision).place
  exact ⟨decision, space, plain⟩

theorem isPlan_distinct {evidence : PlanEvidence} {locals peers : List CensusRecord}
    {entries : List ReconcilePlanEntry} (plan : IsPlan evidence locals peers entries) :
    (entries.map ReconcilePlanEntry.path).Nodup :=
  pairwise_map.mpr (plan.sorted.imp (fun before => before.ne))

theorem isPlan_unique {evidence : PlanEvidence} {locals peers : List CensusRecord} (one : IsPlan evidence locals peers first)
    (two : IsPlan evidence locals peers second) : first = second :=
  sortedByPath_ext first second one.sorted two.sorted
    (fun entry => (one.decided entry).trans (two.decided entry).symm)

theorem index_lookup (agree : records.Pairwise Agree) (index : OrderedMap JsString CensusRecord)
    (tracked : IndexTracks records index) (path : JsString) : index.lookup path = recordAt records path := by
  apply Option.ext
  intro record
  rw [tracked, recordAt_eq_some_iff records agree]

variable {tables : UnicodeTables} {evidence : PlanEvidence} {known : List JsString}
  {peer : OrderedMap JsString CensusRecord} {locals peers : List CensusRecord} {pass : LocalPass}
  {result : OrderedMap JsString JsString × List ReconcilePlanEntry}

private theorem mem_unconsumed (agreePeers : peers.Pairwise Agree) (indexed : IndexTracks peers peer)
    (tracked : LocalTracks tables evidence known peer locals pass) (path : JsString) (file : CensusRecord) :
    (path, file) ∈ pass.peer.entries ↔ recordAt peers path = some file ∧ recordAt locals path = none := by
  rw [← OrderedMap.lookup_eq_some_iff, tracked.unconsumed, index_lookup peers agreePeers peer indexed,
    recordAt_eq_none_iff]

private theorem mem_result (agreeLocals : locals.Pairwise Agree) (agreePeers : peers.Pairwise Agree)
    (indexed : IndexTracks peers peer) (tracked : LocalTracks tables evidence known peer locals pass)
    (rest : result.2 = pass.entries ++ pass.peer.entries.map (fun entry => planPeerFile evidence entry.1 entry.2))
    (entry : ReconcilePlanEntry) :
    entry ∈ result.2 ↔
      ∃ path, decidePath evidence path (recordAt locals path) (recordAt peers path) = some entry := by
  rw [rest, mem_append, tracked.decided, mem_map]
  constructor
  · rintro (⟨file, member, rfl⟩ | ⟨⟨path, file⟩, member, rfl⟩)
    · refine ⟨file.path, ?_⟩
      rw [(recordAt_eq_some_iff locals agreeLocals _ _).mpr ⟨member, rfl⟩, index_lookup peers agreePeers peer indexed]
      rfl
    · obtain ⟨held, absent⟩ := (mem_unconsumed agreePeers indexed tracked path file).mp member
      exact ⟨path, by rw [absent, held]; rfl⟩
  · rintro ⟨path, decision⟩
    cases localRecord : recordAt locals path with
    | some file =>
      obtain ⟨member, rfl⟩ := (recordAt_eq_some_iff locals agreeLocals _ _).mp localRecord
      rw [localRecord, decidePath, Option.some.injEq] at decision
      exact Or.inl ⟨file, member, by rw [index_lookup peers agreePeers peer indexed, decision]⟩
    | none =>
      cases peerRecord : recordAt peers path with
      | none => simp [localRecord, peerRecord, decidePath] at decision
      | some file =>
        rw [localRecord, peerRecord, decidePath, Option.some.injEq] at decision
        exact Or.inr ⟨(path, file), (mem_unconsumed agreePeers indexed tracked path file).mpr
          ⟨peerRecord, localRecord⟩, decision⟩

private theorem result_distinct (tracked : LocalTracks tables evidence known peer locals pass)
    (rest : result.2 = pass.entries ++ pass.peer.entries.map (fun entry => planPeerFile evidence entry.1 entry.2)) :
    (result.2.map ReconcilePlanEntry.path).Nodup := by
  have peerPaths : (pass.peer.entries.map (fun entry => planPeerFile evidence entry.1 entry.2)).map
      ReconcilePlanEntry.path = pass.peer.keys := by
    rw [map_map, OrderedMap.keys]
    exact map_congr_left (fun entry _ => (decided_planPeerFile evidence entry.1 entry.2).place.1)
  rw [rest, map_append, peerPaths, nodup_append]
  refine ⟨tracked.distinct, pass.peer.keysNodup, ?_⟩
  intro path isLocal other isPeer samePath
  obtain ⟨entry, member, rfl⟩ := mem_map.mp isLocal
  obtain ⟨file, listed, rfl⟩ := (tracked.decided entry).mp member
  obtain ⟨held, found⟩ := (OrderedMap.mem_keys_iff pass.peer other).mp isPeer
  rw [(decided_planLocalFile _ _ _).place.1] at samePath
  exact ((tracked.unconsumed other held).mp found).2 (mem_map.mpr ⟨file, listed, samePath⟩)

theorem isPlan_of_tracks (agreeLocals : locals.Pairwise Agree) (agreePeers : peers.Pairwise Agree)
    (indexed : IndexTracks peers peer) (tracked : LocalTracks tables evidence known peer locals pass)
    (rest : result.2 = pass.entries ++ pass.peer.entries.map (fun entry => planPeerFile evidence entry.1 entry.2)) :
    IsPlan evidence locals peers (sortEntries result.2) := by
  refine ⟨sortEntries_sortedByPath result.2 evidence.nameSpace ?_ (result_distinct tracked rest), ?_⟩
  · intro entry member
    rw [rest, mem_append, tracked.decided, mem_map] at member
    rcases member with ⟨file, _, rfl⟩ | ⟨peerEntry, _, rfl⟩
    · exact (decided_planLocalFile evidence file _).place.2.1
    · exact (decided_planPeerFile evidence _ _).place.2.1
  · intro entry
    rw [mem_sortEntries]
    exact mem_result agreeLocals agreePeers indexed tracked rest entry

def basePaths (evidence : PlanEvidence) : List JsString :=
  match evidence.base with
  | none => []
  | some base => base.keys

def planPaths (evidence : PlanEvidence) (locals peers : List CensusRecord) : List JsString :=
  basePaths evidence ++ locals.map CensusRecord.path ++ peers.map CensusRecord.path

private theorem foldTracks_empty : FoldTracks tables [] .empty := by
  intro folded path
  simp

private theorem registerBasePaths_eq : registerBasePaths tables evidence = (basePaths evidence).foldlM
    (fun seen path => assertNoPathAlias tables seen path evidence.nameSpace) .empty := by
  unfold registerBasePaths basePaths
  cases evidence.base with
  | none => rfl
  | some base => rfl

private theorem registerBasePaths_reads (run : registerBasePaths tables evidence = .ok seen) :
    AliasFree tables (basePaths evidence) ∧ FoldTracks tables (basePaths evidence) seen := by
  rw [registerBasePaths_eq] at run
  obtain ⟨paths, parsed, pairwise, tracked⟩ :=
    (aliasSpec tables evidence.nameSpace).run_reads _ _ seen foldTracks_empty run
  have equal : basePaths evidence = paths := forall₂_eq_eq_eq ▸ parsed
  exact equal ▸ ⟨(aliasFree_iff_pairwise tables paths).mpr pairwise, tracked⟩

private theorem registerBasePaths_finishes (free : AliasFree tables (basePaths evidence)) :
    ∃ seen, registerBasePaths tables evidence = .ok seen ∧ FoldTracks tables (basePaths evidence) seen := by
  rw [registerBasePaths_eq]
  exact (aliasSpec tables evidence.nameSpace).run_finishes _ _ _ foldTracks_empty
    (forall₂_same.mpr (fun _ _ => rfl)) ((aliasFree_iff_pairwise tables _).mp free)

private theorem localTracks_start (tracked : FoldTracks tables known seen) :
    LocalTracks tables evidence known peer [] ⟨seen, .empty, peer, []⟩ := by
  refine ⟨by simpa using tracked, ?_, ?_, ?_, by simp⟩
  · intro path stamp
    simp
  · intro path file
    simp
  · intro entry
    simp

private theorem aliasFree_planPaths (indexed : IndexTracks peers peer)
    (tracked : LocalTracks tables evidence (basePaths evidence) peer locals pass) :
    AliasFree tables (planPaths evidence locals peers) ↔
      (AliasFree tables (basePaths evidence) ∧
        (∀ file ∈ locals, ∀ earlier ∈ basePaths evidence, NoAlias tables earlier file.path) ∧
        locals.Pairwise (fun a b => NoAlias tables a.path b.path)) ∧
      (∀ entry ∈ pass.peer.entries, ∀ earlier ∈ basePaths evidence ++ locals.map CensusRecord.path,
        NoAlias tables earlier entry.1) ∧
      pass.peer.entries.Pairwise (fun a b => NoAlias tables a.1 b.1) := by
  have sameNames : ∀ path, path ∈ planPaths evidence locals peers ↔
      path ∈ (basePaths evidence ++ locals.map CensusRecord.path) ++ pass.peer.entries.map Prod.fst := by
    intro path
    have consumed : path ∈ peers.map CensusRecord.path ↔
        path ∈ locals.map CensusRecord.path ∧ path ∈ peers.map CensusRecord.path ∨
          path ∈ pass.peer.entries.map Prod.fst := by
      have left : path ∈ pass.peer.entries.map Prod.fst ↔
          path ∈ peers.map CensusRecord.path ∧ path ∉ locals.map CensusRecord.path := by
        rw [← OrderedMap.keys, OrderedMap.mem_keys_iff]
        simp only [tracked.unconsumed, exists_and_right, indexed path, mem_map]
      rw [left]
      tauto
    simp only [planPaths, mem_append]
    tauto
  rw [aliasFree_congr tables _ _ sameNames, aliasFree_append, aliasFree_append, aliasFree_iff_pairwise tables
    (locals.map CensusRecord.path), aliasFree_iff_pairwise tables (pass.peer.entries.map Prod.fst),
    pairwise_map, pairwise_map]
  simp only [forall_mem_map]
  constructor
  · rintro ⟨⟨base, pairs, cross⟩, rest, outer⟩
    exact ⟨⟨base, fun file member earlier old => cross earlier old file member, pairs⟩,
      fun entry member earlier old => outer earlier old entry member, rest⟩
  · rintro ⟨⟨base, cross, pairs⟩, outer, rest⟩
    exact ⟨⟨base, pairs, fun earlier old file member => cross file member earlier old⟩, rest,
      fun earlier old entry member => outer entry member earlier old⟩

private theorem peerTracks_start (start : List ReconcilePlanEntry) (folds : FoldTracks tables known seen) :
    PeerTracks tables evidence known start [] (seen, start) :=
  ⟨by simpa using folds, by simp⟩

private theorem peerRun_reads (rest : List (JsString × CensusRecord)) (seen : OrderedMap JsString JsString)
    (start : List ReconcilePlanEntry) (folds : FoldTracks tables known seen)
    (run : rest.foldlM (planPeerRound tables evidence) (seen, start) = .ok result) :
    ((∀ entry ∈ rest, ∀ earlier ∈ known, NoAlias tables earlier entry.1) ∧
      rest.Pairwise (fun a b => NoAlias tables a.1 b.1)) ∧
      result.2 = start ++ rest.map (fun entry => planPeerFile evidence entry.1 entry.2) := by
  obtain ⟨entries, parsed, pairwise, tracked⟩ :=
    (peerSpec tables evidence known start).run_reads rest _ result (peerTracks_start seen start folds) run
  obtain ⟨parsed, free⟩ := forall₂_and_right.mp parsed
  have equal : rest = entries := forall₂_eq_eq_eq ▸ parsed
  exact equal ▸ ⟨⟨free, pairwise⟩, tracked.decided⟩

private theorem peerRun_finishes (rest : List (JsString × CensusRecord)) (seen : OrderedMap JsString JsString)
    (start : List ReconcilePlanEntry) (folds : FoldTracks tables known seen)
    (free : ∀ entry ∈ rest, ∀ earlier ∈ known, NoAlias tables earlier entry.1)
    (apart : rest.Pairwise (fun a b => NoAlias tables a.1 b.1)) :
    ∃ result, rest.foldlM (planPeerRound tables evidence) (seen, start) = .ok result ∧
      result.2 = start ++ rest.map (fun entry => planPeerFile evidence entry.1 entry.2) := by
  obtain ⟨result, run, tracked⟩ := (peerSpec tables evidence known start).run_finishes rest rest _
    (peerTracks_start seen start folds)
    (forall₂_and_right.mpr ⟨forall₂_same.mpr (fun _ _ => rfl), free⟩) apart
  exact ⟨result, run, tracked.decided⟩

private theorem localRun_reads (platforms : Platforms) (files : List ReconcileFileState) (start final : LocalPass)
    (tracked : LocalTracks tables evidence known peer [] start)
    (run : files.foldlM (planLocalRound tables evidence platforms) start = .ok final) :
    ∃ locals, ReadCensus platforms files locals ∧
      ((∀ file ∈ locals, ∀ earlier ∈ known, NoAlias tables earlier file.path) ∧
        locals.Pairwise (fun a b => NoAlias tables a.path b.path)) ∧
      LocalTracks tables evidence known peer locals final := by
  obtain ⟨locals, parsed, pairwise, done⟩ :=
    (localSpec tables evidence platforms known peer).run_reads files start final tracked run
  obtain ⟨accepted, free⟩ := forall₂_and_right.mp parsed
  exact ⟨locals, ⟨accepted, pairwise.imp And.right⟩, ⟨free, pairwise.imp And.left⟩, done⟩

private theorem planArguments_reads (agreePeers : peers.Pairwise Agree) (indexed : IndexTracks peers arguments.peer)
    (entries : List ReconcilePlanEntry) (run : planArguments tables arguments = .ok entries) :
    ∃ locals, ReadCensus arguments.platforms arguments.localCensus locals ∧
      AliasFree tables (planPaths arguments.evidence locals peers) ∧ IsPlan arguments.evidence locals peers entries := by
  simp only [planArguments, bind_ok_iff, pure_ok_iff] at run
  obtain ⟨seen, baseRun, pass, localRun, result, peerRun, rfl⟩ := run
  obtain ⟨freeBase, folds⟩ := registerBasePaths_reads seen baseRun
  obtain ⟨locals, read, free, tracked⟩ := localRun_reads _ _ _ _ (localTracks_start seen folds) localRun
  obtain ⟨freePeer, decided⟩ := peerRun_reads _ _ _ tracked.folds peerRun
  exact ⟨locals, read, (aliasFree_planPaths indexed tracked).mpr ⟨⟨freeBase, free⟩, freePeer⟩,
    isPlan_of_tracks read.agree agreePeers indexed tracked decided⟩

private theorem planArguments_finishes (agreePeers : peers.Pairwise Agree) (indexed : IndexTracks peers arguments.peer)
    (read : ReadCensus arguments.platforms arguments.localCensus locals)
    (aliasFree : AliasFree tables (planPaths arguments.evidence locals peers)) :
    ∃ entries, planArguments tables arguments = .ok entries ∧ IsPlan arguments.evidence locals peers entries := by
  obtain ⟨freeBase, freeLocal, cross⟩ :=
    (aliasFree_append tables _ _).mp ((aliasFree_append tables _ _).mp aliasFree).1
  obtain ⟨seen, baseRun, folds⟩ := registerBasePaths_finishes freeBase
  have free : ∀ file ∈ locals, ∀ earlier ∈ basePaths arguments.evidence, NoAlias tables earlier file.path :=
    fun file member earlier old => cross earlier old file.path (mem_map_of_mem member)
  have apart := pairwise_map.mp ((aliasFree_iff_pairwise tables _).mp freeLocal)
  obtain ⟨pass, localRun, tracked⟩ := (localSpec tables arguments.evidence arguments.platforms
    (basePaths arguments.evidence) arguments.peer).run_finishes arguments.localCensus locals _
    (localTracks_start seen folds) (forall₂_and_right.mpr ⟨read.accepted, free⟩) (apart.and read.agree)
  obtain ⟨_, freePeer, apartPeer⟩ := (aliasFree_planPaths indexed tracked).mp aliasFree
  obtain ⟨result, peerRun, decided⟩ := peerRun_finishes _ _ _ tracked.folds freePeer apartPeer
  refine ⟨sortEntries result.2, ?_, isPlan_of_tracks read.agree agreePeers indexed tracked decided⟩
  simp only [planArguments, bind_ok_iff, pure_ok_iff]
  exact ⟨seen, baseRun, pass, localRun, result, peerRun, rfl⟩

/-- The platforms an options record makes the portability checks cover. -/
def effectivePlatforms (processPlatform : JsString) (options : ReconcileOptions) : Platforms :=
  [some (options.localPlatform.getD processPlatform), options.peerPlatform]

structure Reading (tables : UnicodeTables) (processPlatform : JsString) (input : ReconcileNamespaceInput)
    (options : ReconcileOptions) (evidence : PlanEvidence) (locals peers : List CensusRecord) : Prop where
  nameSpace : assertNamespace tables input.nameSpace = .ok evidence.nameSpace
  policy : assertConflictPolicy options.conflictPolicy = .ok evidence.policy
  localRecords : ∃ files, input.localCensus = .items files ∧
    ReadCensus (effectivePlatforms processPlatform options) files locals
  peerRecords : ∃ files, input.peerCensus = .items files ∧
    ReadCensus (effectivePlatforms processPlatform options) files peers
  base : parseBase input.base evidence.nameSpace (effectivePlatforms processPlatform options) = .ok evidence.base
  tombstoned : parseTombstonedDigests input.tombstonedFileSha256 evidence.nameSpace
    (text "tombstonedFileSha256") = .ok evidence.tombstoned
  peerTombstoned : parseTombstonedDigests input.peerTombstonedFileSha256 evidence.nameSpace
    (text "peerTombstonedFileSha256") = .ok evidence.peerTombstoned
  localDeletions : parseDeletionMtimes input.localDeletionMtimeMs .localSide evidence.nameSpace
    (effectivePlatforms processPlatform options) = .ok evidence.localDeletionMtimeMs
  peerDeletions : parseDeletionMtimes input.peerDeletionMtimeMs .peerSide evidence.nameSpace
    (effectivePlatforms processPlatform options) = .ok evidence.peerDeletionMtimeMs
  aliasFree : AliasFree tables (planPaths evidence locals peers)

private theorem assertIterable_ok_iff {Item : Type} (value : RawCollection Item) (side : CensusSide)
    (nameSpace : JsString) (items : List Item) :
    assertIterable value side nameSpace = .ok items ↔ value = .items items := by
  cases value <;> simp [assertIterable, refuse]

private theorem parsePlanArguments_ok_iff (tables : UnicodeTables) (processPlatform : JsString)
    (input : ReconcileNamespaceInput) (options : ReconcileOptions) (arguments : PlanArguments) :
    parsePlanArguments tables processPlatform input options = .ok arguments ↔
      ∃ nameSpace, assertNamespace tables input.nameSpace = .ok nameSpace ∧
      ∃ policy, assertConflictPolicy options.conflictPolicy = .ok policy ∧
      ∃ files, input.localCensus = .items files ∧
      ∃ peerFiles, input.peerCensus = .items peerFiles ∧
      ∃ peer, indexByPath peerFiles .peerSide nameSpace (effectivePlatforms processPlatform options) = .ok peer ∧
      ∃ base, parseBase input.base nameSpace (effectivePlatforms processPlatform options) = .ok base ∧
      ∃ tombstoned, parseTombstonedDigests input.tombstonedFileSha256 nameSpace
        (text "tombstonedFileSha256") = .ok tombstoned ∧
      ∃ peerTombstoned, parseTombstonedDigests input.peerTombstonedFileSha256 nameSpace
        (text "peerTombstonedFileSha256") = .ok peerTombstoned ∧
      ∃ localDeletions, parseDeletionMtimes input.localDeletionMtimeMs .localSide nameSpace
        (effectivePlatforms processPlatform options) = .ok localDeletions ∧
      ∃ peerDeletions, parseDeletionMtimes input.peerDeletionMtimeMs .peerSide nameSpace
        (effectivePlatforms processPlatform options) = .ok peerDeletions ∧
      arguments = ⟨⟨nameSpace, policy, base, tombstoned, peerTombstoned, localDeletions, peerDeletions⟩,
        effectivePlatforms processPlatform options, files, peer⟩ := by
  simp only [parsePlanArguments, bind_ok_iff, pure_ok_iff, assertIterable_ok_iff]
  rfl

theorem reading_plans {tables : UnicodeTables} {processPlatform : JsString} {input : ReconcileNamespaceInput}
    {options : ReconcileOptions} {evidence : PlanEvidence} {locals peers : List CensusRecord}
    (reading : Reading tables processPlatform input options evidence locals peers) :
    ∃ entries, planNamespaceReconciliation tables processPlatform input options = .ok entries ∧
      IsPlan evidence locals peers entries := by
  obtain ⟨files, okLocal, readLocals⟩ := reading.localRecords
  obtain ⟨peerFiles, okPeer, readPeers⟩ := reading.peerRecords
  obtain ⟨index, okIndex, indexed⟩ := indexByPath_finishes _ .peerSide evidence.nameSpace _ _ readPeers
  have parsed : parsePlanArguments tables processPlatform input options =
      .ok ⟨evidence, effectivePlatforms processPlatform options, files, index⟩ := by
    rw [parsePlanArguments_ok_iff]
    exact ⟨evidence.nameSpace, reading.nameSpace, evidence.policy, reading.policy, files, okLocal, peerFiles, okPeer,
      index, okIndex, evidence.base, reading.base, evidence.tombstoned, reading.tombstoned,
      evidence.peerTombstoned, reading.peerTombstoned, evidence.localDeletionMtimeMs, reading.localDeletions,
      evidence.peerDeletionMtimeMs, reading.peerDeletions, rfl⟩
  obtain ⟨entries, planned, plan⟩ := planArguments_finishes
    ⟨evidence, effectivePlatforms processPlatform options, files, index⟩ readPeers.agree indexed readLocals
    reading.aliasFree
  refine ⟨entries, ?_, plan⟩
  rw [planNamespaceReconciliation, bind_ok_iff]
  exact ⟨_, parsed, planned⟩

/-- A call is accepted with a plan exactly when its arguments have a reading, and
the plan is then the one of that reading. -/
theorem planNamespaceReconciliation_ok_iff {tables : UnicodeTables} {processPlatform : JsString}
    {input : ReconcileNamespaceInput} {options : ReconcileOptions} {entries : List ReconcilePlanEntry} :
    planNamespaceReconciliation tables processPlatform input options = .ok entries ↔
      ∃ evidence locals peers, Reading tables processPlatform input options evidence locals peers ∧
        IsPlan evidence locals peers entries := by
  constructor
  · intro run
    rw [planNamespaceReconciliation, bind_ok_iff] at run
    obtain ⟨arguments, parsed, planned⟩ := run
    rw [parsePlanArguments_ok_iff] at parsed
    obtain ⟨nameSpace, okSpace, policy, okPolicy, files, okLocal, peerFiles, okPeer, index, okIndex, base, okBase,
      tombstoned, okTombstoned, peerTombstoned, okPeerTombstoned, localDeletions, okLocalDeletions, peerDeletions,
      okPeerDeletions, rfl⟩ := parsed
    obtain ⟨peers, readPeers, indexed⟩ := indexByPath_reads _ _ _ _ _ okIndex
    obtain ⟨locals, readLocals, aliasFree, plan⟩ := planArguments_reads _ readPeers.agree indexed entries planned
    refine ⟨⟨nameSpace, policy, base, tombstoned, peerTombstoned, localDeletions, peerDeletions⟩, locals, peers,
      ?_, plan⟩
    exact ⟨okSpace, okPolicy, ⟨files, okLocal, readLocals⟩, ⟨peerFiles, okPeer, readPeers⟩, okBase, okTombstoned,
      okPeerTombstoned, okLocalDeletions, okPeerDeletions, aliasFree⟩
  · rintro ⟨evidence, locals, peers, reading, plan⟩
    obtain ⟨computed, planned, computedPlan⟩ := reading_plans reading
    rw [isPlan_unique plan computedPlan]
    exact planned

def ofNamespace (nameSpace : JsString) (entries : List ReconcilePlanEntry) : List ReconcilePlanEntry :=
  entries.filter (fun entry => entry.nameSpace = nameSpace)

theorem mem_ofNamespace (entry : ReconcilePlanEntry) :
    entry ∈ ofNamespace nameSpace entries ↔ entry ∈ entries ∧ entry.nameSpace = nameSpace := by
  rw [ofNamespace, mem_filter, decide_eq_true_eq]

theorem ofNamespace_append (front back : List ReconcilePlanEntry) :
    ofNamespace nameSpace (front ++ back) = ofNamespace nameSpace front ++ ofNamespace nameSpace back :=
  filter_append ..

theorem ofNamespace_own (own : ∀ entry ∈ entries, entry.nameSpace = nameSpace) : ofNamespace nameSpace entries = entries :=
  filter_eq_self.mpr (fun entry member => by simpa using own entry member)

theorem ofNamespace_other (other : ∀ entry ∈ entries, entry.nameSpace ≠ nameSpace) : ofNamespace nameSpace entries = [] :=
  filter_eq_nil_iff.mpr (fun entry member => by simpa using other entry member)

theorem ofNamespace_perm (perm : first.Perm second) :
    (ofNamespace nameSpace first).Perm (ofNamespace nameSpace second) := perm.filter _

section Namespaces

variable {tables : UnicodeTables} {processPlatform : JsString} {options : ReconcileOptions}

variable {input : ReconcileNamespaceInput}

private theorem plan_nameSpace {nameSpace : JsString} {entries : List ReconcilePlanEntry}
    (named : assertNamespace tables input.nameSpace = .ok nameSpace)
    (planned : planNamespaceReconciliation tables processPlatform input options = .ok entries) :
    SortedByPath entries ∧ ∀ entry ∈ entries, entry.nameSpace = nameSpace := by
  obtain ⟨evidence, locals, peers, reading, plan⟩ := planNamespaceReconciliation_ok_iff.mp planned
  have same : nameSpace = evidence.nameSpace := Except.ok.inj (named.symm.trans reading.nameSpace)
  exact ⟨plan.sorted, fun entry member => (isPlan_entry plan member).2.1.trans same.symm⟩

private theorem planNamespaces_reads (inputs : List ReconcileNamespaceInput)
    (pass result : List JsString × List ReconcilePlanEntry)
    (run : inputs.foldlM (planNamespaceRound tables processPlatform options) pass = .ok result) :
    (∀ nameSpace ∈ pass.1, ofNamespace nameSpace result.2 = ofNamespace nameSpace pass.2) ∧
      ((∀ entry ∈ pass.2, entry.nameSpace ∈ pass.1) → ∀ input ∈ inputs, ∃ nameSpace,
        assertNamespace tables input.nameSpace = .ok nameSpace ∧
          planNamespaceReconciliation tables processPlatform input options = .ok (ofNamespace nameSpace result.2)) := by
  induction inputs generalizing pass with
  | nil =>
    rw [foldlM_nil, pure_ok_iff] at run
    subst run
    exact ⟨fun _ _ => rfl, by simp⟩
  | cons input inputs ih =>
    rw [foldlM_cons, bind_ok_iff] at run
    obtain ⟨next, round, rest⟩ := run
    rw [planNamespaceRound, bind_ok_iff] at round
    obtain ⟨name, named, round⟩ := round
    split_ifs at round with repeated
    · cases round
    rw [bind_ok_iff] at round
    obtain ⟨entries, planned, round⟩ := round
    rw [pure_ok_iff] at round
    subst round
    obtain ⟨_, own⟩ := plan_nameSpace named planned
    rw [contains_iff_mem] at repeated
    obtain ⟨kept, gathered⟩ := ih _ rest
    constructor
    · intro nameSpace known
      have apart : name ≠ nameSpace := fun same => repeated (same ▸ known)
      rw [kept nameSpace (mem_cons_of_mem _ known), ofNamespace_append,
        ofNamespace_other nameSpace entries (fun entry member => by rw [own entry member]; exact apart), append_nil]
    · intro registered
      have registeredNext : ∀ entry ∈ pass.2 ++ entries, entry.nameSpace ∈ name :: pass.1 := by
        intro entry member
        rcases mem_append.mp member with old | new
        · exact mem_cons_of_mem _ (registered entry old)
        · rw [own entry new]
          exact mem_cons_self
      rintro other (_ | ⟨_, member⟩)
      · refine ⟨name, named, ?_⟩
        rw [kept name mem_cons_self, ofNamespace_append,
          ofNamespace_other name pass.2 (fun entry member same => repeated (same ▸ registered entry member)),
          ofNamespace_own name entries own, nil_append]
        exact planned
      · exact gathered registeredNext other member

theorem planReconciliation_namespace {inputs : List ReconcileNamespaceInput} {plan : ReconcilePlan}
    (planned : planReconciliation tables processPlatform inputs options = .ok plan) (member : input ∈ inputs) : ∃ nameSpace,
      assertNamespace tables input.nameSpace = .ok nameSpace ∧
        planNamespaceReconciliation tables processPlatform input options = .ok (ofNamespace nameSpace plan.entries) := by
  simp only [planReconciliation, bind_ok_iff, pure_ok_iff] at planned
  obtain ⟨_, _, pass, run, rfl⟩ := planned
  obtain ⟨nameSpace, named, own⟩ := (planNamespaces_reads inputs ([], []) pass run).2 (by simp) input member
  obtain ⟨sorted, inSpace⟩ := plan_nameSpace named own
  refine ⟨nameSpace, named, ?_⟩
  have resorted : SortedByPath (ofNamespace nameSpace (sortEntries pass.2)) := by
    refine sortedByPath_of_ordered _ nameSpace ((pairwise_insertionSort EntryLe _).sublist filter_sublist)
      (fun entry listed => ((mem_ofNamespace _ _ _).mp listed).2) ?_
    have perm := (ofNamespace_perm nameSpace (perm_insertionSort EntryLe pass.2)).map ReconcilePlanEntry.path
    exact perm.nodup_iff.mpr (pairwise_map.mpr (sorted.imp (fun before => before.ne)))
  rw [sortedByPath_ext _ _ resorted sorted (fun entry => by
    rw [mem_ofNamespace, mem_ofNamespace, mem_sortEntries])]
  exact own

end Namespaces

end Remnic.Reconcile.PlanResult
