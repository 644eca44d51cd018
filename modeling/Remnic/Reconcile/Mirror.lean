import Remnic.Reconcile.PlanResult

/-!
The planner under an exchange of its two sides. Every local/peer pair of the
planner's data is swapped by a mirror, and a plan commutes with it.
-/

namespace Remnic.Reconcile.Mirror
open Text.CodeUnits Library Library.GuardedFold List
open Reconcile.Census Reconcile.Plan Reconcile.PlanRun Reconcile.PlanResult

def mirrorAction : ReconcileAction → ReconcileAction
  | .pull => .push
  | .push => .pull
  | .identical => .identical
  | .conflict => .conflict
  | .suppress => .suppress

def mirrorResolution : ReconcileResolution → ReconcileResolution
  | .localWins => .peerWins
  | .peerWins => .localWins
  | .supersedeLink => .supersedeLink
  | .unresolved => .unresolved

def mirrorReason : ReconcileReason → ReconcileReason
  | .peerOnly => .localOnly
  | .localOnly => .peerOnly
  | .peerChanged => .localChanged
  | .localChanged => .peerChanged
  | .sameContent => .sameContent
  | .semanticDuplicate => .semanticDuplicate
  | .bothModified => .bothModified
  | .peerDeleted => .localDeleted
  | .localDeleted => .peerDeleted
  | .localModifiedPeerDeleted => .localDeletedPeerModified
  | .localDeletedPeerModified => .localModifiedPeerDeleted
  | .tombstoned => .tombstoned

def mirrorSide : SuppressSide → SuppressSide
  | .localCopy => .peerCopy
  | .peerCopy => .localCopy
  | .bothCopies => .bothCopies

def mirrorChange : ReconcileSemanticChange → ReconcileSemanticChange
  | .unchanged => .unchanged
  | .localChanged => .peerChanged
  | .peerChanged => .localChanged
  | .bothModified => .bothModified

def mirrorAgreement (agreement : ReconcileSemanticAgreement) : ReconcileSemanticAgreement :=
  ⟨agreement.peerFile, agreement.localFile⟩

/-- The entry the other participant writes about the same path. -/
def mirrorEntry (entry : ReconcilePlanEntry) : ReconcilePlanEntry :=
  { entry with
    action := mirrorAction entry.action
    reason := mirrorReason entry.reason
    localSha256 := entry.peerSha256
    peerSha256 := entry.localSha256
    resolution := entry.resolution.map mirrorResolution
    suppressSide := entry.suppressSide.map mirrorSide
    semanticAgreement := entry.semanticAgreement.map mirrorAgreement
    semanticChange := entry.semanticChange.map mirrorChange }

def mirrorInput (input : ReconcileNamespaceInput) : ReconcileNamespaceInput :=
  { input with
    localCensus := input.peerCensus
    peerCensus := input.localCensus
    localDeletionMtimeMs := input.peerDeletionMtimeMs
    peerDeletionMtimeMs := input.localDeletionMtimeMs
    tombstonedFileSha256 := input.peerTombstonedFileSha256
    peerTombstonedFileSha256 := input.tombstonedFileSha256 }

/-- The peer knows its own platform, or one like the caller's when none was advertised. -/
def mirrorOptions (processPlatform : JsString) (options : ReconcileOptions) : ReconcileOptions :=
  { options with
    localPlatform := some (options.peerPlatform.getD (options.localPlatform.getD processPlatform))
    peerPlatform := some (options.localPlatform.getD processPlatform) }

def mirrorEvidence (evidence : PlanEvidence) : PlanEvidence :=
  { evidence with
    tombstoned := evidence.peerTombstoned
    peerTombstoned := evidence.tombstoned
    localDeletionMtimeMs := evidence.peerDeletionMtimeMs
    peerDeletionMtimeMs := evidence.localDeletionMtimeMs }

variable (entry : ReconcilePlanEntry) (tables : UnicodeTables) (evidence : PlanEvidence) (processPlatform : JsString)
  (input : ReconcileNamespaceInput) (options : ReconcileOptions) (locals peers : List CensusRecord)

@[simp] theorem mirrorEntry_mirrorEntry : mirrorEntry (mirrorEntry entry) = entry := by
  obtain ⟨path, nameSpace, action, reason, localSha, peerSha, baseSha, resolution, deletion, side, agreement, change⟩ :=
    entry
  have actions : mirrorAction (mirrorAction action) = action := by cases action <;> rfl
  have reasons : mirrorReason (mirrorReason reason) = reason := by cases reason <;> rfl
  have resolutions : (resolution.map mirrorResolution).map mirrorResolution = resolution := by
    rcases resolution with _ | resolution
    · rfl
    · cases resolution <;> rfl
  have sides : (side.map mirrorSide).map mirrorSide = side := by
    rcases side with _ | side
    · rfl
    · cases side <;> rfl
  have changes : (change.map mirrorChange).map mirrorChange = change := by
    rcases change with _ | change
    · rfl
    · cases change <;> rfl
  have agreements : (agreement.map mirrorAgreement).map mirrorAgreement = agreement := by
    cases agreement <;> rfl
  simp only [mirrorEntry, actions, reasons, resolutions, sides, changes, agreements]

@[simp] theorem mirrorEvidence_mirrorEvidence : mirrorEvidence (mirrorEvidence evidence) = evidence := rfl

theorem retracted_mirror (sha256 : Sha256) : (mirrorEvidence evidence).retracted sha256 = evidence.retracted sha256 :=
  Bool.or_comm _ _

theorem resolveConflict_mirror (policy : ConvergeConflictPolicy) (localTime peerTime : Option CensusMtime)
    (missing : ReconcileResolution) :
    resolveConflict policy peerTime localTime (mirrorResolution missing) =
      mirrorResolution (resolveConflict policy localTime peerTime missing) := by
  unfold resolveConflict
  by_cases manual : policy ≠ .newestWins
  · rw [if_pos manual, if_pos manual]
    rfl
  · rw [if_neg manual, if_neg manual]
    rcases localTime with _ | localTime
    · cases peerTime <;> rfl
    · rcases peerTime with _ | peerTime
      · rfl
      · change (if peerTime = localTime then _ else if localTime.val < peerTime.val then _ else _) =
          mirrorResolution (if localTime = peerTime then _ else if peerTime.val < localTime.val then _ else _)
        by_cases same : localTime = peerTime
        · rw [if_pos same, if_pos same.symm]
        · have apart : localTime.val ≠ peerTime.val := fun equal => same (Subtype.ext equal)
          rw [if_neg same, if_neg (Ne.symm same)]
          rcases lt_or_gt_of_ne apart with before | after
          · rw [if_pos before, if_neg before.not_gt]
            rfl
          · rw [if_neg after.not_gt, if_pos after]
            rfl

private theorem mirror_peerWins (resolution : ReconcileResolution) :
    mirrorResolution resolution = .localWins ↔ resolution = .peerWins := by
  cases resolution <;> simp [mirrorResolution]

private theorem mirror_localWins (resolution : ReconcileResolution) :
    mirrorResolution resolution = .peerWins ↔ resolution = .localWins := by
  cases resolution <;> simp [mirrorResolution]

section Decisions

variable {evidence} {path : JsString} {here there : Option CensusRecord} {entry}

theorem plan_of_decided (decided : Decided evidence path here there entry)
    (localAt : ∀ file, here = some file → file.path = path) : decidePath evidence path here there = some entry := by
  cases decided with
  | @tombstoned here there retracted =>
    rcases here with _ | file
    · rcases there with _ | file
      · contradiction
      · simp only [decidePath, planPeerFile, show evidence.retracted file.sha256 = true from retracted, if_true]
        rfl
    · cases localAt file rfl
      exact congrArg some (if_pos retracted)
  | peerOnly kept unknown => simp [decidePath, planPeerFile, kept, unknown]
  | localDeleted kept known => simp [decidePath, planPeerFile, kept, known]
  | localDeletedPeerModified kept known edited resolved =>
    simp [decidePath, planPeerFile, kept, known, edited, resolved]
  | localOnly kept unknown =>
    cases localAt _ rfl
    simp [decidePath, planLocalFile, kept, unknown]
  | peerDeleted kept known =>
    cases localAt _ rfl
    simp [decidePath, planLocalFile, kept, known]
  | localModifiedPeerDeleted kept known edited resolved =>
    cases localAt _ rfl
    simp [decidePath, planLocalFile, kept, known, edited, resolved]
  | sameContent kept same =>
    cases localAt _ rfl
    simp [decidePath, planLocalFile, kept, same]
  | peerChanged keptLocal keptPeer different known =>
    cases localAt _ rfl
    simp [decidePath, planLocalFile, keptLocal, keptPeer, different, known]
  | localChanged keptLocal keptPeer different known =>
    cases localAt _ rfl
    simp [decidePath, planLocalFile, keptLocal, keptPeer, different, known]
  | bothModified keptLocal keptPeer different notLocal notPeer resolved =>
    cases localAt _ rfl
    simp [decidePath, planLocalFile, keptLocal, keptPeer, different, notLocal, notPeer, resolved]

theorem decided_mirror (decided : Decided evidence path here there entry) :
    Decided (mirrorEvidence evidence) path there here (mirrorEntry entry) := by
  have kept {sha256 : Sha256} : evidence.retracted sha256 = false → (mirrorEvidence evidence).retracted sha256 = false :=
    (retracted_mirror evidence sha256).trans
  have resolved {localTime peerTime : Option CensusMtime} {missing resolution : ReconcileResolution}
      (decided : resolveConflict evidence.policy localTime peerTime missing = resolution) :
      resolveConflict evidence.policy peerTime localTime (mirrorResolution missing) = mirrorResolution resolution :=
    (resolveConflict_mirror ..).trans (congrArg mirrorResolution decided)
  cases decided with
  | @tombstoned here there retracted =>
    have sides : ∀ left right : Bool, (left || right) = true →
        mirrorSide (if left && right then .bothCopies else if left then .localCopy else .peerCopy) =
          if right && left then .bothCopies else if right then .localCopy else .peerCopy := by
      decide
    have mirrored := @Decided.tombstoned (mirrorEvidence evidence) path there here
    simp only [retracted_mirror, ← sides _ _ retracted] at mirrored
    exact mirrored ((Bool.or_comm _ _).trans retracted)
  | peerOnly keptPeer unknown => exact .localOnly (kept keptPeer) unknown
  | localDeleted keptPeer known => exact .peerDeleted (kept keptPeer) known
  | localDeletedPeerModified keptPeer known edited decided =>
    simp only [mirrorEntry, ← mirror_localWins]
    exact .localModifiedPeerDeleted (kept keptPeer) known edited (resolved decided)
  | localOnly keptLocal unknown => exact .peerOnly (kept keptLocal) unknown
  | peerDeleted keptLocal known => exact .localDeleted (kept keptLocal) known
  | localModifiedPeerDeleted keptLocal known edited decided =>
    simp only [mirrorEntry, ← mirror_peerWins]
    exact .localDeletedPeerModified (kept keptLocal) known edited (resolved decided)
  | sameContent keptLocal same => exact .sameContent (by rw [same]; exact kept keptLocal) same.symm
  | peerChanged keptLocal keptPeer different known => exact .localChanged (kept keptPeer) (kept keptLocal) different.symm known
  | localChanged keptLocal keptPeer different known => exact .peerChanged (kept keptPeer) (kept keptLocal) different.symm known
  | bothModified keptLocal keptPeer different notLocal notPeer decided =>
    exact .bothModified (kept keptPeer) (kept keptLocal) different.symm notPeer notLocal (resolved decided)

end Decisions

theorem decidePath_mirror (path : JsString) (localFile peerFile : Option CensusRecord)
    (localAt : ∀ file, localFile = some file → file.path = path) (peerAt : ∀ file, peerFile = some file → file.path = path) :
    decidePath (mirrorEvidence evidence) path peerFile localFile =
      (decidePath evidence path localFile peerFile).map mirrorEntry := by
  cases decision : decidePath evidence path localFile peerFile with
  | none =>
    rcases localFile with _ | localFile
    · rcases peerFile with _ | peerFile
      · rfl
      · cases decision
    · cases decision
  | some entry => exact plan_of_decided (decided_mirror (decided_of_decidePath localAt decision)) peerAt

section Acceptance

variable {first second : Platforms} (same : isWindowsPlan first = isWindowsPlan second)
include same

private theorem isPortablePath_congr (path : JsString) : IsPortablePath first path ↔ IsPortablePath second path := by
  rw [IsPortablePath, IsPortablePath, same]

private theorem accepts_congr (file : ReconcileFileState) (record : CensusRecord) :
    Accepts first file record ↔ Accepts second file record := by
  have portable := isPortablePath_congr same record.path
  exact ⟨fun read => { read with portable := portable.mp read.portable },
    fun read => { read with portable := portable.mpr read.portable }⟩

private theorem readCensus_congr (files : List ReconcileFileState) (records : List CensusRecord) :
    ReadCensus first files records ↔ ReadCensus second files records := by
  have accepts : Accepts first = Accepts second := by
    funext file record
    exact propext (accepts_congr same file record)
  constructor
  · exact fun read => ⟨accepts ▸ read.accepted, read.agree⟩
  · exact fun read => ⟨accepts ▸ read.accepted, read.agree⟩

private theorem parseBase_congr (value : RawCollection ReconcileFileState) (nameSpace : JsString)
    (base : Option (OrderedMap JsString Sha256)) :
    parseBase value nameSpace first = .ok base ↔ parseBase value nameSpace second = .ok base := by
  have indexed : ∀ files index, indexDigestsByPath files .baseSide nameSpace first = .ok index ↔
      indexDigestsByPath files .baseSide nameSpace second = .ok index := by
    intro files index
    apply foldlM_ok_congr
    intro state raw next
    simp only [indexDigestsRound, bind_ok_iff, assertCensusRecord_ok_iff, accepts_congr same]
  cases value with
  | items files => simp only [parseBase, bind_ok_iff, indexed]
  | _ => rfl

private theorem parseDeletionMtimes_congr (value : RawCollection (JsString × MtimeValue)) {side other : CensusSide}
    {nameSpace : JsString} {parsed : OrderedMap JsString CensusMtime} :
    parseDeletionMtimes value side nameSpace first = .ok parsed ↔
      parseDeletionMtimes value other nameSpace second = .ok parsed := by
  cases value with
  | items deletions =>
    apply foldlM_ok_congr
    intro state raw next
    simp only [parseDeletionRound, guard_bind_ok_iff, assertArchivePath_ok_iff, assertPortablePathSegments_ok_iff,
      isPortablePath_congr same]
    simp only [bind_ok_iff, assertMtimeMs_ok_iff]
  | absent => rfl
  | bareString => simp [parseDeletionMtimes, refuse]
  | notIterable => simp [parseDeletionMtimes, refuse]

end Acceptance

private theorem parseTombstonedDigests_congr {value : RawCollection (Option JsString)}
    {nameSpace field other : JsString} {digests : List Sha256} :
    parseTombstonedDigests value nameSpace field = .ok digests ↔
      parseTombstonedDigests value nameSpace other = .ok digests := by
  cases value with
  | items values => simp only [parseTombstonedDigests, mapM_ok_iff, assertDigest_ok_iff]
  | absent => rfl
  | bareString => simp [parseTombstonedDigests, refuse]
  | notIterable => simp [parseTombstonedDigests, refuse]

theorem isWindowsPlan_mirror :
    isWindowsPlan (effectivePlatforms processPlatform (mirrorOptions processPlatform options)) =
      isWindowsPlan (effectivePlatforms processPlatform options) := by
  unfold isWindowsPlan effectivePlatforms mirrorOptions
  cases options.peerPlatform with
  | none => simp
  | some platform => simp [Bool.or_comm]

private theorem aliasFree_mirror :
    AliasFree tables (planPaths (mirrorEvidence evidence) peers locals) ↔
      AliasFree tables (planPaths evidence locals peers) := by
  apply aliasFree_congr
  intro path
  have sameBase : basePaths (mirrorEvidence evidence) = basePaths evidence := rfl
  simp only [planPaths, sameBase, mem_append]
  tauto

theorem reading_mirror (evidence : PlanEvidence) (locals peers : List CensusRecord) :
    Reading tables processPlatform (mirrorInput input) (mirrorOptions processPlatform options)
        (mirrorEvidence evidence) peers locals ↔
      Reading tables processPlatform input options evidence locals peers := by
  have windows := isWindowsPlan_mirror processPlatform options
  constructor
  · rintro ⟨nameSpace, policy, localRecords, peerRecords, base, tombstoned, peerTombstoned, localDeletions,
      peerDeletions, aliasFree⟩
    simp only [readCensus_congr windows] at localRecords peerRecords
    exact ⟨nameSpace, policy, peerRecords, localRecords, (parseBase_congr windows _ _ _).mp base,
      parseTombstonedDigests_congr.mp peerTombstoned,
      parseTombstonedDigests_congr.mp tombstoned,
      (parseDeletionMtimes_congr windows _).mp peerDeletions,
      (parseDeletionMtimes_congr windows _).mp localDeletions, (aliasFree_mirror _ _ _ _).mp aliasFree⟩
  · rintro ⟨nameSpace, policy, localRecords, peerRecords, base, tombstoned, peerTombstoned, localDeletions,
      peerDeletions, aliasFree⟩
    simp only [← readCensus_congr windows] at localRecords peerRecords
    exact ⟨nameSpace, policy, peerRecords, localRecords, (parseBase_congr windows _ _ _).mpr base,
      parseTombstonedDigests_congr.mp peerTombstoned,
      parseTombstonedDigests_congr.mp tombstoned,
      (parseDeletionMtimes_congr windows _).mpr peerDeletions,
      (parseDeletionMtimes_congr windows _).mpr localDeletions, (aliasFree_mirror _ _ _ _).mpr aliasFree⟩

theorem isPlan_mirror (entries : List ReconcilePlanEntry) (plan : IsPlan evidence locals peers entries) :
    IsPlan (mirrorEvidence evidence) peers locals (entries.map mirrorEntry) := by
  have recordPath : ∀ records path file, recordAt records path = some file → file.path = path := by
    intro records path file found
    simpa using find?_some found
  have flipped := fun path => decidePath_mirror evidence path (recordAt locals path) (recordAt peers path)
    (recordPath locals path) (recordPath peers path)
  refine ⟨pairwise_map.mpr plan.sorted, ?_⟩
  intro entry
  simp only [mem_map, plan.decided, flipped, Option.map_eq_some_iff]
  constructor
  · rintro ⟨original, ⟨path, decision⟩, rfl⟩
    exact ⟨path, original, decision, rfl⟩
  · rintro ⟨path, original, decision, rfl⟩
    exact ⟨original, ⟨path, decision⟩, rfl⟩

private theorem plan_of_mirror (entries : List ReconcilePlanEntry) :
    planNamespaceReconciliation tables processPlatform (mirrorInput input) (mirrorOptions processPlatform options) =
        .ok (entries.map mirrorEntry) ↔
      planNamespaceReconciliation tables processPlatform input options = .ok entries := by
  rw [planNamespaceReconciliation_ok_iff, planNamespaceReconciliation_ok_iff]
  constructor
  · rintro ⟨evidence, peers, locals, reading, plan⟩
    have back := isPlan_mirror evidence peers locals _ plan
    rw [map_map, (funext mirrorEntry_mirrorEntry : mirrorEntry ∘ mirrorEntry = id), map_id] at back
    exact ⟨mirrorEvidence evidence, locals, peers, (reading_mirror tables processPlatform input options
      (mirrorEvidence evidence) locals peers).mp reading, back⟩
  · rintro ⟨evidence, locals, peers, reading, plan⟩
    exact ⟨mirrorEvidence evidence, peers, locals,
      (reading_mirror tables processPlatform input options evidence locals peers).mpr reading,
      isPlan_mirror evidence locals peers entries plan⟩

/-- The planning side keeps its own revision and replaces the other's. -/
def overwritesPeer (entry : ReconcilePlanEntry) : Prop :=
  entry.action = .push ∨ entry.action = .conflict ∧ entry.resolution = some .localWins

/-- The planning side gives its own revision up for the other's. -/
def yieldsToPeer (entry : ReconcilePlanEntry) : Prop :=
  entry.action = .pull ∨ entry.action = .conflict ∧ entry.resolution = some .peerWins

theorem overwritesPeer_mirror : overwritesPeer (mirrorEntry entry) ↔ yieldsToPeer entry := by
  obtain ⟨_, _, action, _, _, _, _, resolution, _, _, _, _⟩ := entry
  rcases resolution with _ | resolution
  · cases action <;> simp [overwritesPeer, yieldsToPeer, mirrorEntry, mirrorAction]
  · cases action <;> cases resolution <;>
      simp [overwritesPeer, yieldsToPeer, mirrorEntry, mirrorAction, mirrorResolution]

theorem not_overwrites_and_yields : ¬(overwritesPeer entry ∧ yieldsToPeer entry) := by
  rintro ⟨push | ⟨conflict, winner⟩, pull | ⟨conflict', loser⟩⟩
  · exact absurd (push.symm.trans pull) (by decide)
  · exact absurd (push.symm.trans conflict') (by decide)
  · exact absurd (conflict.symm.trans pull) (by decide)
  · exact absurd (winner.symm.trans loser) (by decide)

theorem sortedByPath_inj {entries : List ReconcilePlanEntry} (sorted : SortedByPath entries)
    {a b : ReconcilePlanEntry} (memberA : a ∈ entries) (memberB : b ∈ entries) (samePath : a.path = b.path) : a = b := by
  have distinct : (entries.map ReconcilePlanEntry.path).Nodup :=
    pairwise_map.mpr (sorted.imp (fun before => before.ne))
  exact inj_on_of_nodup_map distinct memberA memberB samePath

/-- A plan and the plan with every local/peer argument exchanged mirror each other:
they are accepted together, agree path by path in the same order, and never let
both participants overwrite, or both give way, on one path. -/
theorem planNamespaceReconciliation_mirror (tables : UnicodeTables) (processPlatform : JsString)
    (input : ReconcileNamespaceInput) (options : ReconcileOptions) :
    (planNamespaceReconciliation tables processPlatform (mirrorInput input)
        (mirrorOptions processPlatform options)).toOption =
      (planNamespaceReconciliation tables processPlatform input options).toOption.map (List.map mirrorEntry) ∧
    ∀ mine theirs, planNamespaceReconciliation tables processPlatform input options = .ok mine →
      planNamespaceReconciliation tables processPlatform (mirrorInput input)
        (mirrorOptions processPlatform options) = .ok theirs →
      ∀ entry ∈ mine, ∀ other ∈ theirs, entry.path = other.path →
        other = mirrorEntry entry ∧ ¬(overwritesPeer entry ∧ overwritesPeer other) ∧
          ¬(yieldsToPeer entry ∧ yieldsToPeer other) := by
  have forward := plan_of_mirror tables processPlatform input options
  constructor
  · cases mine : planNamespaceReconciliation tables processPlatform input options with
    | ok entries =>
      rw [(forward entries).mpr mine]
      rfl
    | error fault =>
      cases theirs : planNamespaceReconciliation tables processPlatform (mirrorInput input)
          (mirrorOptions processPlatform options) with
      | error other => rfl
      | ok entries =>
        have back := (forward (entries.map mirrorEntry)).mp (by
          rw [map_map, (funext mirrorEntry_mirrorEntry : mirrorEntry ∘ mirrorEntry = id), map_id, theirs])
        rw [mine] at back
        cases back
  · intro mine theirs planned mirrored entry member other otherMember samePath
    have computed := mirrored.symm.trans ((forward mine).mpr planned)
    cases computed
    obtain ⟨original, originalMember, rfl⟩ := mem_map.mp otherMember
    obtain ⟨evidence, locals, peers, _, plan⟩ := planNamespaceReconciliation_ok_iff.mp planned
    cases sortedByPath_inj plan.sorted member originalMember samePath
    refine ⟨rfl, ?_, ?_⟩
    · rw [overwritesPeer_mirror]
      exact not_overwrites_and_yields entry
    · rintro ⟨yields, yieldsBack⟩
      have dual := overwritesPeer_mirror (mirrorEntry entry)
      rw [mirrorEntry_mirrorEntry] at dual
      exact not_overwrites_and_yields entry ⟨dual.mpr yieldsBack, yields⟩

end Remnic.Reconcile.Mirror
