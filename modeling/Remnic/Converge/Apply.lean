import Remnic.Reconcile.Cursor

/-!
Carrying a plan out on two corpora. File contents stay abstract: the apply
loop reads them through their digest only, and every write and deletion is
guarded by the digest the plan saw.
-/

namespace Remnic.Converge.Apply
open Text.CodeUnits Library List Option OrderedMap
open Reconcile.Census Reconcile.Plan

structure StoredFile (Payload : Type) where
  content : Payload
  mtimeMs : Option CensusMtime
deriving DecidableEq

abbrev Corpus (Payload : Type) := OrderedMap JsString (StoredFile Payload)

/-- The files of one namespace on the two participants. -/
structure Replicas (Payload : Type) where
  localFiles : Corpus Payload
  peerFiles : Corpus Payload
deriving DecidableEq

inductive TransferType where
  | pull
  | push
  | deleteLocal
  | deletePeer
  | suppress
  | nothing
deriving DecidableEq

def transferType (entry : ReconcilePlanEntry) : TransferType :=
  match entry.action with
  | .pull => .pull
  | .push => .push
  | .suppress => .suppress
  | .identical => .nothing
  | .conflict =>
    match entry.resolution with
    | some .peerWins => if entry.peerSha256.isSome then .pull else .deleteLocal
    | some .localWins => if entry.localSha256.isSome then .push else .deletePeer
    | _ => .nothing

def localPath (entry : ReconcilePlanEntry) : JsString :=
  match entry.semanticAgreement with
  | some agreement => agreement.localFile.path
  | none => entry.path

def peerPath (entry : ReconcilePlanEntry) : JsString :=
  match entry.semanticAgreement with
  | some agreement => agreement.peerFile.path
  | none => entry.path

variable {Payload : Type} (digest : Payload → Sha256) (prefersIncoming : JsString → Bool)

def sha256At (corpus : Corpus Payload) (path : JsString) : Option Sha256 :=
  (corpus.lookup path).map (fun file => digest file.content)

/-- A received file replaces the current one only where the sender's base says so. -/
def receiveFile (corpus : Corpus Payload) (path : JsString) (incoming : StoredFile Payload)
    (baseSha256 : Option Sha256) : Option (Corpus Payload) :=
  match corpus.lookup path with
  | some current =>
    if digest current.content = digest incoming.content then
      some (corpus.set path { current with mtimeMs := incoming.mtimeMs })
    else if prefersIncoming path || baseSha256 = some (digest current.content) then some (corpus.set path incoming)
    else none
  | none => if prefersIncoming path || baseSha256 = none then some (corpus.set path incoming) else none

def deleteFile (corpus : Corpus Payload) (path : JsString) (expected : Option Sha256) : Option (Corpus Payload) :=
  match expected, corpus.lookup path with
  | some sha256, some current => if digest current.content = sha256 then some (corpus.erase path) else none
  | _, _ => none

def pullEntry (entry : ReconcilePlanEntry) (replicas : Replicas Payload) : Option (Replicas Payload) :=
  let expectedLocalSha256 := if entry.action = .conflict then entry.localSha256 else entry.baseSha256
  match replicas.peerFiles.lookup (peerPath entry) with
  | none => none
  | some remote =>
    if entry.peerSha256.any (fun sha256 => sha256 ≠ digest remote.content) then none
    else
      (receiveFile digest prefersIncoming replicas.localFiles (localPath entry) remote expectedLocalSha256).map
        (fun files => { replicas with localFiles := files })

def pushEntry (entry : ReconcilePlanEntry) (replicas : Replicas Payload) : Option (Replicas Payload) :=
  let expectedPeerSha256 := if entry.action = .conflict then entry.peerSha256 else entry.baseSha256
  match entry.localSha256, replicas.localFiles.lookup (localPath entry) with
  | some sha256, some current =>
    if digest current.content ≠ sha256 then none
    else
      (receiveFile digest prefersIncoming replicas.peerFiles (peerPath entry) current expectedPeerSha256).map
        (fun files => { replicas with peerFiles := files })
  | _, _ => none

def deleteLocalEntry (entry : ReconcilePlanEntry) (replicas : Replicas Payload) : Option (Replicas Payload) :=
  (deleteFile digest replicas.localFiles (localPath entry) entry.localSha256).map
    (fun files => { replicas with localFiles := files })

def deletePeerEntry (entry : ReconcilePlanEntry) (replicas : Replicas Payload) : Option (Replicas Payload) :=
  (deleteFile digest replicas.peerFiles (peerPath entry) entry.peerSha256).map
    (fun files => { replicas with peerFiles := files })

def suppressEntry (entry : ReconcilePlanEntry) (replicas : Replicas Payload) : Option (Replicas Payload) :=
  match entry.suppressSide with
  | none => none
  | some .localCopy => deleteLocalEntry digest entry replicas
  | some .peerCopy => deletePeerEntry digest entry replicas
  | some .bothCopies => (deleteLocalEntry digest entry replicas).bind (deletePeerEntry digest entry)

/-- One entry's transfer; a transfer counted as failed is `none`. -/
def executeTransferEntry (entry : ReconcilePlanEntry) (replicas : Replicas Payload) : Option (Replicas Payload) :=
  match transferType entry with
  | .pull => pullEntry digest prefersIncoming entry replicas
  | .push => pushEntry digest prefersIncoming entry replicas
  | .deleteLocal => deleteLocalEntry digest entry replicas
  | .deletePeer => deletePeerEntry digest entry replicas
  | .suppress => suppressEntry digest entry replicas
  | .nothing => some replicas

/-- The apply loop over the actionable entries, when none fails. -/
def executeTransfers (entries : List ReconcilePlanEntry) (replicas : Replicas Payload) : Option (Replicas Payload) :=
  (entries.filter (fun entry => entry.action ≠ .identical)).foldlM
    (fun replicas entry => executeTransferEntry digest prefersIncoming entry replicas) replicas

def censusRecord (path : JsString) (file : StoredFile Payload) : CensusRecord :=
  ⟨path, digest file.content, file.mtimeMs⟩

def corpusRecords (corpus : Corpus Payload) : List CensusRecord :=
  corpus.entries.map (fun entry => censusRecord digest entry.1 entry.2)

def corpusCensus (corpus : Corpus Payload) : List ReconcileFileState :=
  (corpusRecords digest corpus).map CensusRecord.raw

/-- The digests the two sides hold at an entry's path once it is carried out. -/
def outcomeOf (entry : ReconcilePlanEntry) (localSha256 peerSha256 : Option Sha256) :
    Option Sha256 × Option Sha256 :=
  match transferType entry with
  | .pull => (peerSha256, peerSha256)
  | .push => (localSha256, localSha256)
  | .deleteLocal => (none, peerSha256)
  | .deletePeer => (localSha256, none)
  | .suppress =>
    match entry.suppressSide with
    | some .localCopy => (none, peerSha256)
    | some .peerCopy => (localSha256, none)
    | some .bothCopies => (none, none)
    | none => (localSha256, peerSha256)
  | .nothing => (localSha256, peerSha256)

/-- What carrying one entry out does: its path reaches the outcome, no other changes. -/
structure Carried (entry : ReconcilePlanEntry) (before after : Replicas Payload) : Prop where
  frameLocal : ∀ path, path ≠ entry.path → after.localFiles.lookup path = before.localFiles.lookup path
  framePeer : ∀ path, path ≠ entry.path → after.peerFiles.lookup path = before.peerFiles.lookup path
  outcome : (sha256At digest after.localFiles entry.path, sha256At digest after.peerFiles entry.path) =
    outcomeOf entry (sha256At digest before.localFiles entry.path) (sha256At digest before.peerFiles entry.path)

variable {digest prefersIncoming}

variable {path : JsString} {corpus next : Corpus Payload} (entries : List ReconcilePlanEntry)

theorem sha256At_congr {first second : Corpus Payload} (same : first.lookup path = second.lookup path) :
    sha256At digest first path = sha256At digest second path := by
  rw [sha256At, sha256At, same]

theorem receiveFile_some {incoming : StoredFile Payload} {baseSha256 : Option Sha256}
    (received : receiveFile digest prefersIncoming corpus path incoming baseSha256 = some next) :
    (∀ other, other ≠ path → next.lookup other = corpus.lookup other) ∧
      sha256At digest next path = some (digest incoming.content) := by
  have written : ∃ file, next = corpus.set path file ∧ digest file.content = digest incoming.content := by
    unfold receiveFile at received
    cases held : corpus.lookup path with
    | none =>
      rw [held] at received
      dsimp only at received
      split_ifs at received with free
      exact ⟨incoming, (some.inj received).symm, rfl⟩
    | some current =>
      rw [held] at received
      dsimp only at received
      split_ifs at received with same guarded
      · exact ⟨_, (some.inj received).symm, same⟩
      · exact ⟨incoming, (some.inj received).symm, rfl⟩
  obtain ⟨file, rfl, same⟩ := written
  refine ⟨fun other different => lookup_set_of_ne _ _ _ _ different, ?_⟩
  rw [sha256At, lookup_set_self, map_some, same]

theorem deleteFile_some {expected : Option Sha256} (deleted : deleteFile digest corpus path expected = some next) :
    (∀ other, other ≠ path → next.lookup other = corpus.lookup other) ∧ sha256At digest next path = none := by
  have erased : next = corpus.erase path := by
    unfold deleteFile at deleted
    split at deleted
    · split_ifs at deleted
      exact (some.inj deleted).symm
    · cases deleted
  subst erased
  refine ⟨fun other different => ?_, ?_⟩
  · rw [lookup_erase, if_neg different]
  · rw [sha256At, lookup_erase, if_pos rfl, map_none]

section Entries

variable {entry : ReconcilePlanEntry} {before after : Replicas Payload} (plain : entry.semanticAgreement = none)
include plain

private theorem localPath_plain : localPath entry = entry.path := by
  rw [localPath, plain]

private theorem peerPath_plain : peerPath entry = entry.path := by
  rw [peerPath, plain]

private theorem pullEntry_carried (kind : transferType entry = .pull)
    (ran : pullEntry digest prefersIncoming entry before = some after) : Carried digest entry before after := by
  unfold pullEntry at ran
  rw [peerPath_plain plain, localPath_plain plain] at ran
  cases remote : before.peerFiles.lookup entry.path with
  | none => simp [remote] at ran
  | some file =>
    simp only [remote] at ran
    split at ran
    · cases ran
    · obtain ⟨next, received, rfl⟩ := map_eq_some_iff.mp ran
      obtain ⟨frame, written⟩ := receiveFile_some received
      refine ⟨frame, fun _ _ => rfl, ?_⟩
      have there : sha256At digest before.peerFiles entry.path = some (digest file.content) := by
        rw [sha256At, remote, map_some]
      simp only [outcomeOf, kind, written, there]

private theorem pushEntry_carried (kind : transferType entry = .push)
    (ran : pushEntry digest prefersIncoming entry before = some after) : Carried digest entry before after := by
  unfold pushEntry at ran
  rw [peerPath_plain plain, localPath_plain plain] at ran
  cases known : entry.localSha256 with
  | none => simp [known] at ran
  | some sha256 =>
    cases held : before.localFiles.lookup entry.path with
    | none => simp [known, held] at ran
    | some file =>
      simp only [known, held] at ran
      split at ran
      · cases ran
      · obtain ⟨next, received, rfl⟩ := map_eq_some_iff.mp ran
        obtain ⟨frame, written⟩ := receiveFile_some received
        refine ⟨fun _ _ => rfl, frame, ?_⟩
        have here : sha256At digest before.localFiles entry.path = some (digest file.content) := by
          rw [sha256At, held, map_some]
        simp only [outcomeOf, kind, written, here]

private theorem deleteLocalEntry_some (ran : deleteLocalEntry digest entry before = some after) :
    (∀ path, path ≠ entry.path → after.localFiles.lookup path = before.localFiles.lookup path) ∧
      sha256At digest after.localFiles entry.path = none ∧ after.peerFiles = before.peerFiles := by
  unfold deleteLocalEntry at ran
  rw [localPath_plain plain] at ran
  obtain ⟨next, deleted, rfl⟩ := map_eq_some_iff.mp ran
  obtain ⟨frame, gone⟩ := deleteFile_some deleted
  exact ⟨frame, gone, rfl⟩

private theorem deletePeerEntry_some (ran : deletePeerEntry digest entry before = some after) :
    (∀ path, path ≠ entry.path → after.peerFiles.lookup path = before.peerFiles.lookup path) ∧
      sha256At digest after.peerFiles entry.path = none ∧ after.localFiles = before.localFiles := by
  unfold deletePeerEntry at ran
  rw [peerPath_plain plain] at ran
  obtain ⟨next, deleted, rfl⟩ := map_eq_some_iff.mp ran
  obtain ⟨frame, gone⟩ := deleteFile_some deleted
  exact ⟨frame, gone, rfl⟩

private theorem suppressEntry_carried (kind : transferType entry = .suppress)
    (ran : suppressEntry digest entry before = some after) : Carried digest entry before after := by
  unfold suppressEntry at ran
  cases side : entry.suppressSide with
  | none => simp [side] at ran
  | some held =>
    cases held with
    | localCopy =>
      simp only [side] at ran
      obtain ⟨frame, gone, same⟩ := deleteLocalEntry_some plain ran
      exact ⟨frame, fun _ _ => by rw [same], by simp only [outcomeOf, kind, side, gone, same]⟩
    | peerCopy =>
      simp only [side] at ran
      obtain ⟨frame, gone, same⟩ := deletePeerEntry_some plain ran
      exact ⟨fun _ _ => by rw [same], frame, by simp only [outcomeOf, kind, side, gone, same]⟩
    | bothCopies =>
      simp only [side] at ran
      obtain ⟨middle, first, second⟩ := bind_eq_some_iff.mp ran
      obtain ⟨frameLocal, goneLocal, samePeer⟩ := deleteLocalEntry_some plain first
      obtain ⟨framePeer, gonePeer, sameLocal⟩ := deletePeerEntry_some plain second
      refine ⟨fun path different => by rw [sameLocal, frameLocal path different],
        fun path different => by rw [framePeer path different, samePeer], ?_⟩
      simp only [outcomeOf, kind, side, sameLocal, goneLocal, gonePeer]

theorem executeTransferEntry_carried
    (ran : executeTransferEntry digest prefersIncoming entry before = some after) : Carried digest entry before after := by
  unfold executeTransferEntry at ran
  cases kind : transferType entry with
  | pull => exact pullEntry_carried plain kind (by simpa only [kind] using ran)
  | push => exact pushEntry_carried plain kind (by simpa only [kind] using ran)
  | deleteLocal =>
    simp only [kind] at ran
    obtain ⟨frame, gone, same⟩ := deleteLocalEntry_some plain ran
    exact ⟨frame, fun _ _ => by rw [same], by simp only [outcomeOf, kind, gone, same]⟩
  | deletePeer =>
    simp only [kind] at ran
    obtain ⟨frame, gone, same⟩ := deletePeerEntry_some plain ran
    exact ⟨fun _ _ => by rw [same], frame, by simp only [outcomeOf, kind, gone, same]⟩
  | suppress => exact suppressEntry_carried plain kind (by simpa only [kind] using ran)
  | nothing =>
    simp only [kind, some.injEq] at ran
    subst ran
    exact ⟨fun _ _ => rfl, fun _ _ => rfl, by simp only [outcomeOf, kind]⟩

end Entries

structure CarriedAll (digest : Payload → Sha256) (entries : List ReconcilePlanEntry) (before after : Replicas Payload) :
    Prop where
  frame : ∀ path, (∀ entry ∈ entries, entry.path ≠ path) →
    after.localFiles.lookup path = before.localFiles.lookup path ∧
      after.peerFiles.lookup path = before.peerFiles.lookup path
  outcome : ∀ entry ∈ entries,
    (sha256At digest after.localFiles entry.path, sha256At digest after.peerFiles entry.path) =
      outcomeOf entry (sha256At digest before.localFiles entry.path) (sha256At digest before.peerFiles entry.path)

private theorem carriedAll_cons {entry : ReconcilePlanEntry} {entries : List ReconcilePlanEntry}
    {before middle after : Replicas Payload} (head : Carried digest entry before middle)
    (tail : CarriedAll digest entries middle after) (fresh : ∀ later ∈ entries, entry.path ≠ later.path) :
    CarriedAll digest (entry :: entries) before after := by
  constructor
  · intro path absent
    have parts := forall_mem_cons.mp absent
    obtain ⟨sameLocal, samePeer⟩ := tail.frame path parts.2
    exact ⟨sameLocal.trans (head.frameLocal path (Ne.symm parts.1)),
      samePeer.trans (head.framePeer path (Ne.symm parts.1))⟩
  · intro later member
    rcases mem_cons.mp member with rfl | member
    · obtain ⟨sameLocal, samePeer⟩ := tail.frame later.path (fun other held => Ne.symm (fresh other held))
      rw [sha256At_congr sameLocal, sha256At_congr samePeer]
      exact head.outcome
    · have apart := Ne.symm (fresh later member)
      rw [tail.outcome later member, sha256At_congr (head.frameLocal later.path apart),
        sha256At_congr (head.framePeer later.path apart)]

private theorem carriedAll_transfers (before after : Replicas Payload)
    (plain : ∀ entry ∈ entries, entry.semanticAgreement = none) (distinct : (entries.map ReconcilePlanEntry.path).Nodup)
    (ran : entries.foldlM (fun replicas entry => executeTransferEntry digest prefersIncoming entry replicas) before =
      some after) : CarriedAll digest entries before after := by
  induction entries generalizing before with
  | nil =>
    rw [foldlM_nil] at ran
    cases ran
    exact ⟨fun _ _ => ⟨rfl, rfl⟩, by simp⟩
  | cons entry entries ih =>
    rw [foldlM_cons] at ran
    obtain ⟨middle, first, rest⟩ := bind_eq_some_iff.mp ran
    have parts := nodup_cons.mp distinct
    refine carriedAll_cons (executeTransferEntry_carried (plain entry mem_cons_self) first)
      (ih middle (fun later member => plain later (mem_cons_of_mem _ member)) parts.2 rest) ?_
    intro later member same
    exact parts.1 (mem_map.mpr ⟨later, member, same.symm⟩)

theorem executeTransfers_carried (before after : Replicas Payload) (plain : ∀ entry ∈ entries, entry.semanticAgreement = none)
    (distinct : (entries.map ReconcilePlanEntry.path).Nodup)
    (ran : executeTransfers digest prefersIncoming entries before = some after) : CarriedAll digest entries before after := by
  have sublist : (entries.filter (fun entry => entry.action ≠ .identical)).Sublist entries := filter_sublist
  have carried := carriedAll_transfers _ before after (fun entry member => plain entry (sublist.subset member))
    ((sublist.map _).nodup distinct) ran
  constructor
  · intro path absent
    exact carried.frame path (fun entry member => absent entry (sublist.subset member))
  · intro entry member
    by_cases settled : entry.action = .identical
    · have alone : ∀ other ∈ entries.filter (fun entry => entry.action ≠ .identical), other.path ≠ entry.path := by
        intro other listed samePath
        have same := inj_on_of_nodup_map distinct (sublist.subset listed) member samePath
        rw [mem_filter, same] at listed
        simp [settled] at listed
      obtain ⟨sameLocal, samePeer⟩ := carried.frame entry.path alone
      rw [sha256At_congr sameLocal, sha256At_congr samePeer, outcomeOf, transferType, settled]
    · exact carried.outcome entry (mem_filter.mpr ⟨member, by simpa using settled⟩)

end Remnic.Converge.Apply
