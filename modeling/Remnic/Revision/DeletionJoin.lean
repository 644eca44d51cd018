import Mathlib.Order.Bounds.Basic
import Remnic.Revision.DeletionMetadata

/-! Replicated deletions are joined: of each path identity the latest revision stays, in whatever order they come. -/

namespace Remnic.Revision.DeletionJoin

open Library Text.CodeUnits InvalidationStore DeletionStore DeletionMetadata List Bool
open Reconcile.Census (CensusMtime)

/-- A revision, and what may fail in the call that receives it. -/
structure Replicated where
  io : DeletionIo
  relativePath : JsString
  mtimeMs : CensusMtime

def Replicated.entry (call : Replicated) : JsString × CensusMtime := (call.relativePath, call.mtimeMs)

def Replicated.outcome (tables : UnicodeTables) (file : DeletionFile) (call : Replicated) : Outcome Unit :=
  recordReplicatedDeletionRevision tables call.io file call.relativePath (.finite call.mtimeMs.val)

/-- The file once the calls have ended well. -/
def receive (tables : UnicodeTables) : DeletionFile → List Replicated → Option DeletionFile
  | file, [] => some file
  | file, call :: rest =>
    match (call.outcome tables file).result with
    | .ok () => receive tables ((call.outcome tables file).after file) rest
    | .error _ => none

/-- The map holds some of the entries, and for each entry one that is as late. -/
structure Joins (tables : UnicodeTables) (all : List (JsString × CensusMtime)) (revisions : Revisions) : Prop where
  sound : Sound tables revisions
  kept : ∀ entry ∈ revisions.entries, entry ∈ all
  latest : ∀ entry ∈ all, ∃ later ∈ revisions.entries,
    deletionRevisionPathIdentity tables later.1 = deletionRevisionPathIdentity tables entry.1 ∧ entry.2 ≤ later.2

variable {tables : UnicodeTables} {all : List (JsString × CensusMtime)} {before : Revisions} {file : DeletionFile}
  {call : Replicated}

theorem outcome_ok (parsed : parseFile tables file = .ok before) (ended : (call.outcome tables file).result = .ok ()) :
    (∃ known, existingMtime tables before call.relativePath = some known ∧ call.mtimeMs ≤ known ∧
        (call.outcome tables file).written = []) ∨
      isValidManagedStoragePath call.relativePath = true ∧
        (∀ known, existingMtime tables before call.relativePath = some known → known ≤ call.mtimeMs) ∧
        (call.outcome tables file).written =
          [(withoutExisting tables before call.relativePath).set call.relativePath call.mtimeMs] := by
  unfold Replicated.outcome recordReplicatedDeletionRevision at *
  simp only [validMtime_val] at *
  split_ifs at * with invalid
  · contradiction
  unfold locked reading at *
  split_ifs at * <;> try contradiction
  rw [parsed] at ended ⊢
  dsimp only at *
  split_ifs at * with newer
  · obtain ⟨known, found, late⟩ := (Option.any_eq_true _ _).mp newer
    exact .inl ⟨known, found, of_decide_eq_true late, rfl⟩
  · refine .inr ⟨valid_of_not invalid, fun known found => ?_, ?_⟩
    · rw [found, Option.any_some, decide_eq_true_iff, not_le] at newer
      exact newer.le
    · unfold Outcome.writing at *
      cases replaced : call.io.metadata.replaced with
      | error => rw [replaced] at ended; contradiction
      | ok => rfl

theorem existingMtime_eq_some_iff (sound : Sound tables before) {path : JsString} {time : CensusMtime} :
    existingMtime tables before path = some time ↔ ∃ entry ∈ before.entries,
      deletionRevisionPathIdentity tables entry.1 = deletionRevisionPathIdentity tables path ∧ entry.2 = time := by
  constructor
  · intro found
    obtain ⟨there, first, held⟩ := Option.bind_eq_some_iff.mp found
    exact ⟨(there, time), (OrderedMap.lookup_eq_some_iff _ _ _).mp held, identity_existingPath first, rfl⟩
  · rintro ⟨entry, member, same, rfl⟩
    have listed : entry.1 ∈ before.keys := mem_map_of_mem member
    have some : (existingPath tables before path).isSome = true := find?_isSome.mpr ⟨entry.1, listed, by simpa using same⟩
    obtain ⟨there, first⟩ := Option.isSome_iff_exists.mp some
    have single : there = entry.1 := inj_on_of_nodup_map sound.apart (mem_of_find?_eq_some first) listed
      ((identity_existingPath first).trans same.symm)
    rw [existingMtime, first, single]
    exact (OrderedMap.lookup_eq_some_iff _ _ _).mpr member

/-- An entry that makes way for a revision of its identity is the one that its time was compared with. -/
theorem mem_withoutExisting {path : JsString} {entry : JsString × CensusMtime} (member : entry ∈ before.entries) :
    entry ∈ (withoutExisting tables before path).entries ∨
      deletionRevisionPathIdentity tables entry.1 = deletionRevisionPathIdentity tables path ∧
        existingMtime tables before path = some entry.2 := by
  unfold withoutExisting existingMtime
  cases first : existingPath tables before path with
  | none => exact .inl member
  | some there =>
    by_cases same : entry.1 = there
    · subst same
      exact .inr ⟨identity_existingPath first, (OrderedMap.lookup_eq_some_iff _ _ _).mpr member⟩
    · exact .inl (mem_filter.mpr ⟨member, decide_eq_true same⟩)

theorem joins_outcome (joins : Joins tables all before) (parsed : parseFile tables file = .ok before)
    (ended : (call.outcome tables file).result = .ok ()) :
    ∃ after, parseFile tables ((call.outcome tables file).after file) = .ok after ∧ Joins tables (all ++ [call.entry]) after := by
  unfold Outcome.after
  rcases outcome_ok parsed ended with ⟨known, found, late, written⟩ | ⟨valid, newer, written⟩
  · obtain ⟨entry, member, same, rfl⟩ := (existingMtime_eq_some_iff joins.sound).mp found
    refine ⟨before, by rw [written]; exact parsed, joins.sound, fun one held => mem_append_left _ (joins.kept one held), ?_⟩
    rw [forall_mem_append, forall_mem_singleton]
    exact ⟨joins.latest, entry, member, same, late⟩
  · have sound := sound_replaced joins.sound valid (some call.mtimeMs)
    have fresh : call.relativePath ∉ (withoutExisting tables before call.relativePath).keys := fun member =>
      identity_withoutExisting joins.sound member rfl
    have entries (entry : JsString × CensusMtime) :
        entry ∈ (sortRevisions ((withoutExisting tables before call.relativePath).set call.relativePath call.mtimeMs)).entries ↔
          entry ∈ (withoutExisting tables before call.relativePath).entries ∨ entry = call.entry := by
      rw [sortRevisions, (perm_insertionSort _ _).mem_iff, entries_fresh _ fresh, mem_append, mem_singleton]
      rfl
    refine ⟨_, by rw [written]; exact parse_metadataOf sound, sound.sort, fun entry member => ?_, ?_⟩
    · rcases (entries entry).mp member with old | rfl
      · exact mem_append_left _ (joins.kept entry ((entries_withoutExisting tables before call.relativePath).subset old))
      · exact mem_append_right _ (mem_singleton_self _)
    · have added := (entries call.entry).mpr (.inr rfl)
      rw [forall_mem_append, forall_mem_singleton]
      refine ⟨fun entry member => ?_, call.entry, added, rfl, le_rfl⟩
      obtain ⟨later, held, same, late⟩ := joins.latest entry member
      rcases mem_withoutExisting held with stays | ⟨own, found⟩
      · exact ⟨later, (entries _).mpr (.inl stays), same, late⟩
      · exact ⟨call.entry, added, own.symm.trans same, late.trans (newer _ found)⟩

theorem joins_receive {final : DeletionFile} {calls : List Replicated} (joins : Joins tables all before)
    (parsed : parseFile tables file = .ok before) (received : receive tables file calls = some final) :
    ∃ after, parseFile tables final = .ok after ∧ Joins tables (all ++ calls.map Replicated.entry) after := by
  induction calls generalizing file all before with
  | nil =>
    cases received
    exact ⟨before, parsed, by rwa [map_nil, append_nil]⟩
  | cons call rest ih =>
    unfold receive at received
    split at received
    next ended =>
      obtain ⟨middle, read, more⟩ := joins_outcome joins parsed ended
      obtain ⟨after, last, whole⟩ := ih more read received
      exact ⟨after, last, by rwa [append_assoc] at whole⟩
    next => contradiction

theorem Joins.recorded_iff (joins : Joins tables all before) (path : JsString) (time : CensusMtime) :
    existingMtime tables before path = some time ↔ IsGreatest {time | ∃ other, (other, time) ∈ all ∧
      deletionRevisionPathIdentity tables other = deletionRevisionPathIdentity tables path} time := by
  constructor
  · intro here
    obtain ⟨entry, member, same, rfl⟩ := (existingMtime_eq_some_iff joins.sound).mp here
    refine ⟨⟨entry.1, joins.kept _ member, same⟩, ?_⟩
    rintro other ⟨elsewhere, given, equal⟩
    obtain ⟨later, held, own, late⟩ := joins.latest _ given
    have there := (existingMtime_eq_some_iff joins.sound).mpr ⟨later, held, own.trans equal, rfl⟩
    exact late.trans_eq (Option.some.inj (there.symm.trans here))
  · rintro ⟨⟨other, given, same⟩, bound⟩
    obtain ⟨later, held, own, late⟩ := joins.latest _ given
    have most := bound ⟨later.1, joins.kept _ held, own.trans same⟩
    exact (existingMtime_eq_some_iff joins.sound).mpr ⟨later, held, own.trans same, le_antisymm most late⟩

/-- For each identity the latest of the revisions at the start and those received is recorded, with a path it came with;
calls with the same revisions in another order or number record the same. -/
theorem replicated_revisions_join {start final : DeletionFile} (tables : UnicodeTables) (accepted : parseFile tables start = .ok before)
    {calls : List Replicated} (received : receive tables start calls = some final) :
    ∃ after, parseFile tables final = .ok after ∧
      (∀ entry ∈ after.entries, entry ∈ before.entries ++ calls.map Replicated.entry) ∧
      (∀ path time, existingMtime tables after path = some time ↔
        IsGreatest {time | ∃ other, (other, time) ∈ before.entries ++ calls.map Replicated.entry ∧
          deletionRevisionPathIdentity tables other = deletionRevisionPathIdentity tables path} time) ∧
      ∀ (others : List Replicated) (ended : DeletionFile), receive tables start others = some ended →
        (∀ entry, entry ∈ others.map Replicated.entry ↔ entry ∈ calls.map Replicated.entry) →
          ∃ last, parseFile tables ended = .ok last ∧ ∀ path, existingMtime tables last path = existingMtime tables after path := by
  have begun : Joins tables before.entries before :=
    ⟨(sound_of_parsed accepted).1, fun _ => id, fun entry member => ⟨entry, member, rfl, le_rfl⟩⟩
  obtain ⟨after, parsed, joins⟩ := joins_receive begun accepted received
  refine ⟨after, parsed, joins.kept, joins.recorded_iff, fun others ended otherwise same => ?_⟩
  obtain ⟨last, read, joined⟩ := joins_receive begun accepted otherwise
  refine ⟨last, read, fun path => Option.ext fun time => ?_⟩
  rw [joined.recorded_iff, joins.recorded_iff]
  simp only [mem_append, same]

/-- Two spellings of one path, the later revision first. -/
def sampleCalls : List Replicated :=
  [⟨unremovable (.ok ()), text "facts/A.md", sampleNow⟩, ⟨unremovable (.ok ()), samplePath, ⟨500, by decide, by decide⟩⟩]

theorem replicated_revisions_join_sample : ∃ final after, receive caseFoldTables .absent sampleCalls = some final ∧
    parseFile caseFoldTables final = .ok after ∧ existingMtime caseFoldTables after samplePath = some sampleNow := by
  have finished : (receive caseFoldTables .absent sampleCalls).isSome = true := by decide +kernel
  obtain ⟨final, received⟩ := Option.isSome_iff_exists.mp finished
  obtain ⟨after, parsed, _, latest, _⟩ := replicated_revisions_join caseFoldTables (show parseFile _ .absent = .ok _ from rfl) received
  refine ⟨final, after, received, parsed, (latest samplePath sampleNow).mpr ⟨⟨text "facts/A.md", mem_cons_self, by decide +kernel⟩, ?_⟩⟩
  rintro time ⟨path, member, _⟩
  obtain ⟨call, listed, same⟩ := mem_map.mp member
  rw [← show call.mtimeMs = time from congrArg Prod.snd same]
  exact (by decide : ∀ call ∈ sampleCalls, call.mtimeMs ≤ sampleNow) call listed

end Remnic.Revision.DeletionJoin
