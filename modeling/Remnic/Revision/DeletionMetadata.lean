import Remnic.Library.Transition
import Remnic.Revision.DeletionStore

/-! Deletion metadata that was accepted once is accepted after every run of the store. -/

namespace Remnic.Revision.DeletionMetadata
open Library Library.GuardedFold Library.Transition Text.CodeUnits InvalidationStore DeletionStore List Bool
open Reconcile.Census (CensusMtime MtimeValue censusMaxMtimeMs)

variable {tables : UnicodeTables}

/-- Every path is valid, and no two share an identity. -/
structure Sound (tables : UnicodeTables) (revisions : Revisions) : Prop where
  valid : ∀ path ∈ revisions.keys, isValidManagedStoragePath path = true
  apart : (revisions.keys.map (deletionRevisionPathIdentity tables)).Nodup

theorem keys_sortRevisions (revisions : Revisions) : (sortRevisions revisions).keys.Perm revisions.keys :=
  (perm_insertionSort _ _).map _

theorem lookup_sortRevisions (revisions : Revisions) (path : JsString) :
    (sortRevisions revisions).lookup path = revisions.lookup path := by
  refine Option.ext fun time => ?_
  rw [OrderedMap.lookup_eq_some_iff, OrderedMap.lookup_eq_some_iff]
  exact (perm_insertionSort _ _).mem_iff

theorem sortRevisions_sorted (revisions : Revisions) : sortRevisions (sortRevisions revisions) = sortRevisions revisions := by
  have total : ∀ left right : JsString × CensusMtime, left.1 ≤ right.1 ∨ right.1 ≤ left.1 := fun left right =>
    le_total left.1 right.1
  have sorted := pairwise_insertionSort (fun left right : JsString × CensusMtime => left.1 ≤ right.1)
    revisions.entries
  exact OrderedMap.ext_entries _ _ (Pairwise.insertionSort_eq sorted)

theorem Sound.sort {revisions : Revisions} (sound : Sound tables revisions) : Sound tables (sortRevisions revisions) where
  valid := fun path member => sound.valid path ((keys_sortRevisions revisions).mem_iff.mp member)
  apart := ((keys_sortRevisions revisions).map _).nodup_iff.mpr sound.apart

variable {path : JsString} {Value : Type}

theorem entries_fresh (map : OrderedMap JsString Value) (fresh : path ∉ map.keys) (value : Value) :
    (map.set path value).entries = map.entries ++ [(path, value)] :=
  OrderedMap.entries_set_fresh map path value ((OrderedMap.lookup_eq_none_iff _ _).mpr fresh)

theorem keys_set_fresh (map : OrderedMap JsString Value) (fresh : path ∉ map.keys) (value : Value) :
    (map.set path value).keys = map.keys ++ [path] := by
  unfold OrderedMap.keys
  rw [entries_fresh map fresh value, map_append]
  rfl

theorem contains_iff (map : OrderedMap JsString Value) (path : JsString) : map.contains path = true ↔ path ∈ map.keys := by
  rw [OrderedMap.mem_keys_iff]
  exact Option.isSome_iff_exists

section Reading

/-- The entries read so far are sound, and their identities are the ones claimed. -/
structure Tracked (tables : UnicodeTables) (entries : DeletionEntries) : Prop where
  valid : ∀ path ∈ entries.revisions.keys, isValidManagedStoragePath path = true
  claimed : entries.pathByIdentity.keys = entries.revisions.keys.map (deletionRevisionPathIdentity tables)

variable {mtimeMs : CensusMtime} {path : JsString} {entries : DeletionEntries}

theorem Tracked.sound (tracked : Tracked tables entries) : Sound tables entries.revisions :=
  ⟨tracked.valid, tracked.claimed ▸ entries.pathByIdentity.keysNodup⟩

theorem addDeletion_ok_iff {next : DeletionEntries} :
    addDeletion tables entries path mtimeMs = .ok next ↔
      path ∉ entries.revisions.keys ∧ deletionRevisionPathIdentity tables path ∉ entries.pathByIdentity.keys ∧
        next = ⟨entries.revisions.set path mtimeMs,
          entries.pathByIdentity.set (deletionRevisionPathIdentity tables path) path⟩ := by
  unfold addDeletion
  dsimp only
  split_ifs with known claimed
  · have listed := (contains_iff entries.revisions path).mp known
    simp [listed]
  · have listed := (contains_iff entries.pathByIdentity _).mp claimed
    simp [listed]
  · have fresh : path ∉ entries.revisions.keys := fun member => known ((contains_iff _ _).mpr member)
    have unclaimed : deletionRevisionPathIdentity tables path ∉ entries.pathByIdentity.keys :=
      fun member => claimed ((contains_iff _ _).mpr member)
    rw [Except.ok.injEq]
    exact ⟨fun same => ⟨fresh, unclaimed, same.symm⟩, fun facts => facts.2.2.symm⟩

theorem tracked_addDeletion {next : DeletionEntries} (tracked : Tracked tables entries)
    (valid : isValidManagedStoragePath path = true) (added : addDeletion tables entries path mtimeMs = .ok next) :
    Tracked tables next := by
  obtain ⟨fresh, unclaimed, shape⟩ := addDeletion_ok_iff.mp added
  rw [shape]
  constructor
  · intro other member
    rw [keys_set_fresh _ fresh, mem_append, mem_singleton] at member
    rcases member with known | same
    · exact tracked.valid other known
    · exact same ▸ valid
  · dsimp only
    rw [keys_set_fresh _ fresh, keys_set_fresh _ unclaimed, tracked.claimed, map_append]
    rfl

theorem parseDeletion_ok {next : DeletionEntries} {raw : Json} (parsed : parseDeletion tables entries raw = .ok next) :
    ∃ path mtimeMs, isValidManagedStoragePath path = true ∧ addDeletion tables entries path mtimeMs = .ok next := by
  unfold parseDeletion at parsed
  split at parsed
  next fields =>
    split_ifs at parsed
    split at parsed
    next path ms _ _ =>
      split_ifs at parsed with valid
      split at parsed
      next unfit => cases parsed
      next mtimeMs fit =>
        rw [not_eq_true', not_eq_false] at valid
        exact ⟨path, mtimeMs, valid, parsed⟩
    next => cases parsed
  next => cases parsed

theorem tracked_empty : Tracked tables DeletionEntries.empty :=
  ⟨fun _ member => absurd member not_mem_nil, rfl⟩

theorem sound_of_parsed {file : DeletionFile} {revisions : Revisions} (parsed : parseFile tables file = .ok revisions) :
    Sound tables revisions ∧ sortRevisions revisions = revisions := by
  unfold parseFile parseDeletionRevisionMetadata at parsed
  split at parsed
  next =>
    rw [← Except.ok.inj parsed]
    exact ⟨tracked_empty.sound, rfl⟩
  next raw =>
    split at parsed
    next fields =>
      split_ifs at parsed
      split at parsed
      next version items _ _ =>
        split_ifs at parsed
        obtain ⟨entries, read, shape⟩ := bind_ok_iff.mp parsed
        have tracked : Tracked tables entries := by
          refine foldlM_invariant ?_ tracked_empty read
          intro item _ before after holds round
          obtain ⟨path, mtimeMs, valid, added⟩ := parseDeletion_ok round
          exact tracked_addDeletion holds valid added
        rw [pure_ok_iff.mp shape]
        exact ⟨tracked.sound.sort, sortRevisions_sorted _⟩
      next => cases parsed
    next => cases parsed

end Reading

section Writing

theorem validMtime_val (mtimeMs : CensusMtime) : validMtime mtimeMs.val = some mtimeMs := by
  unfold validMtime
  rw [dif_pos mtimeMs.property]

theorem get_here (key : JsString) (value : Json) (rest : List (JsString × Json)) :
    Json.get ((key, value) :: rest) key = some value := by
  unfold Json.get
  rw [find?_cons_of_pos (by simp)]
  rfl

theorem get_later {name key : JsString} (different : name ≠ key) (value : Json) (rest : List (JsString × Json)) :
    Json.get ((name, value) :: rest) key = Json.get rest key := by
  unfold Json.get
  rw [find?_cons_of_neg (by simpa using different)]

theorem keys_entry (path time : Json) :
    Json.keys [(text "path", path), (text "mtimeMs", time)] = text "mtimeMs,path" := by
  change (text ",").intercalate ([text "path", text "mtimeMs"].insertionSort fun left right => left ≤ right) = _
  decide +kernel

theorem keys_metadata (version items : Json) :
    Json.keys [(text "version", version), (text "deletions", items)] = text "deletions,version" := by
  change (text ",").intercalate ([text "version", text "deletions"].insertionSort fun left right => left ≤ right) = _
  decide +kernel

variable {entries : DeletionEntries}

theorem parseDeletion_entry {entry : JsString × CensusMtime} (valid : isValidManagedStoragePath entry.1 = true) :
    parseDeletion tables entries (deletionEntry entry) = addDeletion tables entries entry.1 entry.2 := by
  unfold parseDeletion deletionEntry
  dsimp only
  rw [if_neg (not_not.mpr (keys_entry _ _)), get_here, get_later (by decide), get_here]
  dsimp only
  rw [validMtime_val, valid]
  rfl

theorem parse_entries {list : List (JsString × CensusMtime)} (tracked : Tracked tables entries)
    (valid : ∀ entry ∈ list, isValidManagedStoragePath entry.1 = true)
    (apart : ((entries.revisions.keys ++ list.map Prod.fst).map (deletionRevisionPathIdentity tables)).Nodup) :
    ∃ out, (list.map deletionEntry).foldlM (parseDeletion tables) entries = .ok out ∧
      out.revisions.entries = entries.revisions.entries ++ list := by
  induction list generalizing entries with
  | nil => exact ⟨entries, rfl, (append_nil _).symm⟩
  | cons entry rest ih =>
    have here := valid entry mem_cons_self
    have paths := Nodup.of_map _ apart
    rw [map_cons] at apart paths
    have fresh : entry.1 ∉ entries.revisions.keys := fun member =>
      disjoint_of_nodup_append paths member mem_cons_self
    have unclaimed : deletionRevisionPathIdentity tables entry.1 ∉ entries.pathByIdentity.keys := by
      rw [tracked.claimed]
      rw [map_append, map_cons] at apart
      exact fun member => disjoint_of_nodup_append apart member mem_cons_self
    have added : addDeletion tables entries entry.1 entry.2 = .ok _ := addDeletion_ok_iff.mpr ⟨fresh, unclaimed, rfl⟩
    have tracked' := tracked_addDeletion tracked here added
    have keys := keys_set_fresh entries.revisions fresh entry.2
    obtain ⟨out, read, shape⟩ := ih tracked' (fun later member => valid later (mem_cons_of_mem _ member)) (by
      rw [keys, append_assoc]
      exact apart)
    refine ⟨out, ?_, ?_⟩
    · rw [map_cons, foldlM_cons, parseDeletion_entry here, added]
      exact read
    · rw [shape, entries_fresh _ fresh, append_assoc]
      rfl

theorem parse_metadataOf {revisions : Revisions} (sound : Sound tables revisions) :
    parseDeletionRevisionMetadata tables (some (deletionMetadataOf revisions)) = .ok (sortRevisions revisions) := by
  have sorted := sound.sort
  obtain ⟨out, read, shape⟩ := parse_entries tracked_empty
    (fun entry member => sorted.valid entry.1 (mem_map_of_mem member)) sorted.apart
  have same : out.revisions = sortRevisions revisions := OrderedMap.ext_entries _ _ shape
  unfold parseDeletionRevisionMetadata deletionMetadataOf
  dsimp only
  rw [if_neg (not_not.mpr (keys_metadata _ _)), get_here, get_later (by decide), get_here]
  dsimp only
  rw [if_neg (not_not.mpr rfl), read]
  rw [← sortRevisions_sorted revisions, ← same]
  rfl

end Writing

section Updating

variable {revisions : Revisions} {relativePath : JsString}

theorem keys_erase (revisions : Revisions) (path : JsString) :
    (revisions.erase path).keys.Sublist revisions.keys := filter_sublist.map Prod.fst

theorem Sound.of_sublist {smaller : Revisions} (sound : Sound tables revisions)
    (sublist : smaller.keys.Sublist revisions.keys) : Sound tables smaller where
  valid := fun path member => sound.valid path (sublist.subset member)
  apart := sound.apart.sublist (sublist.map _)

theorem identity_existingPath {known : JsString} (found : existingPath tables revisions relativePath = some known) :
    deletionRevisionPathIdentity tables known = deletionRevisionPathIdentity tables relativePath := by
  unfold existingPath at found
  simpa using find?_some found

theorem entries_withoutExisting (tables : UnicodeTables) (revisions : Revisions) (relativePath : JsString) :
    (withoutExisting tables revisions relativePath).entries.Sublist revisions.entries := by
  unfold withoutExisting
  cases existingPath tables revisions relativePath with
  | none => exact Sublist.refl _
  | some known => exact filter_sublist

theorem keys_withoutExisting (tables : UnicodeTables) (revisions : Revisions) (relativePath : JsString) :
    (withoutExisting tables revisions relativePath).keys.Sublist revisions.keys :=
  (entries_withoutExisting tables revisions relativePath).map Prod.fst

theorem identity_withoutExisting (sound : Sound tables revisions) {path : JsString}
    (member : path ∈ (withoutExisting tables revisions relativePath).keys) :
    deletionRevisionPathIdentity tables path ≠ deletionRevisionPathIdentity tables relativePath := by
  intro same
  have listed := (keys_withoutExisting tables revisions relativePath).subset member
  unfold withoutExisting at member
  cases found : existingPath tables revisions relativePath with
  | none =>
    have none := find?_eq_none.mp found path listed
    exact none (decide_eq_true same)
  | some known =>
    rw [found] at member
    have known' := mem_of_find?_eq_some found
    have equal : path = known := inj_on_of_nodup_map sound.apart listed known' (same.trans (identity_existingPath found).symm)
    obtain ⟨time, held⟩ := (OrderedMap.mem_keys_iff _ _).mp member
    have gone := OrderedMap.lookup_erase revisions known path
    rw [if_pos equal] at gone
    cases gone.symm.trans held

theorem sound_set (sound : Sound tables revisions) (valid : isValidManagedStoragePath relativePath = true)
    (free : ∀ path ∈ revisions.keys,
      deletionRevisionPathIdentity tables path ≠ deletionRevisionPathIdentity tables relativePath)
    (time : CensusMtime) : Sound tables (revisions.set relativePath time) := by
  have fresh : relativePath ∉ revisions.keys := fun member => free relativePath member rfl
  have keys := keys_set_fresh revisions fresh time
  constructor
  · intro path member
    rw [keys, mem_append, mem_singleton] at member
    exact member.elim (sound.valid path) fun same => same ▸ valid
  · rw [keys, map_append, map_singleton, nodup_append]
    refine ⟨sound.apart, nodup_singleton _, fun identity member other single => ?_⟩
    obtain ⟨path, inside, shape⟩ := mem_map.mp member
    rw [← shape, mem_singleton.mp single]
    exact free path inside

theorem sound_replaced (sound : Sound tables revisions) (valid : isValidManagedStoragePath relativePath = true)
    (time : Option CensusMtime) :
    Sound tables (time.elim (withoutExisting tables revisions relativePath)
      fun time => (withoutExisting tables revisions relativePath).set relativePath time) := by
  have smaller := sound.of_sublist (keys_withoutExisting tables revisions relativePath)
  cases time with
  | none => exact smaller
  | some time => exact sound_set smaller valid (fun path member => identity_withoutExisting sound member) time

end Updating

section Calls

variable {Result : Type} {file : DeletionFile} {io : DeletionIo} {relativePath : JsString}

def WritesSound (tables : UnicodeTables) (outcome : Outcome Result) : Prop :=
  ∀ revisions ∈ outcome.written, Sound tables revisions

theorem writesSound_refused (reason : JsString) : WritesSound tables (.refused reason : Outcome Result) :=
  fun _ member => absurd member not_mem_nil

theorem writesSound_done (result : Result) : WritesSound tables (.done result) :=
  fun _ member => absurd member not_mem_nil

theorem writesSound_writing {replaced : Except JsString Unit} {revisions : Revisions} {next : Outcome Result}
    (sound : Sound tables revisions) (rest : WritesSound tables next) :
    WritesSound tables (.writing replaced revisions next) := by
  unfold Outcome.writing
  cases replaced with
  | error reason => exact writesSound_refused reason
  | ok _ => exact forall_mem_cons.mpr ⟨sound, rest⟩

variable {metadata : Io}

theorem writesSound_locked {task : Outcome Result} (sound : WritesSound tables task) : WritesSound tables (locked metadata task) := by
  unfold locked
  split
  next acquired => exact sound
  next unlocked => exact writesSound_refused _

theorem writesSound_reading {task : Revisions → Outcome Result}
    (sound : ∀ revisions, Sound tables revisions → WritesSound tables (task revisions)) :
    WritesSound tables (reading tables metadata file task) := by
  unfold reading
  split
  next unreadable => exact writesSound_refused _
  next readable =>
    split
    next reason refused => exact writesSound_refused _
    next revisions parsed => exact sound revisions (sound_of_parsed parsed).1

theorem valid_of_not {value : JsString} (refused : ¬(!isValidManagedStoragePath value) = true) :
    isValidManagedStoragePath value = true := by
  rwa [not_eq_true', not_eq_false] at refused

theorem writesSound_replicate (mtimeMs : MtimeValue) :
    WritesSound tables (recordReplicatedDeletionRevision tables io file relativePath mtimeMs) := by
  unfold recordReplicatedDeletionRevision
  cases mtimeMs with
  | absent => exact writesSound_refused _
  | notFinite => exact writesSound_refused _
  | finite ms =>
    dsimp only
    cases validMtime ms with
    | none => exact writesSound_refused _
    | some revision =>
      dsimp only
      split_ifs with refused
      · exact writesSound_refused _
      · refine writesSound_locked (writesSound_reading fun revisions sound => ?_)
        split_ifs
        · exact writesSound_done ()
        · exact writesSound_writing (sound_replaced sound (valid_of_not refused) (some revision)) (writesSound_done ())

theorem writesSound_write : WritesSound tables (writeManagedStorageFile tables io file relativePath) := by
  unfold writeManagedStorageFile
  split_ifs with refused
  · exact writesSound_refused _
  · refine writesSound_locked (writesSound_reading fun before sound => ?_)
    cases io.written with
    | error reason => exact writesSound_refused _
    | ok _ =>
      dsimp only
      cases existingPath tables before relativePath with
      | none => exact writesSound_done ()
      | some known => exact writesSound_writing (sound.of_sublist (keys_erase before known)) (writesSound_done ())

theorem writesSound_unlinking {changed : Bool} {before : Revisions} (sound : Sound tables before) :
    WritesSound tables (unlinking io changed before) := by
  unfold unlinking
  cases io.unlinked with
  | ok _ => exact writesSound_done true
  | error failure =>
    dsimp only
    cases failure with
    | enoent =>
      split_ifs
      · exact writesSound_writing sound (writesSound_done false)
      · exact writesSound_done false
    | other reason =>
      split_ifs
      · exact writesSound_writing sound (writesSound_refused _)
      · exact writesSound_refused _

theorem writesSound_delete (requested : RequestedMtime) (now : CensusMtime) :
    WritesSound tables (deleteManagedStorageFile tables io file relativePath requested now) := by
  unfold deleteManagedStorageFile
  cases requestedRevision requested now with
  | none => exact writesSound_refused _
  | some revision =>
    refine writesSound_locked ?_
    split
    next => exact writesSound_done false
    next => exact writesSound_refused _
    next =>
      split_ifs with refused
      · exact writesSound_refused _
      · refine writesSound_reading fun before sound => ?_
        dsimp only
        split_ifs
        · exact writesSound_writing (sound_replaced sound (valid_of_not refused) revision)
            (writesSound_unlinking sound)
        · exact writesSound_unlinking sound

end Calls

section Runs

variable {stores next : Stores} {action : Action}

def Accepted (tables : UnicodeTables) (file : DeletionFile) : Prop := ∃ revisions, parseFile tables file = .ok revisions

/-- The step lemma: whatever fails, every map that an action writes is sound. -/
theorem sound_writtenBy (stores : Stores) (action : Action) :
    ∀ revisions ∈ writtenBy tables stores action, Sound tables revisions := by
  cases action with
  | replicate io relativePath mtimeMs => exact writesSound_replicate mtimeMs
  | write io relativePath => exact writesSound_write
  | delete io relativePath requested now => exact writesSound_delete requested now
  | record io memory now => exact fun _ member => absurd member not_mem_nil
  | clear io memory now => exact fun _ member => absurd member not_mem_nil

theorem deletions_step (stepped : step tables stores action = some next) :
    next.deletions = stores.deletions ∨
      ∃ revisions ∈ writtenBy tables stores action, next.deletions = .present (some (deletionMetadataOf revisions)) := by
  unfold step at stepped
  rw [← Option.some.inj stepped]
  dsimp only
  cases last : (writtenBy tables stores action).getLast? with
  | none => exact .inl rfl
  | some revisions => exact .inr ⟨revisions, mem_of_getLast? last, rfl⟩

theorem accepted_step (accepted : Accepted tables stores.deletions) (stepped : step tables stores action = some next) :
    Accepted tables next.deletions := by
  rcases deletions_step stepped with kept | written
  · exact kept ▸ accepted
  · obtain ⟨revisions, member, shape⟩ := written
    exact ⟨sortRevisions revisions, shape ▸ parse_metadataOf (sound_writtenBy stores action revisions member)⟩

theorem accepted_reaches {start final : Stores} (accepted : Accepted tables start.deletions)
    (reached : Reaches (step tables) (fun _ _ => True) start final) : Accepted tables final.deletions :=
  reached.invariant (fun stores => Accepted tables stores.deletions) accepted
    fun _ _ _ holds _ stepped => accepted_step holds stepped

variable {failure : FsError}

theorem written_unremoved (tables : UnicodeTables) (file : DeletionFile) (relativePath : JsString) (requested : RequestedMtime)
    (now : CensusMtime) {io : DeletionIo} (unremoved : io.unlinked = .error failure) (restored : io.restored = .ok ()) :
    (deleteManagedStorageFile tables io file relativePath requested now).written = [] ∨
      ∃ before updated, parseFile tables file = .ok before ∧
        (deleteManagedStorageFile tables io file relativePath requested now).written = [updated, before] := by
  have failed : ∀ before, (unlinking io true before).written = [before] ∧ (unlinking io false before).written = [] := by
    intro before
    unfold unlinking Outcome.writing
    rw [unremoved, restored]
    cases failure with
    | enoent => exact ⟨rfl, rfl⟩
    | other reason => exact ⟨rfl, rfl⟩
  unfold deleteManagedStorageFile
  cases requestedRevision requested now with
  | none => exact .inl rfl
  | some revision =>
    dsimp only
    unfold locked
    split
    next acquired =>
      split
      next => exact .inl rfl
      next => exact .inl rfl
      next =>
        split_ifs with refused
        · exact .inl rfl
        unfold reading
        split
        next unreadable => exact .inl rfl
        next readable =>
          split
          next reason _ => exact .inl rfl
          next before parsed =>
            dsimp only
            split_ifs
            · unfold Outcome.writing
              cases io.metadata.replaced with
              | error reason => exact .inl rfl
              | ok _ => exact .inr ⟨before, _, parsed, congrArg _ (failed before).1⟩
            · exact .inl (failed before).2
    next unlocked => exact .inl rfl

/-- A deletion that leaves its file leaves the metadata, unless the write that puts the metadata back fails too. -/
theorem restored_step {io : DeletionIo} {relativePath : JsString} {requested : RequestedMtime} {now : CensusMtime}
    (unremoved : io.unlinked = .error failure) (restored : io.restored = .ok ())
    (stepped : step tables stores (.delete io relativePath requested now) = some next) :
    parseFile tables next.deletions = parseFile tables stores.deletions := by
  unfold step at stepped
  rw [← Option.some.inj stepped]
  dsimp only [writtenBy]
  rcases written_unremoved tables stores.deletions relativePath requested now unremoved restored with nothing | back
  · rw [nothing]
    rfl
  · obtain ⟨before, updated, parsed, written⟩ := back
    obtain ⟨sound, sorted⟩ := sound_of_parsed parsed
    rw [written, parsed]
    exact (parse_metadataOf sound).trans (congrArg _ sorted)

/-- After every run from accepted metadata the file is accepted and no two of its entries share an identity; what
the next action writes is read back as the map it wrote, and a deletion that leaves its file leaves the metadata. -/
theorem metadata_stays_readable (tables : UnicodeTables) {start final : Stores} (accepted : Accepted tables start.deletions)
    (reached : Reaches (step tables) (fun _ _ => True) start final) :
    (∃ revisions, parseFile tables final.deletions = .ok revisions ∧
        (revisions.keys.map (deletionRevisionPathIdentity tables)).Nodup) ∧
      ∀ action,
        (∀ revisions ∈ writtenBy tables final action, (revisions.keys.map (deletionRevisionPathIdentity tables)).Nodup ∧
          ∃ parsed, parseDeletionRevisionMetadata tables (some (deletionMetadataOf revisions)) = .ok parsed ∧
            ∀ path, parsed.lookup path = revisions.lookup path) ∧
        ∀ io relativePath requested now failure next, action = .delete io relativePath requested now →
          io.unlinked = .error failure → io.restored = .ok () → step tables final action = some next →
          parseFile tables next.deletions = parseFile tables final.deletions := by
  constructor
  · obtain ⟨revisions, parsed⟩ := accepted_reaches accepted reached
    exact ⟨revisions, parsed, (sound_of_parsed parsed).1.apart⟩
  · intro action
    constructor
    · intro revisions member
      have sound := sound_writtenBy final action revisions member
      exact ⟨sound.apart, sortRevisions revisions, parse_metadataOf sound, lookup_sortRevisions revisions⟩
    · intro io relativePath requested now failure next same unremoved restored stepped
      rw [same] at stepped
      exact restored_step unremoved restored stepped

end Runs

def caseFoldTables : UnicodeTables := { plainTables with toLowerCase := asciiLower }

def sampleStores : Stores := ⟨.absent, ⟨.absent, .initial⟩⟩

def samplePath : JsString := text "facts/a.md"

def sampleNow : CensusMtime := ⟨1000, by decide, by decide⟩

/-- A call in which the file cannot be removed, and its metadata is or is not put back. -/
def unremovable (restored : Except JsString Unit) : DeletionIo :=
  ⟨sound, .ok (), .ok (), .error (.other (text "EACCES")), restored⟩

def sampleDelete (restored : Except JsString Unit) : Action := .delete (unremovable restored) samplePath .clock sampleNow

/-- A replicated deletion, and then a deletion that fails and puts the metadata back. -/
theorem metadata_stays_readable_sample : ∃ stores,
    Reaches (step caseFoldTables) (fun _ _ => True) sampleStores stores ∧
      (∃ revisions, parseFile caseFoldTables stores.deletions = .ok revisions ∧
        (revisions.keys.map (deletionRevisionPathIdentity caseFoldTables)).Nodup) ∧
      ∀ next, step caseFoldTables stores (sampleDelete (.ok ())) = some next →
        parseFile caseFoldTables next.deletions = parseFile caseFoldTables stores.deletions := by
  have reached : Reaches (step caseFoldTables) (fun _ _ => True) sampleStores _ :=
    .next (.refl _) trivial (show step caseFoldTables sampleStores
      (.replicate (unremovable (.ok ())) (text "facts/A.md") (.finite 500)) = some _ from rfl)
  obtain ⟨readable, actions⟩ := metadata_stays_readable caseFoldTables ⟨OrderedMap.empty, rfl⟩ reached
  exact ⟨_, reached, readable, fun next stepped =>
    (actions (sampleDelete (.ok ()))).2 _ _ _ _ _ next rfl rfl rfl stepped⟩

/-- The file is not removed and the write that should put the metadata back fails: the entry stays. -/
theorem unremoved_and_unrestored : parseFile caseFoldTables sampleStores.deletions = .ok OrderedMap.empty ∧
    ∃ next, step caseFoldTables sampleStores (sampleDelete (.error (text "ENOSPC"))) = some next ∧
      parseFile caseFoldTables next.deletions ≠ parseFile caseFoldTables sampleStores.deletions := by
  refine ⟨rfl, _, rfl, fun same => ?_⟩
  have keys := congrArg (fun parsed => parsed.toOption.map OrderedMap.keys) same
  exact absurd keys (by decide +kernel)

/-- What an accepted file holds is written back as a file that holds the same. -/
theorem metadata_reads_back {file : DeletionFile} {revisions : Revisions} (parsed : parseFile tables file = .ok revisions) :
    parseDeletionRevisionMetadata tables (some (deletionMetadataOf revisions)) = .ok revisions := by
  obtain ⟨sound, sorted⟩ := sound_of_parsed parsed
  rw [parse_metadataOf sound, sorted]

theorem metadata_reads_back_sample : let revisions := OrderedMap.empty.set samplePath sampleNow
    parseDeletionRevisionMetadata caseFoldTables (some (deletionMetadataOf revisions)) = .ok revisions :=
  @metadata_reads_back _ (.present (some (deletionMetadataOf (OrderedMap.empty.set samplePath sampleNow)))) _ (by decide +kernel)

end Remnic.Revision.DeletionMetadata
