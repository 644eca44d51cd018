import Remnic.Library.InsertionSet
import Remnic.Library.Table
import Remnic.Text.CodeUnits

/-!
The sync ledger of the wearable sources: for each source the days it stored, and the days
whose memory pass completed.
-/

namespace Remnic.Wearables.SyncState

open Text.CodeUnits Library Library.InsertionSet Option OrderedMap

abbrev DayHashes := OrderedMap JsString JsString

structure WearableSourceSyncState where
  lastSyncAt : JsString
  lastDateSynced : JsString
  dayHashes : DayHashes
  memoryDayHashes : Option DayHashes
  importedNativeMemoryIds : List JsString
  deriving DecidableEq

abbrev Sources := OrderedMap JsString WearableSourceSyncState

def maxTrackedNativeIds : Nat := 5000

def maxTrackedDayHashes : Nat := 800

def bounded (hashes : DayHashes) : DayHashes :=
  let hashKeys := hashes.keys.insertionSort fun left right => left ≤ right
  hashes.eraseAll (hashKeys.take (hashKeys.length - maxTrackedDayHashes))

structure Update where
  syncedAt : JsString
  days : List JsString
  dayHashes : DayHashes
  memoryDayHashes : DayHashes
  clearMemoryDays : List JsString
  importedNativeMemoryIds : List JsString

def mergedNativeIds (previous : Option WearableSourceSyncState) (update : Update) : List JsString :=
  let dedupedNativeIds := (OrderedSet.empty.addAll
    ((previous.map WearableSourceSyncState.importedNativeMemoryIds).getD [] ++ update.importedNativeMemoryIds)).items
  dedupedNativeIds.drop (dedupedNativeIds.length - maxTrackedNativeIds)

def lastDateSynced (previous : Option WearableSourceSyncState) (update : Update) : JsString :=
  match (update.days.insertionSort fun left right => left ≤ right).getLast?, previous with
  | none, none => []
  | none, some previous => previous.lastDateSynced
  | some latestDay, none => latestDay
  | some latestDay, some previous => if previous.lastDateSynced < latestDay then latestDay else previous.lastDateSynced

def mergedMemoryHashes (previous : Option WearableSourceSyncState) (update : Update) : DayHashes :=
  (((previous.bind WearableSourceSyncState.memoryDayHashes).getD OrderedMap.empty).overwrite update.memoryDayHashes).eraseAll
    (update.clearMemoryDays.filter fun day => !update.memoryDayHashes.contains day)

/-- Merge a completed source sync into the ledger. A source named `constructor` is found on every object as a function without
these fields, which comes to the same as a source that is not there. -/
def updateSourceSyncState (sources : Sources) (sourceId : JsString) (update : Update) : Sources :=
  let previous := sources.lookup sourceId
  sources.set sourceId
    { lastSyncAt := update.syncedAt
      lastDateSynced := lastDateSynced previous update
      dayHashes := bounded (((previous.map WearableSourceSyncState.dayHashes).getD OrderedMap.empty).overwrite update.dayHashes)
      memoryDayHashes := some (bounded (mergedMemoryHashes previous update))
      importedNativeMemoryIds := mergedNativeIds previous update }

/-- New evidence of the written days clears the completions of the other sources. -/
def clearOthers (sources : Sources) (sourceId : JsString) (transcriptsWritten : List JsString) : Sources :=
  if transcriptsWritten = [] then sources
  else sources.filterMap fun otherId otherState => some <|
    if otherId = sourceId then otherState
    else { otherState with memoryDayHashes := otherState.memoryDayHashes.map (·.eraseAll transcriptsWritten) }

/-- The hash the ledger records for the last completed memory pass of a day. -/
def completion (sources : Sources) (sourceId date : JsString) : Option JsString :=
  (sources.lookup sourceId).bind fun state => state.memoryDayHashes.bind (·.lookup date)

variable {other sourceId date : JsString} {sources : Sources} {hash : JsString}

theorem lookup_of_bounded {hashes : DayHashes} {day : JsString} (held : (bounded hashes).lookup day = some hash) :
    hashes.lookup day = some hash := by
  unfold bounded at held
  rw [lookup_eraseAll] at held
  split at held
  · cases held
  · exact held

/-- A recorded completion of the synced source is one of this run, or an earlier one that the run did not clear. -/
theorem completion_update_self {update : Update}
    (recorded : completion (updateSourceSyncState sources sourceId update) sourceId date = some hash) :
    update.memoryDayHashes.lookup date = some hash ∨
      completion sources sourceId date = some hash ∧ update.memoryDayHashes.lookup date = none ∧ date ∉ update.clearMemoryDays := by
  unfold completion updateSourceSyncState at recorded
  rw [lookup_set_self] at recorded
  simp only [bind_some] at recorded
  have merged := lookup_of_bounded recorded
  unfold mergedMemoryHashes at merged
  rw [lookup_eraseAll] at merged
  split at merged
  · cases merged
  next kept =>
    rw [lookup_overwrite] at merged
    cases new : update.memoryDayHashes.lookup date with
    | some found =>
      rw [new] at merged
      exact .inl merged
    | none =>
      rw [new, none_or] at merged
      refine .inr ⟨?_, rfl, fun cleared => kept (List.mem_filter.mpr ⟨cleared, by simp [OrderedMap.contains, new]⟩)⟩
      unfold completion
      cases held : sources.lookup sourceId with
      | none => simp [held] at merged
      | some state =>
        cases known : state.memoryDayHashes with
        | none => simp [held, known] at merged
        | some hashes => simpa [held, known] using merged

theorem completion_update_other (different : other ≠ sourceId) (date : JsString) (update : Update) :
    completion (updateSourceSyncState sources sourceId update) other date = completion sources other date := by
  unfold completion updateSourceSyncState
  rw [lookup_set_of_ne _ _ _ _ different]

/-- What is still recorded after clearing was recorded before, for the writer itself or for a day it did not write. -/
theorem completion_of_clearOthers {written : List JsString}
    (recorded : completion (clearOthers sources sourceId written) other date = some hash) :
    completion sources other date = some hash ∧ (other ≠ sourceId → date ∉ written) := by
  unfold clearOthers at recorded
  split at recorded
  next nothing => exact ⟨recorded, fun _ => by simp [nothing]⟩
  · unfold completion at recorded ⊢
    rw [lookup_filterMap] at recorded
    cases held : sources.lookup other with
    | none => simp [held] at recorded
    | some state =>
      by_cases same : other = sourceId
      · simp only [held, bind_some, if_pos same] at recorded ⊢
        exact ⟨recorded, fun different => absurd same different⟩
      · simp only [held, same, bind_some, if_false] at recorded ⊢
        cases known : state.memoryDayHashes with
        | none => simp [known] at recorded
        | some hashes =>
          rw [known, map_some, bind_some, lookup_eraseAll] at recorded
          split at recorded
          · cases recorded
          next kept => exact ⟨recorded, fun _ => kept⟩

end Remnic.Wearables.SyncState
