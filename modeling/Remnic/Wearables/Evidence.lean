import Remnic.Library.Transition
import Remnic.Wearables.Sync

/-!
A completion that the ledger records for the stored transcript stands for a memory pass that
began after every other source's transcript of the day was written, as long as no run ends
in a way that hides what it wrote.
-/

namespace Remnic.Wearables.Evidence

open Text.CodeUnits Library Library.Transition SyncState Sync List Option OrderedMap

variable {host : Host} {world next : World} {run : Run} {process : Nat}
variable {source other day hash : JsString}

/-- A completed pass of the source over content with this hash, such that any other source that wrote the day afterwards is
accounted for. -/
def Covered (host : Host) (world : World) (source day hash : JsString) (Accounted : JsString → Prop) : Prop :=
  ∃ pass ∈ world.passes, pass.source = source ∧ pass.day = day ∧ host.hashTranscriptBody pass.body = hash ∧
    ∀ write ∈ world.writes, write.source ≠ source → write.day = day → write.time < pass.began ∨ Accounted write.source

/-- When no run is in progress: a source that is recorded complete for its stored transcript of a day had a memory pass over that
content, begun after the last write of every other source's transcript of the day. -/
def SeesAllEvidence (host : Host) (world : World) : Prop :=
  world.runs.entries = [] → ∀ source day hash, completion world.ledger source day = some hash →
    world.contentHash source day = some hash → Covered host world source day hash fun _ => False

/-- Another process runs the source and has written the day. -/
def Ongoing (world : World) (source day : JsString) (process : Nat) : Prop :=
  ∃ entry ∈ world.runs.entries, entry.1 ≠ process ∧ entry.2.sourceId = source ∧ day ∈ entry.2.transcriptsWritten

/-- The run writes back the completion it loaded. -/
def Keeps (run : Run) (source day : JsString) : Prop :=
  if source = run.sourceId then run.began day = none ∧ (day ∈ run.failedMemoryDays → run.memoryDayHashes.contains day = true)
  else day ∉ run.transcriptsWritten

/-- No completion that the run writes back was outdated by a run that ended in the meantime, and no source whose run has ended
wrote a day after the run's own pass over it began. -/
def Current (world : World) (process : Nat) (run : Run) : Prop :=
  (∀ ending ∈ world.endings, ∀ day ∈ ending.days, ∀ entry ∈ run.syncState.entries,
    entry.1 ≠ ending.source → completion run.syncState entry.1 day ≠ none → Keeps run entry.1 day →
      ending.time < run.loadedAt ∨ Ongoing world ending.source day process) ∧
  ∀ write ∈ world.writes, write.source ≠ run.sourceId → ∀ began ∈ run.began write.day,
    write.time < began ∨ Ongoing world write.source write.day process

/-- No other source is recorded complete for a day that the run wrote. -/
def Unrecorded (world : World) (process : Nat) (run : Run) : Prop :=
  ∀ day ∈ run.transcriptsWritten, ∀ entry ∈ world.ledger.entries, entry.1 ≠ run.sourceId →
    completion world.ledger entry.1 day = none ∨ Ongoing world run.sourceId day process

def Undisturbed (world : World) : Action → Prop
  | .finish process _ => ∀ run ∈ world.runs.lookup process, Current world process run
  | .stop process => ∀ run ∈ world.runs.lookup process, Unrecorded world process run
  | _ => True

/-- A run of the source is in progress and has written the day. -/
def InProgress (world : World) (day source : JsString) : Prop :=
  ∃ process run, world.runs.lookup process = some run ∧ run.sourceId = source ∧ day ∈ run.transcriptsWritten

/-- A run of the source that wrote the day has ended since. -/
def EndedSince (world : World) (since : Nat) (day source : JsString) : Prop :=
  ∃ ending ∈ world.endings, ending.source = source ∧ day ∈ ending.days ∧ since ≤ ending.time

/-- The completions a run holds: of a pass of its own, or of the ledger it loaded. -/
def Recorded (host : Host) (world : World) (run : Run) : Prop :=
  ∀ day, match run.began day with
    | some began => ∃ pass ∈ world.passes, pass.source = run.sourceId ∧ pass.day = day ∧ pass.began = began ∧
        run.memoryDayHashes.lookup day = some (host.hashTranscriptBody pass.body)
    | none => ∀ hash, run.memoryDayHashes.lookup day = some hash → completion run.syncState run.sourceId day = some hash

structure RunSound (host : Host) (world : World) (run : Run) : Prop where
  loaded : run.loadedAt ≤ world.clock
  covered : ∀ source day hash, completion run.syncState source day = some hash →
    Covered host world source day hash fun other => InProgress world day other ∨ EndedSince world run.loadedAt day other
  recorded : Recorded host world run

structure Sound (host : Host) (world : World) : Prop where
  ledger : ∀ source day hash, completion world.ledger source day = some hash →
    Covered host world source day hash (InProgress world day)
  runs : ∀ process run, world.runs.lookup process = some run → RunSound host world run

theorem Covered.mono {Accounted Later : JsString → Prop} (covered : Covered host world source day hash Accounted)
    (passes : ∀ pass ∈ world.passes, pass ∈ next.passes)
    (later : ∀ other, Accounted other → Later other)
    (writes : ∀ write ∈ next.writes, write ∈ world.writes ∨ (write.day = day → Later write.source)) :
    Covered host next source day hash Later := by
  obtain ⟨pass, member, ofSource, ofDay, ofHash, before⟩ := covered
  refine ⟨pass, passes pass member, ofSource, ofDay, ofHash, fun write written different sameDay => ?_⟩
  rcases writes write written with earlier | new
  · exact (before write earlier different sameDay).imp_right (later write.source)
  · exact .inr (new sameDay)

/-- What a step leaves to the runs it does not concern. -/
structure Moves (world next : World) : Prop where
  clock : world.clock ≤ next.clock
  passes : ∀ pass ∈ world.passes, pass ∈ next.passes
  endings : ∀ ending ∈ world.endings, ending ∈ next.endings
  writes : ∀ write ∈ next.writes, write ∈ world.writes ∨ InProgress next write.day write.source
  progress : ∀ day source, InProgress world day source → InProgress next day source ∨ EndedSince next world.clock day source

theorem RunSound.moves (sound : RunSound host world run) (moves : Moves world next) : RunSound host next run := by
  refine ⟨sound.loaded.trans moves.clock, fun source day hash recorded => ?_, fun day => ?_⟩
  · apply (sound.covered source day hash recorded).mono moves.passes
    · rintro other (inProgress | ⟨ending, ended, ofSource, ofDay, since⟩)
      · rcases moves.progress day other inProgress with still | ⟨ending, ended, ofSource, ofDay, since⟩
        · exact .inl still
        · exact .inr ⟨ending, ended, ofSource, ofDay, sound.loaded.trans since⟩
      · exact .inr ⟨ending, moves.endings ending ended, ofSource, ofDay, since⟩
    · exact fun write written => (moves.writes write written).imp_right fun new same => .inl (same ▸ new)
  · have recorded := sound.recorded day
    cases began : run.began day with
    | none => simpa [began] using recorded
    | some time =>
      rw [began] at recorded
      obtain ⟨pass, member, rest⟩ := recorded
      exact ⟨pass, moves.passes pass member, rest⟩

structure Advances (world next : World) (process : Nat) (run updated : Run) : Prop where
  held : world.runs.lookup process = some run
  runs : next.runs = world.runs.set process updated
  sourceId : updated.sourceId = run.sourceId
  grows : ∀ day ∈ run.transcriptsWritten, day ∈ updated.transcriptsWritten

theorem Advances.inProgress {updated : Run} (advances : Advances world next process run updated) (day source : JsString)
    (inProgress : InProgress world day source) : InProgress next day source := by
  obtain ⟨holder, other, found, ofSource, written⟩ := inProgress
  by_cases mine : holder = process
  · rw [mine, advances.held] at found
    cases found
    exact ⟨process, updated, by rw [advances.runs, lookup_set_self], advances.sourceId.trans ofSource,
      advances.grows day written⟩
  · exact ⟨holder, other, by rw [advances.runs, lookup_set_of_ne _ _ _ _ mine, found], ofSource, written⟩

theorem Sound.set {updated : Run} (sound : Sound host world) (moves : Moves world next)
    (runs : next.runs = world.runs.set process updated) (ledger : next.ledger = world.ledger)
    (still : ∀ day source, InProgress world day source → InProgress next day source)
    (updates : RunSound host next updated) : Sound host next := by
  refine ⟨fun source day hash recorded => ?_, fun holder run found => ?_⟩
  · rw [ledger] at recorded
    exact (sound.ledger source day hash recorded).mono moves.passes (still day) fun write written =>
      (moves.writes write written).imp_right fun new same => same ▸ new
  · rw [runs, lookup_set] at found
    split at found
    · cases found
      exact updates
    · exact (sound.runs holder run found).moves moves

theorem sound_advance {updated : Run} (sound : Sound host world) (held : world.runs.lookup process = some run)
    (sourceId : updated.sourceId = run.sourceId) (written : updated.transcriptsWritten = run.transcriptsWritten)
    (syncState : updated.syncState = run.syncState) (loadedAt : updated.loadedAt = run.loadedAt)
    (recorded : Recorded host world updated) : Sound host (world.advance process updated) := by
  have advances : Advances world (world.advance process updated) process run updated :=
    ⟨held, rfl, sourceId, fun day member => written ▸ member⟩
  have moves : Moves world (world.advance process updated) :=
    ⟨Nat.le_succ _, fun _ => id, fun _ => id, fun _ => .inl, fun day source inProgress => .inl (advances.inProgress day source inProgress)⟩
  have before := (sound.runs process run held).moves moves
  refine sound.set moves rfl rfl advances.inProgress ⟨loadedAt.trans_le before.loaded, ?_, recorded⟩
  rw [syncState, loadedAt]
  exact before.covered

section stored

variable (host run) (date body : JsString) (allElided changed : Bool)

theorem sourceId_stored : (run.stored host date body allElided changed).sourceId = run.sourceId := by
  unfold Run.stored
  dsimp only
  split_ifs <;> rfl

theorem transcriptsWritten_stored :
    (run.stored host date body allElided changed).transcriptsWritten = run.transcriptsWritten := by
  unfold Run.stored
  dsimp only
  split_ifs <;> rfl

theorem syncState_stored : (run.stored host date body allElided changed).syncState = run.syncState := by
  unfold Run.stored
  dsimp only
  split_ifs <;> rfl

theorem loadedAt_stored : (run.stored host date body allElided changed).loadedAt = run.loadedAt := by
  unfold Run.stored
  dsimp only
  split_ifs <;> rfl

theorem recorded_stored (recorded : Recorded host world run) :
    Recorded host world (run.stored host date body allElided changed) := by
  unfold Run.stored
  dsimp only
  split_ifs with elided wanted able complete
  · exact recorded
  · exact recorded
  · exact recorded
  · intro day
    by_cases same : day = date
    · simp only [same, Function.update_self, lookup_set_self]
      exact fun hash held => complete.2.trans held
    · simpa only [Function.update_of_ne same, lookup_set_of_ne _ _ _ _ same] using recorded day
  · exact recorded

end stored

theorem sound_start (sound : Sound host world) (absent : world.runs.lookup process = none) (sourceId now : JsString)
    (settings : Settings) (days : List JsString) :
    Sound host (world.advance process (Run.start world sourceId settings now days)) := by
  have still : ∀ day source, InProgress world day source →
      InProgress (world.advance process (Run.start world sourceId settings now days)) day source := by
    rintro day source ⟨holder, run, found, rest⟩
    have apart : holder ≠ process := by
      rintro rfl
      rw [absent] at found
      cases found
    exact ⟨holder, run, (lookup_set_of_ne _ _ _ _ apart).trans found, rest⟩
  refine sound.set ⟨Nat.le_succ _, fun _ => id, fun _ => id, fun _ => .inl, fun day source inProgress => .inl (still day source inProgress)⟩
    rfl rfl still ⟨Nat.le_succ _, fun source day hash recorded => ?_, fun day hash held => ?_⟩
  · exact (sound.ledger source day hash recorded).mono (fun _ => id) (fun other inProgress => .inl (still day other inProgress))
      fun _ => .inl
  · exact absurd held (by simp [Run.start])

section

variable (sound : Sound host world) (held : world.runs.lookup process = some run)
include sound held

theorem sound_fetch (date : JsString) (dates : List JsString) (fetched : Fetched) : Sound host (world.advance process (run.fetch date dates fetched)) := by
  have recorded := (sound.runs process run held).recorded
  cases fetched with
  | nothing => exact sound_advance sound held rfl rfl rfl rfl recorded
  | elided => exact sound_advance sound held rfl rfl rfl rfl recorded
  | transcript body => exact sound_advance sound held rfl rfl rfl rfl recorded

theorem sound_compare (date body : JsString) (allElided : Bool) : Sound host (world.compare host process run date body allElided) := by
  have recorded := (sound.runs process run held).recorded
  unfold World.compare
  dsimp only
  split_ifs
  · exact sound_advance sound held rfl rfl rfl rfl recorded
  · exact sound_advance sound held (sourceId_stored ..) (transcriptsWritten_stored ..) (syncState_stored ..) (loadedAt_stored ..)
      (recorded_stored _ _ _ _ _ _ recorded)

theorem sound_write (date body : JsString) (allElided : Bool) : Sound host (world.write host process run date body allElided) := by
  let updated := { run with transcriptsWritten := run.transcriptsWritten ++ [date] }.stored host date body allElided true
  have sourceId : updated.sourceId = run.sourceId := sourceId_stored ..
  have written : updated.transcriptsWritten = run.transcriptsWritten ++ [date] := transcriptsWritten_stored ..
  have here : date ∈ updated.transcriptsWritten := by
    rw [written]
    exact mem_append_right _ (mem_singleton_self date)
  have syncState : updated.syncState = run.syncState := syncState_stored ..
  have loadedAt : updated.loadedAt = run.loadedAt := loadedAt_stored ..
  have recorded : Recorded host world updated := recorded_stored _ _ _ _ _ _ (sound.runs process run held).recorded
  have advances : Advances world (world.write host process run date body allElided) process run updated :=
    ⟨held, rfl, sourceId, fun day member => written ▸ mem_append_left _ member⟩
  have moves : Moves world (world.write host process run date body allElided) := by
    refine ⟨Nat.le_succ _, fun _ => id, fun _ => id, fun write member => ?_,
      fun day source inProgress => .inl (advances.inProgress day source inProgress)⟩
    rcases mem_cons.mp member with rfl | earlier
    · exact .inr ⟨process, updated, lookup_set_self _ _ _, sourceId, here⟩
    · exact .inl earlier
  have before := (sound.runs process run held).moves moves
  refine sound.set moves rfl rfl advances.inProgress ⟨loadedAt.trans_le before.loaded, ?_, recorded⟩
  rw [syncState, loadedAt]
  exact before.covered

theorem sound_remember (date body : JsString) (began : Nat) (passClean : Bool) : Sound host (world.remember host process run date body began passClean) := by
  have recorded := (sound.runs process run held).recorded
  cases passClean with
  | false => exact sound_advance sound held rfl rfl rfl rfl recorded
  | true =>
    have advances : Advances world (world.remember host process run date body began true) process run
        (run.remember host date body began true) := ⟨held, rfl, rfl, fun _ => id⟩
    have moves : Moves world (world.remember host process run date body began true) :=
      ⟨Nat.le_succ _, fun _ => mem_cons_of_mem _, fun _ => id, fun _ => .inl,
        fun day source inProgress => .inl (advances.inProgress day source inProgress)⟩
    have before := (sound.runs process run held).moves moves
    refine sound.set moves rfl rfl advances.inProgress ⟨before.loaded, before.covered, fun day => ?_⟩
    by_cases same : day = date
    · simp only [Run.remember, if_true, same, Function.update_self, lookup_set_self]
      exact ⟨_, mem_cons_self, rfl, rfl, rfl, rfl⟩
    · simpa only [Run.remember, if_true, Function.update_of_ne same, lookup_set_of_ne _ _ _ _ same] using before.recorded day

end

theorem inProgress_finished (held : world.runs.lookup process = some run) (ledger : Sources) {day : JsString} {source : JsString}
    (inProgress : InProgress world day source) :
    InProgress (world.finished process run ledger) day source ∨ source = run.sourceId ∧ day ∈ run.transcriptsWritten := by
  obtain ⟨holder, other, found, ofSource, written⟩ := inProgress
  by_cases mine : holder = process
  · rw [mine, held] at found
    cases found
    exact .inr ⟨ofSource.symm, written⟩
  · exact .inl ⟨holder, other, (lookup_erase _ _ _).trans ((if_neg mine).trans found), ofSource, written⟩

theorem moves_finished (held : world.runs.lookup process = some run) (ledger : Sources) :
    Moves world (world.finished process run ledger) := by
  refine ⟨Nat.le_succ _, fun _ => id, fun _ => mem_cons_of_mem _, fun _ => .inl, fun day source inProgress => ?_⟩
  rcases inProgress_finished held ledger inProgress with still | ⟨ofSource, written⟩
  · exact .inl still
  · exact .inr ⟨_, mem_cons_self, ofSource.symm, written, le_refl world.clock⟩

theorem Ongoing.inProgress (ongoing : Ongoing world source day process) (ledger : Sources) :
    InProgress (world.finished process run ledger) day source := by
  obtain ⟨entry, member, apart, ofSource, written⟩ := ongoing
  refine ⟨entry.1, entry.2, ?_, ofSource, written⟩
  exact (lookup_erase _ _ _).trans ((if_neg apart).trans ((lookup_eq_some_iff _ _ _).mpr member))

theorem sound_finished (sound : Sound host world) (held : world.runs.lookup process = some run) {ledger : Sources}
    (covered : ∀ source day hash, completion ledger source day = some hash →
      Covered host (world.finished process run ledger) source day hash (InProgress (world.finished process run ledger) day)) :
    Sound host (world.finished process run ledger) := by
  refine ⟨covered, fun holder other found => ?_⟩
  have erased : (world.runs.erase process).lookup holder = some other := found
  rw [lookup_erase] at erased
  split at erased
  · cases erased
  · exact (sound.runs holder other erased).moves (moves_finished held ledger)

theorem mem_of_completion {sources : Sources} (recorded : completion sources source day = some hash) :
    ∃ entry ∈ sources.entries, entry.1 = source := by
  obtain ⟨state, found, _⟩ := bind_eq_some_iff.mp recorded
  exact ⟨(source, state), (lookup_eq_some_iff _ _ _).mp found, rfl⟩

theorem sound_stop (sound : Sound host world) (held : world.runs.lookup process = some run)
    (unrecorded : Unrecorded world process run) : Sound host (world.finished process run world.ledger) := by
  refine sound_finished sound held fun source day hash recorded => ?_
  obtain ⟨pass, member, ofSource, ofDay, ofHash, before⟩ := sound.ledger source day hash recorded
  refine ⟨pass, member, ofSource, ofDay, ofHash, fun write written different sameDay => ?_⟩
  rcases before write written different sameDay with earlier | inProgress
  · exact .inl earlier
  refine .inr ?_
  rcases inProgress_finished held world.ledger inProgress with still | ⟨mine, wrote⟩
  · exact still
  obtain ⟨entry, listed, named⟩ := mem_of_completion recorded
  have apart : entry.1 ≠ run.sourceId := by
    rw [named, ← mine]
    exact different.symm
  rcases unrecorded day wrote entry listed apart with missing | ongoing
  · rw [named, recorded] at missing
    cases missing
  · exact mine ▸ ongoing.inProgress world.ledger

/-- What a run writes back from the ledger it loaded is still covered when it saves. -/
theorem covered_kept (sound : Sound host world) (held : world.runs.lookup process = some run) (current : Current world process run)
    (recorded : completion run.syncState source day = some hash) (keeps : Keeps run source day)
    (unwritten : source ≠ run.sourceId → day ∉ run.transcriptsWritten) (ledger : Sources) :
    Covered host (world.finished process run ledger) source day hash (InProgress (world.finished process run ledger) day) := by
  obtain ⟨pass, member, ofSource, ofDay, ofHash, before⟩ := (sound.runs process run held).covered source day hash recorded
  refine ⟨pass, member, ofSource, ofDay, ofHash, fun write written different sameDay => ?_⟩
  rcases before write written different sameDay with earlier | inProgress | ⟨ending, ended, sameSource, ofDays, since⟩
  · exact .inl earlier
  · rcases inProgress_finished held ledger inProgress with still | ⟨mine, wrote⟩
    · exact .inr still
    · exact absurd wrote (unwritten fun own => different (mine.trans own.symm))
  · obtain ⟨entry, listed, named⟩ := mem_of_completion recorded
    have apart : entry.1 ≠ ending.source := by
      rw [named, sameSource]
      exact different.symm
    have there : completion run.syncState entry.1 day ≠ none := by
      rw [named, recorded]
      exact some_ne_none hash
    rcases current.1 ending ended day ofDays entry listed apart there (named ▸ keeps) with earlier | ongoing
    · omega
    · exact .inr (sameSource ▸ ongoing.inProgress ledger)

/-- A pass of the run itself covers its completion when it saves. -/
theorem covered_own (current : Current world process run) {began : Nat} (timed : run.began day = some began)
    {pass : Pass} (member : pass ∈ world.passes) (ofSource : pass.source = run.sourceId) (ofDay : pass.day = day)
    (ofHash : host.hashTranscriptBody pass.body = hash) (started : pass.began = began) (ledger : Sources) :
    Covered host (world.finished process run ledger) run.sourceId day hash (InProgress (world.finished process run ledger) day) := by
  refine ⟨pass, member, ofSource, ofDay, ofHash, fun write written different sameDay => ?_⟩
  rcases current.2 write written different began (sameDay ▸ timed) with earlier | ongoing
  · exact .inl (started ▸ earlier)
  · exact .inr (sameDay ▸ ongoing.inProgress ledger)

theorem sound_finish (sound : Sound host world) (held : world.runs.lookup process = some run) (current : Current world process run)
    (importedNativeIds : List JsString) : Sound host (world.finished process run (run.saved importedNativeIds)) := by
  refine sound_finished sound held fun source day hash recorded => ?_
  obtain ⟨updated, unwritten⟩ := completion_of_clearOthers recorded
  by_cases own : source = run.sourceId
  · subst own
    have there := (sound.runs process run held).recorded day
    have mine : run.sourceId ≠ run.sourceId → day ∉ run.transcriptsWritten := fun different => absurd rfl different
    cases timed : run.began day with
    | some began =>
      rw [timed] at there
      obtain ⟨pass, member, ofSource, ofDay, started, own⟩ := there
      rcases completion_update_self updated with new | ⟨_, missing, _⟩
      · exact covered_own current timed member ofSource ofDay (some.inj (own.symm.trans new)) started _
      · exact absurd (own.symm.trans missing) (some_ne_none _)
    | none =>
      rw [timed] at there
      rcases completion_update_self updated with new | ⟨loaded, _, uncleared⟩
      · have contained : run.memoryDayHashes.contains day = true := by rw [OrderedMap.contains, new, isSome_some]
        exact covered_kept sound held current (there hash new) ((if_pos rfl).mpr ⟨timed, fun _ => contained⟩) mine _
      · exact covered_kept sound held current loaded ((if_pos rfl).mpr ⟨timed, fun failed => absurd failed uncleared⟩) mine _
  · rw [completion_update_other own] at updated
    exact covered_kept sound held current updated ((if_neg own).mpr (unwritten own)) unwritten _

theorem sound_initial : Sound host initial :=
  ⟨fun _ _ _ recorded => (nomatch recorded), fun _ _ found => (nomatch found)⟩

theorem sound_step (sound : Sound host world) {action : Action} (undisturbed : Undisturbed world action)
    (stepped : step host world action = some next) : Sound host next := by
  cases action with
  | start process sourceId settings now days =>
    simp only [step] at stepped
    split at stepped
    · cases stepped
    next absent =>
      cases stepped
      exact sound_start sound (by simpa [OrderedMap.contains] using absent) sourceId now settings days
  | fetch process fetched =>
    obtain ⟨run, held, stepped⟩ := bind_eq_some_iff.mp stepped
    split at stepped
    next date dates _ _ =>
      cases stepped
      exact sound_fetch sound held date dates fetched
    · cases stepped
  | compare process =>
    obtain ⟨run, held, stepped⟩ := bind_eq_some_iff.mp stepped
    split at stepped
    next date body allElided _ =>
      cases stepped
      exact sound_compare sound held date body allElided
    · cases stepped
  | write process =>
    obtain ⟨run, held, stepped⟩ := bind_eq_some_iff.mp stepped
    split at stepped
    next date body allElided _ =>
      cases stepped
      exact sound_write sound held date body allElided
    · cases stepped
  | begin process =>
    obtain ⟨run, held, stepped⟩ := bind_eq_some_iff.mp stepped
    split at stepped
    · cases stepped
      exact sound_advance sound held rfl rfl rfl rfl (sound.runs process run held).recorded
    · cases stepped
  | remember process passClean =>
    obtain ⟨run, held, stepped⟩ := bind_eq_some_iff.mp stepped
    split at stepped
    next date body began _ =>
      cases stepped
      exact sound_remember sound held date body began passClean
    · cases stepped
  | finish process importedNativeIds =>
    obtain ⟨run, held, stepped⟩ := bind_eq_some_iff.mp stepped
    split at stepped
    · cases stepped
      exact sound_finish sound held (undisturbed run held) importedNativeIds
    · cases stepped
  | stop process =>
    obtain ⟨run, held, stepped⟩ := bind_eq_some_iff.mp stepped
    cases stepped
    exact sound_stop sound held (undisturbed run held)

/-- In every run whose steps all meet the condition, a recorded completion stands for a pass that saw all the evidence. -/
theorem completions_see_all_evidence (reached : Reaches (step host) Undisturbed initial world) : SeesAllEvidence host world := by
  have sound : Sound host world := by
    apply reached.invariant (Sound host) sound_initial
    intro before action after sound undisturbed stepped
    exact sound_step sound undisturbed stepped
  intro idle source day hash recorded _
  refine (sound.ledger source day hash recorded).mono (fun _ => id) (fun other inProgress => ?_) fun _ => .inl
  obtain ⟨process, run, found, _⟩ := inProgress
  have listed := (lookup_eq_some_iff _ _ _).mp found
  rw [idle] at listed
  cases listed

instance (world : World) (source day : JsString) (process : Nat) : Decidable (Ongoing world source day process) := by
  unfold Ongoing
  infer_instance

instance (run : Run) (source day : JsString) : Decidable (Keeps run source day) := by
  unfold Keeps
  infer_instance

instance (world : World) (process : Nat) (run : Run) : Decidable (Current world process run) := by
  unfold Current
  infer_instance

instance (world : World) (process : Nat) (run : Run) : Decidable (Unrecorded world process run) := by
  unfold Unrecorded
  infer_instance

instance (world : World) (action : Action) : Decidable (Undisturbed world action) := by
  cases action <;> unfold Undisturbed <;> infer_instance

def sampleHost : Host := ⟨id⟩

def sampleStart (process : Nat) (source : String) (days : List String) : Action :=
  .start process (text source) ⟨.smart, false, true⟩ (text "2024-05-02T08:00:00.000Z") (days.map text)

def sampleBody (words : String) : Fetched := .transcript (text words)

/-- A source syncs a day, another source writes the day too, and the first one syncs again. -/
def corroborated : List Action :=
  [sampleStart 0 "limitless" ["2024-05-01"], .fetch 0 (sampleBody "one"), .compare 0, .write 0, .begin 0, .remember 0 true,
    .finish 0 [], sampleStart 0 "omi" ["2024-05-01"], .fetch 0 (sampleBody "two"), .compare 0, .write 0, .begin 0,
    .remember 0 true, .finish 0 [], sampleStart 0 "limitless" ["2024-05-01"], .fetch 0 (sampleBody "one"), .compare 0, .begin 0,
    .remember 0 true, .finish 0 []]

theorem completions_see_all_evidence_corroborated : ∃ world : World,
    Reaches (step sampleHost) Undisturbed initial world ∧
      completion world.ledger (text "limitless") (text "2024-05-01") = some (text "one") ∧ SeesAllEvidence sampleHost world := by
  refine exists_reached (fun world => completion world.ledger (text "limitless") (text "2024-05-01") = some (text "one"))
    corroborated (by decide +kernel) ?_
  intro world reached recorded
  exact ⟨recorded, completions_see_all_evidence reached⟩

/-- A source syncs a day; another one writes the day and then fails on its second day; its next run finds the day unchanged. -/
def hidden : List Action :=
  [sampleStart 0 "limitless" ["2024-05-01"], .fetch 0 (sampleBody "one"), .compare 0, .write 0, .begin 0, .remember 0 true,
    .finish 0 [], sampleStart 0 "omi" ["2024-05-01", "2024-05-02"], .fetch 0 (sampleBody "two"), .compare 0, .write 0, .begin 0,
    .remember 0 true, .stop 0, sampleStart 0 "omi" ["2024-05-01", "2024-05-02"], .fetch 0 (sampleBody "two"), .compare 0,
    .begin 0, .remember 0 true, .fetch 0 .nothing, .finish 0 []]

theorem stopped_run_hides_evidence : ∃ world : World,
    Reaches (step sampleHost) (fun _ _ => True) initial world ∧ ¬ SeesAllEvidence sampleHost world := by
  refine exists_reached (fun world => completion world.ledger (text "limitless") (text "2024-05-01") = some (text "one") ∧
    world.contentHash (text "limitless") (text "2024-05-01") = some (text "one") ∧ world.runs.entries.isEmpty ∧
      ⟨text "omi", text "2024-05-01", 10⟩ ∈ world.writes ∧
        ∀ pass ∈ world.passes, pass.source ≠ text "limitless" ∨ pass.began ≤ 10) hidden (by decide +kernel) ?_
  intro world _ ⟨recorded, stored, idle, written, early⟩ sees
  obtain ⟨pass, member, ofSource, _, _, before⟩ := sees (isEmpty_iff.mp idle) _ _ _ recorded stored
  have began : pass.began ≤ 10 := (early pass member).resolve_left fun different => different ofSource
  rcases before _ written (by decide +kernel) rfl with earlier | nothing
  · exact Nat.lt_irrefl 10 (earlier.trans_le began)
  · exact nothing

end Remnic.Wearables.Evidence
