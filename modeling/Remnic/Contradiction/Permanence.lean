import Remnic.Contradiction.Review
import Remnic.Library.GuardedFold

/-! Answers of the review queue stay: no call takes a terminal one back, and few take a both-valid one. -/

namespace Remnic.Contradiction.Permanence
open Library Text.CodeUnits Text.IsoDate Review List Option OrderedMap

variable {env : ReviewEnv} {dir : ReviewDir} {moment : Moment} {clock : Nat → Int} {options : WritePairOptions}
  {file other : JsString} {pair existing migrated : ContradictionPair}

/-- How far a record is answered: by a terminal verb, as both valid, or not for good. -/
def answer (pair : ContradictionPair) : Nat :=
  if isTerminalResolution pair.resolution then 2 else if pair.resolution = some .bothValid then 1 else 0

theorem answer_eq_two_iff : answer pair = 2 ↔ isTerminalResolution pair.resolution = true := by
  unfold answer
  split_ifs <;> simp_all

theorem answer_le_two (pair : ContradictionPair) : answer pair ≤ 2 := by
  unfold answer
  split_ifs <;> decide

theorem answer_of_bothValid (valid : pair.resolution = some .bothValid) : answer pair = 1 := by
  unfold answer
  rw [valid]
  rfl

theorem answered_cases (answered : 1 ≤ answer pair) :
    isTerminalResolution pair.resolution = true ∨ pair.resolution = some .bothValid := by
  unfold answer at answered
  split_ifs at answered with terminal valid
  · exact .inl terminal
  · exact .inr valid
  · exact absurd answered (by decide)

theorem rank_answer (env : ReviewEnv) (deferralNow coolingNow : Int) (cooldownDays : Option ℚ) (pair : ContradictionPair) :
    answer pair = reviewStateRank env deferralNow coolingNow cooldownDays pair - 3 := by
  unfold answer reviewStateRank
  split_ifs
  · rfl
  · rfl
  · rfl
  · cases cooldownDays with
    | none => rfl
    | some days =>
      dsimp only
      split_ifs
      · rfl
      · rfl
  · rfl

theorem answer_merge : answer (mergeMigratedPair env clock existing migrated options) =
    max (answer existing) (answer migrated) := by
  have first := rank_answer env (clock 0) (clock 1) options.cooldownDays existing
  have second := rank_answer env (clock 2) (clock 3) options.cooldownDays migrated
  have kept (selected : ContradictionPair) : answer { selected with
    pairId := migrated.pairId, namespaceName := migrated.namespaceName } = answer selected := rfl
  unfold mergeMigratedPair
  dsimp only
  rw [kept]
  split_ifs
  · omega
  · omega
  · omega
  · omega

theorem pairPath_ok {pairId : JsString} (checked : pairPath pairId = .ok file) : file = pairId := by
  unfold pairPath at checked
  split_ifs at checked
  exact (Except.ok.inj checked).symm

theorem writePairFile_ok {written : ReviewDir} (done : writePairFile moment file pair dir = .ok written) :
    written = { dir with files := dir.files.set file pair } := by
  unfold writePairFile at done
  split_ifs at done
  exact (Except.ok.inj done).symm

variable {found : Option ContradictionPair}

theorem path_of_read (read : readPair dir file = .ok found) : pairPath file = .ok file := by
  unfold readPair at read
  cases checked : pairPath file with
  | error fault =>
    rw [checked] at read
    cases read
  | ok path => rw [pairPath_ok checked]

theorem readPair_ok (read : readPair dir file = .ok found) : found = dir.files.lookup file := by
  unfold readPair at read
  cases checked : pairPath file with
  | error fault =>
    rw [checked] at read
    cases read
  | ok path =>
    rw [checked] at read
    rw [← Except.ok.inj read, pairPath_ok checked]

theorem files_writePair (env : ReviewEnv) (moment : Moment) (clock : Nat → Int) (pair : DetectedPair)
    (options : WritePairOptions) (dir : ReviewDir) :
    (writePair env moment clock pair options dir).1.files = dir.files ∨
      pairPath (pair.id env) = .ok (pair.id env) ∧ (∀ existing, dir.files.lookup (pair.id env) = some existing →
        preservesExisting env clock existing pair options = false) ∧
      (writePair env moment clock pair options dir).1.files = dir.files.set (pair.id env)
        (refreshed env clock (dir.files.lookup (pair.id env)) pair options (pair.id env)) := by
  have cleared (made : ReviewDir) : (clearUnscopedMigrationMarkers moment made).files = made.files := by
    unfold clearUnscopedMigrationMarkers
    split
    next => rfl
    next => rfl
  have opened : (if pair.namespaceName = none then clearUnscopedMigrationMarkers moment { dir with created := true }
      else { dir with created := true }).files = dir.files := by
    split_ifs
    · exact cleared _
    · rfl
  unfold writePair
  dsimp only
  generalize (if pair.namespaceName = none then clearUnscopedMigrationMarkers moment { dir with created := true }
    else { dir with created := true }) = started at opened
  cases read : readPair started (pair.id env) with
  | error fault => exact .inl opened
  | ok found =>
    have known := (readPair_ok read).trans (congrArg (OrderedMap.lookup · (pair.id env)) opened)
    dsimp only
    cases stands : found.filter fun there => preservesExisting env clock there pair options with
    | some there => exact .inl opened
    | none =>
      dsimp only
      cases wrote : writePairFile moment (pair.id env) (refreshed env clock found pair options (pair.id env)) started with
      | error fault => exact .inl opened
      | ok written =>
        refine .inr ⟨path_of_read read, fun existing held => ?_, ?_⟩
        · rw [known, held] at stands
          exact Bool.eq_false_iff.mpr (by simpa [Option.filter] using stands)
        · rw [writePairFile_ok wrote, ← known, ← opened]

section Writes

variable {record : ContradictionPair} {pair : DetectedPair}

theorem writePair_keeps (held : dir.files.lookup file = some record)
    (kept : pair.id env = file → preservesExisting env clock record pair options = true) :
    (writePair env moment clock pair options dir).1.files.lookup file = some record := by
  rcases files_writePair env moment clock pair options dir with same | wrote
  · rw [same, held]
  · obtain ⟨_, refuses, files⟩ := wrote
    rw [files, lookup_set]
    split
    next equal =>
      rw [equal] at held
      cases (refuses record held).symm.trans (kept equal.symm)
    next different => exact held

theorem writePairsFrom_keeps {pairs : List DetectedPair} (index : Nat) (seen : List JsString)
    (held : dir.files.lookup file = some record)
    (kept : ∀ pair ∈ pairs, pair.id env = file → ∀ start,
      preservesExisting env (later moment.clock start) record pair options = true) :
    (writePairsFrom env moment options pairs index seen dir).1.files.lookup file = some record := by
  induction pairs generalizing index seen dir with
  | nil => exact held
  | cons pair rest ih =>
    unfold writePairsFrom
    dsimp only
    have rests := fun other member => kept other (mem_cons_of_mem _ member)
    split
    next known => exact ih (index + 1) seen held rests
    next fresh =>
      have stays : (writePair env moment (later moment.clock (3 * index)) pair options dir).1.files.lookup file = some record :=
        writePair_keeps held fun same => kept pair mem_cons_self same (3 * index)
      cases wrote : writePair env moment (later moment.clock (3 * index)) pair options dir with
      | mk written result =>
        rw [wrote] at stays
        cases result with
        | error fault => exact stays
        | ok full => exact ih (index + 1) (pair.id env :: seen) stays rests

theorem answerPair_keeps {pairId : JsString} {change : ContradictionPair → Except JsString ContradictionPair}
    (held : dir.files.lookup file = some record) (answered : 1 ≤ answer record) :
    (answerPair moment pairId change dir).1.files.lookup file = some record := by
  unfold answerPair
  cases read : readPair dir pairId with
  | error fault => exact held
  | ok found =>
    cases found with
    | none => exact held
    | some existing =>
      dsimp only
      split_ifs with preserved
      · exact held
      · cases change existing with
        | error fault => exact held
        | ok updated =>
          dsimp only
          cases wrote : writePairFile moment pairId updated dir with
          | error fault => exact held
          | ok written =>
            dsimp only
            rw [writePairFile_ok wrote, lookup_set]
            split
            next same =>
              have same := (readPair_ok read).trans (same ▸ held)
              rw [some.inj same] at preserved
              refine absurd ?_ preserved
              unfold preservesDirectResolution
              rcases answered_cases answered with terminal | valid
              · rw [terminal, Bool.true_or]
              · rw [valid]
                rfl
            next different => exact held

def writes : ReviewCall → List (DetectedPair × WritePairOptions)
  | .writePair pair options => [(pair, options)]
  | .writePairs pairs options => pairs.map fun pair => (pair, options)
  | _ => []

theorem step_keeps {event : ReviewEvent} (held : dir.files.lookup file = some record) (answered : 1 ≤ answer record)
    (kept : ∀ write ∈ writes event.call, write.1.id env = file → ∀ start,
      preservesExisting env (later event.moment.clock start) record write.1 write.2 = true)
    (plain : ∀ namespaceName options, event.call ≠ .migrateUnscopedPairsToNamespace namespaceName options) :
    (step env dir event).files.lookup file = some record := by
  unfold step
  cases call : event.call with
  | writePair pair options =>
    have first : later event.moment.clock 0 = event.moment.clock := funext fun reading => by
      unfold later
      rw [Nat.zero_add]
    exact writePair_keeps held fun same => first ▸ kept (pair, options) (by rw [call]; exact mem_singleton_self _) same 0
  | writePairs pairs options =>
    refine writePairsFrom_keeps 0 [] held fun pair member same => kept (pair, options) ?_ same
    rw [call]
    exact mem_map_of_mem member
  | resolvePair pairId verb =>
    dsimp only
    unfold resolvePair
    split
    next deferral =>
      unfold deferPair
      split
      next => exact held
      next => exact answerPair_keeps held answered
    next plain => exact answerPair_keeps held answered
  | deferPair pairId deferredUntil =>
    dsimp only
    unfold deferPair
    split
    next => exact held
    next => exact answerPair_keeps held answered
  | migrateUnscopedPairsToNamespace namespaceName options => exact absurd call (plain namespaceName options)

end Writes

section Migration

variable {progress : MigrationRun} {resolvedNamespace source : JsString} {record : ContradictionPair} {level : Nat}

def idIn (env : ReviewEnv) (pair : ContradictionPair) (namespaceName : JsString) : JsString :=
  computePairId env pair.memoryIds.1 pair.memoryIds.2 (some namespaceName)

structure Lands (env : ReviewEnv) (resolvedNamespace : JsString) (progress : MigrationRun)
    (pair content : ContradictionPair) : Prop where
  path : pairPath content.pairId = .ok content.pairId
  named : content.pairId = idIn env pair resolvedNamespace
  within : content.namespaceName = some resolvedNamespace
  answered : answer content = max (answer pair) (((progress.dir.files.lookup content.pairId).map answer).getD 0)
  origin : ∃ origin, (origin = pair ∨ progress.dir.files.lookup content.pairId = some origin) ∧
    content.resolution = origin.resolution ∧ content.deferredUntil = origin.deferredUntil

theorem lands_migratedContent (env : ReviewEnv) (resolvedNamespace : JsString) (options : WritePairOptions)
    (clock : Nat → Int) (found : progress.dir.files.lookup source = some record)
    (path : pairPath (idIn env record resolvedNamespace) = .ok (idIn env record resolvedNamespace)) :
    Lands env resolvedNamespace progress record
      (migratedContent env resolvedNamespace options clock source record progress.dir) := by
  unfold migratedContent
  dsimp only
  by_cases own : computePairId env record.memoryIds.1 record.memoryIds.2 (some resolvedNamespace) = source
  · rw [if_pos own]
    refine ⟨path, rfl, rfl, ?_, record, .inl rfl, rfl, rfl⟩
    have same : answer { record with
      namespaceName := some resolvedNamespace
      pairId := computePairId env record.memoryIds.1 record.memoryIds.2 (some resolvedNamespace) } = answer record := rfl
    rw [same]
    dsimp only
    rw [own, found]
    exact (max_self _).symm
  · rw [if_neg own]
    cases there : progress.dir.files.lookup
        (computePairId env record.memoryIds.1 record.memoryIds.2 (some resolvedNamespace)) with
    | none =>
      refine ⟨path, rfl, rfl, ?_, record, .inl rfl, rfl, rfl⟩
      dsimp only
      rw [there]
      exact (Nat.max_zero _).symm
    | some existing =>
      refine ⟨path, rfl, rfl, ?_, ?_⟩
      · rw [answer_merge, max_comm]
        exact congrArg _ (by dsimp only [mergeMigratedPair]; rw [there]; rfl)
      · unfold mergeMigratedPair
        dsimp only
        split_ifs
        · exact ⟨record, .inl rfl, rfl, rfl⟩
        · exact ⟨existing, .inr there, rfl, rfl⟩
        · exact ⟨record, .inl rfl, rfl, rfl⟩
        · exact ⟨existing, .inr there, rfl, rfl⟩

/-- One file of a migration: nothing happens, or its pair lands at its target and leaves its file, if it can. -/
theorem files_migrateEntry (env : ReviewEnv) (moment : Moment) (resolvedNamespace : JsString) (options : WritePairOptions)
    (clock : Nat → Int) (source : JsString) (progress : MigrationRun) :
    (migrateEntry env moment resolvedNamespace options clock source progress).dir.files = progress.dir.files ∨
      ∃ pair content, progress.dir.files.lookup source = some pair ∧ pair.namespaceName = none ∧
        Lands env resolvedNamespace progress pair content ∧
        ∀ name, (migrateEntry env moment resolvedNamespace options clock source progress).dir.files.lookup name =
          if name = content.pairId then some content
          else if name = source ∧ moment.removeFails source = false then none
          else progress.dir.files.lookup name := by
  cases found : progress.dir.files.lookup source with
  | none =>
    unfold migrateEntry
    rw [found]
    exact .inl rfl
  | some pair =>
    unfold migrateEntry
    rw [found]
    dsimp only
    by_cases unscoped : pair.namespaceName.isSome
    · rw [if_pos unscoped]
      exact .inl rfl
    · rw [if_neg unscoped]
      cases checked : pairPath (computePairId env pair.memoryIds.1 pair.memoryIds.2 (some resolvedNamespace)) with
      | error fault => exact .inl rfl
      | ok target =>
        have path : pairPath (idIn env pair resolvedNamespace) = .ok (idIn env pair resolvedNamespace) :=
          checked.trans (congrArg Except.ok (pairPath_ok checked))
        have lands := lands_migratedContent env resolvedNamespace options clock found path
        generalize migratedContent env resolvedNamespace options clock source pair progress.dir = content at lands
        rw [(pairPath_ok checked).trans lands.named.symm]
        dsimp only
        cases wrote : writePairFile moment content.pairId content progress.dir with
        | error fault => exact .inl rfl
        | ok written =>
          refine .inr ⟨pair, content, rfl, not_isSome_iff_eq_none.mp unscoped, lands, fun name => ?_⟩
          dsimp only
          rw [writePairFile_ok wrote]
          by_cases own : content.pairId = source
          · rw [if_pos own, lookup_set]
            split
            next => rfl
            next different => rw [if_neg fun same => different (same.1.trans own.symm)]
          · rw [if_neg own]
            by_cases stuck : moment.removeFails source
            · rw [if_pos stuck, stuck]
              unfold MigrationRun.failed
              dsimp only
              rw [lookup_set]
              split
              next => rfl
              next different => rw [if_neg (by simp)]
            · rw [if_neg stuck, lookup_erase]
              have removes : moment.removeFails source = false := Bool.eq_false_iff.mpr stuck
              split
              next same => rw [same, if_neg (Ne.symm own), if_pos ⟨rfl, removes⟩]
              next elsewhere =>
                rw [lookup_set]
                split
                next => rfl
                next different => rw [if_neg fun same => elsewhere same.1]

def Answered (files : OrderedMap JsString ContradictionPair) (file : JsString) (level : Nat) : Prop :=
  ∃ record, files.lookup file = some record ∧ record.namespaceName.isSome = true ∧ level ≤ answer record

theorem Lands.max_le {content : ContradictionPair} (lands : Lands env resolvedNamespace progress record content)
    (there : progress.dir.files.lookup content.pairId = some existing) :
    answer content = max (answer record) (answer existing) := by
  rw [lands.answered, there]
  rfl

theorem answered_migrateEntry (answered : Answered progress.dir.files file level) :
    Answered (migrateEntry env moment resolvedNamespace options clock source progress).dir.files file level := by
  rcases files_migrateEntry env moment resolvedNamespace options clock source progress with same | moved
  · rw [same]
    exact answered
  · obtain ⟨pair, content, found, unscoped, lands, files⟩ := moved
    obtain ⟨record, held, within, far⟩ := answered
    by_cases target : file = content.pairId
    · refine ⟨content, (files file).trans (if_pos target), by rw [lands.within]; rfl, ?_⟩
      rw [lands.max_le (target ▸ held)]
      exact le_trans far (Nat.le_max_right _ _)
    · refine ⟨record, ?_, within, far⟩
      rw [files file, if_neg target]
      split
      next same =>
        rw [same.1, found] at held
        rw [← some.inj held, unscoped] at within
        cases within
      next stays => exact held

theorem unscoped_before (held : (migrateEntry env moment resolvedNamespace options clock source progress).dir.files.lookup
    file = some record) (unscoped : record.namespaceName = none) : progress.dir.files.lookup file = some record := by
  rcases files_migrateEntry env moment resolvedNamespace options clock source progress with same | moved
  · rwa [same] at held
  · obtain ⟨pair, content, found, plain, lands, files⟩ := moved
    rw [files file] at held
    split at held
    next target =>
      rw [← some.inj held, lands.within] at unscoped
      cases unscoped
    next elsewhere =>
      split at held
      next gone => cases held
      next stays => exact held

/-- Where a record is after a file was migrated: in its place, or, having no namespace, under its id in the namespace;
or else a record without a namespace came to its place. -/
theorem place_migrateEntry (env : ReviewEnv) (moment : Moment) (resolvedNamespace : JsString) (options : WritePairOptions)
    (clock : Nat → Int) (source : JsString) (held : progress.dir.files.lookup file = some record) :
    (migrateEntry env moment resolvedNamespace options clock source progress).dir.files.lookup file = some record ∨
      (record.namespaceName = none ∧
        Answered (migrateEntry env moment resolvedNamespace options clock source progress).dir.files
          (idIn env record resolvedNamespace) (answer record)) ∨
      ∃ other content, progress.dir.files.lookup source = some other ∧ other.namespaceName = none ∧ source ≠ file ∧
        idIn env other resolvedNamespace = file ∧ content.namespaceName.isSome = true ∧
        answer content = max (answer other) (answer record) ∧
        (migrateEntry env moment resolvedNamespace options clock source progress).dir.files.lookup file = some content := by
  rcases files_migrateEntry env moment resolvedNamespace options clock source progress with same | moved
  · exact .inl (by rw [same, held])
  · obtain ⟨pair, content, found, plain, lands, files⟩ := moved
    have within : content.namespaceName.isSome = true := by
      rw [lands.within]
      rfl
    by_cases mine : source = file
    · rw [mine, held] at found
      rw [← some.inj found] at lands plain
      refine .inr (.inl ⟨plain, content, (files _).trans (if_pos lands.named.symm), within, ?_⟩)
      exact lands.answered ▸ Nat.le_max_left _ _
    · by_cases target : file = content.pairId
      · exact .inr (.inr ⟨pair, content, found, plain, mine, lands.named.symm.trans target.symm, within,
          lands.max_le (target ▸ held), (files file).trans (if_pos target)⟩)
      · refine .inl ?_
        rw [files file, if_neg target, if_neg fun same => mine same.1.symm]
        exact held

theorem migrate_invariant (env : ReviewEnv) (moment : Moment) (namespaceName : JsString) (options : WritePairOptions)
    (Holds : OrderedMap JsString ContradictionPair → Prop) (starts : Holds dir.files)
    (keeps : ∀ source clock progress, Holds progress.dir.files →
      Holds (migrateEntry env moment (trim namespaceName) options clock source progress).dir.files) :
    Holds (migrateUnscopedPairsToNamespace env moment namespaceName options dir).1.files := by
  have runs (entries : List (JsString × Nat)) : Holds (entries.foldl (fun run entry =>
      migrateEntry env moment (trim namespaceName) options (later moment.clock (4 * entry.2)) entry.1 run)
        ⟨dir, 0, false⟩).dir.files :=
    List.foldlRecOn (motive := fun run => Holds run.dir.files) entries _ starts
      fun progress holds entry _ => keeps entry.1 _ progress holds
  unfold migrateUnscopedPairsToNamespace
  dsimp only
  split_ifs
  · exact starts
  · exact starts
  · exact starts
  · exact runs _
  · exact runs _

/-- A terminal answer without a namespace that a migration takes to the given file. -/
def Overruled (env : ReviewEnv) (dir : ReviewDir) (resolvedNamespace file : JsString) : Prop :=
  ∃ name other, dir.files.lookup name = some other ∧ other.namespaceName = none ∧
    idIn env other resolvedNamespace = file ∧ isTerminalResolution other.resolution = true

/-- How a both-valid answer stands while a migration runs from the given directory. -/
structure Stands (env : ReviewEnv) (dir : ReviewDir) (resolvedNamespace file : JsString) (record : ContradictionPair)
    (files : OrderedMap JsString ContradictionPair) : Prop where
  before : ∀ name other, files.lookup name = some other → other.namespaceName = none → dir.files.lookup name = some other
  stands : (∃ again, files.lookup file = some again ∧ again.resolution = some .bothValid ∧
      (again = record ∨ again.namespaceName.isSome = true)) ∨
    (Overruled env dir resolvedNamespace file ∧ Answered files file 2) ∨
    (record.namespaceName = none ∧ Answered files (idIn env record resolvedNamespace) 1)

theorem stands_migrateEntry (stands : Stands env dir resolvedNamespace file record progress.dir.files) :
    Stands env dir resolvedNamespace file record
      (migrateEntry env moment resolvedNamespace options clock source progress).dir.files where
  before := fun name other held unscoped => stands.before name other (unscoped_before held unscoped) unscoped
  stands := by
    rcases stands.stands with valid | overruled | moved
    · obtain ⟨again, held, valid, mine⟩ := valid
      rcases place_migrateEntry env moment resolvedNamespace options clock source held with stays | leaves | met
      · exact .inl ⟨again, stays, valid, mine⟩
      · obtain ⟨plain, lands⟩ := leaves
        rw [answer_of_bothValid valid] at lands
        rcases mine with same | within
        · exact .inr (.inr ⟨same ▸ plain, same ▸ lands⟩)
        · rw [plain] at within
          cases within
      · obtain ⟨other, content, found, plain, _, target, within, answered, now⟩ := met
        rw [answer_of_bothValid valid] at answered
        by_cases terminal : isTerminalResolution other.resolution = true
        · refine .inr (.inl ⟨⟨source, other, stands.before source other found plain, plain, target, terminal⟩,
            content, now, within, ?_⟩)
          rw [answered, answer_eq_two_iff.mpr terminal]
          decide
        · refine .inl ⟨content, now, ?_, .inr within⟩
          have least : 1 ≤ answer content := answered ▸ Nat.le_max_right _ _
          refine (answered_cases least).resolve_left fun settled => ?_
          have high := answer_eq_two_iff.mpr settled
          have low : answer other ≠ 2 := fun equal => terminal (answer_eq_two_iff.mp equal)
          have most : answer other ≤ 2 := answer_le_two other
          omega
    · exact .inr (.inl ⟨overruled.1, answered_migrateEntry overruled.2⟩)
    · exact .inr (.inr ⟨moved.1, answered_migrateEntry moved.2⟩)

/-- Where a terminal answer is while a migration runs from the given directory. -/
structure Kept (env : ReviewEnv) (dir : ReviewDir) (resolvedNamespace file : JsString) (record : ContradictionPair)
    (files : OrderedMap JsString ContradictionPair) : Prop where
  before : ∀ name other, files.lookup name = some other → other.namespaceName = none → dir.files.lookup name = some other
  stands : files.lookup file = some record ∨ Answered files (idIn env record resolvedNamespace) 2

/-- A terminal answer without a namespace, through a migration: it keeps its place or lands in the namespace. -/
theorem terminal_migrates {namespaceName : JsString} (held : dir.files.lookup file = some record)
    (terminal : isTerminalResolution record.resolution = true)
    (alone : ∀ name other, dir.files.lookup name = some other → other.namespaceName = none →
      idIn env other (trim namespaceName) ≠ file) :
    (migrateUnscopedPairsToNamespace env moment namespaceName options dir).1.files.lookup file = some record ∨
      Answered (migrateUnscopedPairsToNamespace env moment namespaceName options dir).1.files
        (idIn env record (trim namespaceName)) 2 := by
  have keeps (source : JsString) (clock : Nat → Int) (progress : MigrationRun)
      (holds : Kept env dir (trim namespaceName) file record progress.dir.files) : Kept env dir (trim namespaceName) file
        record (migrateEntry env moment (trim namespaceName) options clock source progress).dir.files := by
    obtain ⟨before, stands⟩ := holds
    refine ⟨fun name other found plain => before name other (unscoped_before found plain) plain, ?_⟩
    rcases stands with here | there
    · rcases place_migrateEntry env moment (trim namespaceName) options clock source here with stays | leaves | met
      · exact .inl stays
      · exact .inr (answer_eq_two_iff.mpr terminal ▸ leaves.2)
      · obtain ⟨other, content, found, plain, _, target, _⟩ := met
        exact absurd target (alone source other (before source other found plain) plain)
    · exact .inr (answered_migrateEntry there)
  exact (migrate_invariant env moment namespaceName options _ ⟨fun _ _ found _ => found, .inl held⟩ keeps).stands

end Migration

section Soundness

variable {files : OrderedMap JsString ContradictionPair} {record : ContradictionPair}

/-- A record carries its file's name, and an answer as both valid defers nothing. -/
structure Proper (file : JsString) (record : ContradictionPair) : Prop where
  path : pairPath file = .ok file
  named : record.pairId = file
  undeferred : record.resolution = some .bothValid → record.deferredUntil = none

def Sound (files : OrderedMap JsString ContradictionPair) : Prop :=
  ∀ file record, files.lookup file = some record → Proper file record

theorem Sound.set (sound : Sound files) (proper : Proper file record) : Sound (files.set file record) := by
  intro name found held
  rw [lookup_set] at held
  split at held
  next same =>
    rw [same, ← some.inj held]
    exact proper
  next different => exact sound name found held

theorem sound_writePair {pair : DetectedPair} (sound : Sound dir.files) :
    Sound (writePair env moment clock pair options dir).1.files := by
  rcases files_writePair env moment clock pair options dir with same | wrote
  · rw [same]
    exact sound
  · rw [wrote.2.2]
    exact sound.set ⟨wrote.1, rfl, fun valid => by cases valid⟩

theorem sound_writePairsFrom {pairs : List DetectedPair} (index : Nat) (seen : List JsString) (sound : Sound dir.files) :
    Sound (writePairsFrom env moment options pairs index seen dir).1.files := by
  induction pairs generalizing index seen dir with
  | nil => exact sound
  | cons pair rest ih =>
    unfold writePairsFrom
    dsimp only
    split
    next known => exact ih (index + 1) seen sound
    next fresh =>
      have kept : Sound (writePair env moment (later moment.clock (3 * index)) pair options dir).1.files :=
        sound_writePair sound
      cases wrote : writePair env moment (later moment.clock (3 * index)) pair options dir with
      | mk written result =>
        rw [wrote] at kept
        cases result with
        | error fault => exact kept
        | ok full => exact ih (index + 1) (pair.id env :: seen) kept

variable {pairId : JsString}

theorem sound_answerPair {change : ContradictionPair → Except JsString ContradictionPair} (sound : Sound dir.files)
    (proper : ∀ existing updated, change existing = .ok updated →
      updated.pairId = existing.pairId ∧ (updated.resolution = some .bothValid → updated.deferredUntil = none)) :
    Sound (answerPair moment pairId change dir).1.files := by
  unfold answerPair
  cases read : readPair dir pairId with
  | error fault => exact sound
  | ok found =>
    cases found with
    | none => exact sound
    | some existing =>
      dsimp only
      split_ifs
      · exact sound
      · cases changed : change existing with
        | error fault => exact sound
        | ok updated =>
          dsimp only
          cases wrote : writePairFile moment pairId updated dir with
          | error fault => exact sound
          | ok written =>
            dsimp only
            rw [writePairFile_ok wrote]
            obtain ⟨named, settled⟩ := proper existing updated changed
            exact sound.set ⟨path_of_read read, named.trans (sound pairId existing (readPair_ok read).symm).named, settled⟩

theorem sound_deferPair {deferredUntil : Option JsString} (sound : Sound dir.files) :
    Sound (deferPair moment pairId deferredUntil dir).1.files := by
  unfold deferPair
  split
  next => exact sound
  next =>
    refine sound_answerPair sound fun existing updated changed => ?_
    obtain ⟨reviewed, _, shape⟩ := GuardedFold.bind_ok_iff.mp changed
    rw [GuardedFold.pure_ok_iff.mp shape]
    exact ⟨rfl, fun valid => by cases valid⟩

theorem sound_migrateEntry {progress : MigrationRun} {resolvedNamespace source : JsString}
    (sound : Sound progress.dir.files) :
    Sound (migrateEntry env moment resolvedNamespace options clock source progress).dir.files := by
  rcases files_migrateEntry env moment resolvedNamespace options clock source progress with same | moved
  · rw [same]
    exact sound
  · obtain ⟨pair, content, found, _, lands, files⟩ := moved
    intro name record held
    rw [files name] at held
    split at held
    next target =>
      rw [← some.inj held]
      obtain ⟨origin, listed, resolution, deferred⟩ := lands.origin
      refine ⟨target ▸ lands.path, target.symm, fun valid => ?_⟩
      rw [resolution] at valid
      rw [deferred]
      rcases listed with own | there
      · exact (sound source origin (own ▸ found)).undeferred valid
      · exact (sound content.pairId origin there).undeferred valid
    next elsewhere =>
      split at held
      next gone => cases held
      next stays => exact sound name record held

theorem sound_step {event : ReviewEvent} (sound : Sound dir.files) : Sound (step env dir event).files := by
  unfold step
  cases event.call with
  | writePair pair options => exact sound_writePair sound
  | writePairs pairs options => exact sound_writePairsFrom 0 [] sound
  | resolvePair pairId verb =>
    dsimp only
    unfold resolvePair
    split
    next => exact sound_deferPair sound
    next =>
      refine sound_answerPair sound fun existing updated changed => ?_
      obtain ⟨reviewed, _, shape⟩ := GuardedFold.bind_ok_iff.mp changed
      rw [GuardedFold.pure_ok_iff.mp shape]
      exact ⟨rfl, fun _ => rfl⟩
  | deferPair pairId deferredUntil => exact sound_deferPair sound
  | migrateUnscopedPairsToNamespace namespaceName options =>
    exact migrate_invariant env event.moment namespaceName options Sound sound fun _ _ _ => sound_migrateEntry

theorem sound_run (events : List ReviewEvent) (sound : Sound dir.files) : Sound (run env events dir).files := by
  induction events generalizing dir with
  | nil => exact sound
  | cons event rest ih => exact ih (sound_step sound)

end Soundness

section Runs

variable {record : ContradictionPair} {event : ReviewEvent}

theorem preserves_terminal {pair : DetectedPair} (terminal : isTerminalResolution record.resolution = true) :
    preservesExisting env clock record pair options = true := by
  unfold preservesExisting
  dsimp only
  rw [terminal, Bool.true_or, Bool.true_or, Bool.true_or]

theorem migrates_or_plain (event : ReviewEvent) :
    (∃ namespaceName options, event.call = .migrateUnscopedPairsToNamespace namespaceName options) ∨
      ∀ namespaceName options, event.call ≠ .migrateUnscopedPairsToNamespace namespaceName options := by
  by_cases migrates : ∃ namespaceName options, event.call = .migrateUnscopedPairsToNamespace namespaceName options
  · exact .inl migrates
  · exact .inr fun namespaceName options same => migrates ⟨namespaceName, options, same⟩

theorem step_of_migrates {namespaceName : JsString}
    (call : event.call = .migrateUnscopedPairsToNamespace namespaceName options) :
    step env dir event = (migrateUnscopedPairsToNamespace env event.moment namespaceName options dir).1 := by
  unfold step
  rw [call]

theorem terminal_step (answered : Answered dir.files file 2) : Answered (step env dir event).files file 2 := by
  rcases migrates_or_plain event with migrates | plain
  · obtain ⟨namespaceName, options, call⟩ := migrates
    rw [step_of_migrates call]
    have keeps (source : JsString) (clock : Nat → Int) (progress : MigrationRun) (holds : Answered progress.dir.files file 2) :
        Answered (migrateEntry env event.moment (trim namespaceName) options clock source progress).dir.files file 2 :=
      answered_migrateEntry holds
    exact migrate_invariant env event.moment namespaceName options (Answered · file 2) answered keeps
  · obtain ⟨record, held, within, settled⟩ := answered
    have terminal := answer_eq_two_iff.mp (le_antisymm (answer_le_two record) settled)
    refine ⟨record, step_keeps held (le_trans (by decide) settled) ?_ plain, within, settled⟩
    exact fun _ _ _ _ => preserves_terminal terminal

theorem terminal_run (events : List ReviewEvent) (answered : Answered dir.files file 2) :
    Answered (run env events dir).files file 2 := by
  induction events generalizing dir with
  | nil => exact answered
  | cons event rest ih => exact ih (terminal_step answered)

/-- The record read under an id has a terminal answer, and no list of unresolved pairs names it. -/
structure Settled (env : ReviewEnv) (dir : ReviewDir) (pairId : JsString) : Prop where
  read : ∃ record, readPair dir pairId = .ok (some record) ∧ isTerminalResolution record.resolution = true
  unlisted : ∀ moment options, options.filter = .unresolved →
    ∀ pair ∈ (listPairs env moment options dir).pairs, pair.pairId ≠ pairId

theorem mem_listPairs {listing : ListPairsOptions} (listed : pair ∈ (listPairs env moment listing dir).pairs) :
    (∃ file, dir.files.lookup file = some pair) ∧ ∃ now, passesFilter env now pair listing.filter = true := by
  unfold listPairs at listed
  have matching := mem_mergeSort.mp (mem_of_mem_take listed)
  obtain ⟨entry, kept, same⟩ := mem_map.mp matching
  obtain ⟨member, passes⟩ := mem_filter.mp kept
  obtain ⟨file, _, found⟩ := mem_filterMap.mp (fst_mem_of_mem_zipIdx member)
  rw [same] at found passes
  exact ⟨⟨file, found⟩, _, (Bool.and_eq_true_iff.mp passes).2⟩

theorem settled_of_answered (sound : Sound dir.files) (answered : Answered dir.files file 2) : Settled env dir file := by
  obtain ⟨record, held, _, settled⟩ := answered
  have terminal := answer_eq_two_iff.mp (le_antisymm (answer_le_two record) settled)
  refine ⟨⟨record, ?_, terminal⟩, fun moment options unresolved pair listed named => ?_⟩
  · unfold readPair
    rw [(sound file record held).path, ← held]
    rfl
  · obtain ⟨⟨name, found⟩, now, passes⟩ := mem_listPairs listed
    have place : name = file := (sound name pair found).named.symm.trans named
    rw [place, held] at found
    rw [unresolved, ← some.inj found] at passes
    have actionable : isReviewActionable env now record = true := passes
    unfold isReviewActionable at actionable
    rw [terminal] at actionable
    cases actionable

inductive BothValidFate (env : ReviewEnv) (dir : ReviewDir) (event : ReviewEvent) (file : JsString)
    (record : ContradictionPair) : Prop where
  | stays (again : ContradictionPair) (held : (step env dir event).files.lookup file = some again)
      (valid : again.resolution = some .bothValid)
  | expired (pair : DetectedPair) (options : WritePairOptions) (writes : (pair, options) ∈ writes event.call)
      (same : pair.id env = file) (days : ℚ) (given : options.cooldownDays = some days) (reading : Nat)
      (cooled : isCoolingDown env (event.moment.clock reading) record days = false)
  | changed (pair : DetectedPair) (options : WritePairOptions) (writes : (pair, options) ∈ writes event.call)
      (same : pair.id env = file) (supplied : suppliedMemoryHashesChanged record pair = true)
  /-- The record moves to a namespace, where it, or the better answer that it meets, stays. -/
  | moved (namespaceName : JsString) (options : WritePairOptions)
      (call : event.call = .migrateUnscopedPairsToNamespace namespaceName options) (plain : record.namespaceName = none)
      (answered : Answered (step env dir event).files (idIn env record (trim namespaceName)) 1)
  /-- A terminal answer for the id comes to its place. -/
  | overruled (namespaceName : JsString) (options : WritePairOptions)
      (call : event.call = .migrateUnscopedPairsToNamespace namespaceName options)
      (other : Overruled env dir (trim namespaceName) file) (answered : Answered (step env dir event).files file 2)

theorem preserves_bothValid {pair : DetectedPair} (valid : record.resolution = some .bothValid)
    (undeferred : record.deferredUntil = none) (unchanged : suppliedMemoryHashesChanged record pair = false)
    (cooling : ∀ days, options.cooldownDays = some days → isCoolingDown env (clock 2) record days = true) :
    preservesExisting env clock record pair options = true := by
  have expired : (standing env clock record pair options).existingDeferralExpired = false := by
    unfold standing isDeferred
    rw [valid, undeferred]
    rfl
  have supplied : (standing env clock record pair options).contentChanged = false := unchanged
  unfold preservesExisting
  dsimp only
  rw [expired, supplied]
  cases days : options.cooldownDays with
  | none =>
    rw [valid]
    rfl
  | some given =>
    have active : (standing env clock record pair options).existingDormantCooldownActive = true := by
      unfold standing isDormantReviewedPair
      rw [valid, days]
      simp [cooling given days]
    rw [active]
    simp

theorem bothValid_fate (sound : Sound dir.files) (held : dir.files.lookup file = some record)
    (valid : record.resolution = some .bothValid) : BothValidFate env dir event file record := by
  have undeferred := (sound file record held).undeferred valid
  rcases migrates_or_plain event with migrates | plain
  · obtain ⟨namespaceName, options, call⟩ := migrates
    have keeps (source : JsString) (clock : Nat → Int) (progress : MigrationRun)
        (holds : Stands env dir (trim namespaceName) file record progress.dir.files) :
        Stands env dir (trim namespaceName) file record
          (migrateEntry env event.moment (trim namespaceName) options clock source progress).dir.files :=
      stands_migrateEntry holds
    have starts : Stands env dir (trim namespaceName) file record dir.files :=
      ⟨fun _ _ found _ => found, .inl ⟨record, held, valid, .inl rfl⟩⟩
    have ends := (migrate_invariant env event.moment namespaceName options _ starts keeps).stands
    rw [← step_of_migrates call] at ends
    rcases ends with here | overruled | moved
    · obtain ⟨again, there, valid, _⟩ := here
      exact .stays again there valid
    · exact .overruled namespaceName options call overruled.1 overruled.2
    · exact .moved namespaceName options call moved.1 moved.2
  · by_cases changed : ∃ write ∈ writes event.call, write.1.id env = file ∧
        suppliedMemoryHashesChanged record write.1 = true
    · obtain ⟨write, member, same, supplied⟩ := changed
      exact .changed write.1 write.2 member same supplied
    by_cases cooled : ∃ write ∈ writes event.call, write.1.id env = file ∧ ∃ days, write.2.cooldownDays = some days ∧
        ∃ reading, isCoolingDown env (event.moment.clock reading) record days = false
    · obtain ⟨write, member, same, days, given, reading, cooled⟩ := cooled
      exact .expired write.1 write.2 member same days given reading cooled
    refine .stays record (step_keeps held (answer_of_bothValid valid).ge ?_ plain) valid
    intro write member same start
    refine preserves_bothValid valid undeferred (Bool.eq_false_iff.mpr fun supplied => ?_) fun days given => ?_
    · exact changed ⟨write, member, same, supplied⟩
    · by_contra stopped
      exact cooled ⟨write, member, same, days, given, start + 2, Bool.eq_false_iff.mpr stopped⟩

/-- What is permanent about the answers in a directory, whatever calls follow. -/
structure Permanent (env : ReviewEnv) (dir : ReviewDir) : Prop where
  within : ∀ memoryIdA memoryIdB namespaceName record,
    readPair dir (computePairId env memoryIdA memoryIdB (some namespaceName)) = .ok (some record) →
    record.namespaceName.isSome = true → isTerminalResolution record.resolution = true →
    ∀ events, Settled env (run env events dir) (computePairId env memoryIdA memoryIdB (some namespaceName))
  /-- For a record of the default scope, from the migration on that takes it away, unless another pair has its id. -/
  migrated : ∀ file record moment namespaceName options, readPair dir file = .ok (some record) →
    record.namespaceName = none → isTerminalResolution record.resolution = true →
    (∀ name other, dir.files.lookup name = some other → other.namespaceName = none →
      idIn env other (trim namespaceName) ≠ file) →
    let after := step env dir ⟨moment, .migrateUnscopedPairsToNamespace namespaceName options⟩
    after.files.lookup file ≠ some record →
    ∀ events, Settled env (run env events after) (idIn env record (trim namespaceName))
  bothValid : ∀ file record event, readPair dir file = .ok (some record) → record.resolution = some .bothValid →
    BothValidFate env dir event file record

theorem sound_empty : Sound ReviewDir.empty.files := fun _ _ held => by cases held

/-- The main result: in every directory that calls have made of an empty one, terminal answers are permanent, and a
both-valid one gives way only to an expired cooldown, a changed content, or a terminal answer that is migrated to it. -/
theorem review_decisions_permanent (env : ReviewEnv) (history : List ReviewEvent) :
    Permanent env (run env history ReviewDir.empty) where
  within := by
    intro memoryIdA memoryIdB namespaceName record read within terminal events
    have answered : Answered (run env history ReviewDir.empty).files
        (computePairId env memoryIdA memoryIdB (some namespaceName)) 2 :=
      ⟨record, (readPair_ok read).symm, within, (answer_eq_two_iff.mpr terminal).ge⟩
    exact settled_of_answered (sound_run events (sound_run history sound_empty)) (terminal_run events answered)
  migrated := by
    intro file record moment namespaceName options read plain terminal alone after left events
    have held := (readPair_ok read).symm
    have fate : after.files.lookup file = some record ∨ Answered after.files (idIn env record (trim namespaceName)) 2 :=
      terminal_migrates held terminal alone
    rcases fate with stays | moved
    · exact absurd stays left
    · exact settled_of_answered (sound_run events (sound_step (sound_run history sound_empty))) (terminal_run events moved)
  bothValid := fun file record event read valid =>
    bothValid_fate (sound_run history sound_empty) (readPair_ok read).symm valid

/-- From an empty directory every record is in the file of its pair, and a both-valid one is not deferred. -/
theorem records_stay_proper (env : ReviewEnv) (history : List ReviewEvent) : Sound (run env history ReviewDir.empty).files :=
  sound_run history sound_empty

end Runs

section Samples

def sampleEnv : ReviewEnv where
  sha256 := id
  readTime := fun _ => none
  localeLe := fun first second => first ≤ second

/-- A call at the given time on a disk that works. -/
def sampleEvent (time : Int) (call : ReviewCall) : ReviewEvent where
  moment := ⟨fun _ => time, id, fun _ => false, fun _ => false, false, false⟩
  call := call

def samplePair (namespaceName : Option JsString) : DetectedPair where
  memoryIds := (text "a", text "b")
  verdict := .contradicts
  confidence := 1
  detectedAt := text "2026-05-01T00:00:00.000Z"
  namespaceName := namespaceName

def sampleId : JsString := text "ns:team::a::b"

/-- The pair is answered as both valid in a namespace, and by keeping the first in the default scope. -/
def sampleHistory : List ReviewEvent :=
  [sampleEvent 0 (.writePair (samplePair (some (text "team"))) {}), sampleEvent 0 (.resolvePair sampleId .bothValid),
    sampleEvent 0 (.writePair (samplePair none) {}), sampleEvent 0 (.resolvePair (text "a::b") .keepA)]

def sampleMigration : ReviewEvent :=
  sampleEvent dayMs (.migrateUnscopedPairsToNamespace (text "team") { cooldownDays := some 30 })

def sampleDir : ReviewDir := run sampleEnv sampleHistory ReviewDir.empty

theorem read_of_any {read : Except JsString (Option ContradictionPair)} {holds : ContradictionPair → Bool}
    (found : (read.toOption.join.any holds) = true) : ∃ record, read = .ok (some record) ∧ holds record = true := by
  cases read with
  | error fault => cases found
  | ok held =>
    cases held with
    | none => cases found
    | some record => exact ⟨record, rfl, found⟩

/-- A both-valid answer goes in a migration, with its cooldown running and no content supplied. -/
theorem sample_overruled : ∃ record, readPair sampleDir sampleId = .ok (some record) ∧
    record.resolution = some .bothValid ∧ writes sampleMigration.call = [] ∧
    isCoolingDown sampleEnv dayMs record 30 = true ∧
    ∃ after, readPair (step sampleEnv sampleDir sampleMigration) sampleId = .ok (some after) ∧
      after.resolution = some .keepA := by
  have held : ((readPair sampleDir sampleId).toOption.join.any fun record =>
      record.resolution = some .bothValid && isCoolingDown sampleEnv dayMs record 30) = true := by decide +kernel
  have after : ((readPair (step sampleEnv sampleDir sampleMigration) sampleId).toOption.join.any fun record =>
      record.resolution = some .keepA) = true := by decide +kernel
  obtain ⟨record, read, facts⟩ := read_of_any held
  obtain ⟨last, reread, answer⟩ := read_of_any after
  rw [Bool.and_eq_true, decide_eq_true_eq] at facts
  exact ⟨record, read, facts.1, rfl, facts.2, last, reread, by simpa using answer⟩

end Samples

end Remnic.Contradiction.Permanence
