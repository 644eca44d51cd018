import Remnic.Library.Transition
import Remnic.Catalog.CacheSteps

/-!
A cached read of the catalog is a fresh read, as long as no row is appended to a log with
malformed or unended lines while it is cached, and no job is called `__proto__`.
-/

namespace Remnic.Catalog.Coherence

open Text.CodeUnits Library Library.Transition Record Log Operations CacheSteps List Option

/-- Each load that is answered from the cache or leaves it returns what the log held; and so would the next that finds the log
unchanged. -/
structure Agrees (host : Host) (world : World) : Prop where
  answered : ∀ answer ∈ world.answers, answer.1 = freshRead host answer.2
  cached : ∀ cache ∈ world.compactedCache, ∀ file ∈ world.file,
    cache.identity = file.identity → cache.read = freshRead host file.content

/-- A log that is written gets an identity it has not had before. -/
def Stamped (world : World) : Action → Prop
  | .proceed (.works identity) =>
    match world.stage with
    | .appending _ | .rewriting _ _ => identity ∉ world.used
    | _ => True
  | .proceed (.fails (some (_, identity))) => identity ∉ world.used
  | .otherAppends _ identity | .otherRewrites _ identity => identity ∉ world.used
  | _ => True

/-- A row is appended to a cached log only if no line of it is malformed or unended; and not for the job `__proto__`. -/
def Careful (world : World) : Action → Prop
  | .proceed (.works _) =>
    match world.stage, world.compactedCache with
    | .appending record, some cache =>
      cache.incomplete = none ∧ Ended world.content ∧ record.lastMaintenanceAt.lookup protoKey = none
    | _, _ => True
  | _ => True

def Current (world : World) : Prop :=
  ∀ cache ∈ world.compactedCache, ∃ file, world.file = some file ∧ cache.identity = file.identity

def PurposeFacts (settings : Settings) : Purpose → Prop
  | .touch accepted => Proper settings accepted
  | .scan _ nowIso _ => nowIso ≠ [] ∧ isValidIsoTimestamp settings.host nowIso = true
  | .finish _ rebuilt => Sane settings.host rebuilt
  | _ => True

def Writable (host : Host) (records : List NamespaceRecord) : Prop :=
  (∀ record ∈ records, Canonical host record) ∧ (records.map NamespaceRecord.name).Nodup

def Facts (settings : Settings) (world : World) : Stage → Prop
  | .opening purpose => PurposeFacts settings purpose
  | .parsing purpose opened replaced =>
    PurposeFacts settings purpose ∧
      (∀ identity ∈ opened, identity ∈ world.used ∧ (replaced.isSome = true → ∀ file ∈ world.file, file.identity ≠ identity)) ∧
      (purpose.locked = true →
        replaced = none ∧ ∀ identity ∈ opened, ∃ file, world.file = some file ∧ identity = file.identity)
  | .loaded purpose result =>
    PurposeFacts settings purpose ∧ Sane settings.host result.records ∧ (purpose.locked = true → Current world)
  | .waiting _ rebuilt => Sane settings.host rebuilt
  | .appending record => Current world ∧ (record.lastMaintenanceAt.lookup protoKey = none → Canonical settings.host record)
  | .appended record => ∀ cache ∈ world.compactedCache,
    foldLog settings.host world.content = ⟨foldRecord settings.host cache.records record, []⟩ ∧
      Canonical settings.host record
  | .rewriting records _ => Writable settings.host records
  | .rewritten records _ => Writable settings.host records ∧ world.content = rewriteBody records
  | _ => True

structure Sound (settings : Settings) (world : World) : Prop where
  fileUsed : ∀ file ∈ world.file, file.identity ∈ world.used
  cacheUsed : ∀ cache ∈ world.compactedCache, cache.identity ∈ world.used
  sane : ∀ cache ∈ world.compactedCache, Sane settings.host cache.records
  agrees : Agrees settings.host world
  facts : Facts settings world world.stage

variable {settings : Settings} {world next : World} {purpose : Purpose} {identity : CatalogFileIdentity}
  {content : JsString}

theorem sane_freshRead (normalizes : Normalizes settings.host) (content : JsString) :
    Sane settings.host (freshRead settings.host content).records :=
  sane_foldLog normalizes content

variable {record : NamespaceRecord} {replaced : Option JsString} {cache : CompactedCatalogCache} {result : Loaded}
  {stage : Stage} {file : LogFile} {opened : Option CatalogFileIdentity}

section

variable (sound : Sound settings world)
include sound

/-- A step that takes the process to another stage, and at most records an answer. -/
theorem Sound.move {answers : List (Loaded × JsString)}
    (facts : Facts settings { world with stage := stage, answers := answers } stage)
    (answered : ∀ answer ∈ answers, answer.1 = freshRead settings.host answer.2) :
    Sound settings { world with stage := stage, answers := answers } :=
  ⟨sound.fileUsed, sound.cacheUsed, sound.sane, ⟨answered, sound.agrees.cached⟩, facts⟩

theorem Sound.goes (facts : Facts settings { world with stage := stage } stage) :
    Sound settings { world with stage := stage } :=
  sound.move facts sound.agrees.answered

theorem Sound.empties (facts : Facts settings { world with compactedCache := none, stage := stage } stage) :
    Sound settings { world with compactedCache := none, stage := stage } :=
  ⟨sound.fileUsed, nofun, nofun, ⟨sound.agrees.answered, nofun⟩, facts⟩

theorem Sound.write (fresh : identity ∉ world.used)
    (facts : Facts settings { world.write content identity with stage := stage } stage) :
    Sound settings { world.write content identity with stage := stage } := by
  refine ⟨?_, fun cache held => mem_cons_of_mem _ (sound.cacheUsed cache held), sound.sane,
    ⟨sound.agrees.answered, ?_⟩, facts⟩
  · rintro file ⟨⟩
    exact mem_cons_self
  · rintro cache held file ⟨⟩ same
    have known := sound.cacheUsed cache held
    rw [show cache.identity = identity from same] at known
    exact absurd known fresh

theorem Sound.uncached (facts : PurposeFacts settings purpose) (empty : result.records = OrderedMap.empty) : Sound settings (world.uncached purpose result) := by
  apply sound.empties
  exact ⟨facts, empty ▸ sane_empty, fun _ => nofun⟩

theorem Sound.opens (held : world.file = some file) (facts : PurposeFacts settings purpose) :
    Sound settings { world with stage := .parsing purpose (some file.identity) none } := by
  apply sound.goes
  refine ⟨facts, ?_, fun _ => ⟨rfl, ?_⟩⟩
  · rintro _ ⟨⟩
    exact ⟨sound.fileUsed file held, nofun⟩
  · rintro _ ⟨⟩
    exact ⟨file, held, rfl⟩

theorem Sound.openLog (facts : PurposeFacts settings purpose) (outcome : Outcome) :
    Sound settings (openLog world purpose outcome) := by
  cases outcome with
  | fails torn => exact sound.uncached facts rfl
  | unidentified =>
    simp only [CacheSteps.openLog]
    split
    · exact sound.uncached facts rfl
    · exact sound.goes ⟨facts, nofun, fun _ => ⟨rfl, nofun⟩⟩
  | works identity =>
    simp only [CacheSteps.openLog]
    split
    · exact sound.uncached facts rfl
    · rename_i file held
      split
      · rename_i cache cached
        split_ifs with hit
        · have same := sound.agrees.cached cache cached file held hit.2
          apply sound.move
          · refine ⟨facts, sound.sane cache cached, fun _ other known => ?_⟩
            have only : other = cache := some.inj (known.symm.trans cached)
            exact ⟨file, held, only ▸ hit.2⟩
          · intro answer member
            rcases mem_append.mp member with before | now
            · exact sound.agrees.answered answer before
            · rw [mem_singleton.mp now]
              exact same
        · exact sound.opens held facts
      · exact sound.opens held facts

end

theorem content_eq (held : world.file = some file) : world.content = file.content := by
  rw [World.content, held]
  rfl

theorem Sound.parses (normalizes : Normalizes settings.host) (sound : Sound settings world)
    (facts : Facts settings world (.parsing purpose opened replaced)) :
    Sound settings
      { world with
        compactedCache := opened.map fun identity =>
          ⟨identity, (freshRead settings.host (replaced.getD world.content)).records,
            (freshRead settings.host (replaced.getD world.content)).incomplete⟩
        stage := .loaded purpose (freshRead settings.host (replaced.getD world.content))
        answers :=
          if opened.isSome then
            world.answers ++ [(freshRead settings.host (replaced.getD world.content), replaced.getD world.content)]
          else world.answers } := by
  obtain ⟨purposeFacts, known, locked⟩ := facts
  have sane := sane_freshRead normalizes (replaced.getD world.content)
  refine ⟨sound.fileUsed, ?_, ?_, ⟨?_, ?_⟩, purposeFacts, sane, ?_⟩
  · intro cache held
    obtain ⟨identity, from', rfl⟩ := map_eq_some_iff.mp held
    exact (known identity from').1
  · intro cache held
    obtain ⟨identity, _, rfl⟩ := map_eq_some_iff.mp held
    exact sane
  · intro answer member
    split_ifs at member
    · rcases mem_append.mp member with before | now
      · exact sound.agrees.answered answer before
      · rw [mem_singleton.mp now]
    · exact sound.agrees.answered answer member
  · intro cache held file present same
    obtain ⟨identity, from', rfl⟩ := map_eq_some_iff.mp held
    cases replaced with
    | some content => exact absurd same.symm ((known identity from').2 rfl file present)
    | none =>
      have whole : world.content = file.content := content_eq present
      exact congrArg (freshRead settings.host) whole
  · intro isLocked cache held
    obtain ⟨identity, from', rfl⟩ := map_eq_some_iff.mp held
    exact (locked isLocked).2 identity from'

theorem Sound.parseLog (normalizes : Normalizes settings.host) (sound : Sound settings world)
    (facts : Facts settings world (.parsing purpose opened replaced)) (outcome : Outcome) :
    Sound settings (parseLog settings.host world purpose opened replaced outcome) := by
  cases outcome with
  | fails torn => exact sound.uncached facts.1 rfl
  | unidentified | works identity => exact sound.parses normalizes facts

theorem writable_values {host : Host} {records : Records} (sane : Sane host records) : Writable host (values records) :=
  ⟨fun _ member => (sane.of_mem_values member).2, sane.names_values ▸ records.keysNodup⟩

theorem facts_useLoaded (normalizes : Normalizes settings.host) (facts : Facts settings world (.loaded purpose result)) :
    Facts settings world (useLoaded settings result purpose) := by
  obtain ⟨purposeFacts, sane, current⟩ := facts
  cases purpose with
  | read => trivial
  | touch accepted =>
    exact ⟨current rfl, canonical_touchRecord purposeFacts fun record held => (sane _ record held).2⟩
  | compact size => exact writable_values sane
  | repair =>
    simp only [useLoaded]
    split_ifs
    · exact writable_values sane
    · trivial
  | scan rebuild nowIso mutates =>
    simp only [useLoaded]
    split_ifs
    · exact sane_rebuiltRecords normalizes sane purposeFacts rebuild.roots
    · trivial
  | finish rebuild rebuilt => exact finishRebuild_writes purposeFacts sane

theorem foldLog_row (agrees : cache.read = freshRead settings.host file.content) (complete : cache.incomplete = none)
    (ended : Ended file.content) (canonical : Canonical settings.host record) :
    foldLog settings.host (file.content ++ (serializeRecord record ++ [newline])) =
      ⟨foldRecord settings.host cache.records record, []⟩ := by
  have records : cache.records = (foldLog settings.host file.content).records := congrArg Loaded.records agrees
  have report : (foldLog settings.host file.content).incomplete = none :=
    (congrArg Loaded.incomplete agrees).symm.trans complete
  have lines : (foldLog settings.host file.content).malformedLines = [] := by
    unfold Compacted.incomplete at report
    split_ifs at report with none
    exact none
  rw [foldLog_append ended (newline_not_mem_serializeRecord record), foldLine_serializeRecord canonical, records]
  exact congrArg (Compacted.mk _) lines

theorem Sound.refreshAppended (sound : Sound settings world) (held : world.file = some file)
    (folded : foldLog settings.host file.content = ⟨foldRecord settings.host cache.records record, []⟩)
    (canonical : Canonical settings.host record) (cached : world.compactedCache = some cache) :
    Sound settings
      { world with
        compactedCache := refreshCacheAfterAppend settings.host cache file.identity record
        stage := .checking } := by
  unfold refreshCacheAfterAppend
  split_ifs
  · exact sound.empties trivial
  · refine ⟨sound.fileUsed, ?_, ?_, ⟨sound.agrees.answered, ?_⟩, trivial⟩
    · rintro _ ⟨⟩
      exact sound.fileUsed file held
    · rintro _ ⟨⟩
      exact (sound.sane cache cached).foldRecord canonical
    · rintro _ ⟨⟩ present there _
      have same : file = present := some.inj (held.symm.trans there)
      rw [← same, freshRead, folded]
      rfl

theorem Sound.append (sound : Sound settings world) (here : world.stage = .appending record) (fresh : identity ∉ world.used)
    (careful : Careful world (.proceed (.works identity))) :
    Sound settings
      { world.write (world.content ++ (serializeRecord record ++ [newline])) identity with stage := .appended record } := by
  have facts := sound.facts
  rw [here] at facts
  obtain ⟨current, canonical⟩ := facts
  apply sound.write fresh
  intro cache cached
  have known : world.compactedCache = some cache := cached
  simp only [Careful, here, known] at careful
  obtain ⟨complete, ended, plain⟩ := careful
  obtain ⟨file, held, same⟩ := current cache known
  rw [content_eq held] at ended
  refine ⟨?_, canonical plain⟩
  show foldLog settings.host (world.content ++ (serializeRecord record ++ [newline])) = _
  rw [content_eq held]
  exact foldLog_row (sound.agrees.cached cache known file held same) complete ended (canonical plain)

section

variable (normalizes : Normalizes settings.host) (sound : Sound settings world)
include normalizes sound

theorem Sound.refreshRewritten {records : List NamespaceRecord} (writable : Writable settings.host records)
    (written : world.content = rewriteBody records) (compacted : Option Nat) (outcome : Outcome) :
    Sound settings (CacheSteps.refreshRewritten world records compacted outcome) := by
  have folded : foldLog settings.host world.content = ⟨recordsOf records, []⟩ := by
    rw [written]
    exact foldLog_rewriteBody writable.1 writable.2
  have sane : Sane settings.host (recordsOf records) := by
    have whole := sane_foldLog normalizes world.content
    rwa [folded] at whole
  cases outcome with
  | unidentified | fails torn => exact ⟨sound.fileUsed, nofun, nofun, ⟨sound.agrees.answered, nofun⟩, trivial⟩
  | works identity =>
    refine ⟨sound.fileUsed, ?_, ?_, ⟨sound.agrees.answered, ?_⟩, trivial⟩
    · intro cache cached
      obtain ⟨file, held, rfl⟩ := map_eq_some_iff.mp cached
      exact sound.fileUsed file held
    · intro cache cached
      obtain ⟨file, _, rfl⟩ := map_eq_some_iff.mp cached
      exact sane
    · intro cache cached file held _
      obtain ⟨_, _, rfl⟩ := map_eq_some_iff.mp cached
      have whole : world.content = file.content := content_eq held
      rw [freshRead, ← whole, folded]
      rfl

theorem Sound.proceed {outcome : Outcome} (stamped : Stamped world (.proceed outcome))
    (careful : Careful world (.proceed outcome)) (stepped : CacheSteps.proceed settings world outcome = some next) : Sound settings next := by
  have facts := sound.facts
  unfold CacheSteps.proceed at stepped
  split at stepped
  next => cases stepped
  next purpose here =>
    rw [here] at facts
    cases stepped
    exact sound.openLog facts outcome
  next purpose opened replaced here =>
    rw [here] at facts
    cases stepped
    exact sound.parseLog normalizes facts outcome
  next purpose result here =>
    rw [here] at facts
    cases stepped
    exact sound.goes (facts_useLoaded normalizes facts)
  next rebuild rebuilt here =>
    rw [here] at facts
    cases outcome <;> cases stepped
    · exact sound.goes facts
    · exact sound.goes trivial
    · exact sound.goes trivial
  next record here =>
    split at stepped
    next identity =>
      cases stepped
      simp only [Stamped, here] at stamped
      exact sound.append here stamped careful
    next => cases stepped
    next =>
      cases stepped
      exact sound.goes trivial
    next torn identity =>
      cases stepped
      exact sound.write stamped trivial
  next record here =>
    rw [here] at facts
    split at stepped
    next cache file identity cached held =>
      cases stepped
      obtain ⟨folded, canonical⟩ := facts cache cached
      rw [content_eq held] at folded
      exact sound.refreshAppended held folded canonical cached
    next =>
      cases stepped
      exact sound.empties trivial
  next =>
    split at stepped <;> cases stepped <;> exact sound.goes trivial
  next records compacted here =>
    rw [here] at facts
    cases outcome <;> cases stepped
    · simp only [Stamped, here] at stamped
      exact sound.write stamped ⟨facts, rfl⟩
    · exact sound.goes trivial
    · exact sound.goes trivial
  next records compacted here =>
    rw [here] at facts
    cases stepped
    exact sound.refreshRewritten normalizes facts.1 facts.2 compacted outcome

theorem Sound.start {operation : Operation} (stepped : CacheSteps.start settings world operation = some next) : Sound settings next := by
  cases operation with
  | read | repair =>
    cases stepped
    exact sound.goes trivial
  | touch touch =>
    obtain ⟨accepted, passed, rfl⟩ := map_eq_some_iff.mp stepped
    exact sound.goes (proper_accept normalizes passed)
  | rebuild rebuild dryRun =>
    obtain ⟨nowIso, written, rfl⟩ := map_eq_some_iff.mp stepped
    exact sound.goes ⟨toISOString_ne_nil written, valid_toISOString written _⟩

end

theorem facts_write (facts : Facts settings world stage) (free : stage.locked = false) (fresh : identity ∉ world.used) :
    Facts settings (world.write content identity) stage := by
  cases stage with
  | idle | checking => trivial
  | opening purpose | waiting rebuild rebuilt => exact facts
  | parsing purpose opened replaced =>
    obtain ⟨purposeFacts, known, _⟩ := facts
    refine ⟨purposeFacts, fun old held => ⟨mem_cons_of_mem _ (known old held).1, ?_⟩, fun locked => ?_⟩
    · rintro _ file ⟨⟩ same
      exact fresh ((show identity = old from same) ▸ (known old held).1)
    · exact absurd (free.symm.trans locked) (by decide)
  | loaded purpose result =>
    exact ⟨facts.1, facts.2.1, fun locked => absurd (free.symm.trans locked) (by decide)⟩
  | appending record | appended record => cases free
  | rewriting records compacted | rewritten records compacted => cases free

theorem facts_replaceFile (facts : Facts settings world stage) (free : stage.locked = false) (fresh : identity ∉ world.used) :
    Facts settings (world.write content identity) (stage.replaceFile world.content) := by
  have kept : Facts settings (world.write content identity) stage := facts_write facts free fresh
  cases stage with
  | parsing purpose opened replaced =>
    cases replaced with
    | some old => exact kept
    | none =>
      obtain ⟨purposeFacts, known, _⟩ := facts
      refine ⟨purposeFacts, fun old held => ⟨mem_cons_of_mem _ (known old held).1, ?_⟩, fun locked => ?_⟩
      · rintro _ file ⟨⟩ same
        exact fresh ((show identity = old from same) ▸ (known old held).1)
      · exact absurd (free.symm.trans locked) (by decide)
  | _ => exact kept

theorem Sound.step (normalizes : Normalizes settings.host) (sound : Sound settings world) {action : Action}
    (stamped : Stamped world action) (careful : Careful world action)
    (stepped : CacheSteps.step settings world action = some next) : Sound settings next := by
  cases action with
  | start operation =>
    simp only [CacheSteps.step] at stepped
    split at stepped
    · exact sound.start normalizes stepped
    · cases stepped
  | proceed outcome => exact sound.proceed normalizes stamped careful stepped
  | otherAppends appendix identity =>
    simp only [CacheSteps.step] at stepped
    split_ifs at stepped with locked
    cases stepped
    exact sound.write stamped (facts_write sound.facts (by simpa using locked) stamped)
  | otherRewrites content identity =>
    simp only [CacheSteps.step] at stepped
    split_ifs at stepped with locked
    cases stepped
    exact sound.write stamped (facts_replaceFile sound.facts (by simpa using locked) stamped)

theorem sound_initial (settings : Settings) (file : Option LogFile) : Sound settings (initial file) := by
  refine ⟨?_, nofun, nofun, ⟨nofun, nofun⟩, trivial⟩
  rintro held ⟨⟩
  exact mem_singleton_self _

/-- Every load answered from the cache or leaving it has the records and the health report of the log at that moment. -/
theorem cached_reads_are_fresh (normalizes : Normalizes settings.host) {file : Option LogFile}
    (reached : Reaches (step settings) (fun world action => Stamped world action ∧ Careful world action) (initial file) world) :
    Agrees settings.host world := by
  have sound : Sound settings world := by
    apply reached.invariant (Sound settings)
    · exact sound_initial settings file
    · exact fun _ _ _ sound meets stepped => sound.step normalizes meets.1 meets.2 stepped
  exact sound.agrees

instance (world : World) (action : Action) : Decidable (Stamped world action) := by
  unfold Stamped
  split
  · split <;> infer_instance
  all_goals infer_instance

instance (world : World) (action : Action) : Decidable (Careful world action) := by
  unfold Careful
  split
  · split <;> infer_instance
  · infer_instance

def sampleSettings : Settings where
  host := ⟨plainTables, fun _ => none⟩
  defaultNamespace := text "default"
  isSafeRouteNamespace _ := true
  inferKind _ := .explicit
  resolvePath := id
  compactBytesLimit := 200
  readCoalesceMs := 0
  writeCoalesceMs := 0

theorem normalizes_sample : Normalizes sampleSettings.host := trim_trim

def sampleTouch : Touch := ⟨text "alice", .write, 0, none, none, ⟨text "/m", by decide⟩⟩

def sampleIdentity (size time : Nat) : CatalogFileIdentity := ⟨size, time, time, 1⟩

def works (identity : CatalogFileIdentity) (operations : Nat) : List Action :=
  List.replicate operations (.proceed (.works identity))

/-- A namespace is touched, read and touched again; the log is compacted, another process appends a broken line, and the log
is read twice. -/
def compactedAndRead : List Action :=
  [.start (.touch sampleTouch)] ++ works (sampleIdentity 193 1) 5 ++ [.start .read] ++ works (sampleIdentity 193 1) 3 ++
    [.start (.touch sampleTouch)] ++ works (sampleIdentity 386 2) 5 ++ works (sampleIdentity 193 3) 4 ++
    [.otherAppends (text "x\n") (sampleIdentity 195 4), .start .read] ++ works (sampleIdentity 195 4) 3 ++
    [.start .read] ++ works (sampleIdentity 195 4) 2

theorem cached_reads_are_fresh_compacted : ∃ world : World,
    Reaches (step sampleSettings) (fun world action => Stamped world action ∧ Careful world action) (initial none) world ∧
      world.answers.length = 5 ∧ (∃ cache ∈ world.compactedCache, cache.incomplete ≠ none) ∧
        Agrees sampleSettings.host world := by
  refine exists_reached (fun world => world.answers.length = 5 ∧ ∃ cache ∈ world.compactedCache, cache.incomplete ≠ none)
    compactedAndRead (by decide +kernel) ?_
  intro world reached ⟨answered, damaged⟩
  exact ⟨answered, damaged, cached_reads_are_fresh normalizes_sample reached⟩

/-- A namespace is touched while the log has a broken line, and the log is read. -/
def touchedAndRead : List Action :=
  [.start (.touch sampleTouch)] ++ works (sampleIdentity 195 2) 6 ++ [.start .read] ++ works (sampleIdentity 195 2) 1

theorem broken_line_forgotten : ∃ world : World,
    Reaches (step sampleSettings) Stamped (initial (some ⟨text "x\n", sampleIdentity 2 1⟩)) world ∧
      ¬ Agrees sampleSettings.host world := by
  refine exists_reached (fun world => ∃ answer ∈ world.answers, answer.1 ≠ freshRead sampleSettings.host answer.2)
    touchedAndRead (by decide +kernel) ?_
  intro world _ ⟨answer, member, differs⟩ agrees
  exact differs (agrees.answered answer member)

end Remnic.Catalog.Coherence
