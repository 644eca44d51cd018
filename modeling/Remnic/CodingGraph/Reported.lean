import Remnic.CodingGraph.Freshness

/-!
Whole runs of `executeReindex`: when the stored head is reported, the index fits it, unless a
run before was stopped between its data and its head, or a link or a name got in the way.
-/

namespace Remnic.CodingGraph.Reported

open Text.CodeUnits Library Library.Transition Schema Upsert Heuristic Reindex Freshness List

variable {engine : Engine} {index : Index} {run : Run} {store next : Store} {path head : JsString}

section runs

variable {repo : Repository} {world : World} {plan : ReindexPlan} {facts : ReindexGitFacts}

inductive Planned (repo : Repository) (lastHead : Option JsString) (head : JsString) : ReindexPlan → Prop where
  | noop (reason : JsString) : lastHead = some head → Planned repo lastHead head (.noop reason)
  | full (reason : JsString) : lastHead = none → Planned repo lastHead head (.full reason)
  | incremental (changedPaths : List JsString) (last : JsString) : lastHead = some last → last ≠ head →
      (∀ path, (repo.tree last).lookup path ≠ (repo.tree head).lookup path → path ∈ changedPaths) →
        Planned repo lastHead head (.incremental changedPaths)
  | hashScan (reason last : JsString) : lastHead = some last → last ≠ head → Planned repo lastHead head (.hashScan reason)

theorem planned_of_factsSince (clean : CleanRun engine repo head run) (last : JsString) (reachable : Bool) :
    (factsSince run last head reachable).currentHead = some head ∧
      Planned repo (some last) head (planReindex (some last) (factsSince run last head reachable)) := by
  by_cases same : last = head
  · have facts : factsSince run last head reachable = ⟨some head, reachable, []⟩ := by simp [factsSince, same]
    rw [facts]
    dsimp only [planReindex]
    rw [if_pos same]
    exact ⟨rfl, .noop _ (congrArg some same)⟩
  · have scan : ∀ entries, Planned repo (some last) head (planReindex (some last) ⟨some head, false, entries⟩) := by
      intro entries
      dsimp only [planReindex]
      rw [if_neg same]
      exact .hashScan _ last rfl same
    cases reachable with
    | false => exact ⟨rfl, scan []⟩
    | true =>
      cases diffed : run.diffNameStatus last head with
      | error code =>
        have facts : factsSince run last head true = ⟨some head, false, []⟩ := by simp [factsSince, same, diffed]
        rw [facts]
        exact ⟨rfl, scan []⟩
      | ok entries =>
        have facts : factsSince run last head true = ⟨some head, true, entries⟩ := by simp [factsSince, same, diffed]
        rw [facts]
        dsimp only [planReindex]
        rw [if_neg same]
        exact ⟨rfl, .incremental _ last rfl same (clean.diffNameStatus last entries diffed)⟩

theorem planned_of_gitFacts (clean : CleanRun engine repo head run) {lastHead : Option JsString}
    (gathered : gitFacts lastHead run = .ok facts) :
    facts.currentHead = some head ∧ Planned repo lastHead head (planReindex lastHead facts) := by
  unfold gitFacts at gathered
  rcases clean.revParseHead with current | ⟨code, failed⟩
  · rw [current] at gathered
    cases lastHead with
    | none =>
      cases gathered
      exact ⟨rfl, .full _ rfl⟩
    | some last =>
      replace gathered : (run.isReachable last).map (factsSince run last head) = .ok facts := gathered
      cases asked : run.isReachable last with
      | error code => cases (congrArg (Except.map (factsSince run last head)) asked).symm.trans gathered
      | ok reachable =>
        cases (congrArg (Except.map (factsSince run last head)) asked).symm.trans gathered
        exact planned_of_factsSince clean last reachable
  · rw [failed] at gathered
    cases gathered

theorem planned_of_planOf (clean : CleanRun engine repo head run) (planned : planOf index run = .ok (facts, plan)) :
    facts.currentHead = some head ∧ Planned repo index.lastIndexedHead head plan := by
  unfold planOf at planned
  split at planned
  · cases planned
  · split at planned
    · cases planned
    next facts gathered =>
      split at planned <;> cases planned
      exact planned_of_gitFacts clean gathered

/-- Each path fits the stored head, is kept for a retry, or is another in a commit of an unfinished run. -/
def Tracks (engine : Engine) (repo : Repository) (index : Index) (unfinished : List JsString) : Prop :=
  ∀ last ∈ index.lastIndexedHead, ∀ path,
    Fits engine (repo.view last path) (storedHash index.store path) ∨ path ∈ index.pendingParseFailures ∨
      ∃ old ∈ unfinished, repo.view old path ≠ repo.view last path

theorem view_of_regular (regular : Regular repo world head run plan)
    (isPartial : ReindexPlan.isPartial plan = true) (planned : Planned repo world.index.lastIndexedHead head plan)
    {last : JsString} (known : world.index.lastIndexedHead = some last) (other : path ∉ examined world.index run plan) :
    repo.view last path = repo.view head path := by
  cases planned with
  | noop reason same => rw [Option.some_inj.mp (known.symm.trans same)]
  | full => cases isPartial
  | hashScan => cases isPartial
  | incremental changedPaths first same different covers =>
    obtain rfl := Option.some_inj.mp (known.symm.trans same)
    have entry : (repo.tree last).lookup path = (repo.tree head).lookup path := by
      by_contra differs
      exact other (mem_append_left _ (covers path differs))
    have content := regular.relinked changedPaths rfl last known path other
    unfold Repository.view at content ⊢
    rw [entry]
    cases found : (repo.tree head).lookup path with
    | none => rfl
    | some _ =>
      rw [Option.map_some, Option.map_some, content (by rw [found]; exact Option.some_ne_none _)]

variable {work : Work} {ingested : Ingested}

section

variable (clean : CleanRun engine repo head run) (regular : Regular repo world head run plan)
  (planned : Planned repo world.index.lastIndexedHead head plan) (made : workOf engine world.index run plan = some work)
include clean regular planned made

/-- The data of a run with any of the two sets of retries keep track of the stored head. -/
theorem tracks_unfinished (done : ingestFiles engine run world.index.store work.toIngest work.toDelete = .ok ingested)
    (tracks : Tracks engine repo world.index world.unfinished) (retry : List JsString)
    (which : retry = world.index.pendingParseFailures ∨ retry = work.nextPending (parseFailedPaths run work.toIngest)) :
    Tracks engine repo ((world.index.withData ingested.store).withPending retry) (head :: world.unfinished) := by
  intro last known path
  have before := tracks last known path
  have here : Fits engine (repo.view head path) (storedHash ingested.store path) →
      Fits engine (repo.view last path) (storedHash ingested.store path) ∨ path ∈ retry ∨
        ∃ old ∈ head :: world.unfinished, repo.view old path ≠ repo.view last path := by
    intro fits
    by_cases same : repo.view head path = repo.view last path
    · exact .inl (same ▸ fits)
    · exact .inr (.inr ⟨head, mem_cons_self, same⟩)
  have earlier : (∃ old ∈ world.unfinished, repo.view old path ≠ repo.view last path) →
      ∃ old ∈ head :: world.unfinished, repo.view old path ≠ repo.view last path := by
    rintro ⟨old, member, differs⟩
    exact ⟨old, mem_cons_of_mem _ member, differs⟩
  by_cases looked : path ∈ examined world.index run plan
  · rcases handled_work clean regular made done looked with fits | ⟨unchanged, retried⟩
    · exact here fits
    · rcases which with rfl | rfl
      · rcases before with fits | pending | strayed
        · exact .inl (unchanged ▸ fits)
        · exact .inr (.inl pending)
        · exact .inr (.inr (earlier strayed))
      · exact .inr (.inl retried)
  · by_cases isPartial : ReindexPlan.isPartial plan = true
    · obtain ⟨unchanged, absent⟩ := left_alone clean isPartial made done looked
      rcases before with fits | pending | strayed
      · exact .inl (unchanged ▸ fits)
      · exact absurd pending absent
      · exact .inr (.inr (earlier strayed))
    · refine here (fits_unexamined clean (by simpa using isPartial) made (fun reason full => ?_) done looked)
      subst full
      cases planned with
      | full _ none => cases known.symm.trans none

/-- With both sets written, the data fit the commit of the run, unless a full run had no candidates. -/
theorem fresh_of_finished (done : ingestFiles engine run world.index.store work.toIngest work.toDelete = .ok ingested)
    (tracks : Tracks engine repo world.index world.unfinished)
    (reports : ReindexPlan.isPartial plan = true → mayReport world.index run plan = true)
    (provided : ∀ reason, plan = .full reason → candidatesProvided run = true) (index : Index)
    (data : index.store = ingested.store)
    (retried : index.pendingParseFailures = work.nextPending (parseFailedPaths run work.toIngest)) :
    Fresh engine repo head index := by
  intro path
  rw [data, retried]
  by_cases looked : path ∈ examined world.index run plan
  · exact (handled_work clean regular made done looked).imp id And.right
  · by_cases isPartial : ReindexPlan.isPartial plan = true
    · obtain ⟨unchanged, absent⟩ := left_alone clean isPartial made done looked
      have there : ∃ last, world.index.lastIndexedHead = some last := by
        cases planned with
        | noop _ same => exact ⟨head, same⟩
        | full => cases isPartial
        | incremental _ last same => exact ⟨last, same⟩
        | hashScan => cases isPartial
      obtain ⟨last, known⟩ := there
      have same := view_of_regular regular isPartial planned known looked
      rcases tracks last known path with fits | pending | ⟨old, member, differs⟩
      · rw [unchanged, ← same]
        exact .inl fits
      · exact absurd pending absent
      · exact absurd ((regular.unfinished isPartial (reports isPartial) old member path looked).trans same.symm) differs
    · exact .inl (fits_unexamined clean (by simpa using isPartial) made provided done looked)

theorem tracks_perform (tracks : Tracks engine repo world.index world.unfinished) :
    let attempt := perform engine world.index run (some head) work
    (attempt.index.lastIndexedHead = world.index.lastIndexedHead ∧
      Tracks engine repo attempt.index (if attempt.committed then head :: world.unfinished else world.unfinished)) ∨
        (attempt.index.lastIndexedHead = some head ∧ work.advances = true ∧ run.faults.writes = .all ∧
          ∃ ingested, ingestFiles engine run world.index.store work.toIngest work.toDelete = .ok ingested ∧
            attempt.index.store = ingested.store ∧
            attempt.index.pendingParseFailures = work.nextPending (parseFailedPaths run work.toIngest)) := by
  unfold perform
  cases done : ingestFiles engine run world.index.store work.toIngest work.toDelete with
  | error result => exact .inl ⟨rfl, tracks⟩
  | ok ingested =>
    have data := tracks_unfinished clean regular planned made done tracks
    cases came : run.faults.writes with
    | stoppedBeforePending => exact .inl ⟨rfl, data _ (.inl rfl)⟩
    | closed => exact .inl ⟨rfl, data _ (.inl rfl)⟩
    | stoppedBeforeHead => exact .inl ⟨rfl, data _ (.inr rfl)⟩
    | all =>
      cases moves : work.advances with
      | false => exact .inl ⟨rfl, data _ (.inr rfl)⟩
      | true => exact .inr ⟨rfl, rfl, rfl, ingested, rfl, rfl, rfl⟩

end

theorem provided_of_advances {reason : JsString} (made : workOf engine world.index run (.full reason) = some work)
    (moves : work.advances = true) : candidatesProvided run = true := by
  simp only [workOf] at made
  split at made <;> cases made
  exact moves

theorem reports_of_advances (planned : Planned repo world.index.lastIndexedHead head plan)
    (made : workOf engine world.index run plan = some work) (moves : work.advances = true) (all : run.faults.writes = .all)
    (isPartial : ReindexPlan.isPartial plan = true) : mayReport world.index run plan = true := by
  cases planned with
  | noop reason =>
    simp only [workOf] at made
    split at made <;> cases made
    cases moves
  | full => cases isPartial
  | incremental => simp [mayReport, all]
  | hashScan => cases isPartial

theorem tracks_of_fresh {unfinished : List JsString} (known : index.lastIndexedHead = some head)
    (fresh : Fresh engine repo head index) : Tracks engine repo index unfinished := by
  intro last same path
  obtain rfl := Option.some_inj.mp (known.symm.trans same)
  exact (fresh path).imp id .inl

theorem tracks_after (clean : CleanRun engine repo head run)
    (regular : ∀ facts plan, planOf world.index run = .ok (facts, plan) → Regular repo world head run plan)
    (tracks : Tracks engine repo world.index world.unfinished) :
    Tracks engine repo (world.after engine head run).index (world.after engine head run).unfinished := by
  unfold World.after executeReindex
  cases gathered : planOf world.index run with
  | error result => simpa using tracks
  | ok both =>
    obtain ⟨facts, plan⟩ := both
    obtain ⟨current, planned⟩ := planned_of_planOf clean gathered
    cases made : workOf engine world.index run plan with
    | none => simpa [made] using tracks
    | some work =>
      have outcome := tracks_perform clean (regular facts plan gathered) planned made tracks
      simp only [made, current]
      rcases outcome with ⟨same, kept⟩ | ⟨same, moves, all, ingested, done, data, retried⟩
      · simpa only [same, ne_eq, not_true_eq_false, if_false] using kept
      · refine tracks_of_fresh same (fresh_of_finished clean (regular facts plan gathered) planned made done tracks ?_ ?_ _ data retried)
        · exact reports_of_advances planned made moves all
        · intro reason full
          subst full
          exact provided_of_advances made moves

theorem tracks_of_reaches {start : World} (first : start.index.lastIndexedHead = none)
    (reached : Reaches (step engine) (Meets engine repo) start world) : Tracks engine repo world.index world.unfinished := by
  refine reached.invariant (fun world => Tracks engine repo world.index world.unfinished) (fun last known => ?_) ?_
  · cases first.symm.trans known
  · intro state action next tracks meets stepped
    cases stepped
    exact tracks_after meets.1 meets.2 tracks

/-- A run without a head to write reports the stored head, which the index then fits. -/
theorem fresh_of_standing (clean : CleanRun engine repo head run) (regular : Regular repo world head run plan)
    (planned : Planned repo world.index.lastIndexedHead head plan) (made : workOf engine world.index run plan = some work)
    (done : ingestFiles engine run world.index.store work.toIngest work.toDelete = .ok ingested)
    (tracks : Tracks engine repo world.index world.unfinished) (stands : work.advances = false)
    (reports : mayReport world.index run plan = true) {last : JsString} (known : world.index.lastIndexedHead = some last)
    (index : Index) (data : index.store = ingested.store)
    (retried : index.pendingParseFailures = work.nextPending (parseFailedPaths run work.toIngest) ∨
      run.faults.writes = .closed ∧ index.pendingParseFailures = world.index.pendingParseFailures) :
    Fresh engine repo last index := by
  intro path
  have before := tracks last known path
  cases planned with
  | noop reason same =>
    obtain rfl := Option.some_inj.mp (known.symm.trans same)
    simp only [workOf] at made
    split at made <;> cases made
    rw [data]
    by_cases looked : path ∈ world.index.pendingParseFailures
    · rcases handled_noop clean regular done looked with fits | ⟨_, pending⟩
      · exact .inl fits
      · rcases retried with wrote | ⟨_, kept⟩
        · exact .inr (wrote ▸ pending)
        · exact .inr (kept ▸ looked)
    · obtain ⟨unchanged, absent⟩ := left_alone clean (show ReindexPlan.isPartial (.noop reason) = true from rfl) (by simp_all [workOf]) done looked
      rcases before with fits | pending | ⟨old, member, differs⟩
      · exact .inl (unchanged ▸ fits)
      · exact absurd pending absent
      · exact absurd (regular.unfinished rfl reports old member path looked) differs
  | full reason none => cases known.symm.trans none
  | incremental changedPaths =>
    cases made
    cases stands
  | hashScan reason other same different =>
    cases made
    have nothing : (repo.tree head).keys = [] := by
      have provided : candidatesProvided run = false := stands
      simpa [candidatesProvided, clean.candidatePaths] using provided
    obtain ⟨empty, closed⟩ := regular.emptied reason rfl nothing reports last known
    have untracked : ∀ {commit : JsString}, (repo.tree commit).keys = [] → repo.view commit path = none := by
      intro commit bare
      unfold Repository.view
      rw [(OrderedMap.lookup_eq_none_iff _ _).mpr (by rw [bare]; exact not_mem_nil)]
      rfl
    rw [data, untracked empty, ← untracked nothing]
    by_cases looked : path ∈ examined world.index run (.hashScan reason)
    · rcases handled_hashScan clean regular _ rfl done looked with fits | ⟨unchanged, pending⟩
      · exact .inl fits
      · rcases retried with wrote | ⟨shut, kept⟩
        · exact .inr (wrote ▸ pending)
        · rcases before with fits | waiting | ⟨old, member, differs⟩
          · rw [unchanged, untracked nothing, ← untracked empty]
            exact .inl fits
          · exact .inr (kept ▸ waiting)
          · exact absurd ((untracked (closed shut old member)).trans (untracked empty).symm) differs
    · exact .inl (fits_unexamined clean (show ReindexPlan.isPartial (.hashScan reason) = false from rfl) rfl (fun _ full => by cases full) done looked)

theorem planOf_error_is_failure {result : ReindexResult} (failed : planOf index run = .error result) (mode : Mode)
    (filesIngested : Nat) (reported : Option JsString) : result ≠ .ok mode filesIngested reported := by
  unfold planOf at failed
  split at failed
  · cases failed
    exact fun same => by cases same
  · split at failed
    · cases failed
      exact fun same => by cases same
    · split at failed <;> cases failed <;> exact fun same => by cases same

theorem ingestFiles_error_is_failure {paths deletePaths : List JsString} {result : Option ReindexResult}
    (failed : ingestFiles engine run store paths deletePaths = .error result) (mode : Mode) (filesIngested : Nat)
    (reported : Option JsString) : result ≠ some (.ok mode filesIngested reported) := by
  unfold ingestFiles at failed
  split at failed
  · cases failed
    exact fun same => by cases same
  · cases failed
    exact fun same => by cases same
  · split at failed <;> cases failed
    exact fun same => by cases same

theorem fresh_of_nothing (regular : Regular repo world head run plan)
    (planned : Planned repo world.index.lastIndexedHead head plan) (made : workOf engine world.index run plan = none)
    (tracks : Tracks engine repo world.index world.unfinished) {last : JsString} (known : world.index.lastIndexedHead = some last) :
    Fresh engine repo last world.index := by
  intro path
  cases planned with
  | noop reason same =>
    obtain rfl := Option.some_inj.mp (known.symm.trans same)
    have empty : world.index.pendingParseFailures = [] := by
      by_contra pending
      simp [workOf, pending] at made
    rcases tracks last known path with fits | pending | ⟨old, member, differs⟩
    · exact .inl fits
    · exact .inr pending
    · refine absurd (regular.unfinished rfl (by simp [mayReport, empty]) old member path ?_) differs
      simp [examined, empty]
  | full reason none => cases known.symm.trans none
  | incremental => cases made
  | hashScan => cases made

theorem fresh_of_perform (clean : CleanRun engine repo head run) (regular : Regular repo world head run plan)
    (planned : Planned repo world.index.lastIndexedHead head plan) (made : workOf engine world.index run plan = some work)
    (tracks : Tracks engine repo world.index world.unfinished) {mode : Mode} {filesIngested : Nat} {reported : JsString}
    (ok : (perform engine world.index run (some head) work).result = some (.ok mode filesIngested (some reported)))
    (stored : (perform engine world.index run (some head) work).index.lastIndexedHead = some reported) :
    Fresh engine repo reported (perform engine world.index run (some head) work).index := by
  have stands : work.advances = false → world.index.lastIndexedHead = some reported →
      (run.faults.writes = .all ∨ run.faults.writes = .closed) → mayReport world.index run plan = true := by
    intro stands known came
    cases planned with
    | noop => rcases came with came | came <;> simp [mayReport, came]
    | full _ none => cases known.symm.trans none
    | incremental =>
      cases made
      cases stands
    | hashScan => rcases came with came | came <;> simp [mayReport, came]
  unfold perform at ok stored ⊢
  cases done : ingestFiles engine run world.index.store work.toIngest work.toDelete with
  | error result =>
    rw [done] at ok
    exact absurd ok (ingestFiles_error_is_failure done _ _ _)
  | ok ingested =>
    simp only [done] at ok stored ⊢
    have advanced : work.advances = true → (run.faults.writes = .all ∨ run.faults.writes = .closed) → head = reported := by
      intro moves came
      rcases came with came | came
      all_goals
        rw [came, moves] at ok
        have parts : work.mode = mode ∧ ingested.count = filesIngested ∧ head = reported := by simpa using ok
        exact parts.2.2
    cases came : run.faults.writes with
    | stoppedBeforePending =>
      rw [came] at ok
      cases ok
    | stoppedBeforeHead =>
      rw [came] at ok
      cases ok
    | closed =>
      have known : world.index.lastIndexedHead = some reported := by
        rw [came] at stored
        exact stored
      cases moves : work.advances with
      | false =>
        exact fresh_of_standing clean regular planned made done tracks moves (stands moves known (.inr came)) known _ rfl
          (.inr ⟨came, rfl⟩)
      | true =>
        obtain rfl := advanced moves (.inr came)
        cases planned with
        | noop =>
          simp only [workOf] at made
          split at made <;> cases made
          cases moves
        | full _ none => cases known.symm.trans none
        | incremental _ last other differs _ => exact absurd (Option.some_inj.mp (other.symm.trans known)) differs
        | hashScan _ last other differs => exact absurd (Option.some_inj.mp (other.symm.trans known)) differs
    | all =>
      rw [came] at stored
      cases moves : work.advances with
      | false =>
        rw [moves] at stored
        have known : world.index.lastIndexedHead = some reported := stored
        exact fresh_of_standing clean regular planned made done tracks moves (stands moves known (.inl came)) known _ rfl (.inl rfl)
      | true =>
        obtain rfl := advanced moves (.inl came)
        refine fresh_of_finished clean regular planned made done tracks (reports_of_advances planned made moves came) ?_ _ rfl rfl
        intro reason full
        subst full
        exact provided_of_advances made moves

/-- In a run whose steps all are regular, the index is fresh whenever it is reported so. -/
theorem reported_index_is_fresh {start : World} (first : start.index.lastIndexedHead = none)
    (reached : Reaches (step engine) (Meets engine repo) start world) (meets : Meets engine repo world (head, run))
    {mode : Mode} {filesIngested : Nat} {reported : JsString}
    (ok : (executeReindex engine world.index run).result = some (.ok mode filesIngested (some reported)))
    (stored : (executeReindex engine world.index run).index.lastIndexedHead = some reported) :
    Fresh engine repo reported (executeReindex engine world.index run).index := by
  have tracks := tracks_of_reaches first reached
  obtain ⟨clean, regular⟩ := meets
  unfold executeReindex at ok stored ⊢
  cases gathered : planOf world.index run with
  | error result =>
    rw [gathered] at ok
    exact absurd (Option.some.inj ok) (planOf_error_is_failure gathered _ _ _)
  | ok both =>
    obtain ⟨facts, plan⟩ := both
    obtain ⟨current, planned⟩ := planned_of_planOf clean gathered
    have regular := regular facts plan gathered
    cases made : workOf engine world.index run plan with
    | none =>
      simp only [gathered, made] at stored ⊢
      exact fresh_of_nothing regular planned made tracks stored
    | some work =>
      simp only [gathered, made, current] at ok stored ⊢
      exact fresh_of_perform clean regular planned made tracks ok stored

end runs

section samples

/-- A run against a plain checkout, where nothing fails but maybe the last writes. -/
def checkout (engine : Engine) (repo : Repository) (head : JsString) (writes : Writes) : Run where
  revParseHead := .ok (some head)
  isReachable _ := .ok true
  diffNameStatus last current := .ok (((repo.tree last).keys ++ (repo.tree current).keys).map fun path => ⟨path, none⟩)
  candidatePaths := some (repo.tree head).keys
  probing := ⟨fun _ => false, fun path => (repo.content head path).elim (.error (text "ENOENT")) .ok⟩
  ingesting := ⟨fun _ => false, fun path => (repo.content head path).elim (.error (text "ENOENT")) .ok⟩
  parseFile path content := some ⟨path, text "typescript", engine.hashContent content, [], [], [], [], []⟩
  faults := { noFaults with writes := writes }

theorem clean_checkout (engine : Engine) (repo : Repository) (head : JsString) (writes : Writes) :
    CleanRun engine repo head (checkout engine repo head writes) := by
  have disk : CleanDisk repo head ⟨fun _ => false, fun path => (repo.content head path).elim (.error (text "ENOENT")) .ok⟩ := by
    intro path
    dsimp only
    cases repo.content head path with
    | none => exact .inr ⟨_, rfl⟩
    | some content => exact ⟨rfl, .inl rfl⟩
  refine ⟨.inl rfl, ?_, rfl, disk, disk, ?_⟩
  · intro last entries listed path differs
    cases listed
    have tracked : path ∈ (repo.tree last).keys ++ (repo.tree head).keys := by
      by_contra absent
      rw [mem_append, not_or, ← OrderedMap.lookup_eq_none_iff, ← OrderedMap.lookup_eq_none_iff] at absent
      exact differs (absent.1.trans absent.2.symm)
    exact mem_flatMap.mpr ⟨⟨path, none⟩, mem_map_of_mem tracked, mem_cons_self⟩
  · intro path content ir parsed
    cases parsed
    exact ⟨rfl, rfl⟩

/-- Without links and odd names, and after runs that all finished, a checkout is regular. -/
theorem meets_checkout {repo : Repository} {world : World} {writes : Writes} (plain : ∀ commit path, repo.through commit path = none)
    (named : ∀ path ∈ (repo.tree head).keys, isCanonicalRelativePath path = true) (filled : (repo.tree head).keys ≠ [])
    (finished : world.unfinished = []) : Meets engine repo world (head, checkout engine repo head writes) := by
  refine ⟨clean_checkout engine repo head writes, fun facts plan gathered => ?_⟩
  have untracked : ∀ path, repo.view head path = none → repo.content head path = none := by
    intro path absent
    rw [Repository.view, Option.map_eq_none_iff] at absent
    rw [Repository.content, absent]
    exact plain head path
  refine ⟨fun path _ absent _ => untracked path absent, fun _ _ _ _ _ _ => rfl, fun _ path _ tracked _ => ?_, ?_, ?_, ?_⟩
  · rw [Repository.view, Ne, Option.map_eq_none_iff, OrderedMap.lookup_eq_none_iff, not_not] at tracked
    exact named path tracked
  · rintro changedPaths rfl last known path other _
    obtain ⟨_, planned⟩ := planned_of_planOf (clean_checkout engine repo head writes) gathered
    cases planned with
    | incremental _ first same _ covers =>
      obtain rfl := Option.some_inj.mp (known.symm.trans same)
      have entry : (repo.tree last).lookup path = (repo.tree head).lookup path := by
        by_contra differs
        exact other (mem_append_left _ (covers path differs))
      rw [Repository.content, Repository.content, entry, plain, plain]
  · intro _ _ old member
    rw [finished] at member
    cases member
  · intro _ _ empty
    exact absurd empty filled

def sampleEngine : Engine := ⟨sampleHost, fun bytes => bytes.map fun byte => unit byte.toNat⟩

/-- Two commits with one file each, which differ in its content. -/
def sampleRepository : Repository where
  tree head := (OrderedMap.empty : OrderedMap JsString Entry).set (text "a.ts") (.file (if head = text "one" then [1] else [2]))
  through _ _ := none

def sampleStart : World := ⟨⟨applyCodingGraphSchema Store.blank, [], none⟩, []⟩

def sampleRun (head : String) (writes : Writes) : Run := checkout sampleEngine sampleRepository (text head) writes

def sampleIndexed : World := sampleStart.after sampleEngine (text "one") (sampleRun "one" .all)

theorem meets_sampleRun (world : World) (finished : world.unfinished = []) (which : String) (writes : Writes) :
    Meets sampleEngine sampleRepository world (text which, sampleRun which writes) := by
  have keys : (sampleRepository.tree (text which)).keys = [text "a.ts"] := by
    unfold sampleRepository
    rfl
  refine meets_checkout (fun _ _ => rfl) (fun path member => ?_) (by rw [keys]; exact cons_ne_nil _ _) finished
  rw [keys, mem_singleton] at member
  rw [member]
  decide

theorem reported_index_is_fresh_second_commit :
    Fresh sampleEngine sampleRepository (text "two")
      (executeReindex sampleEngine sampleIndexed.index (sampleRun "two" .all)).index := by
  have ok : (executeReindex sampleEngine sampleIndexed.index (sampleRun "two" .all)).result =
      some (.ok .incremental 1 (some (text "two"))) := by decide +kernel
  have stored : (executeReindex sampleEngine sampleIndexed.index (sampleRun "two" .all)).index.lastIndexedHead =
      some (text "two") := by decide +kernel
  have reached : Reaches (step sampleEngine) (Meets sampleEngine sampleRepository) sampleStart sampleIndexed :=
    .next (.refl sampleStart) (meets_sampleRun sampleStart rfl "one" .all) rfl
  exact reported_index_is_fresh rfl reached (meets_sampleRun sampleIndexed (by decide +kernel) "two" .all) ok stored

/-- A run of the second commit stops before the head is written; the next run of the first one reports its index fresh. -/
theorem stopped_run_hides_other_content :
    let stopped := sampleIndexed.after sampleEngine (text "two") (sampleRun "two" .stoppedBeforeHead)
    let attempt := executeReindex sampleEngine stopped.index (sampleRun "one" .all)
    CleanRun sampleEngine sampleRepository (text "one") (sampleRun "one" .all) ∧
      CleanRun sampleEngine sampleRepository (text "two") (sampleRun "two" .stoppedBeforeHead) ∧
      attempt.result = some (.ok .noop 0 (some (text "one"))) ∧ attempt.index.lastIndexedHead = some (text "one") ∧
      ¬Fresh sampleEngine sampleRepository (text "one") attempt.index := by
  intro stopped attempt
  have stored : storedHash attempt.index.store (text "a.ts") = some [unit 2] := by decide +kernel
  have pending : attempt.index.pendingParseFailures = [] := by decide +kernel
  refine ⟨clean_checkout _ _ _ _, clean_checkout _ _ _ _, by decide +kernel, by decide +kernel, fun fresh => ?_⟩
  rcases fresh (text "a.ts") with fits | waiting
  · have view : sampleRepository.view (text "one") (text "a.ts") = some (some [1]) := by decide +kernel
    rw [view, stored] at fits
    exact absurd (fits [1] rfl) (by decide)
  · rw [pending] at waiting
    cases waiting

end samples

end Remnic.CodingGraph.Reported
