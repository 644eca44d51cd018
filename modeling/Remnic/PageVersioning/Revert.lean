import Remnic.PageVersioning.Integrity
import Remnic.Text.Utf8Encode

/-!
`revertToVersion` among other writers and versioning operations of its page: the target is read, the page is read, that
text becomes a version, and the page is overwritten. A revert keeps the content it replaces if nobody comes in between.
-/

namespace Remnic.PageVersioning.Revert

open Text.CodeUnits Text.Utf8 Text.Utf8Encode History Library.Transition List Function
open Steps (World Operation Outcome)

variable {Hash Call : Type}

/-- The page, what each call does to its history, and the version that a revert goes back to. A revert passes
`createVersion` what it reads, so a step that reads anything else is not enabled. -/
structure Setting (Call : Type) where
  pagePath : JsString
  operation : Call → Operation
  reverts : Call → Option Nat

/-- What a revert does next. While it snapshots the page it has the content of its target, and then the id of the version. -/
inductive Stage where
  | idle
  | reading (targetContent : JsString)
  | versioning (targetContent : JsString) (versionId : Option Nat)
  | done
  deriving DecidableEq, Repr

structure Site (Hash Call : Type) where
  history : World Hash Call
  page : Option (List Byte)
  reverts : Call → Stage

/-- How an overwrite ends: before the write, with it, or with a file of any content. -/
inductive Ending where
  | throws
  | works
  | tears (left : Option (List Byte))
  deriving DecidableEq, Repr

/-- The steps of reverts, the steps of versioning operations, and the writes of others. -/
inductive Action (Call : Type) where
  | target (call : Call) (outcome : Outcome)
  | read (call : Call) (outcome : Outcome)
  | version (action : Steps.Action Call)
  | overwrite (call : Call) (ending : Ending)
  | write (content : Option (List Byte))

def initial (page : Option (List Byte)) : Site Hash Call := ⟨Steps.initial, page, fun _ => .idle⟩

def Setting.calls (setting : Setting Call) : Steps.Calls Call := ⟨fun _ => setting.pagePath, setting.operation⟩

def Site.snapshot (setting : Setting Call) (site : Site Hash Call) (versionId : Nat) : Option JsString :=
  site.history.snapshots (sidecarDir setting.pagePath) (versionId, snapshotExt setting.pagePath)

def Site.listed (setting : Setting Call) (site : Site Hash Call) : List (PageVersion Hash) :=
  site.history.listed (sidecarDir setting.pagePath)

def actor : Steps.Action Call → Call
  | .start call | .proceed call _ | .crash call => call

/-- The text to snapshot: a page that cannot be read counts as empty. -/
def currentContent (page : Option (List Byte)) : Outcome → JsString
  | .works => page.elim [] decode
  | .fails _ => []

/-- A revert learns of the version its `createVersion` publishes, and ends with one that fails. -/
def follow (before after : Steps.Stage Hash) : Stage → Stage
  | .versioning targetContent versionId =>
    match before, after, versionId with
    | .publishing plan, .unlinking _, _ => .versioning targetContent (some plan.history.currentVersion)
    | _, .crashed, _ | _, .releasing, none | _, .finished, none => .done
    | _, _, _ => .versioning targetContent versionId
  | stage => stage

def overwritten (page : Option (List Byte)) (targetContent : JsString) : Ending → Option (List Byte)
  | .throws => page
  | .works => some (encode targetContent)
  | .tears left => left

variable [DecidableEq Call]

def Site.at (site : Site Hash Call) (call : Call) (stage : Stage) : Site Hash Call :=
  { site with reverts := Function.update site.reverts call stage }

def step (contentHash : JsString → Hash) (setting : Setting Call) (site : Site Hash Call) :
    Action Call → Option (Site Hash Call)
  | .target call outcome =>
    match setting.reverts call, site.reverts call with
    | some versionId, .idle =>
      match outcome, site.snapshot setting versionId with
      | .works, some content => some (site.at call (.reading (decode (encode content))))
      | _, _ => some (site.at call .done)
    | _, _ => none
  | .read call outcome =>
    match site.reverts call, setting.operation call with
    | .reading targetContent, .createVersion content false _ =>
      if content = currentContent site.page outcome then
        (Steps.step contentHash setting.calls site.history (.start call)).map fun history =>
          { site.at call (.versioning targetContent none) with history }
      else none
    | _, _ => none
  | .version action =>
    match action, setting.reverts (actor action) with
    | .start _, some _ => none
    | action, _ =>
      (Steps.step contentHash setting.calls site.history action).map fun history =>
        { site.at (actor action) (follow (site.history.stages (actor action)) (history.stages (actor action))
          (site.reverts (actor action))) with history }
  | .overwrite call ending =>
    match site.reverts call, site.history.stages call with
    | .versioning targetContent (some _), .finished =>
      some { site.at call .done with page := overwritten site.page targetContent ending }
    | _, _ => none
  | .write content => some { site with page := content }

def Stage.pending : Stage → Bool
  | .versioning _ _ => true
  | _ => false

/-- The version that a revert has taken of the page, once its snapshot is written. -/
def Site.taken (site : Site Hash Call) (call : Call) : Option Nat :=
  match site.reverts call, site.history.stages call with
  | .versioning _ none, .publishing plan => some plan.history.currentVersion
  | .versioning _ versionId, _ => versionId
  | _, _ => none

/-- A change of the history that leaves a version its snapshot, and its place in the list. -/
def Spares (setting : Setting Call) (site : Site Hash Call) (versionId : Nat) (history : World Hash Call) : Prop :=
  history.snapshots (sidecarDir setting.pagePath) (versionId, snapshotExt setting.pagePath) = site.snapshot setting versionId ∧
    (versionId ∈ (site.listed setting).map PageVersion.versionId →
      versionId ∈ (history.listed (sidecarDir setting.pagePath)).map PageVersion.versionId)

/-- A revert reads what there is, and it is UTF-8. Between its read and its overwrite nobody else changes the page, or takes
the new version or its snapshot away. -/
def Undisturbed (contentHash : JsString → Hash) (setting : Setting Call) (site : Site Hash Call) : Action Call → Prop
  | .target _ _ => True
  | .read _ outcome => ∀ bytes ∈ site.page, bytes ≠ [] → outcome = .works ∧ encode (decode bytes) = bytes
  | .version action => ∀ history ∈ Steps.step contentHash setting.calls site.history action, ∀ other, other ≠ actor action →
      ∀ versionId ∈ site.taken other, Spares setting site versionId history
  | .overwrite call ending => ∀ next ∈ step contentHash setting site (.overwrite call ending), ∀ other, other ≠ call →
      (site.reverts other).pending = true → next.page = site.page
  | .write content => ∀ call, (site.reverts call).pending = true → content = site.page

/-- A content of the page that a listed version has. -/
def Saved (setting : Setting Call) (site : Site Hash Call) (bytes : List Byte) : Prop :=
  ∃ version ∈ site.listed setting, ∃ content, site.snapshot setting version.versionId = some content ∧ encode content = bytes

/-- An overwrite leaves what it replaces to the history, and nothing else that a revert does changes the page. -/
structure Preserves (setting : Setting Call) (site next : Site Hash Call) (action : Action Call) : Prop where
  saved : ∀ call ending, action = .overwrite call ending → ending ≠ .throws →
    ∀ bytes, site.page = some bytes → bytes ≠ [] → Saved setting next bytes
  untouched : (∀ content, action ≠ .write content) → (∀ call ending, action = .overwrite call ending → ending = .throws) →
    next.page = site.page

def Holds (setting : Setting Call) (site : Site Hash Call) (content : JsString) (versionId : Nat) : Prop :=
  versionId ∈ (site.listed setting).map PageVersion.versionId ∧ site.snapshot setting versionId = some content

def Progress (setting : Setting Call) (site : Site Hash Call) (operation : Operation) (content : JsString) :
    Option Nat → Steps.Stage Hash → Prop
  | none, .locking | none, .reading | none, .snapshotting _ =>
    ∃ maxVersionsPerPage, operation = .createVersion content false maxVersionsPerPage
  | none, .publishing plan =>
    plan.history.currentVersion ∈ plan.history.versions.map PageVersion.versionId ∧
      plan.history.currentVersion ∉ plan.removed ∧ site.snapshot setting plan.history.currentVersion = some content
  | some versionId, .unlinking ids => versionId ∉ ids ∧ Holds setting site content versionId
  | some versionId, .releasing | some versionId, .finished => Holds setting site content versionId
  | _, _ => False

/-- What a revert knows from its read to its overwrite. -/
def Kept (setting : Setting Call) (site : Site Hash Call) (call : Call) : Prop :=
  ∀ targetContent versionId, site.reverts call = .versioning targetContent versionId →
    ∃ content, (∀ bytes, site.page = some bytes → bytes ≠ [] → encode content = bytes) ∧
      Progress setting site (setting.operation call) content versionId (site.history.stages call)

variable {contentHash : JsString → Hash} {setting : Setting Call} {site next : Site Hash Call} {call : Call}
variable {content : JsString} {operation : Operation} {history : World Hash Call} {outcome : Outcome}

omit [DecidableEq Call] in
theorem createPlan_current (contentHash : JsString → Hash) (history : VersionHistory Hash) (content : JsString) (maxVersionsPerPage created : Nat) :
    let plan := Steps.createPlan contentHash history content false maxVersionsPerPage created
    plan.history.currentVersion ∈ plan.history.versions.map PageVersion.versionId ∧ plan.history.currentVersion ∉ plan.removed := by
  let version : PageVersion Hash := ⟨nextId history.versions, contentHash content, false, created⟩
  have stays : version ∈ (pruneExcessVersions (history.versions ++ [version]) maxVersionsPerPage).1 := by
    unfold pruneExcessVersions
    split_ifs with unbounded
    · exact mem_append_right _ (mem_singleton_self _)
    · have kept := committed_dropExcess
        (committedCount (history.versions ++ [version]) - maxVersionsPerPage) (history.versions ++ [version])
      refine (mem_filter.mp (kept ▸ ?_ : version ∈ List.filter (fun version => !version.pending) _)).1
      rw [filter_append, filter_cons_of_pos rfl, drop_append_of_le_length]
      · exact mem_append_right _ (mem_singleton_self _)
      · simp only [committedCount, filter_append, length_append]
        simp [version]
        omega
  refine ⟨mem_map_of_mem stays, fun removed => ?_⟩
  have counts := ((pruneExcessVersions_perm (history.versions ++ [version]) maxVersionsPerPage).map
    PageVersion.versionId).count_eq version.versionId
  have fresh : version.versionId ∉ history.versions.map PageVersion.versionId := fun old => by
    obtain ⟨earlier, member, same⟩ := mem_map.mp old
    exact Nat.ne_of_lt (lt_nextId member) same
  rw [map_append, map_append, count_append, count_append, count_eq_zero.mpr fresh] at counts
  have kept := count_pos_iff.mpr (mem_map_of_mem (f := PageVersion.versionId) stays)
  have gone : version.versionId ∈ (pruneExcessVersions (history.versions ++ [version]) maxVersionsPerPage).2.map
      PageVersion.versionId := removed
  have dropped := count_pos_iff.mpr gone
  simp only [map_cons, map_nil, count_singleton_self] at counts
  omega

omit [DecidableEq Call] in
theorem Holds.spared {versionId : Nat} (holds : Holds setting site content versionId)
    (spares : Spares setting site versionId next.history) : Holds setting next content versionId :=
  ⟨spares.2 holds.1, spares.1.trans holds.2⟩

omit [DecidableEq Call] in
theorem Kept.other (kept : Kept setting site call) (reverts : next.reverts call = site.reverts call)
    (stages : next.history.stages call = site.history.stages call)
    (page : (site.reverts call).pending = true → next.page = site.page)
    (spared : ∀ versionId ∈ site.taken call, Spares setting site versionId next.history) : Kept setting next call := by
  intro targetContent versionId going
  rw [reverts] at going
  obtain ⟨content, current, progress⟩ := kept targetContent versionId going
  refine ⟨content, page (going ▸ rfl) ▸ current, ?_⟩
  rw [stages]
  unfold Site.taken at spared
  cases versionId with
  | none =>
    cases stage : site.history.stages call with
    | publishing plan =>
      rw [stage] at progress
      have kept := spared plan.history.currentVersion (by rw [going, stage]; rfl)
      exact ⟨progress.1, progress.2.1, kept.1.trans progress.2.2⟩
    | _ =>
      rw [stage] at progress
      exact progress
  | some versionId =>
    have kept := spared versionId (by rw [going]; rfl)
    cases stage : site.history.stages call with
    | unlinking ids =>
      rw [stage] at progress
      exact ⟨progress.1, progress.2.spared kept⟩
    | releasing | finished =>
      rw [stage] at progress
      exact Holds.spared progress kept
    | _ =>
      rw [stage] at progress
      exact progress.elim

variable {calls : Steps.Calls Call} {world : World Hash Call} {stage : Steps.Stage Hash} {other : Call}

theorem stages_lockedStep (stepped : Steps.lockedStep contentHash calls world call outcome stage = some history)
    (apart : other ≠ call) : history.stages other = world.stages other := by
  simp only [Steps.lockedStep] at stepped
  split at stepped
  all_goals
    repeat' split at stepped
    all_goals first
      | contradiction
      | cases stepped; exact update_of_ne apart _ _

theorem stages_of_ne {action : Steps.Action Call} (stepped : Steps.step contentHash calls world action = some history)
    (apart : other ≠ actor action) : history.stages other = world.stages other := by
  have moved (later : World Hash Call) (stage : Steps.Stage Hash) (same : later.stages = world.stages) :
      (later.at (actor action) stage).stages other = world.stages other :=
    (update_of_ne apart _ _).trans (congrFun same other)
  cases action with
  | start call =>
    simp only [Steps.step] at stepped
    split at stepped <;> cases stepped <;> exact moved _ _ rfl
  | proceed call outcome =>
    simp only [Steps.step, Steps.proceed] at stepped
    split at stepped
    · split at stepped
      · split_ifs at stepped
        cases stepped
        exact moved _ _ rfl
      · cases stepped
        exact moved _ _ rfl
    · split at stepped <;> cases stepped <;> exact moved _ _ rfl
    all_goals first
      | contradiction
      | exact stages_lockedStep stepped apart
  | crash call =>
    cases stepped
    apply moved
    split_ifs <;> rfl

def Follows (setting : Setting Call) (next : Site Hash Call) (call : Call) (content : JsString) (after : Stage) : Prop :=
  ∀ targetContent versionId, after = .versioning targetContent versionId →
    Progress setting next (setting.operation call) content versionId (next.history.stages call)

theorem follows_at {later : World Hash Call} {after : Steps.Stage Hash} {revert : Stage}
    (goes : ∀ targetContent versionId, follow stage after revert = .versioning targetContent versionId →
      Progress setting { site with history := later.at call after } (setting.operation call) content versionId after) :
    Follows setting { site with history := later.at call after } call content
      (follow stage ((later.at call after).stages call) revert) := by
  have here : (later.at call after).stages call = after := update_self ..
  intro targetContent versionId going
  rw [here] at going ⊢
  exact goes targetContent versionId going

theorem Progress.publishes (staged : site.history.stages call = stage)
    (progress : Progress setting site (setting.operation call) content none stage)
    (stepped : Steps.proceed contentHash setting.calls site.history call outcome = some history) (targetContent : JsString) :
    Follows setting { site with history } call content (follow stage (history.stages call) (.versioning targetContent none)) := by
  simp only [Steps.proceed, staged] at stepped
  cases stage with
  | locking =>
    cases outcome with
    | works =>
      dsimp only at stepped
      split_ifs at stepped
      cases stepped
      refine follows_at ?_
      rintro _ _ ⟨rfl, rfl⟩
      exact progress
    | fails =>
      cases stepped
      exact follows_at fun _ _ going => by cases going
  | reading =>
    obtain ⟨maxVersionsPerPage, operation⟩ := progress
    simp only [Steps.lockedStep, Setting.calls, operation] at stepped
    cases outcome with
    | works =>
      cases stepped
      refine follows_at ?_
      rintro _ _ ⟨rfl, rfl⟩
      exact ⟨maxVersionsPerPage, operation⟩
    | fails =>
      cases stepped
      exact follows_at fun _ _ going => by cases going
  | snapshotting history =>
    obtain ⟨maxVersionsPerPage, operation⟩ := progress
    simp only [Steps.lockedStep, Setting.calls, operation] at stepped
    cases outcome with
    | works =>
      cases stepped
      refine follows_at ?_
      rintro _ _ ⟨rfl, rfl⟩
      obtain ⟨stays, unremoved⟩ := createPlan_current contentHash history content maxVersionsPerPage
        site.history.taken
      refine ⟨stays, unremoved, ?_⟩
      simp [Site.snapshot, Steps.World.at, Steps.World.store, Steps.createPlan]
    | fails =>
      cases stepped
      exact follows_at fun _ _ going => by cases going
  | publishing plan =>
    obtain ⟨stays, unremoved, snapshot⟩ := progress
    cases outcome with
    | works =>
      cases stepped
      refine follows_at ?_
      rintro _ _ ⟨rfl, rfl⟩
      refine ⟨unremoved, ?_, snapshot⟩
      simpa [Site.listed, World.listed, Steps.World.publish, Steps.World.at, Setting.calls] using stays
    | fails =>
      cases stepped
      exact follows_at fun _ _ going => by cases going
  | _ => exact progress.elim

theorem Progress.ends {published : Nat} (staged : site.history.stages call = stage)
    (progress : Progress setting site (setting.operation call) content (some published) stage)
    (stepped : Steps.proceed contentHash setting.calls site.history call outcome = some history) (targetContent : JsString) :
    Follows setting { site with history } call content
      (follow stage (history.stages call) (.versioning targetContent (some published))) := by
  simp only [Steps.proceed, staged] at stepped
  cases stage with
  | unlinking ids =>
    obtain ⟨apart, listed, snapshot⟩ := progress
    cases ids with
    | nil =>
      cases stepped
      refine follows_at ?_
      rintro _ _ ⟨rfl, rfl⟩
      exact ⟨listed, snapshot⟩
    | cons versionId ids =>
      have later : published ∉ ids := fun member => apart (mem_cons_of_mem _ member)
      cases outcome with
      | works =>
        cases stepped
        refine follows_at ?_
        rintro _ _ ⟨rfl, rfl⟩
        have different : published ≠ versionId := fun same => apart (same ▸ mem_cons_self)
        refine ⟨later, listed, ?_⟩
        simpa [Site.snapshot, Steps.World.at, Steps.World.store, Setting.calls, update_apply, different] using snapshot
      | fails =>
        cases stepped
        refine follows_at ?_
        rintro _ _ ⟨rfl, rfl⟩
        exact ⟨later, listed, snapshot⟩
  | releasing =>
    cases stepped
    refine follows_at ?_
    rintro _ _ ⟨rfl, rfl⟩
    exact progress
  | finished => cases stepped
  | _ => exact progress.elim

/-- The step lemma of a versioning operation: the reverts know what they knew. -/
theorem kept_version {action : Steps.Action Call} (kept : ∀ call, Kept setting site call)
    (calm : Undisturbed contentHash setting site (.version action))
    (stepped : Steps.step contentHash setting.calls site.history action = some history) (call : Call) :
    Kept setting { site.at (actor action) (follow (site.history.stages (actor action)) (history.stages (actor action))
      (site.reverts (actor action))) with history } call := by
  by_cases own : call = actor action
  · subst own
    intro targetContent versionId going
    simp only [Site.at, update_self] at going
    cases before : site.reverts (actor action) with
    | versioning targetBefore versionBefore =>
      obtain ⟨content, current, progress⟩ := kept _ _ _ before
      rw [before] at going
      refine ⟨content, current, ?_⟩
      cases action with
      | start call =>
        have idle : site.history.stages call = .idle := by
          simp only [Steps.step] at stepped
          split at stepped <;> first | assumption | cases stepped
        rw [actor, idle] at progress
        cases versionBefore <;> exact progress.elim
      | proceed call outcome =>
        cases versionBefore with
        | none => exact progress.publishes rfl stepped targetBefore _ _ going
        | some => exact progress.ends rfl stepped targetBefore _ _ going
      | crash call =>
        cases stepped
        simp [follow, actor, Steps.World.at] at going
    | _ => simp [follow, before] at going
  · exact (kept call).other (update_of_ne own _ _) (stages_of_ne stepped own) (fun _ => rfl)
      (calm history stepped call own)

theorem Kept.leaves {actor : Call} {stage : Stage} {page : Option (List Byte)} (kept : Kept setting site call)
    (idle : stage.pending = false) (calm : call ≠ actor → (site.reverts call).pending = true → page = site.page) :
    Kept setting { site.at actor stage with page } call := by
  by_cases own : call = actor
  · subst own
    intro targetContent versionId going
    simp only [Site.at, update_self] at going
    rw [going] at idle
    cases idle
  · exact kept.other (update_of_ne own _ _) rfl (calm own) fun _ _ => ⟨rfl, id⟩

theorem kept_step {action : Action Call} (kept : ∀ call, Kept setting site call)
    (calm : Undisturbed contentHash setting site action) (stepped : step contentHash setting site action = some next)
    (call : Call) : Kept setting next call := by
  cases action with
  | target actor outcome =>
    simp only [step] at stepped
    split at stepped
    · split at stepped <;> cases stepped <;> exact (kept call).leaves rfl fun _ _ => rfl
    · cases stepped
  | read actor outcome =>
    simp only [step] at stepped
    split at stepped
    · rename_i targetContent content maxVersionsPerPage _ operation
      split_ifs at stepped with same
      obtain ⟨history, started, rfl⟩ := Option.map_eq_some_iff.mp stepped
      simp only [Steps.step, Setting.calls, operation] at started
      split at started
      · contradiction
      · cases started
        by_cases own : call = actor
        · subst own
          intro _ _ going
          simp only [Site.at, update_self] at going
          cases going
          refine ⟨content, fun bytes there nonempty => ?_, ?_⟩
          · obtain ⟨rfl, exact⟩ := calm bytes there nonempty
            rw [same]
            exact there ▸ exact
          · simp only [Steps.World.at, update_self]
            exact ⟨maxVersionsPerPage, operation⟩
        · exact (kept call).other (update_of_ne own _ _) (update_of_ne own _ _) (fun _ => rfl)
            fun _ _ => ⟨rfl, id⟩
      · cases started
    · cases stepped
  | version action =>
    simp only [step] at stepped
    split at stepped
    · cases stepped
    · obtain ⟨history, moved, rfl⟩ := Option.map_eq_some_iff.mp stepped
      exact kept_version kept calm moved call
  | overwrite actor ending =>
    have quiet := calm next stepped call
    simp only [step] at stepped
    split at stepped
    · cases stepped
      exact (kept call).leaves rfl quiet
    · cases stepped
  | write content =>
    cases stepped
    exact (kept call).other rfl rfl (calm call) fun _ _ => ⟨rfl, id⟩

/-- What a revert knows makes its overwrite harmless; its other steps leave the page alone. -/
theorem preserves_step {action : Action Call} (kept : ∀ call, Kept setting site call)
    (stepped : step contentHash setting site action = some next) : Preserves setting site next action := by
  cases action with
  | target call outcome =>
    refine ⟨nofun, fun _ _ => ?_⟩
    simp only [step] at stepped
    split at stepped
    · split at stepped <;> cases stepped <;> rfl
    · cases stepped
  | read call outcome =>
    refine ⟨nofun, fun _ _ => ?_⟩
    simp only [step] at stepped
    split at stepped
    · split_ifs at stepped
      obtain ⟨history, _, rfl⟩ := Option.map_eq_some_iff.mp stepped
      rfl
    · cases stepped
  | version action =>
    refine ⟨nofun, fun _ _ => ?_⟩
    simp only [step] at stepped
    split at stepped
    · cases stepped
    · obtain ⟨history, _, rfl⟩ := Option.map_eq_some_iff.mp stepped
      rfl
  | overwrite call ending =>
    simp only [step] at stepped
    split at stepped
    · rename_i targetContent versionId going finished
      cases stepped
      refine ⟨?_, fun _ throws => by rw [throws call ending rfl]; rfl⟩
      rintro _ _ ⟨rfl, rfl⟩ _ bytes there nonempty
      obtain ⟨content, current, progress⟩ := kept call _ _ going
      rw [finished] at progress
      obtain ⟨listed, snapshot⟩ := progress
      obtain ⟨version, member, rfl⟩ := mem_map.mp listed
      exact ⟨version, member, content, snapshot, current bytes there nonempty⟩
    · cases stepped
  | write content => exact ⟨nofun, fun other => absurd rfl (other content)⟩

/-- A page whose first version is its old text; the second call reverts to it. -/
def sampleSetting : Setting (Fin 2) where
  pagePath := text "p.md"
  operation call := .createVersion (if call = 0 then text "old" else text "new") false 5
  reverts call := if call = 0 then none else some 1

instance (site : Site JsString (Fin 2)) (action : Action (Fin 2)) : Decidable (Undisturbed id sampleSetting site action) := by
  unfold Undisturbed Spares
  split <;> infer_instance

def sampleActions : List (Action (Fin 2)) :=
  (Integrity.proceeds 0 6).map .version ++ [.write (some (encode (text "new"))), .target 1 .works, .read 1 .works] ++
    List.replicate 6 (.version (.proceed 1 .works))

end Remnic.PageVersioning.Revert
