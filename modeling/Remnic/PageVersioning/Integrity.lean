import Remnic.PageVersioning.Plans

/-!
The histories stay intact while no two pages share a sidecar directory and no deferred
version is published under an id that the stranded-commit marker names.
-/

namespace Remnic.PageVersioning.Integrity

open Text.CodeUnits History Steps Invariant Plans Library.Transition List Function Bool

variable {Hash Call : Type}

/-- Each page that is worked on has its sidecar directory to itself. -/
def Separated (calls : Calls Call) : Prop :=
  ∀ first second, sidecarDir (calls.page first) = sidecarDir (calls.page second) → calls.page first = calls.page second

/-- A deferred version is not published under an id that an earlier stranded commit has left in the marker. -/
def Unclaimed (calls : Calls Call) (world : World Hash Call) : Action Call → Prop
  | .proceed call .works =>
    match world.stages call with
    | .publishing plan =>
      Operation.defers (calls.operation call) = true →
        plan.history.currentVersion ∉ world.markers (sidecarDir (calls.page call))
    | _ => True
  | _ => True

/-- The property of the histories: every listed version has its own snapshot, ids are distinct, every pruning is lawful. -/
structure Intact (contentHash : JsString → Hash) (calls : Calls Call) (world : World Hash Call) : Prop where
  backed : ∀ call, Backed contentHash world (calls.page call) (world.listed (sidecarDir (calls.page call)))
  distinct : ∀ call, ((world.listed (sidecarDir (calls.page call))).map PageVersion.versionId).Nodup
  lawful : ∀ pruning ∈ world.prunings, Lawful world.committed pruning

structure Sound (contentHash : JsString → Hash) (calls : Calls Call) (world : World Hash Call) : Prop where
  holding : ∀ call, Stage.holds (world.stages call) = true → world.locks (sidecarDir (calls.page call)) = some call
  good : ∀ call, Good contentHash world (calls.page call)
  facts : ∀ call, Facts contentHash (calls.operation call) world (calls.page call) (world.stages call)
  lawful : ∀ pruning ∈ world.prunings, Lawful world.committed pruning

structure Keeps (dir : JsString) (world next : World Hash Call) : Prop where
  manifests : next.manifests dir = world.manifests dir
  snapshots : next.snapshots dir = world.snapshots dir
  locks : next.locks dir = world.locks dir
  recorded : world.recorded ⊆ next.recorded
  committed : world.committed ⊆ next.committed
  taken : world.taken ≤ next.taken

variable {contentHash : JsString → Hash} {calls : Calls Call} {world next : World Hash Call} {page dir : JsString}

theorem Keeps.backed {versions : List (PageVersion Hash)} (keeps : Keeps (sidecarDir page) world next)
    (backed : Backed contentHash world page versions) : Backed contentHash next page versions := by
  apply backed.mono (fun version member => ⟨version, member, rfl, rfl⟩) _ keeps.recorded
  intro version _
  rw [keeps.snapshots]

theorem Keeps.good (keeps : Keeps (sidecarDir page) world next)
    (markers : next.markers (sidecarDir page) = world.markers (sidecarDir page)) (good : Good contentHash world page) :
    Good contentHash next page := by
  have listed := listed_congr keeps.manifests
  refine ⟨listed ▸ good.ascending, fun version member => ?_, listed ▸ keeps.backed good.backed, ?_, ?_⟩
  · exact (good.early version (listed ▸ member)).trans_le keeps.taken
  · intro version member settled
    exact keeps.committed (good.flagged version (listed ▸ member) settled)
  · intro version member inMarker
    exact keeps.committed (good.marked version (listed ▸ member) (markers ▸ inMarker))

variable {call : Call} {outcome : Outcome} {operation : Operation} {stage : Stage Hash} {plan : Plan Hash}

theorem Keeps.ready (keeps : Keeps (sidecarDir page) world next) (ready : Ready contentHash operation world page plan) :
    Ready contentHash operation next page plan := by
  have grows : world.committed ++ plan.commits ⊆ next.committed ++ plan.commits :=
    append_subset.mpr ⟨fun _ member => mem_append_left _ (keeps.committed member), subset_append_right _ _⟩
  refine ⟨ready.ascending, fun version member => (ready.early version member).trans_le keeps.taken,
    keeps.backed ready.backed, fun version member settled => grows (ready.flagged version member settled), ?_,
    ready.removed, fun pruning itself => (ready.lawful pruning itself).mono grows⟩
  rw [listed_congr keeps.manifests]
  exact ready.origin

theorem Keeps.facts (keeps : Keeps (sidecarDir page) world next) (facts : Facts contentHash operation world page stage) :
    Facts contentHash operation next page stage := by
  have listed := listed_congr keeps.manifests
  cases stage with
  | snapshotting history | marking history => exact facts.trans listed.symm
  | publishing plan => exact keeps.ready facts
  | unlinking ids =>
    intro versionId member
    rw [listed]
    exact facts versionId member
  | _ => trivial

theorem Stage.facts_of_not_holds (free : Stage.holds stage = false) : Facts contentHash operation world page stage := by
  cases stage <;> trivial

theorem Sound.intact (sound : Sound contentHash calls world) : Intact contentHash calls world :=
  ⟨fun call => (sound.good call).backed, fun call => (sound.good call).ascending.nodup, sound.lawful⟩

theorem Sound.alone (sound : Sound contentHash calls world) (holds : Stage.holds (world.stages call) = true) :
    ∀ other, other ≠ call → world.locks (sidecarDir (calls.page call)) ≠ some other := by
  intro other different locked
  rw [sound.holding call holds] at locked
  exact different (Option.some.inj locked).symm

variable [DecidableEq Call]

section

variable (separated : Separated calls) (sound : Sound contentHash calls world)
include separated sound

/-- A step of one call. It works on one directory; another call that holds the lock there would have to be undisturbed. -/
theorem Sound.advance (moved : next.stages = Function.update world.stages call stage)
    (elsewhere : ∀ dir, dir ≠ sidecarDir (calls.page call) → Keeps dir world next ∧ next.markers dir = world.markers dir)
    (alone : (∀ other, other ≠ call → world.locks (sidecarDir (calls.page call)) ≠ some other) ∨
      Keeps (sidecarDir (calls.page call)) world next)
    (holding : Stage.holds stage = true → next.locks (sidecarDir (calls.page call)) = some call)
    (good : Good contentHash next (calls.page call))
    (facts : Facts contentHash (calls.operation call) next (calls.page call) stage)
    (lawful : ∀ pruning ∈ next.prunings, Lawful next.committed pruning) : Sound contentHash calls next := by
  have kept : ∀ other, other ≠ call → Stage.holds (world.stages other) = true →
      Keeps (sidecarDir (calls.page other)) world next := by
    intro other different holds
    by_cases shared : sidecarDir (calls.page other) = sidecarDir (calls.page call)
    · rw [shared]
      apply alone.resolve_left
      intro nobody
      exact nobody other different (shared ▸ sound.holding other holds)
    · exact (elsewhere _ shared).1
  refine ⟨fun other holds => ?_, fun other => ?_, fun other => ?_, lawful⟩
  · rw [moved] at holds
    by_cases same : other = call
    · subst same
      rw [update_self] at holds
      exact holding holds
    · rw [update_of_ne same] at holds
      exact (kept other same holds).locks.trans (sound.holding other holds)
  · by_cases shared : sidecarDir (calls.page other) = sidecarDir (calls.page call)
    · rw [separated other call shared]
      exact good
    · exact (elsewhere _ shared).1.good (elsewhere _ shared).2 (sound.good other)
  · rw [moved]
    by_cases same : other = call
    · subst same
      rw [update_self]
      exact facts
    · rw [update_of_ne same]
      cases holds : Stage.holds (world.stages other) with
      | true => exact (kept other same holds).facts (sound.facts other)
      | false => exact Stage.facts_of_not_holds holds

theorem Sound.goes (holding : Stage.holds stage = true → world.locks (sidecarDir (calls.page call)) = some call)
    (facts : Facts contentHash (calls.operation call) world (calls.page call) stage) :
    Sound contentHash calls (world.at call stage) := by
  have keeps : ∀ dir, Keeps dir world (world.at call stage) :=
    fun dir => ⟨rfl, rfl, rfl, Subset.refl _, Subset.refl _, le_refl _⟩
  have factsNext : Facts contentHash (calls.operation call) (world.at call stage) (calls.page call) stage :=
    (keeps _).facts facts
  exact sound.advance separated rfl (fun dir _ => ⟨keeps dir, rfl⟩) (.inr (keeps _)) holding
    ((keeps _).good rfl (sound.good call)) factsNext sound.lawful

theorem Sound.locks {holder : Option Call}
    (nobody : ∀ other, other ≠ call → world.locks (sidecarDir (calls.page call)) ≠ some other)
    (holding : Stage.holds stage = true → holder = some call)
    (plain : ∀ other : World Hash Call, Facts contentHash (calls.operation call) other (calls.page call) stage) :
    Sound contentHash calls ((world.lock (sidecarDir (calls.page call)) holder).at call stage) := by
  refine sound.advance separated rfl ?_ (.inl nobody) ?_ ?_ (plain _) sound.lawful
  · intro dir different
    exact ⟨⟨rfl, rfl, update_of_ne different _ _, Subset.refl _, Subset.refl _, le_refl _⟩, rfl⟩
  · intro holds
    exact (update_self ..).trans (holding holds)
  · have good := sound.good call
    exact ⟨good.ascending, good.early, good.backed, good.flagged, good.marked⟩

theorem Sound.store {versionId : Nat} {content : Option JsString} (holds : Stage.holds (world.stages call) = true)
    (free : versionId ∉ (world.listed (sidecarDir (calls.page call))).map PageVersion.versionId)
    (facts : Facts contentHash (calls.operation call) (world.store (sidecarDir (calls.page call))
      (versionId, snapshotExt (calls.page call)) content) (calls.page call) stage) :
    Sound contentHash calls ((world.store (sidecarDir (calls.page call)) (versionId, snapshotExt (calls.page call))
      content).at call stage) := by
  have good := sound.good call
  refine sound.advance separated rfl ?_ (.inl (sound.alone holds)) (fun _ => sound.holding call holds) ?_ ?_ sound.lawful
  · intro dir different
    exact ⟨⟨rfl, update_of_ne different _ _, rfl, Subset.refl _, Subset.refl _, le_refl _⟩, rfl⟩
  · refine ⟨good.ascending, good.early, ?_, good.flagged, good.marked⟩
    refine good.backed.mono (fun version member => ⟨version, member, rfl, rfl⟩) ?_ (Subset.refl _)
    intro version member
    have different : (version.versionId, snapshotExt (calls.page call)) ≠ (versionId, snapshotExt (calls.page call)) := by
      intro same
      apply free
      rw [← (Prod.mk.inj same).1]
      exact mem_map_of_mem member
    simp [World.at, World.store, update_of_ne different]
  · have keeps : Keeps (sidecarDir (calls.page call)) (world.store (sidecarDir (calls.page call))
        (versionId, snapshotExt (calls.page call)) content) ((world.store (sidecarDir (calls.page call))
          (versionId, snapshotExt (calls.page call)) content).at call stage) :=
      ⟨rfl, rfl, rfl, Subset.refl _, Subset.refl _, le_refl _⟩
    exact keeps.facts facts

theorem Sound.records {history : VersionHistory Hash} {content : JsString} {deferPrune : Bool} {maxVersionsPerPage : Nat}
    (staged : world.stages call = .snapshotting history)
    (operation : calls.operation call = .createVersion content deferPrune maxVersionsPerPage) :
    Sound contentHash calls ({ world.store (sidecarDir (calls.page call))
        (nextId history.versions, snapshotExt (calls.page call)) (some content) with
      taken := world.taken + 1
      recorded := world.recorded ++ [(calls.page call, nextId history.versions, content)] }.at call
        (.publishing (createPlan contentHash history content deferPrune maxVersionsPerPage world.taken))) := by
  have holds : Stage.holds (world.stages call) = true := by rw [staged]; rfl
  have current : history.versions = world.listed (sidecarDir (calls.page call)) := by
    have facts := sound.facts call
    rwa [staged] at facts
  set next := ({ world.store (sidecarDir (calls.page call))
      (nextId history.versions, snapshotExt (calls.page call)) (some content) with
    taken := world.taken + 1
    recorded := world.recorded ++ [(calls.page call, nextId history.versions, content)] }.at call
      (.publishing (createPlan contentHash history content deferPrune maxVersionsPerPage world.taken))) with whole
  have written : Written world next (calls.page call) (nextId history.versions) content := by
    refine ⟨rfl, ?_, fun name different => ?_, rfl, rfl, rfl, rfl⟩
    · simp [whole, World.at, World.store]
    · simp [whole, World.at, World.store, update_of_ne different]
  have fresh : ∀ version ∈ world.listed (sidecarDir (calls.page call)), version.versionId ≠ nextId history.versions :=
    fun version listed => Nat.ne_of_lt (current ▸ lt_nextId listed)
  refine sound.advance separated rfl ?_ (.inl (sound.alone holds)) (fun _ => sound.holding call holds)
    (written.good (sound.good call) fresh) ?_ sound.lawful
  · intro dir different
    exact ⟨⟨rfl, update_of_ne different _ _, rfl, subset_append_left _ _, Subset.refl _,
      Nat.le_succ _⟩, rfl⟩
  · rw [operation]
    exact ready_createPlan written (sound.good call) current

theorem Sound.publish (staged : world.stages call = .publishing plan)
    (unclaimed : Operation.defers (calls.operation call) = true →
      plan.history.currentVersion ∉ world.markers (sidecarDir (calls.page call))) :
    Sound contentHash calls ((world.publish (sidecarDir (calls.page call)) plan).at call (.unlinking plan.removed)) := by
  have holds : Stage.holds (world.stages call) = true := by rw [staged]; rfl
  have ready : Ready contentHash (calls.operation call) world (calls.page call) plan := by
    have facts := sound.facts call
    rwa [staged] at facts
  have listed : ((world.publish (sidecarDir (calls.page call)) plan).at call (.unlinking plan.removed)).listed
      (sidecarDir (calls.page call)) = plan.history.versions := by
    simp [World.listed, World.publish, World.at]
  refine sound.advance separated rfl ?_ (.inl (sound.alone holds)) (fun _ => sound.holding call holds) ?_ ?_ ?_
  · intro dir different
    exact ⟨⟨update_of_ne different _ _, rfl, rfl, Subset.refl _, subset_append_left _ _, le_refl _⟩, rfl⟩
  · refine ⟨listed ▸ ready.ascending, listed ▸ ready.early, listed ▸ ready.backed, listed ▸ ready.flagged, ?_⟩
    rw [listed]
    intro version member inMarker
    rcases ready.origin version member with ⟨before, found, ids, created⟩ | commits | ⟨defers, current⟩
    · rw [← created]
      exact mem_append_left _ ((sound.good call).marked before found (ids ▸ inMarker))
    · exact mem_append_right _ commits
    · exact absurd (current ▸ inMarker) (unclaimed defers)
  · intro versionId removed
    rw [listed]
    exact ready.removed versionId removed
  · intro pruning member
    rcases mem_append.mp member with earlier | mine
    · exact (sound.lawful pruning earlier).mono (subset_append_left _ _)
    · exact ready.lawful pruning (Option.mem_toList.mp mine)

theorem Sound.strand (versionId : Nat) :
    Sound contentHash calls ({ world with
      markers := Function.update world.markers (sidecarDir (calls.page call))
        (world.markers (sidecarDir (calls.page call)) ++ [versionId])
      committed := world.committed ++ ((world.listed (sidecarDir (calls.page call))).filter fun version : PageVersion Hash =>
        version.versionId = versionId).map PageVersion.created }.at call .finished) := by
  have good := sound.good call
  refine sound.advance separated rfl ?_ (.inr ?_) (fun holds => absurd holds false_ne_true) ?_ trivial ?_
  · intro dir different
    exact ⟨⟨rfl, rfl, rfl, Subset.refl _, subset_append_left _ _, le_refl _⟩,
      update_of_ne different _ _⟩
  · exact ⟨rfl, rfl, rfl, Subset.refl _, subset_append_left _ _, le_refl _⟩
  · refine ⟨good.ascending, good.early, good.backed,
      fun version member settled => mem_append_left _ (good.flagged version member settled), ?_⟩
    intro version member inMarker
    simp only [World.at, update_self] at inMarker
    rcases mem_append.mp inMarker with earlier | now
    · exact mem_append_left _ (good.marked version member earlier)
    · apply mem_append_right
      apply mem_map_of_mem
      exact mem_filter.mpr ⟨member, decide_eq_true (mem_singleton.mp now)⟩
  · exact fun pruning member => (sound.lawful pruning member).mono (subset_append_left _ _)

theorem Sound.lockedStep (staged : world.stages call = stage) (unclaimed : Unclaimed calls world (.proceed call outcome))
    (stepped : lockedStep contentHash calls world call outcome stage = some next) : Sound contentHash calls next := by
  have holding := sound.holding call
  have facts := sound.facts call
  rw [staged] at holding facts
  cases stage with
  | idle | locking | stranding | finished | crashed => cases stepped
  | reading =>
    have held := holding rfl
    simp only [Steps.lockedStep] at stepped
    split at stepped
    · cases stepped
      exact sound.goes separated (fun _ => held) trivial
    · cases stepped
      exact sound.goes separated (fun _ => held) rfl
    · cases stepped
      exact sound.goes separated (fun _ => held) rfl
    · rename_i versionId operation
      split_ifs at stepped <;> cases stepped
      · apply sound.goes separated (fun _ => held)
        rw [operation]
        exact ready_removePlan (sound.good call) rfl
      · exact sound.goes separated (fun _ => held) trivial
    · cases stepped
  | snapshotting history =>
    have held := holding rfl
    simp only [Steps.lockedStep] at stepped
    split at stepped
    · rename_i content deferPrune maxVersionsPerPage operation
      cases stepped
      exact sound.records separated staged operation
    · cases stepped
      refine sound.store separated (by rw [staged]; rfl) ?_ trivial
      intro taken
      obtain ⟨version, listed, same⟩ := mem_map.mp taken
      have current : history.versions = world.listed (sidecarDir (calls.page call)) := facts
      exact Nat.ne_of_lt (lt_nextId (current ▸ listed)) same
    · cases stepped
  | marking history =>
    have held := holding rfl
    simp only [Steps.lockedStep] at stepped
    split at stepped
    · rename_i committedVersionId maxVersionsPerPage operation
      cases stepped
      apply sound.goes separated (fun _ => held)
      split_ifs with works changes changes
      · rw [operation]
        exact ready_prunePlan (sound.good call) facts (Subset.refl _)
      · trivial
      · rw [operation]
        exact ready_prunePlan (sound.good call) facts (nil_subset _)
      · trivial
    · cases stepped
  | publishing plan =>
    have held := holding rfl
    cases outcome with
    | works =>
      cases stepped
      simp only [Unclaimed, staged] at unclaimed
      exact sound.publish separated staged unclaimed
    | fails left =>
      cases stepped
      exact sound.goes separated (fun _ => held) trivial
  | unlinking ids =>
    have held := holding rfl
    have gone : ∀ versionId ∈ ids,
        versionId ∉ (world.listed (sidecarDir (calls.page call))).map PageVersion.versionId := facts
    cases ids with
    | nil =>
      cases stepped
      exact sound.goes separated (fun _ => held) trivial
    | cons versionId ids =>
      cases outcome with
      | works =>
        cases stepped
        exact sound.store separated (by rw [staged]; rfl) (gone versionId mem_cons_self)
          fun other member => gone other (mem_cons_of_mem _ member)
      | fails left =>
        cases stepped
        exact sound.goes separated (fun _ => held) fun other member => gone other (mem_cons_of_mem _ member)
  | releasing =>
    cases stepped
    exact sound.locks separated (sound.alone (by rw [staged]; rfl)) (fun holds => absurd holds false_ne_true)
      fun _ => trivial

theorem Sound.proceed (unclaimed : Unclaimed calls world (.proceed call outcome))
    (stepped : proceed contentHash calls world call outcome = some next) : Sound contentHash calls next := by
  unfold Steps.proceed at stepped
  split at stepped
  · split at stepped
    · split_ifs at stepped with unlocked
      cases stepped
      refine sound.locks separated ?_ (fun _ => rfl) fun _ => trivial
      intro other _ locked
      rw [unlocked] at locked
      cases locked
    · cases stepped
      exact sound.goes separated (fun holds => absurd holds false_ne_true) trivial
  · split at stepped
    · cases stepped
      exact sound.strand separated _
    · cases stepped
    · cases stepped
      exact sound.goes separated (fun holds => absurd holds false_ne_true) trivial
  · cases stepped
  · cases stepped
  · cases stepped
  · exact sound.lockedStep separated rfl unclaimed stepped

theorem Sound.step {action : Action Call} (unclaimed : Unclaimed calls world action)
    (stepped : step contentHash calls world action = some next) : Sound contentHash calls next := by
  cases action with
  | start call =>
    simp only [Steps.step] at stepped
    split at stepped
    · cases stepped
      exact sound.goes separated (fun holds => absurd holds false_ne_true) trivial
    · cases stepped
      exact sound.goes separated (fun holds => absurd holds false_ne_true) trivial
    · cases stepped
  | proceed call outcome => exact sound.proceed separated unclaimed stepped
  | crash call =>
    cases stepped
    split_ifs with held
    · refine sound.locks separated ?_ (fun holds => absurd holds false_ne_true) fun _ => trivial
      intro other different locked
      rw [held] at locked
      exact different (Option.some.inj locked).symm
    · exact sound.goes separated (fun holds => absurd holds false_ne_true) trivial

end

omit [DecidableEq Call] in
theorem sound_initial (contentHash : JsString → Hash) (calls : Calls Call) : Sound contentHash calls initial :=
  ⟨nofun, fun _ => ⟨Pairwise.nil, nofun, nofun, nofun, nofun⟩, fun _ => trivial, nofun⟩

instance (calls : Calls Call) (world : World Hash Call) (action : Action Call) :
    Decidable (Unclaimed calls world action) := by
  unfold Unclaimed
  split
  · split <;> infer_instance
  · infer_instance

def proceeds {count : Nat} (call : Fin count) (steps : Nat) : List (Action (Fin count)) :=
  .start call :: List.replicate steps (.proceed call .works)

/-- Two versions of a page that keeps one, and a deferred one of another page. -/
def twoPages : Calls (Fin 3) where
  page call := if call.val = 2 then text "b.md" else text "a.md"
  operation call := if call.val = 0 then .createVersion (text "one") false 1
    else if call.val = 1 then .createVersion (text "two") false 1 else .createVersion (text "other") true 1

def sharedDirectory : Calls (Fin 2) where
  page call := if call.val = 0 then text "a/b.md" else text "a__b.md"
  operation _ := .createVersion (text "one") false 5

/-- A deferred version is staged, noted as a stranded commit and removed. The next deferred version takes its id, loses its flag
to the marker, and is dropped although its write was never committed. -/
def takenId : Calls (Fin 6) where
  page _ := text "p.md"
  operation call := if call = 0 then .createVersion (text "one") true 1 else if call = 1 then .recordStrandedCommit 1
    else if call = 2 then .removeVersion 1 else if call = 3 then .createVersion (text "two") true 1
    else if call = 4 then .pruneVersions none 1 else .createVersion (text "three") false 1

end Remnic.PageVersioning.Integrity
