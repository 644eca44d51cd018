import Remnic.Library.GuardedFold
import Remnic.Library.Transition
import Remnic.MemoryIndex.Operations
import Remnic.MemoryIndex.Reload

/-!
The date index and the tag index list the indexed memories, each under its last date and its
last tags, and a batch leaves what its entries leave one by one, as long as no tag meets a
name that every object inherits.
-/

namespace Remnic.MemoryIndex.Mirror

open Text.CodeUnits Library Library.GuardedFold Library.Transition Tags Index Graph Reload Operations List Option OrderedMap Function

/-- The buckets and the event rows are those of the live paths. -/
structure Dates (host : Host) (index : TemporalIndex) (live : JsString → Option Call) : Prop where
  bucket : ∀ key path, path ∈ (index.dates.lookup key).getD [] ↔ ∃ call ∈ live path, call.dateKey = key
  event : ∀ path, index.events.lookup path = (live path).map fun call => temporalEventFromEntry host call.entry

/-- A path is listed under the canonical form of each of its last tags, no tag is empty, and each alias leads to tags. -/
structure Listings (host : Host) (index : TagIndex) (live : JsString → Option Call) : Prop where
  listed : ∀ canonical path, (∃ node ∈ index.tags.lookup canonical, path ∈ node.paths) ↔
    canonical ≠ [] ∧ ∃ call ∈ live path, ∃ tag ∈ call.entry.tags, normalizeCanonicalTag host.tables tag = canonical
  populated : ∀ canonical, ∀ node ∈ index.tags.lookup canonical, node.paths ≠ []
  leads : ∀ key, ∀ canonicals ∈ index.aliases.lookup key,
    canonicals ≠ [] ∧ ∀ canonical ∈ canonicals, index.tags.contains canonical = true

structure Mirrors (host : Host) (world : World) : Prop where
  dates : Dates host world.temporal world.live
  tags : Listings host world.tags world.live

structure SameIndexes (one other : World) : Prop where
  dates : one.temporal = other.temporal
  tags : ∀ canonical, (one.tags.tags.lookup canonical).map meaningOf = (other.tags.tags.lookup canonical).map meaningOf
  aliases : ∀ key canonical,
    canonical ∈ (one.tags.aliases.lookup key).getD [] ↔ canonical ∈ (other.tags.aliases.lookup key).getD []

/-- The date and the tags of the last indexing, if the path is still indexed. -/
def Follows (live : JsString → Option Call) (call : Call) : Prop :=
  ∀ last ∈ live call.entry.path, call.dateKey = last.dateKey ∧ call.entry.tags = last.entry.tags

/-- A path is deindexed with the date and the tags of its last indexing. -/
def Paired (world : World) : Action → Prop
  | .deindexMemory call _ => Follows world.live call
  | .deindexMemoriesBatch calls _ => ∀ call ∈ calls, Follows world.live call
  | _ => True

def Tagged (host : Host) (call : Call) : Prop := ∀ tag ∈ call.entry.tags, Plain host.tables tag

def Indexable (host : Host) (call : Call) : Prop := call.entry.path ≠ protoName ∧ Tagged host call

/-- No inherited name is in the way: no path is `__proto__`, and every tag is plain. -/
def Unobstructed (host : Host) : Action → Prop
  | .indexMemory call _ => Indexable host call
  | .indexMemoriesBatch calls _ => ∀ call ∈ calls, Indexable host call
  | .deindexMemory call _ => Tagged host call
  | .deindexMemoriesBatch calls _ => ∀ call ∈ calls, Tagged host call
  | .clearIndexes _ => True

variable {host : Host} {world : World} {call : Call} {calls : List Call} {temporal : TemporalIndex} {index : TagIndex}
variable {graph : TagGraph} {live : JsString → Option Call} {loading : Loading}

theorem dates_empty : Dates host TemporalIndex.empty fun _ => none :=
  ⟨fun _ _ => ⟨nofun, nofun⟩, fun _ => rfl⟩

theorem inherited_dateKey (call : Call) : inherited call.dateKey = false := by
  have length : call.dateKey.length = 10 := by
    unfold Call.dateKey isoDateFromTimestamp
    split_ifs with short
    · exact call.today.property
    · rw [length_take]
      omega
  have lengths : (inheritedNames.all fun name => name.length ≠ 10) = true := by decide
  unfold inherited
  rw [decide_eq_false_iff_not]
  exact fun member => of_decide_eq_true (all_eq_true.mp lengths _ member) length

variable {tags : List JsString} {path other key canonical : JsString} (record : PathSets)

theorem mem_withoutPath {paths : List JsString} : other ∈ (withoutPath path paths).getD [] ↔ other ∈ paths ∧ other ≠ path := by
  unfold withoutPath
  split_ifs with none
  · have gone := filter_eq_nil_iff.mp none other
    simp only [getD_none, not_mem_nil, false_iff, not_and]
    intro member different
    exact gone member (by simpa using different)
  · simp

theorem mem_removePathFromAllSets {record : PathSets} :
    other ∈ ((removePathFromAllSets record path).lookup key).getD [] ↔ other ∈ (record.lookup key).getD [] ∧ other ≠ path := by
  rw [removePathFromAllSets, lookup_filterMap]
  cases record.lookup key with
  | none => simp
  | some paths => exact mem_withoutPath

theorem addPathToSet_spec (free : inherited key = false) (path : JsString) :
    ∃ added, addPathToSet record key path = some added ∧ ∀ asked other,
      other ∈ (added.lookup asked).getD [] ↔ other ∈ (record.lookup asked).getD [] ∨ (asked = key ∧ other = path) := by
  unfold addPathToSet
  cases held : record.lookup key with
  | none =>
    refine ⟨_, if_neg (by simp [free]), fun asked other => ?_⟩
    rw [lookup_set]
    split_ifs with same
    · simp [same, held]
    · simp [same]
  | some paths =>
    refine ⟨_, rfl, fun asked other => ?_⟩
    split_ifs with listed
    · refine (or_iff_left_of_imp ?_).symm
      rintro ⟨rfl, rfl⟩
      rw [held]
      exact listed
    · rw [lookup_set]
      split_ifs with same
      · simp [same, held]
      · simp [same]

theorem removePathFromSet_spec (free : inherited key = false) (path : JsString) :
    ∃ removed, removePathFromSet record key path = some removed ∧ ∀ asked other,
      other ∈ (removed.lookup asked).getD [] ↔
        other ∈ (record.lookup asked).getD [] ∧ ¬ (asked = key ∧ other = path) := by
  unfold removePathFromSet
  cases held : record.lookup key with
  | none =>
    refine ⟨record, if_neg (by simp [free]), fun asked other => ⟨fun member => ⟨member, ?_⟩, And.left⟩⟩
    rintro ⟨rfl, _⟩
    simp [held] at member
  | some paths =>
    have members : ∀ other, other ∈ (withoutPath path paths).getD [] ↔ other ∈ paths ∧ other ≠ path :=
      fun other => mem_withoutPath
    dsimp only
    cases rest : withoutPath path paths with
    | some kept =>
      rw [rest, getD_some] at members
      refine ⟨_, rfl, fun asked other => ?_⟩
      rw [lookup_set]
      split_ifs with same
      · simp [same, held, members]
      · simp [same]
    | none =>
      rw [rest, getD_none] at members
      refine ⟨_, rfl, fun asked other => ?_⟩
      rw [lookup_erase]
      split_ifs with same
      · rw [same, held]
        simpa using members other
      · simp [same]

theorem indexed_self (live : JsString → Option Call) (call : Call) : indexed live call call.entry.path = some call :=
  update_self _ _ _

theorem indexed_other (different : path ≠ call.entry.path) : indexed live call path = live path :=
  update_of_ne different _ _

theorem deindexed_self (live : JsString → Option Call) (call : Call) : deindexed live call call.entry.path = none :=
  update_self _ _ _

theorem deindexed_other (different : path ≠ call.entry.path) : deindexed live call path = live path :=
  update_of_ne different _ _

theorem dates_indexDates (dates : Dates host temporal live) (named : call.entry.path ≠ protoName) :
    ∃ after, indexDates host temporal call = some after ∧ Dates host after (indexed live call) := by
  obtain ⟨added, run, members⟩ := addPathToSet_spec (removePathFromAllSets temporal.dates call.entry.path)
    (inherited_dateKey call) call.entry.path
  refine ⟨_, congrArg (Option.map _) run, fun key path => ?_, fun path => ?_⟩
  · rw [members, mem_removePathFromAllSets, dates.bucket]
    by_cases same : path = call.entry.path
    · rw [same, indexed_self]
      simp [eq_comm]
    · rw [indexed_other same]
      simp [same]
  · show (setEvent temporal.events call.entry.path _).lookup path = _
    rw [setEvent, if_neg named, lookup_set]
    by_cases same : path = call.entry.path
    · rw [if_pos same, same, indexed_self]
      rfl
    · rw [if_neg same, indexed_other same]
      exact dates.event path

theorem dates_deindexDates (dates : Dates host temporal live) (last : ∀ known ∈ live call.entry.path, call.dateKey = known.dateKey) :
    ∃ after, deindexDates temporal call = some after ∧ Dates host after (deindexed live call) := by
  obtain ⟨removed, run, members⟩ := removePathFromSet_spec temporal.dates (inherited_dateKey call) call.entry.path
  refine ⟨_, congrArg (Option.map _) run, fun key path => ?_, fun path => ?_⟩
  · rw [members, dates.bucket]
    by_cases same : path = call.entry.path
    · rw [same, deindexed_self]
      constructor
      · rintro ⟨⟨known, there, rfl⟩, other⟩
        exact absurd ⟨(last known there).symm, rfl⟩ other
      · exact nofun
    · rw [deindexed_other same]
      simp [same]
  · show (temporal.events.erase call.entry.path).lookup path = _
    rw [lookup_erase]
    by_cases same : path = call.entry.path
    · rw [if_pos same, same, deindexed_self]
      rfl
    · rw [if_neg same, deindexed_other same]
      exact dates.event path

def Holds (graph : TagGraph) (canonical path : JsString) : Prop := ∃ node ∈ graph canonical, path ∈ node.paths

def Lists (host : Host) (graph : TagGraph) (live : JsString → Option Call) : Prop :=
  ∀ canonical path, Holds graph canonical path ↔
    canonical ≠ [] ∧ ∃ call ∈ live path, ∃ tag ∈ call.entry.tags, normalizeCanonicalTag host.tables tag = canonical

theorem holds_addEntry {tables : UnicodeTables} {rawTag : JsString} :
    Holds (addEntry tables graph rawTag path) canonical other ↔ Holds graph canonical other ∨
      (canonical ≠ [] ∧ canonical = normalizeCanonicalTag tables rawTag ∧ other = path) := by
  unfold addEntry
  dsimp only
  split_ifs with empty
  · refine (or_iff_left ?_).symm
    rintro ⟨some, same, _⟩
    exact some (same.trans empty)
  · by_cases same : canonical = normalizeCanonicalTag tables rawTag
    · subst same
      unfold Holds
      rw [update_self]
      cases known : graph (normalizeCanonicalTag tables rawTag) with
      | none => simp [created, empty]
      | some node => simp [empty, or_comm]
    · unfold Holds
      rw [update_of_ne same]
      simp [same]

theorem holds_without {tags : Set JsString} :
    Holds (without graph tags path) canonical other ↔ Holds graph canonical other ∧ ¬ (canonical ∈ tags ∧ other = path) := by
  unfold Holds without
  cases graph canonical with
  | none => simp
  | some node =>
    by_cases outside : canonical ∉ tags
    · simp [outside]
    · have inside : canonical ∈ tags := not_not.mp outside
      by_cases alone : node.paths \ {path} = ∅
      · have gone : other ∉ node.paths \ {path} := by
          rw [alone]
          exact Set.notMem_empty other
        simp only [Set.mem_sdiff, Set.mem_singleton_iff, not_and, not_not] at gone
        simp [inside, alone]
        exact gone
      · simp [inside, alone]

noncomputable def indexGraph (host : Host) (graph : TagGraph) (call : Call) : TagGraph :=
  (call.entry.tags.filter (· ≠ [])).foldl (fun graph tag => addEntry host.tables graph tag call.entry.path)
    (without graph Set.univ call.entry.path)

noncomputable def deindexGraph (host : Host) (graph : TagGraph) (call : Call) : TagGraph :=
  (call.entry.tags.filter (· ≠ [])).foldl
    (fun graph tag => without graph {normalizeCanonicalTag host.tables tag} call.entry.path) graph

structure Stands (host : Host) (index : TagIndex) (graph : TagGraph) : Prop where
  represents : Represents index graph
  lawful : Lawful host.tables graph

theorem stands_addEntries (plain : ∀ tag ∈ tags, Plain host.tables tag) (stands : Stands host index graph) :
    ∃ after, tags.foldlM (fun index tag => addTagGraphEntry host.tables index tag path) index = some after ∧
      Stands host after (tags.foldl (fun graph tag => addEntry host.tables graph tag path) graph) := by
  refine foldlM_simulates (fun _ tag => Plain host.tables tag) (fun index graph tag stands plain => ?_)
    (fun _ _ _ fits => fits) stands plain
  obtain ⟨added, run, represents⟩ := represents_addEntry stands.represents plain path
  exact ⟨added, run, represents, lawful_addEntry stands.lawful plain⟩

section

variable (lowers : LowersAscii host.tables)
include lowers

theorem stands_removeEntries (plain : ∀ tag ∈ tags, Plain host.tables tag) (stands : Stands host index graph) :
    ∃ after, tags.foldlM (fun index tag => removeTagGraphEntry host.tables index tag path) index = some after ∧
      Stands host after
        (tags.foldl (fun graph tag => without graph {normalizeCanonicalTag host.tables tag} path) graph) := by
  refine foldlM_simulates (fun _ tag => Plain host.tables tag) (fun index graph tag stands plain => ?_)
    (fun _ _ _ fits => fits) stands plain
  obtain ⟨removed, run, represents⟩ := represents_remove stands.represents lowers stands.lawful plain path
  exact ⟨removed, run, represents, lawful_without stands.lawful _⟩

theorem stands_indexTags (tagged : Tagged host call) (stands : Stands host index graph) :
    ∃ after, indexTags host index call = some after ∧ Stands host after (indexGraph host graph call) := by
  have cleared : Stands host (removePathFromAllTagEntries host.tables index call.entry.path)
      (without graph Set.univ call.entry.path) :=
    ⟨represents_removeAll stands.represents lowers stands.lawful _, lawful_without stands.lawful _⟩
  exact stands_addEntries (fun tag member => tagged tag (mem_of_mem_filter member)) cleared

theorem stands_deindexTags (tagged : Tagged host call) (stands : Stands host index graph) :
    ∃ after, deindexTags host index call = some after ∧ Stands host after (deindexGraph host graph call) :=
  stands_removeEntries lowers (fun tag member => tagged tag (mem_of_mem_filter member)) stands

theorem stands_loadTags (stands : Stands host world.tags graph) (loading : Loading) :
    ∃ loaded, loadTags host loading world.tagFile = some loaded ∧ Stands host loaded graph := by
  unfold World.tags at stands
  cases held : world.tagFile with
  | none =>
    rw [held] at stands
    exact ⟨TagIndex.empty, by cases loading <;> rfl, stands⟩
  | some index =>
    rw [held, getD_some] at stands
    obtain ⟨loaded, run, represents⟩ := represents_normalizeTagIndex lowers stands.lawful stands.represents
    cases loading with
    | cached => exact ⟨index, rfl, stands⟩
    | parsed =>
      refine ⟨loaded, ?_, represents, stands.lawful⟩
      show some ((normalizeTagIndex host.tables index).getD TagIndex.empty) = some loaded
      rw [run]
      rfl
    | compatibility => exact ⟨loaded, run, represents, stands.lawful⟩

end

theorem holds_addEntries :
    Holds (tags.foldl (fun graph tag => addEntry host.tables graph tag path) graph) canonical other ↔
      Holds graph canonical other ∨
        (canonical ≠ [] ∧ other = path ∧ ∃ tag ∈ tags, normalizeCanonicalTag host.tables tag = canonical) := by
  induction tags generalizing graph with
  | nil => simp
  | cons tag tags ih =>
    rw [foldl_cons, ih, holds_addEntry]
    simp only [mem_cons, exists_eq_or_imp, eq_comm (a := canonical)]
    tauto

theorem holds_removeEntries :
    Holds (tags.foldl (fun graph tag => without graph {normalizeCanonicalTag host.tables tag} path) graph) canonical other ↔
      Holds graph canonical other ∧
        ¬ (other = path ∧ ∃ tag ∈ tags, normalizeCanonicalTag host.tables tag = canonical) := by
  induction tags generalizing graph with
  | nil => simp
  | cons tag tags ih =>
    rw [foldl_cons, ih, holds_without]
    simp only [mem_cons, exists_eq_or_imp, Set.mem_singleton_iff, eq_comm (a := canonical)]
    constructor
    · exact fun ⟨⟨held, first⟩, rest⟩ => ⟨held, fun ⟨same, named⟩ =>
        named.elim (fun here => first ⟨here, same⟩) fun later => rest ⟨same, later⟩⟩
    · exact fun ⟨held, never⟩ => ⟨⟨held, fun ⟨here, same⟩ => never ⟨same, .inl here⟩⟩, fun ⟨same, later⟩ =>
        never ⟨same, .inr later⟩⟩

section

variable (lowers : LowersAscii host.tables)
include lowers

theorem normalizeCanonicalTag_nil : normalizeCanonicalTag host.tables [] = [] := by
  have lower : host.tables.toLowerCase [] = [] := lowers [] nofun
  have trimmed : trim [] = [] := rfl
  have segment : normalizeTagSegment host.tables [] = [] := by
    unfold normalizeTagSegment
    simp only [trimmed, lower]
    rfl
  unfold normalizeCanonicalTag
  simp only [trimmed, lower]
  show [slash].intercalate (List.filter _ [normalizeTagSegment host.tables []]) = []
  rw [segment]
  rfl

theorem exists_tag_iff (some : canonical ≠ []) :
    (∃ tag ∈ tags.filter (· ≠ []), normalizeCanonicalTag host.tables tag = canonical) ↔
      ∃ tag ∈ tags, normalizeCanonicalTag host.tables tag = canonical := by
  constructor
  · exact fun ⟨tag, member, same⟩ => ⟨tag, mem_of_mem_filter member, same⟩
  · rintro ⟨tag, member, same⟩
    refine ⟨tag, mem_filter.mpr ⟨member, decide_eq_true fun empty => some ?_⟩, same⟩
    rw [← same, empty, normalizeCanonicalTag_nil lowers]

theorem lists_indexGraph (lists : Lists host graph live) (call : Call) :
    Lists host (indexGraph host graph call) (indexed live call) := by
  intro canonical path
  rw [indexGraph, holds_addEntries, holds_without]
  by_cases same : path = call.entry.path
  · rw [same, indexed_self]
    constructor
    · rintro (⟨_, gone⟩ | ⟨some, _, named⟩)
      · exact absurd ⟨Set.mem_univ _, rfl⟩ gone
      · exact ⟨some, call, rfl, (exists_tag_iff lowers some).mp named⟩
    · rintro ⟨some, _, ⟨⟩, named⟩
      exact .inr ⟨some, rfl, (exists_tag_iff lowers some).mpr named⟩
  · rw [indexed_other same, ← lists]
    simp [same]

theorem lists_deindexGraph (lists : Lists host graph live)
    (last : ∀ known ∈ live call.entry.path, call.entry.tags = known.entry.tags) :
    Lists host (deindexGraph host graph call) (deindexed live call) := by
  intro canonical path
  rw [deindexGraph, holds_removeEntries, lists]
  by_cases same : path = call.entry.path
  · rw [same, deindexed_self]
    constructor
    · rintro ⟨⟨some, known, there, named⟩, gone⟩
      rw [← last known there] at named
      exact absurd ⟨rfl, (exists_tag_iff lowers some).mpr named⟩ gone
    · rintro ⟨_, _, none, _⟩
      cases none
  · rw [deindexed_other same]
    simp [same]

end

structure Sound (host : Host) (world : World) (graph : TagGraph) : Prop where
  dates : Dates host world.temporal world.live
  stands : Stands host world.tags graph
  lists : Lists host graph world.live

theorem sound_initial (host : Host) : Sound host initial emptyGraph := by
  refine ⟨dates_empty, ⟨represents_empty, lawful_empty⟩, fun canonical path => ⟨?_, ?_⟩⟩
  · rintro ⟨_, none, _⟩
    cases none
  · rintro ⟨_, _, none, _⟩
    cases none

theorem Sound.mutate (lowers : LowersAscii host.tables) (sound : Sound host world graph) (loading : Loading)
    (dates : TemporalIndex → Option TemporalIndex) (tags : TagIndex → Option TagIndex) {next : TagGraph}
    (dated : dates world.temporal = some temporal) (stays : Dates host temporal live) (lists : Lists host next live)
    (tagged : ∀ index, Stands host index graph → ∃ after, tags index = some after ∧ Stands host after next) :
    Sound host (mutate host world loading dates tags live) next ∧ (mutate host world loading dates tags live).temporal = temporal ∧
      (mutate host world loading dates tags live).live = live := by
  obtain ⟨loaded, load, stands⟩ := stands_loadTags lowers sound.stands loading
  obtain ⟨after, edited, means⟩ := tagged loaded stands
  unfold Operations.mutate
  rw [dated]
  dsimp only
  rw [load, bind_some, edited]
  exact ⟨⟨stays, means, lists⟩, rfl, rfl⟩

theorem dates_batch (dates : Dates host temporal live) (named : ∀ call ∈ calls, call.entry.path ≠ protoName) :
    ∃ after, calls.foldlM (indexDates host) temporal = some after ∧ Dates host after (calls.foldl indexed live) := by
  refine foldlM_simulates (fun _ (call : Call) => call.entry.path ≠ protoName) ?_ (fun _ _ _ fits => fits) dates named
  exact fun _ _ _ dates named => dates_indexDates dates named

theorem stands_batch (lowers : LowersAscii host.tables) (tagged : ∀ call ∈ calls, Tagged host call)
    (stands : Stands host index graph) :
    ∃ after, calls.foldlM (indexTags host) index = some after ∧ Stands host after (calls.foldl (indexGraph host) graph) := by
  refine foldlM_simulates (fun _ call => Tagged host call) ?_ (fun _ _ _ fits => fits) stands tagged
  exact fun _ _ _ stands tagged => stands_indexTags lowers tagged stands

theorem lists_batch (lowers : LowersAscii host.tables) (lists : Lists host graph live) (calls : List Call) :
    Lists host (calls.foldl (indexGraph host) graph) (calls.foldl indexed live) := by
  induction calls generalizing graph live with
  | nil => exact lists
  | cons call calls ih => exact ih (lists_indexGraph lowers lists call)

theorem Follows.deindexed {other : Call} (follows : Follows live other) (call : Call) : Follows (deindexed live call) other := by
  intro last there
  by_cases same : other.entry.path = call.entry.path
  · rw [same, deindexed_self] at there
    cases there
  · rw [deindexed_other same] at there
    exact follows last there

theorem dates_debatch (dates : Dates host temporal live) (follows : ∀ call ∈ calls, Follows live call) :
    ∃ after, calls.foldlM deindexDates temporal = some after ∧ Dates host after (calls.foldl deindexed live) := by
  refine foldlM_simulates Follows ?_ (fun _ call _ follows => follows.deindexed call) dates follows
  exact fun _ _ _ dates follows => dates_deindexDates dates fun last there => (follows last there).1

theorem stands_debatch (lowers : LowersAscii host.tables) (tagged : ∀ call ∈ calls, Tagged host call)
    (stands : Stands host index graph) :
    ∃ after, calls.foldlM (deindexTags host) index = some after ∧ Stands host after (calls.foldl (deindexGraph host) graph) := by
  refine foldlM_simulates (fun _ call => Tagged host call) ?_ (fun _ _ _ fits => fits) stands tagged
  exact fun _ _ _ stands tagged => stands_deindexTags lowers tagged stands

theorem lists_debatch (lowers : LowersAscii host.tables) (lists : Lists host graph live)
    (follows : ∀ call ∈ calls, Follows live call) :
    Lists host (calls.foldl (deindexGraph host) graph) (calls.foldl deindexed live) := by
  induction calls generalizing graph live with
  | nil => exact lists
  | cons call calls ih =>
    have first := follows call mem_cons_self
    exact ih (lists_deindexGraph lowers lists fun last there => (first last there).2)
      fun other member => (follows other (mem_cons_of_mem _ member)).deindexed call

section

variable (lowers : LowersAscii host.tables) (sound : Sound host world graph)
include lowers sound

theorem sound_indexMemory (fits : Indexable host call) (loading : Loading) : Sound host (indexMemory host world call loading) (indexGraph host graph call) ∧
      indexDates host world.temporal call = some (indexMemory host world call loading).temporal ∧
        (indexMemory host world call loading).live = indexed world.live call := by
  obtain ⟨temporal, dated, stays⟩ := dates_indexDates sound.dates fits.1
  obtain ⟨after, same, live⟩ := sound.mutate lowers loading (fun index => indexDates host index call)
    (fun index => indexTags host index call) dated stays (lists_indexGraph lowers sound.lists call)
    fun _ stands => stands_indexTags lowers fits.2 stands
  exact ⟨after, dated.trans (congrArg some same.symm), live⟩

theorem sound_deindexMemory (follows : Follows world.live call) (tagged : Tagged host call) (loading : Loading) :
    Sound host (deindexMemory host world call loading) (deindexGraph host graph call) ∧
      deindexDates world.temporal call = some (deindexMemory host world call loading).temporal ∧
        (deindexMemory host world call loading).live = deindexed world.live call := by
  obtain ⟨temporal, dated, stays⟩ := dates_deindexDates sound.dates fun last there => (follows last there).1
  obtain ⟨after, same, live⟩ := sound.mutate lowers loading (fun index => deindexDates index call)
    (fun index => deindexTags host index call) dated stays
    (lists_deindexGraph lowers sound.lists fun last there => (follows last there).2)
    fun _ stands => stands_deindexTags lowers tagged stands
  exact ⟨after, dated.trans (congrArg some same.symm), live⟩

theorem sound_indexMemoriesBatch (fits : ∀ call ∈ calls, Indexable host call) (loading : Loading) :
    Sound host (indexMemoriesBatch host world calls loading) (calls.foldl (indexGraph host) graph) ∧
      calls.foldlM (indexDates host) world.temporal = some (indexMemoriesBatch host world calls loading).temporal := by
  unfold indexMemoriesBatch
  split_ifs with empty
  · rw [empty]
    exact ⟨sound, rfl⟩
  · obtain ⟨temporal, dated, stays⟩ := dates_batch sound.dates fun call member => (fits call member).1
    obtain ⟨after, same, _⟩ := sound.mutate lowers loading (fun index => calls.foldlM (indexDates host) index)
      (fun index => calls.foldlM (indexTags host) index) dated stays (lists_batch lowers sound.lists calls)
      fun _ stands => stands_batch lowers (fun call member => (fits call member).2) stands
    exact ⟨after, dated.trans (congrArg some same.symm)⟩

theorem sound_deindexMemoriesBatch (follows : ∀ call ∈ calls, Follows world.live call)
    (tagged : ∀ call ∈ calls, Tagged host call) (loading : Loading) :
    Sound host (deindexMemoriesBatch host world calls loading) (calls.foldl (deindexGraph host) graph) ∧
      calls.foldlM deindexDates world.temporal = some (deindexMemoriesBatch host world calls loading).temporal := by
  unfold deindexMemoriesBatch
  split_ifs with empty
  · rw [empty]
    exact ⟨sound, rfl⟩
  · obtain ⟨temporal, dated, stays⟩ := dates_debatch sound.dates follows
    obtain ⟨after, same, _⟩ := sound.mutate lowers loading (fun index => calls.foldlM deindexDates index)
      (fun index => calls.foldlM (deindexTags host) index) dated stays (lists_debatch lowers sound.lists follows)
      fun _ stands => stands_debatch lowers tagged stands
    exact ⟨after, dated.trans (congrArg some same.symm)⟩

theorem sound_clearIndexes (loading : Loading) : Sound host (clearIndexes host world loading) emptyGraph := by
  have start := sound_initial host
  exact (sound.mutate lowers loading (fun _ => some TemporalIndex.empty) (fun _ => some TagIndex.empty) rfl dates_empty start.lists fun _ _ => ⟨_, rfl, start.stands⟩).1

theorem sound_oneByOne {calls : List (Call × Loading)} (fits : ∀ call ∈ calls, Indexable host call.1) :
    Sound host (calls.foldl (fun world call => indexMemory host world call.1 call.2) world)
        ((calls.map Prod.fst).foldl (indexGraph host) graph) ∧
      (calls.map Prod.fst).foldlM (indexDates host) world.temporal =
        some (calls.foldl (fun world call => indexMemory host world call.1 call.2) world).temporal := by
  induction calls generalizing world graph with
  | nil => exact ⟨sound, rfl⟩
  | cons call calls ih =>
    obtain ⟨after, dated, _⟩ := sound_indexMemory lowers sound (fits call mem_cons_self) call.2
    obtain ⟨final, run⟩ := ih after fun other member => fits other (mem_cons_of_mem _ member)
    refine ⟨final, ?_⟩
    rw [map_cons, foldlM_cons, dated]
    exact run

theorem sound_removedOneByOne {calls : List (Call × Loading)}
    (fits : ∀ call ∈ calls, Follows world.live call.1 ∧ Tagged host call.1) :
    Sound host (calls.foldl (fun world call => deindexMemory host world call.1 call.2) world)
        ((calls.map Prod.fst).foldl (deindexGraph host) graph) ∧
      (calls.map Prod.fst).foldlM deindexDates world.temporal =
        some (calls.foldl (fun world call => deindexMemory host world call.1 call.2) world).temporal := by
  induction calls generalizing world graph with
  | nil => exact ⟨sound, rfl⟩
  | cons call calls ih =>
    obtain ⟨follows, tagged⟩ := fits call mem_cons_self
    obtain ⟨after, dated, live⟩ := sound_deindexMemory lowers sound follows tagged call.2
    obtain ⟨final, run⟩ := ih after fun other member => by
      obtain ⟨before, plain⟩ := fits other (mem_cons_of_mem _ member)
      exact ⟨live ▸ before.deindexed call.1, plain⟩
    refine ⟨final, ?_⟩
    rw [map_cons, foldlM_cons, dated]
    exact run

end

theorem sameIndexes {one other : World} (first : Sound host one graph) (second : Sound host other graph)
    (dates : one.temporal = other.temporal) : SameIndexes one other where
  dates := dates
  tags canonical := (first.stands.represents.nodes canonical).trans (second.stands.represents.nodes canonical).symm
  aliases key canonical :=
    (first.stands.represents.leads key canonical).trans (second.stands.represents.leads key canonical).symm

theorem Sound.listings (sound : Sound host world graph) : Listings host world.tags world.live := by
  have represents := sound.stands.represents
  refine ⟨fun canonical path => ?_, fun canonical node held empty => ?_, fun key canonicals held => ⟨?_, fun canonical member => ?_⟩⟩
  · rw [← sound.lists, Holds, ← represents.nodes]
    cases world.tags.tags.lookup canonical with
    | none => simp
    | some node => simp [meaningOf]
  · obtain ⟨path, member⟩ := (sound.stands.lawful canonical _ (represents.node held)).populated
    have listed : path ∈ node.paths := member
    rw [empty] at listed
    cases listed
  · rintro rfl
    exact represents.filled key held
  · obtain ⟨node, there, _⟩ := (represents.leads key canonical).mp (by rw [held]; exact member)
    unfold OrderedMap.contains
    rw [← isSome_map, represents.nodes, there]
    rfl

theorem sound_step (lowers : LowersAscii host.tables) (sound : Sound host world graph) {action : Action} {next : World}
    (paired : Paired world action) (unobstructed : Unobstructed host action) (stepped : step host world action = some next) :
    ∃ graph, Sound host next graph := by
  cases action with
  | indexMemory call loading =>
    cases stepped
    exact ⟨_, (sound_indexMemory lowers sound unobstructed loading).1⟩
  | indexMemoriesBatch calls loading =>
    cases stepped
    exact ⟨_, (sound_indexMemoriesBatch lowers sound unobstructed loading).1⟩
  | deindexMemory call loading =>
    cases stepped
    exact ⟨_, (sound_deindexMemory lowers sound paired unobstructed loading).1⟩
  | deindexMemoriesBatch calls loading =>
    cases stepped
    exact ⟨_, (sound_deindexMemoriesBatch lowers sound paired unobstructed loading).1⟩
  | clearIndexes loading =>
    cases stepped
    exact ⟨_, sound_clearIndexes lowers sound loading⟩

/-- In every run both indexes mirror the indexed memories, and a batch leaves what its entries leave one by one. -/
theorem indexes_mirror_memories (lowers : LowersAscii host.tables)
    (reached : Reaches (step host) (fun world action => Paired world action ∧ Unobstructed host action) initial world) :
    Mirrors host world ∧
      (∀ (calls : List (Call × Loading)) (loading : Loading), (∀ call ∈ calls, Indexable host call.1) →
        SameIndexes (indexMemoriesBatch host world (calls.map Prod.fst) loading)
          (calls.foldl (fun world call => indexMemory host world call.1 call.2) world)) ∧
      ∀ (calls : List (Call × Loading)) (loading : Loading),
        (∀ call ∈ calls, Follows world.live call.1 ∧ Tagged host call.1) →
          SameIndexes (deindexMemoriesBatch host world (calls.map Prod.fst) loading)
            (calls.foldl (fun world call => deindexMemory host world call.1 call.2) world) := by
  obtain ⟨graph, sound⟩ : ∃ graph, Sound host world graph := by
    apply reached.invariant fun world => ∃ graph, Sound host world graph
    · exact ⟨emptyGraph, sound_initial host⟩
    · rintro _ _ _ ⟨graph, sound⟩ meets stepped
      exact sound_step lowers sound meets.1 meets.2 stepped
  refine ⟨⟨sound.dates, sound.listings⟩, fun calls loading fits => ?_, fun calls loading fits => ?_⟩
  · have each : ∀ call ∈ calls.map Prod.fst, Indexable host call := by
      intro call member
      obtain ⟨pair, listed, rfl⟩ := mem_map.mp member
      exact fits pair listed
    obtain ⟨batch, dated⟩ := sound_indexMemoriesBatch lowers sound each loading
    obtain ⟨final, run⟩ := sound_oneByOne lowers sound fits
    exact sameIndexes batch final (some.inj (dated.symm.trans run))
  · have each : ∀ call ∈ calls.map Prod.fst, Follows world.live call ∧ Tagged host call := by
      intro call member
      obtain ⟨pair, listed, rfl⟩ := mem_map.mp member
      exact fits pair listed
    obtain ⟨batch, dated⟩ := sound_deindexMemoriesBatch lowers sound (fun call member => (each call member).1)
      (fun call member => (each call member).2) loading
    obtain ⟨final, run⟩ := sound_removedOneByOne lowers sound fits
    exact sameIndexes batch final (some.inj (dated.symm.trans run))

instance (live : JsString → Option Call) (call : Call) : Decidable (Follows live call) := by
  unfold Follows
  infer_instance

instance (world : World) (action : Action) : Decidable (Paired world action) := by
  cases action <;> unfold Paired <;> infer_instance

instance (host : Host) (call : Call) : Decidable (Tagged host call) := by
  unfold Tagged
  infer_instance

instance (host : Host) (call : Call) : Decidable (Indexable host call) := inferInstanceAs (Decidable (_ ∧ _))

instance (host : Host) (action : Action) : Decidable (Unobstructed host action) := by
  cases action <;> unfold Unobstructed <;> infer_instance

def sampleHost : Host where
  tables := { plainTables with toLowerCase := asciiLower }
  otherDate _ := none
  temporalSearchTokenHashes _ := []

theorem sample_lowers : LowersAscii sampleHost.tables := fun _ _ => rfl

def sampleCall (path : String) (tags : List String) : Call where
  entry := ⟨text path, text "2024-05-01T10:00:00.000Z", tags.map text, none, none, none, none, none⟩
  today := ⟨text "2024-05-02", by decide⟩

/-- Two memories are indexed, the first again under another tag; the second is deindexed. -/
def retagged : List Action :=
  [.indexMemoriesBatch [sampleCall "/m/a.md" ["Work > Notes", "ideas"], sampleCall "/m/b.md" ["work/notes"]] .cached,
    .indexMemory (sampleCall "/m/a.md" ["Ideas"]) .parsed, .deindexMemory (sampleCall "/m/b.md" ["work/notes"]) .compatibility]

theorem indexes_mirror_memories_retagged : ∃ world : World,
    Reaches (step sampleHost) (fun world action => Paired world action ∧ Unobstructed sampleHost action) initial world ∧
      world.tags.tags.keys = [text "ideas"] ∧ Mirrors sampleHost world := by
  refine exists_reached (fun world => world.tags.tags.keys = [text "ideas"]) retagged (by decide +kernel) ?_
  intro world reached keys
  exact ⟨keys, (indexes_mirror_memories sample_lowers reached).1⟩

theorem constructor_tag_lost : ∃ world : World,
    Reaches (step sampleHost) Paired initial world ∧ ¬ Mirrors sampleHost world := by
  refine exists_reached (fun world => world.live (text "/m/a.md") = some (sampleCall "/m/a.md" ["constructor"]) ∧
    world.tags.tags.lookup (text "constructor") = none) [.indexMemory (sampleCall "/m/a.md" ["constructor"]) .cached]
    (by decide +kernel) ?_
  intro world _ ⟨there, missing⟩ mirrors
  have listed := (mirrors.tags.listed (text "constructor") (text "/m/a.md")).mpr
    ⟨by decide, _, there, text "constructor", mem_singleton_self _, by decide +kernel⟩
  obtain ⟨node, held, _⟩ := listed
  rw [missing] at held
  cases held

end Remnic.MemoryIndex.Mirror
