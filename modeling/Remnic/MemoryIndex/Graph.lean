import Remnic.MemoryIndex.Index

/-!
What the tag index means: the nodes of the canonical tags, each with a set of paths, of
aliases and of parents. An alias leads to the tags that have it.
-/

namespace Remnic.MemoryIndex.Graph

open Text.CodeUnits Library Library.AppendNew Memory.SupersessionKey Tags Index List Function

@[ext] structure Node where
  paths : Set JsString
  aliases : Set JsString
  parents : Set JsString

abbrev TagGraph := JsString → Option Node

def meaningOf (node : TagNode) : Node := ⟨{path | path ∈ node.paths}, {key | key ∈ node.aliases}, {tag | tag ∈ node.parents}⟩

structure Represents (index : TagIndex) (graph : TagGraph) : Prop where
  nodes : ∀ canonical, (index.tags.lookup canonical).map meaningOf = graph canonical
  leads : ∀ key canonical, canonical ∈ (index.aliases.lookup key).getD [] ↔ ∃ node ∈ graph canonical, key ∈ node.aliases
  filled : ∀ key, index.aliases.lookup key ≠ some []

variable (tables : UnicodeTables)

/-- A tag that no inherited name gets in the way of, with aliases that are their own keys. -/
def Plain (rawTag : JsString) : Prop :=
  normalizeCanonicalTag tables rawTag = [] ∨
    inherited (normalizeCanonicalTag tables rawTag) = false ∧
      (∀ name ∈ deriveTagAliases tables rawTag (normalizeCanonicalTag tables rawTag),
        inherited (normalizeAliasKey tables name) = false) ∧
      ∀ name ∈ deriveTagAliases tables (normalizeCanonicalTag tables rawTag) (normalizeCanonicalTag tables rawTag),
        normalizeAliasKey tables name = name

instance (rawTag : JsString) : Decidable (Plain tables rawTag) := inferInstanceAs (Decidable (_ ∨ _ ∧ _ ∧ _))

structure LawfulNode (canonical : JsString) (node : Node) : Prop where
  tag : CanonicalTag canonical
  named : inherited canonical = false
  keys : ∀ key ∈ node.aliases, AliasKey key ∧ key ≠ [] ∧ inherited key = false
  derived : ∀ name ∈ deriveTagAliases tables canonical canonical, name ∈ node.aliases
  populated : node.paths.Nonempty

def Lawful (graph : TagGraph) : Prop := ∀ canonical, ∀ node ∈ graph canonical, LawfulNode tables canonical node

def emptyGraph : TagGraph := fun _ => none

def created (canonical : JsString) : Node := ⟨∅, ∅, {tag | tag ∈ deriveParentTags canonical}⟩

def addEntry (graph : TagGraph) (rawTag path : JsString) : TagGraph :=
  let canonical := normalizeCanonicalTag tables rawTag
  if canonical = [] then graph
  else
    let node := (graph canonical).getD (created canonical)
    Function.update graph canonical (some
      { node with
        paths := insert path node.paths
        aliases := node.aliases ∪ {key | key ∈ aliasKeys tables (deriveTagAliases tables rawTag canonical)} })

open Classical in
/-- A path leaves some of the nodes; a node that has no other path goes. -/
noncomputable def without (graph : TagGraph) (tags : Set JsString) (path : JsString) : TagGraph := fun canonical =>
  (graph canonical).bind fun node =>
    if canonical ∉ tags then some node
    else if node.paths \ {path} = ∅ then none
    else some { node with paths := node.paths \ {path} }

variable {tables} {index : TagIndex} {graph : TagGraph} {rawTag path canonical key : JsString} {aliases : PathSets}

theorem not_canonical_nil : ¬ CanonicalTag [] := fun canonical => (canonical [] (mem_singleton_self _)).some rfl

theorem represents_empty : Represents TagIndex.empty emptyGraph := ⟨fun _ => rfl, fun _ _ => ⟨nofun, nofun⟩, fun _ => nofun⟩

theorem lawful_empty : Lawful tables emptyGraph := nofun

theorem pushAlias_spec (canonical : JsString) (aliases : PathSets) (free : inherited key = false) : ∃ pushed, pushAlias canonical aliases key = some pushed ∧
    (∀ asked other, other ∈ (pushed.lookup asked).getD [] ↔
      other ∈ (aliases.lookup asked).getD [] ∨ (other = canonical ∧ asked = key)) ∧
    ∀ asked, pushed.lookup asked = some [] → aliases.lookup asked = some [] := by
  unfold pushAlias
  cases held : aliases.lookup key with
  | none =>
    refine ⟨_, if_neg (by simp [free]), fun asked other => ?_, fun asked empty => ?_⟩
    · rw [OrderedMap.lookup_set]
      split_ifs with same
      · simp [same, held]
      · simp [same]
    · rw [OrderedMap.lookup_set] at empty
      split_ifs at empty
      · cases empty
      · exact empty
  | some canonicals =>
    refine ⟨_, rfl, fun asked other => ?_, fun asked empty => ?_⟩
    · rw [OrderedMap.lookup_set]
      split_ifs with same
      · simp [same, held]
      · simp [same]
    · rw [OrderedMap.lookup_set] at empty
      split_ifs at empty
      · have listed : canonical ∈ appendNew canonicals [canonical] := by simp
        rw [Option.some.inj empty] at listed
        cases listed
      · exact empty

theorem pushAliases_spec {keys : List JsString} (free : ∀ key ∈ keys, inherited key = false) (canonical : JsString)
    (aliases : PathSets) :
    ∃ pushed, keys.foldlM (pushAlias canonical) aliases = some pushed ∧
      (∀ asked other, other ∈ (pushed.lookup asked).getD [] ↔
        other ∈ (aliases.lookup asked).getD [] ∨ (other = canonical ∧ asked ∈ keys)) ∧
      ∀ asked, pushed.lookup asked = some [] → aliases.lookup asked = some [] := by
  induction keys generalizing aliases with
  | nil => exact ⟨aliases, rfl, fun asked other => by simp, fun asked empty => empty⟩
  | cons key keys ih =>
    obtain ⟨first, pushedFirst, members, empties⟩ := pushAlias_spec canonical aliases (free key mem_cons_self)
    obtain ⟨last, pushedLast, lastMembers, lastEmpties⟩ :=
      ih (fun other member => free other (mem_cons_of_mem _ member)) first
    refine ⟨last, ?_, fun asked other => ?_, fun asked empty => empties asked (lastEmpties asked empty)⟩
    · rw [foldlM_cons, pushedFirst]
      exact pushedLast
    · rw [lastMembers, members, mem_cons]
      tauto

theorem ne_nil_of_mem_aliasForms {candidate name : JsString} (member : name ∈ aliasForms candidate) : name ≠ [] := by
  unfold aliasForms at member
  split_ifs at member with empty
  · cases member
  · rcases mem_cons.mp member with rfl | singular
    · exact empty
    · unfold singularizeAlias at singular
      split_ifs at singular with short
      · cases singular
      · rw [Option.toList_some, mem_singleton] at singular
        rintro rfl
        have length := congrArg List.length singular
        rw [length_dropLast, length_nil] at length
        simp only [not_or, not_le] at short
        omega

theorem ne_nil_of_mem_deriveTagAliases {name : JsString} (member : name ∈ deriveTagAliases tables rawTag canonical) :
    name ≠ [] := by
  rw [deriveTagAliases, mem_appendNew, mem_flatMap] at member
  rcases member with none | ⟨_, _, form⟩
  · cases none
  · exact ne_nil_of_mem_aliasForms form

/-- The aliases of a canonical tag come with every spelling of it. -/
theorem deriveTagAliases_subset (rawTag canonical : JsString) :
    deriveTagAliases tables canonical canonical ⊆ deriveTagAliases tables rawTag canonical := by
  intro name member
  rw [deriveTagAliases, mem_appendNew, mem_flatMap] at member ⊢
  refine member.imp_right fun ⟨source, listed, form⟩ => ⟨source, ?_, form⟩
  simp only [mem_cons, not_mem_nil, or_false] at listed ⊢
  tauto

theorem mem_aliasKeys {names : List JsString} :
    key ∈ aliasKeys tables names ↔ key ≠ [] ∧ ∃ name ∈ names, normalizeAliasKey tables name = key := by
  rw [aliasKeys, mem_filter, mem_map, decide_eq_true_eq, and_comm]

theorem Represents.node (represents : Represents index graph) {node : TagNode} (held : index.tags.lookup canonical = some node) :
    graph canonical = some (meaningOf node) := by
  rw [← represents.nodes, held]
  rfl

theorem Represents.absent (represents : Represents index graph) (missing : index.tags.lookup canonical = none) :
    graph canonical = none := by
  rw [← represents.nodes, missing]
  rfl

theorem lawful_addEntry (lawful : Lawful tables graph) (plain : Plain tables rawTag) :
    Lawful tables (addEntry tables graph rawTag path) := by
  unfold addEntry
  extract_lets canonical node
  split_ifs with empty
  · exact lawful
  · obtain ⟨named, free, fixed⟩ := plain.resolve_left empty
    intro other found held
    by_cases same : other = canonical
    · subst same
      rw [update_self] at held
      cases held
      have before : ∀ key ∈ node.aliases, AliasKey key ∧ key ≠ [] ∧ inherited key = false := by
        cases known : graph (normalizeCanonicalTag tables rawTag) with
        | none => simp [node, canonical, known, created]
        | some old => simpa [node, canonical, known] using (lawful _ old known).keys
      refine ⟨canonical_normalizeCanonicalTag rawTag empty, named, ?_, fun name member => .inr ?_, ⟨path, .inl rfl⟩⟩
      · rintro key (old | new)
        · exact before key old
        · obtain ⟨some, name, member, rfl⟩ := mem_aliasKeys.mp new
          exact ⟨aliasKey_normalizeAliasKey name, some, free name member⟩
      · exact mem_aliasKeys.mpr
          ⟨ne_nil_of_mem_deriveTagAliases member, name, deriveTagAliases_subset _ _ member, fixed name member⟩
    · rw [update_of_ne same] at held
      exact lawful other found held

theorem lawful_without (lawful : Lawful tables graph) (tags : Set JsString) :
    Lawful tables (without graph tags path) := by
  intro canonical found held
  obtain ⟨node, known, kept⟩ := Option.bind_eq_some_iff.mp held
  have before := lawful canonical node known
  by_cases outside : canonical ∉ tags
  · rw [if_pos outside] at kept
    cases kept
    exact before
  · rw [if_neg outside] at kept
    split_ifs at kept with alone
    cases kept
    exact ⟨before.tag, before.named, before.keys, before.derived, Set.nonempty_iff_ne_empty.mpr alone⟩

theorem ensureTagNode_spec (represents : Represents index graph) (named : inherited canonical = false) :
    ∃ node, ensureTagNode index canonical = some node ∧ meaningOf node = (graph canonical).getD (created canonical) := by
  unfold ensureTagNode
  cases held : index.tags.lookup canonical with
  | none =>
    refine ⟨_, if_neg (by simp [named]), ?_⟩
    rw [represents.absent held]
    simp [meaningOf, created]
  | some node =>
    refine ⟨node, rfl, ?_⟩
    rw [represents.node held]
    rfl

theorem represents_addEntry (represents : Represents index graph) (plain : Plain tables rawTag) (path : JsString) :
    ∃ added, addTagGraphEntry tables index rawTag path = some added ∧
      Represents added (addEntry tables graph rawTag path) := by
  unfold addTagGraphEntry addEntry
  dsimp only
  split_ifs with empty
  · exact ⟨index, rfl, represents⟩
  · obtain ⟨named, free, _⟩ := plain.resolve_left empty
    obtain ⟨node, ensured, means⟩ := ensureTagNode_spec represents named
    have keysFree : ∀ key ∈ aliasKeys tables (deriveTagAliases tables rawTag (normalizeCanonicalTag tables rawTag)),
        inherited key = false := by
      intro key member
      obtain ⟨_, name, listed, rfl⟩ := mem_aliasKeys.mp member
      exact free name listed
    obtain ⟨pushed, run, members, empties⟩ :=
      pushAliases_spec keysFree (normalizeCanonicalTag tables rawTag) index.aliases
    rw [ensured, Option.bind_eq_bind, Option.bind_some, run]
    refine ⟨_, rfl, fun other => ?_, fun key other => ?_, fun key none => represents.filled key (empties key none)⟩
    · dsimp only
      rw [OrderedMap.lookup_set]
      by_cases same : other = normalizeCanonicalTag tables rawTag
      · rw [if_pos same, same, update_self, ← means]
        apply congrArg some
        ext name <;> simp [meaningOf, or_comm]
      · rw [if_neg same, update_of_ne same]
        exact represents.nodes other
    · rw [members, represents.leads]
      by_cases same : other = normalizeCanonicalTag tables rawTag
      · subst same
        rw [update_self]
        cases known : graph (normalizeCanonicalTag tables rawTag) with
        | none => simp [created]
        | some old => simp
      · rw [update_of_ne same]
        simp [same]

theorem represents_pruned (represents : Represents index graph) (lowers : LowersAscii tables) (lawful : Lawful tables graph)
    {tags : OrderedMap JsString TagNode} {rest : TagGraph} (nodes : ∀ canonical, (tags.lookup canonical).map meaningOf = rest canonical)
    (shrinks : ∀ canonical, ∀ node ∈ rest canonical, ∃ old ∈ graph canonical, node.aliases = old.aliases) :
    Represents (pruneTagAliases tables { index with tags := tags }) rest := by
  have kept : ∀ key canonicals, index.aliases.lookup key = some canonicals → ∀ canonical,
      canonical ∈ (keptCanonicals tables { index with tags := tags } canonicals).getD [] ↔
        canonical ∈ canonicals ∧ (rest canonical).isSome := by
    intro key canonicals held canonical
    have normal : canonicals.map (normalizeCanonicalTag tables) = canonicals := by
      refine (map_congr_left fun tag member => ?_).trans (map_id _)
      obtain ⟨node, there, _⟩ := (represents.leads key tag).mp (by rw [held]; exact member)
      exact (lawful tag node there).tag.eq_self lowers
    have open' : ∀ tag ∈ canonicals, tag ≠ [] ∧ inherited tag = false := by
      intro tag member
      obtain ⟨node, there, _⟩ := (represents.leads key tag).mp (by rw [held]; exact member)
      have tagLawful := lawful tag node there
      exact ⟨fun empty => not_canonical_nil (empty ▸ tagLawful.tag), tagLawful.named⟩
    have contained : ∀ tag, tags.contains tag = (rest tag).isSome := fun tag => by
      rw [← nodes tag, Option.isSome_map]
      rfl
    have members : ∀ tag, tag ∈ (appendNew [] (canonicals.map (normalizeCanonicalTag tables))).filter (fun canonical =>
        canonical ≠ [] ∧ (tags.contains canonical = true ∨ inherited canonical = true)) ↔
          tag ∈ canonicals ∧ (rest tag).isSome := by
      intro tag
      rw [mem_filter, normal, mem_appendNew, decide_eq_true_eq, contained]
      constructor
      · rintro ⟨none | listed, _, there | hidden⟩
        · cases none
        · cases none
        · exact ⟨listed, there⟩
        · exact absurd hidden (by simp [(open' tag listed).2])
      · exact fun ⟨listed, there⟩ => ⟨.inr listed, (open' tag listed).1, .inl there⟩
    rw [← members]
    unfold keptCanonicals
    dsimp only
    split_ifs with empty
    · rw [empty]
      rfl
    · rfl
  refine ⟨nodes, fun key canonical => ?_, fun key empty => ?_⟩
  · show canonical ∈ ((index.aliases.filterMap _).lookup key).getD [] ↔ _
    rw [OrderedMap.lookup_filterMap]
    have before := represents.leads key canonical
    cases held : index.aliases.lookup key with
    | none =>
      rw [held] at before
      constructor
      · exact nofun
      · rintro ⟨node, there, listed⟩
        obtain ⟨old, known, same⟩ := shrinks canonical node there
        exact before.mpr ⟨old, known, same ▸ listed⟩
    | some canonicals =>
      rw [held] at before
      rw [Option.bind_some, kept key canonicals held]
      constructor
      · rintro ⟨listed, there⟩
        obtain ⟨node, present⟩ := Option.isSome_iff_exists.mp there
        obtain ⟨old, known, same⟩ := shrinks canonical node present
        obtain ⟨other, found, member⟩ := before.mp listed
        have only : other = old := Option.some.inj (found.symm.trans known)
        exact ⟨node, present, same ▸ only ▸ member⟩
      · rintro ⟨node, there, listed⟩
        obtain ⟨old, known, same⟩ := shrinks canonical node there
        exact ⟨before.mpr ⟨old, known, same ▸ listed⟩, Option.isSome_iff_exists.mpr ⟨node, there⟩⟩
  · have found : (index.aliases.filterMap fun _ canonicals =>
        keptCanonicals tables { index with tags := tags } canonicals).lookup key = some [] := empty
    rw [OrderedMap.lookup_filterMap] at found
    obtain ⟨canonicals, _, none⟩ := Option.bind_eq_some_iff.mp found
    unfold keptCanonicals at none
    dsimp only at none
    split_ifs at none with nothing
    exact nothing (Option.some.inj none)

theorem meaning_withoutPath (node : TagNode) (path : JsString) :
    ((withoutPath path node.paths).map fun kept => meaningOf { node with paths := kept }) =
      if (meaningOf node).paths \ {path} = ∅ then none
      else some { meaningOf node with paths := (meaningOf node).paths \ {path} } := by
  have same : {other | other ∈ node.paths.filter (· ≠ path)} = (meaningOf node).paths \ {path} := by
    ext other
    simp [meaningOf]
  unfold withoutPath
  by_cases alone : node.paths.filter (· ≠ path) = []
  · have nothing : (meaningOf node).paths \ {path} = ∅ := by
      rw [← same, alone]
      exact Set.eq_empty_of_forall_notMem fun other => not_mem_nil
    rw [if_pos alone, if_pos nothing]
    rfl
  · have something : (meaningOf node).paths \ {path} ≠ ∅ := by
      rw [← same]
      obtain ⟨other, rest, whole⟩ := exists_cons_of_ne_nil alone
      intro empty
      have member : other ∈ ({other | other ∈ node.paths.filter (· ≠ path)} : Set JsString) := by
        rw [whole]
        exact mem_cons_self
      rw [empty] at member
      exact member
    rw [if_neg alone, if_neg something, ← same]
    rfl

theorem without_none {tags : Set JsString} (absent : ∀ canonical ∈ tags, graph canonical = none) :
    without graph tags path = graph := by
  funext canonical
  unfold without
  cases known : graph canonical with
  | none => rfl
  | some node =>
    have outside : canonical ∉ tags := fun inside => by simp [absent canonical inside] at known
    exact if_pos outside

theorem without_shrinks (tags : Set JsString) : ∀ canonical, ∀ node ∈ without graph tags path canonical,
    ∃ old ∈ graph canonical, node.aliases = old.aliases := by
  intro canonical node held
  obtain ⟨old, known, kept⟩ := Option.bind_eq_some_iff.mp held
  refine ⟨old, known, ?_⟩
  by_cases outside : canonical ∉ tags
  · rw [if_pos outside] at kept
    cases kept
    rfl
  · rw [if_neg outside] at kept
    split_ifs at kept
    cases kept
    rfl

theorem without_other {tag : JsString} (different : canonical ≠ tag) :
    without graph {tag} path canonical = graph canonical := by
  unfold without
  cases graph canonical with
  | none => rfl
  | some node => exact if_pos different

theorem Represents.without_node (represents : Represents index graph) (path : JsString) {tags : Set JsString}
    (inside : canonical ∈ tags) :
    without graph tags path canonical = (index.tags.lookup canonical).bind fun node =>
      (withoutPath path node.paths).map fun kept => meaningOf { node with paths := kept } := by
  unfold without
  rw [← represents.nodes canonical]
  cases index.tags.lookup canonical with
  | none => rfl
  | some node =>
    rw [Option.map_some, Option.bind_some, Option.bind_some, if_neg (not_not_intro inside), meaning_withoutPath]

theorem represents_removeAll (represents : Represents index graph) (lowers : LowersAscii tables) (lawful : Lawful tables graph)
    (path : JsString) : Represents (removePathFromAllTagEntries tables index path) (without graph Set.univ path) := by
  apply represents_pruned represents lowers lawful _ (without_shrinks Set.univ)
  intro canonical
  rw [OrderedMap.lookup_filterMap, represents.without_node path (Set.mem_univ canonical)]
  cases index.tags.lookup canonical with
  | none => rfl
  | some node =>
    rw [Option.bind_some, Option.bind_some, Option.map_map]
    rfl

theorem represents_remove (represents : Represents index graph) (lowers : LowersAscii tables) (lawful : Lawful tables graph)
    (plain : Plain tables rawTag) (path : JsString) : ∃ removed, removeTagGraphEntry tables index rawTag path = some removed ∧
      Represents removed (without graph {normalizeCanonicalTag tables rawTag} path) := by
  unfold removeTagGraphEntry
  dsimp only
  by_cases empty : normalizeCanonicalTag tables rawTag = []
  · refine ⟨index, if_pos empty, ?_⟩
    rw [without_none]
    · exact represents
    · rintro _ rfl
      cases known : graph (normalizeCanonicalTag tables rawTag) with
      | none => rfl
      | some node => exact absurd (empty ▸ (lawful _ node known).tag) not_canonical_nil
  · rw [if_neg empty]
    obtain ⟨named, _⟩ := plain.resolve_left empty
    have inside : normalizeCanonicalTag tables rawTag ∈ ({normalizeCanonicalTag tables rawTag} : Set JsString) := rfl
    have changed := represents.without_node path inside
    cases held : index.tags.lookup (normalizeCanonicalTag tables rawTag) with
    | none =>
      refine ⟨index, if_neg (by simp [named]), ?_⟩
      rw [without_none]
      · exact represents
      · rintro _ rfl
        exact represents.absent held
    | some node =>
      rw [held, Option.bind_some] at changed
      dsimp only
      cases rest : withoutPath path node.paths with
      | some kept =>
        rw [rest] at changed
        refine ⟨_, rfl, fun other => ?_, fun key other => ?_, represents.filled⟩
        · dsimp only
          rw [OrderedMap.lookup_set]
          by_cases same : other = normalizeCanonicalTag tables rawTag
          · rw [if_pos same, same, changed]
            rfl
          · rw [if_neg same, without_other same]
            exact represents.nodes other
        · rw [represents.leads]
          by_cases same : other = normalizeCanonicalTag tables rawTag
          · rw [same, changed, represents.node held]
            simp [meaningOf]
          · rw [without_other same]
      | none =>
        rw [rest] at changed
        refine ⟨_, rfl, represents_pruned represents lowers lawful (fun other => ?_) (without_shrinks _)⟩
        rw [OrderedMap.lookup_erase]
        by_cases same : other = normalizeCanonicalTag tables rawTag
        · rw [if_pos same, same, changed]
          rfl
        · rw [if_neg same, without_other same]
          exact represents.nodes other

end Remnic.MemoryIndex.Graph
