import Remnic.MemoryIndex.Graph

/-!
A tag index that is loaded from its file is normalized. It means the same afterwards.
-/

namespace Remnic.MemoryIndex.Reload

open Text.CodeUnits Library Library.AppendNew Tags Index Graph List Option OrderedMap

open Classical in
noncomputable def restrict (graph : TagGraph) (tags : Set JsString) : TagGraph := fun canonical =>
  if canonical ∈ tags then graph canonical else none

variable {tables : UnicodeTables} {index state : TagIndex} {graph : TagGraph} {canonical key : JsString}
  {done : Set JsString}
variable {node : TagNode}

theorem restrict_of_mem (member : canonical ∈ done) : restrict graph done canonical = graph canonical := if_pos member

theorem restrict_of_notMem (outside : canonical ∉ done) : restrict graph done canonical = none := if_neg outside

theorem restrict_insert_of_ne {added : JsString} (different : canonical ≠ added) :
    restrict graph (insert added done) canonical = restrict graph done canonical := by
  by_cases member : canonical ∈ done
  · rw [restrict_of_mem member, restrict_of_mem (Set.mem_insert_of_mem _ member)]
  · rw [restrict_of_notMem member, restrict_of_notMem fun inside => (Set.mem_insert_iff.mp inside).elim different member]

theorem meaningOf_dedup (node : TagNode) :
    meaningOf ⟨appendNew [] node.paths, appendNew [] node.aliases, appendNew [] node.parents⟩ = meaningOf node := by
  ext name <;> simp [meaningOf]

theorem mem_aliasKeys_lawful (lowers : LowersAscii tables) (lawful : LawfulNode tables canonical (meaningOf node)) :
    key ∈ aliasKeys tables (appendNew [] node.aliases) ↔ key ∈ node.aliases := by
  rw [mem_aliasKeys]
  constructor
  · rintro ⟨_, name, member, rfl⟩
    have listed : name ∈ node.aliases := by simpa using member
    rwa [(lawful.keys name listed).1.eq_self lowers]
  · intro listed
    obtain ⟨normal, some, _⟩ := lawful.keys key listed
    exact ⟨some, key, by simpa using listed, normal.eq_self lowers⟩

section

variable (lowers : LowersAscii tables) (lawful : Lawful tables graph)
include lowers lawful

theorem represents_normalizeTagEntry (before : Represents state (restrict graph done))
    (known : graph canonical = some (meaningOf node)) (fresh : canonical ∉ done) : ∃ next, normalizeTagEntry tables state (canonical, node) = some next ∧
      Represents next (restrict graph (insert canonical done)) := by
  have nodeLawful := lawful canonical _ known
  have normal : normalizeCanonicalTag tables canonical = canonical := nodeLawful.tag.eq_self lowers
  have nonempty : canonical ≠ [] := fun empty => not_canonical_nil (empty ▸ nodeLawful.tag)
  have missing : state.tags.lookup canonical = none :=
    map_eq_none_iff.mp ((before.nodes canonical).trans (restrict_of_notMem fresh))
  obtain ⟨derived, derivedRun, derivedMembers, derivedEmpties⟩ :=
    pushAliases_spec (fun name member => (nodeLawful.keys name (nodeLawful.derived name member)).2.2) canonical state.aliases
  obtain ⟨aliases, run, members, empties⟩ :=
    pushAliases_spec (fun name member => (nodeLawful.keys name ((mem_aliasKeys_lawful lowers nodeLawful).mp member)).2.2)
      canonical derived
  unfold normalizeTagEntry
  simp only [normal, if_neg nonempty, missing, nodeLawful.named, Bool.false_eq_true, if_false, bind_eq_bind,
    bind_some, derivedRun, run]
  refine ⟨_, rfl, fun other => ?_, fun name other => ?_, fun name empty =>
    before.filled name (derivedEmpties name (empties name empty))⟩
  · dsimp only
    rw [lookup_set]
    by_cases same : other = canonical
    · rw [if_pos same, same, restrict_of_mem (Set.mem_insert _ _), known]
      exact congrArg some (meaningOf_dedup node)
    · rw [if_neg same, restrict_insert_of_ne same]
      exact before.nodes other
  · rw [members, derivedMembers, before.leads, mem_aliasKeys_lawful lowers nodeLawful]
    by_cases same : other = canonical
    · rw [same, restrict_of_mem (Set.mem_insert _ _), restrict_of_notMem fresh, known]
      constructor
      · rintro ((⟨_, none, _⟩ | ⟨_, listed⟩) | ⟨_, listed⟩)
        · cases none
        · exact ⟨_, rfl, nodeLawful.derived name listed⟩
        · exact ⟨_, rfl, listed⟩
      · rintro ⟨_, ⟨⟩, listed⟩
        exact .inr ⟨rfl, listed⟩
    · rw [restrict_insert_of_ne same]
      simp [same]

theorem represents_normalizeTagEntries {entries : List (JsString × TagNode)}
    (known : ∀ entry ∈ entries, graph entry.1 = some (meaningOf entry.2)) (distinct : (entries.map Prod.fst).Nodup)
    (before : Represents state (restrict graph done)) (fresh : ∀ entry ∈ entries, entry.1 ∉ done) : ∃ final, entries.foldlM (normalizeTagEntry tables) state = some final ∧
      Represents final (restrict graph ({tag | tag ∈ entries.map Prod.fst} ∪ done)) := by
  induction entries generalizing state done with
  | nil => exact ⟨state, rfl, by simpa using before⟩
  | cons entry entries ih =>
    obtain ⟨alone, rest⟩ := nodup_cons.mp distinct
    obtain ⟨next, stepped, after⟩ := represents_normalizeTagEntry lowers lawful before (known entry mem_cons_self)
      (fresh entry mem_cons_self)
    have later : ∀ other ∈ entries, other.1 ∉ insert entry.1 done := by
      intro other member inside
      rcases Set.mem_insert_iff.mp inside with same | before
      · exact alone (same ▸ mem_map_of_mem member)
      · exact fresh other (mem_cons_of_mem _ member) before
    obtain ⟨final, run, represents⟩ := ih (fun other member => known other (mem_cons_of_mem _ member)) rest after later
    refine ⟨final, ?_, ?_⟩
    · rw [foldlM_cons, stepped]
      exact run
    · have same : {tag | tag ∈ (entry :: entries).map Prod.fst} ∪ done =
          {tag | tag ∈ entries.map Prod.fst} ∪ insert entry.1 done := by
        ext tag
        simp only [map_cons, mem_cons, Set.mem_union, Set.mem_ofPred_eq, Set.mem_insert_iff]
        tauto
      rw [same]
      exact represents

theorem represents_normalizeAliasEntry (before : Represents state graph) {canonicals : List JsString}
    (nonempty : canonicals ≠ []) (led : ∀ canonical ∈ canonicals, ∃ node ∈ graph canonical, key ∈ node.aliases) :
    ∃ next, normalizeAliasEntry tables state (key, canonicals) = some next ∧ Represents next graph := by
  obtain ⟨first, rest, whole⟩ := exists_cons_of_ne_nil nonempty
  obtain ⟨node, there, listed⟩ := led first (whole ▸ mem_cons_self)
  obtain ⟨normal, named, free⟩ := (lawful first node there).keys key listed
  have same : (canonicals.map (normalizeCanonicalTag tables)).filter (· ≠ []) = canonicals := by
    have fixed : canonicals.map (normalizeCanonicalTag tables) = canonicals := by
      refine (map_congr_left fun tag member => ?_).trans (map_id _)
      obtain ⟨other, present, _⟩ := led tag member
      exact (lawful tag other present).tag.eq_self lowers
    rw [fixed, filter_eq_self]
    intro tag member
    obtain ⟨other, present, _⟩ := led tag member
    exact decide_eq_true fun empty => not_canonical_nil (empty ▸ (lawful tag other present).tag)
  have held : ∃ known, state.aliases.lookup key = some known := by
    have member := (before.leads key first).mpr ⟨node, there, listed⟩
    cases found : state.aliases.lookup key with
    | none => simp [found] at member
    | some known => exact ⟨known, rfl⟩
  obtain ⟨known, held⟩ := held
  unfold normalizeAliasEntry
  simp only [normal.eq_self lowers, if_neg named, same, held]
  refine ⟨_, rfl, before.nodes, fun asked tag => ?_, fun asked empty => ?_⟩
  · rw [← before.leads, lookup_set]
    split_ifs with asking
    · rw [asking, held, getD_some, getD_some, mem_appendNew]
      refine or_iff_left_of_imp fun member => ?_
      have leading := (before.leads key tag).mpr (led tag member)
      rwa [held] at leading
    · rfl
  · rw [lookup_set] at empty
    split_ifs at empty with asking
    · have member : first ∈ appendNew known canonicals :=
        (mem_appendNew known canonicals first).mpr (.inr (whole ▸ mem_cons_self))
      rw [some.inj empty] at member
      cases member
    · exact before.filled asked empty

theorem represents_normalizeAliasEntries {entries : List (JsString × List JsString)}
    (nonempty : ∀ entry ∈ entries, entry.2 ≠ [])
    (led : ∀ entry ∈ entries, ∀ canonical ∈ entry.2, ∃ node ∈ graph canonical, entry.1 ∈ node.aliases)
    (before : Represents state graph) :
    ∃ final, entries.foldlM (normalizeAliasEntry tables) state = some final ∧ Represents final graph := by
  induction entries generalizing state with
  | nil => exact ⟨state, rfl, before⟩
  | cons entry entries ih =>
    obtain ⟨next, stepped, after⟩ := represents_normalizeAliasEntry lowers lawful before (nonempty entry mem_cons_self)
      (led entry mem_cons_self)
    obtain ⟨final, run, represents⟩ := ih (fun other member => nonempty other (mem_cons_of_mem _ member))
      (fun other member => led other (mem_cons_of_mem _ member)) after
    refine ⟨final, ?_, represents⟩
    rw [foldlM_cons, stepped]
    exact run

theorem represents_normalizeTagIndex (represents : Represents index graph) :
    ∃ loaded, normalizeTagIndex tables index = some loaded ∧ Represents loaded graph := by
  have known : ∀ entry ∈ index.tags.entries, graph entry.1 = some (meaningOf entry.2) := fun entry member =>
    represents.node ((lookup_eq_some_iff index.tags entry.1 entry.2).mpr member)
  have start : Represents TagIndex.empty (restrict graph ∅) := by
    have none : restrict graph ∅ = emptyGraph := by
      funext tag
      exact restrict_of_notMem (Set.notMem_empty tag)
    rw [none]
    exact represents_empty
  obtain ⟨middle, run, after⟩ := represents_normalizeTagEntries lowers lawful known index.tags.keysNodup start
    fun entry _ => Set.notMem_empty entry.1
  have whole : restrict graph ({tag | tag ∈ index.tags.entries.map Prod.fst} ∪ ∅) = graph := by
    funext tag
    rw [Set.union_empty]
    by_cases listed : tag ∈ index.tags.entries.map Prod.fst
    · exact restrict_of_mem listed
    · rw [restrict_of_notMem listed]
      exact (represents.absent ((lookup_eq_none_iff index.tags tag).mpr listed)).symm
  rw [whole] at after
  have held : ∀ entry ∈ index.aliases.entries, index.aliases.lookup entry.1 = some entry.2 := fun entry member =>
    (lookup_eq_some_iff index.aliases entry.1 entry.2).mpr member
  obtain ⟨final, rest, means⟩ := represents_normalizeAliasEntries lowers lawful
    (fun entry member empty => represents.filled entry.1 (empty ▸ held entry member))
    (fun entry member tag listed => (represents.leads entry.1 tag).mp (by rw [held entry member]; exact listed)) after
  refine ⟨final, ?_, means⟩
  rw [normalizeTagIndex, run]
  exact rest

end

end Remnic.MemoryIndex.Reload
