import Mathlib.Data.List.Perm.Subperm
import Remnic.Tombstone.IdMigration

/-! When a tombstone of a key blocks a fact after the migration of entity ids as it did before. -/

namespace Remnic.Tombstone.MigratedKeys
open Library Library.Links Library.Newest Text.CodeUnits Memory.SupersessionKey Entry Lookup Scan IdMigration List Option OrderedMap

/-- A tombstone with a key that was computed for its entity. -/
structure KeyedTombstone (tables : UnicodeTables) where
  entry : TombstoneEntry
  tombstone : entry.kind = .tombstone
  named : entry.id ≠ []
  entityRef : JsString
  attributeName : JsString
  holds : entry.entityRef = some entityRef
  keyed : entry.supersessionKey = computeSupersessionKey tables (some entityRef) attributeName
  some_ : entry.supersessionKey ≠ none

def KeyedTombstone.key {tables : UnicodeTables} (tombstone : KeyedTombstone tables) : JsString :=
  normalizeSupersessionKey tables tombstone.entityRef ++ text "::" ++ normalizeSupersessionKey tables tombstone.attributeName

/-- The id that the journal maps an entity to, in one step. -/
def target (mappings : OrderedMap JsString JsString) (entityRef : JsString) : JsString :=
  (mappings.lookup entityRef).getD entityRef

/-- What the first legacy id with a normal form is mapped to. -/
def firstTarget (tables : UnicodeTables) (mappings : OrderedMap JsString JsString) (normalized : JsString) : Option JsString :=
  if normalized = [] then none
  else (mappings.entries.find? fun entry => normalizeSupersessionKey tables entry.1 = normalized).map Prod.snd

/-- The key that the first segment of a key leads to, if its normal form is that of a legacy id. -/
def segmentKey (tables : UnicodeTables) (mappings : OrderedMap JsString JsString) (key : JsString) : Option JsString :=
  (splitKey key).bind fun parts =>
    (firstTarget tables mappings (normalizeSupersessionKey tables parts.1)).bind fun canonicalId =>
      computeSupersessionKey tables (some canonicalId) parts.2

/-- The entity is one step from its last id, which has a normal form; it is no name that every object has a property of;
and the segment of the key leads to the key of that id. -/
structure Survives (tables : UnicodeTables) (mappings : OrderedMap JsString JsString) (tombstone : KeyedTombstone tables) :
    Prop where
  direct : mappings.lookup (target mappings tombstone.entityRef) = none
  own : mappings.lookup tombstone.entityRef = none → tombstone.entityRef ∉ objectPropertyNames
  some_ : normalizeSupersessionKey tables (target mappings tombstone.entityRef) ≠ []
  segment : (segmentKey tables mappings tombstone.key).getD tombstone.key =
    normalizeSupersessionKey tables (target mappings tombstone.entityRef) ++ text "::" ++
      normalizeSupersessionKey tables tombstone.attributeName

section Resolution

variable {mappings : OrderedMap JsString JsString} {entityRef : JsString}

theorem resolveFrom_terminal (acyclic : Acyclic fun legacyId canonicalId => mappings.lookup legacyId = some canonicalId)
    (some_ : ∀ legacyId canonicalId, mappings.lookup legacyId = some canonicalId → canonicalId ≠ [])
    (rounds : Nat) (seen : List JsString) (current : JsString) (walked : seen.Nodup) (mapped : seen ⊆ mappings.keys)
    (leads : ∀ id ∈ seen, Relation.TransGen (fun legacyId canonicalId => mappings.lookup legacyId = some canonicalId) id current)
    (left : mappings.keys.length < seen.length + rounds) :
    mappings.lookup (resolveFrom mappings rounds seen current) = none := by
  induction rounds generalizing seen current with
  | zero =>
    have short := (subperm_of_subset walked mapped).length_le
    omega
  | succ rounds ih =>
    have fresh : current ∉ seen := fun member => acyclic current (leads current member)
    unfold resolveFrom
    rw [if_neg fresh]
    cases step : mappings.lookup current with
    | none => exact step
    | some next =>
      have apart : ¬(next = [] ∨ next = current) := by
        rintro (empty | same)
        · exact some_ current next step empty
        · exact acyclic current (.single (by rw [step, same]))
      dsimp only
      rw [if_neg apart]
      apply ih
      · exact nodup_cons.mpr ⟨fresh, walked⟩
      · intro id member
        rcases mem_cons.mp member with rfl | before
        · exact (mem_keys_iff _ _).mpr ⟨next, step⟩
        · exact mapped before
      · intro id member
        rcases mem_cons.mp member with rfl | before
        · exact .single step
        · exact (leads id before).tail step
      · rw [length_cons]
        omega

variable (journal : Journal)

theorem ids_some (legacyId canonicalId : JsString) (maps : journal.mappings.lookup legacyId = some canonicalId) :
    legacyId ≠ [] ∧ canonicalId ≠ [] := by
  have safe := journal.safe _ ((lookup_eq_some_iff _ _ _).mp maps)
  unfold isSafeEntityId at safe
  rw [Bool.and_eq_true, Bool.and_eq_true, decide_eq_true_eq, decide_eq_true_eq] at safe
  exact ⟨safe.1.1, safe.2.1⟩

theorem resolve_terminal (entityRef : JsString) :
    journal.mappings.lookup (resolveHistoricalEntityCanonicalId entityRef journal.mappings) = none := by
  apply resolveFrom_terminal journal.acyclic fun legacyId canonicalId maps => (ids_some journal legacyId canonicalId maps).2
  · exact nodup_nil
  · exact nil_subset _
  · exact fun _ member => absurd member not_mem_nil
  · unfold OrderedMap.keys
    rw [length_map, length_nil]
    omega

/-- One step is the whole walk if its target has no mapping. -/
theorem resolve_of_direct (direct : journal.mappings.lookup (target journal.mappings entityRef) = none) :
    resolveHistoricalEntityCanonicalId entityRef journal.mappings = target journal.mappings entityRef := by
  unfold resolveHistoricalEntityCanonicalId resolveFrom
  rw [if_neg not_mem_nil]
  unfold target at direct ⊢
  cases maps : journal.mappings.lookup entityRef with
  | none => rfl
  | some canonicalId =>
    rw [maps, getD_some] at direct
    rw [getD_some]
    have apart : canonicalId ≠ entityRef := fun same => journal.acyclic entityRef (.single (by rw [maps, same]))
    dsimp only
    rw [if_neg (not_or.mpr ⟨(ids_some journal _ _ maps).2, apart⟩)]
    unfold resolveFrom
    split
    next => rfl
    next rounds =>
      rw [if_neg fun member => apart (mem_singleton.mp member), direct]

end Resolution

section Keys

variable {tables : UnicodeTables} {ref attributeName key : JsString}

theorem computeSupersessionKey_some_iff : computeSupersessionKey tables (some ref) attributeName = some key ↔
    (ref ≠ [] ∧ attributeName ≠ []) ∧ (normalizeSupersessionKey tables ref ≠ [] ∧
      normalizeSupersessionKey tables attributeName ≠ []) ∧
        key = normalizeSupersessionKey tables ref ++ text "::" ++ normalizeSupersessionKey tables attributeName := by
  unfold computeSupersessionKey
  simp only [Bool.or_eq_true, decide_eq_true_eq]
  split_ifs with absent unnamed
  · exact iff_of_false nofun fun facts => absent.elim facts.1.1 facts.1.2
  · exact iff_of_false nofun fun facts => unnamed.elim facts.2.1.1 facts.2.1.2
  · rw [not_or] at absent unnamed
    exact ⟨fun same => ⟨absent, unnamed, (some.inj same).symm⟩, fun facts => congrArg some facts.2.2.symm⟩

theorem mem_keysForFact_iff {attributes : Attributes} :
    key ∈ supersessionKeysForFact tables (some ref) (some attributes) ↔
      ∃ name ∈ attributes.keys, computeSupersessionKey tables (some ref) name = some key := by
  unfold supersessionKeysForFact
  exact mem_filterMap

theorem mem_keysToCheck_of_mem {query : TombstoneLookupQuery} (listed : key ∈ query.supersessionKeys) :
    key ∈ keysToCheck query := by
  have kept (more keys : List JsString) (member : key ∈ keys ∨ key ∈ more) :
      key ∈ more.foldl (fun keys key => if key ∈ keys then keys else keys ++ [key]) keys := by
    induction more generalizing keys with
    | nil => exact member.resolve_right not_mem_nil
    | cons first more ih =>
      apply ih
      dsimp only
      rcases member with held | new
      · split_ifs
        · exact .inl held
        · exact .inl (mem_append_left _ held)
      · rcases mem_cons.mp new with rfl | later
        · split_ifs with known
          · exact .inl known
          · exact .inl (mem_append_right _ (mem_singleton_self _))
        · exact .inr later
  exact kept _ _ (.inr listed)

theorem newest_singleton {Item : Type} {test : Item → Bool} {item found : Item} :
    newest test [item] = some found ↔ found = item ∧ test item = true := by
  have single : newest test ([] ++ [item]) = if test item then some item else newest test [] :=
    newest_append_singleton [] item
  rw [nil_append] at single
  rw [single]
  split_ifs with met
  · exact ⟨fun same => ⟨(some.inj same).symm, met⟩, fun facts => congrArg some facts.1.symm⟩
  · exact iff_of_false nofun fun facts => met facts.2

variable {tombstone : TombstoneEntry}

theorem stands_singleton {nameSpace : JsString} (kind : tombstone.kind = .tombstone) :
    stands [tombstone] nameSpace tombstone = true ↔ tombstone.nameSpace = nameSpace := by
  have unrevoked : isRevoked [tombstone] tombstone.id = false := by
    unfold isRevoked
    rw [any_cons, any_nil, kind]
    rfl
  have last : newest (fun other => tombstone.id = other.id) [tombstone] = some tombstone :=
    newest_singleton.mpr ⟨rfl, decide_eq_true rfl⟩
  unfold stands
  rw [unrevoked, last, any_some, Bool.not_false, Bool.true_and, decide_eq_true_eq]

theorem tierKeys_of_some (kind : tombstone.kind = .tombstone) :
    key ∈ tierKeysOf .keyed tombstone ↔ ∃ ref held, truthy tombstone.entityRef = some ref ∧
      truthy tombstone.supersessionKey = some held ∧ key = keyedTierKey tombstone.nameSpace ref held := by
  unfold tierKeysOf tierKeys
  rw [kind]
  cases refs : truthy tombstone.entityRef with
  | none => simp
  | some ref =>
    cases keys : truthy tombstone.supersessionKey with
    | none => simp
    | some held => simp

theorem blocks_iff {fact : CandidateFact} (kind : tombstone.kind = .tombstone) (named : tombstone.id ≠ [])
    (separate : ∀ held ∈ tombstone.entityRef, nul ∉ held) (separate_ : ∀ asked ∈ fact.entityRef, nul ∉ asked) :
    blocks tables tombstone fact = true ↔
      tombstone.nameSpace = fact.nameSpace ∧ ∃ ref key, tombstone.entityRef = some ref ∧ fact.entityRef = some ref ∧
        tombstone.supersessionKey = some key ∧ key ∈ supersessionKeysForFact tables (some ref) (some fact.structuredAttributes) := by
  have entries : ∀ entry ∈ [tombstone], entry.id ≠ [] := by
    intro entry listed
    rw [mem_singleton.mp listed]
    exact named
  unfold blocks
  rw [lookup_isSome_iff entries]
  constructor
  · intro found
    obtain ⟨tier, key, asked, last, filed, standing⟩ := found
    obtain ⟨rfl, held⟩ := newest_singleton.mp filed
    have own := (stands_singleton kind).mp standing
    refine ⟨own, ?_⟩
    cases tier with
    | exact => cases asked
    | normalized => cases asked
    | keyed =>
      obtain ⟨ref, key_, refs, keys, scoped_⟩ := (tierKeys_of_some kind).mp (of_decide_eq_true held)
      unfold queryKeys keyedQuery at asked
      cases refs_ : truthy fact.entityRef with
      | none =>
        rw [refs_] at asked
        cases asked
      | some asked_ =>
        rw [refs_] at asked
        obtain ⟨checked, listed, same⟩ := mem_map.mp asked
        have whole := same.trans scoped_
        unfold keyedTierKey at whole
        dsimp only at whole
        rw [own] at whole
        have inner := (List.cons.inj (append_cancel_left whole)).2
        obtain ⟨ref_same, key_same⟩ := parts_of_separated (separate_ asked_ (truthy_eq_some.mp refs_).1)
          (separate ref (truthy_eq_some.mp refs).1) inner
        refine ⟨ref, key_, (truthy_eq_some.mp refs).1, ?_, (truthy_eq_some.mp keys).1, ?_⟩
        · rw [← ref_same]
          exact (truthy_eq_some.mp refs_).1
        · rw [← key_same, ← ref_same, ← (truthy_eq_some.mp refs_).1]
          exact (mem_keysToCheck listed).resolve_left nofun
  · intro facts
    obtain ⟨own, ref, key, refs, refs_, keys, listed⟩ := facts
    obtain ⟨name, _, computed⟩ := mem_keysForFact_iff.mp listed
    obtain ⟨⟨some_, _⟩, _, shape⟩ := computeSupersessionKey_some_iff.mp computed
    have keySome : key ≠ [] := by
      rw [shape]
      simp [text, encodeChar]
    refine ⟨.keyed, keyedTierKey fact.nameSpace ref key, ?_, tombstone, ?_, (stands_singleton kind).mpr own⟩
    · unfold queryKeys keyedQuery
      rw [refs_, truthy_eq_some.mpr ⟨rfl, some_⟩]
      exact mem_map_of_mem (mem_keysToCheck_of_mem listed)
    · refine newest_singleton.mpr ⟨rfl, decide_eq_true ?_⟩
      exact (tierKeys_of_some kind).mpr ⟨ref, key, truthy_eq_some.mpr ⟨refs, some_⟩, truthy_eq_some.mpr ⟨keys, keySome⟩,
        by rw [own]⟩

end Keys

section Rewriting

variable {tables : UnicodeTables} {mappings : OrderedMap JsString JsString}

theorem lookup_normalizedMappings (normalized : JsString) :
    (normalizedMappings tables mappings).lookup normalized = firstTarget tables mappings normalized := by
  unfold normalizedMappings firstTarget
  induction mappings.entries using List.reverseRecOn with
  | nil =>
    split_ifs
    · rfl
    · rfl
  | append_singleton entries entry ih =>
    rw [foldl_append, foldl_cons, foldl_nil, find?_append]
    dsimp only
    by_cases empty : normalized = []
    · rw [if_pos empty] at ih ⊢
      split_ifs with new
      · rw [lookup_set, if_neg fun same => new.1 (same.symm.trans empty)]
        exact ih
      · exact ih
    · rw [if_neg empty] at ih ⊢
      by_cases same : normalizeSupersessionKey tables entry.1 = normalized
      · rw [same]
        cases earlier : entries.find? fun entry => normalizeSupersessionKey tables entry.1 = normalized with
        | none =>
          rw [earlier, map_none] at ih
          have found : List.find? (fun entry => decide (normalizeSupersessionKey tables entry.1 = normalized)) [entry] =
              some entry := find?_cons_of_pos (by simpa using same)
          rw [if_pos ⟨empty, by rw [OrderedMap.contains, ih]; rfl⟩, lookup_set, if_pos rfl, none_or, found,
            map_some]
        | some first =>
          rw [earlier, map_some] at ih
          rw [if_neg fun new => by rw [OrderedMap.contains, ih] at new; exact absurd new.2 Bool.false_ne_true, ih, some_or,
            map_some]
      · have other : List.find? (fun entry => decide (normalizeSupersessionKey tables entry.1 = normalized)) [entry] = none := by
          rw [find?_cons_of_neg (by simpa using same), find?_nil]
        rw [other, or_none, ← ih]
        split_ifs
        · rw [lookup_set, if_neg fun equal => same equal.symm]
        · rfl

theorem rewriteSupersessionKey_eq (key : JsString) :
    rewriteSupersessionKey tables (normalizedMappings tables mappings) key = (segmentKey tables mappings key).getD key := by
  unfold rewriteSupersessionKey segmentKey
  cases splitKey key with
  | none => rfl
  | some parts =>
    dsimp only
    rw [lookup_normalizedMappings, bind_some]
    cases firstTarget tables mappings (normalizeSupersessionKey tables parts.1) with
    | none => rfl
    | some canonicalId => rfl

end Rewriting

section Main

variable {tables : UnicodeTables}

variable (journal : Journal) (tombstone : KeyedTombstone tables)

theorem supersessionKey_eq : tombstone.entry.supersessionKey = some tombstone.key ∧
    tombstone.entityRef ≠ [] ∧ normalizeSupersessionKey tables tombstone.entityRef ≠ [] ∧
      normalizeSupersessionKey tables tombstone.attributeName ≠ [] := by
  obtain ⟨key, held⟩ := ne_none_iff_exists'.mp tombstone.some_
  obtain ⟨⟨some_, _⟩, ⟨entity, attributed⟩, shape⟩ := computeSupersessionKey_some_iff.mp (tombstone.keyed.symm.trans held)
  exact ⟨by rw [held, shape]; rfl, some_, entity, attributed⟩

theorem canonicalIdentity_eq (refIds : OrderedMap JsString JsString) :
    canonicalizeTombstoneIdentity tables (identityOf tombstone.entry) refIds =
      ⟨some (resolveHistoricalEntityCanonicalId tombstone.entityRef refIds),
        some (normalizeSupersessionKey tables (resolveHistoricalEntityCanonicalId tombstone.entityRef refIds) ++ text "::" ++
          normalizeSupersessionKey tables tombstone.attributeName)⟩ := by
  obtain ⟨keyed, _⟩ := supersessionKey_eq tombstone
  have identity : identityOf tombstone.entry = ⟨some tombstone.entityRef, some tombstone.key⟩ := by
    unfold identityOf
    rw [tombstone.holds, keyed]
  rw [identity]
  unfold canonicalizeTombstoneIdentity
  dsimp only
  split_ifs with same
  · rw [same]
    rfl
  · have starts : startsWith tombstone.key (normalizeSupersessionKey tables tombstone.entityRef ++ text "::") = true :=
      isPrefixOf_iff_prefix.mpr ⟨_, rfl⟩
    rw [map_some, if_pos starts]
    unfold KeyedTombstone.key
    rw [drop_left]

theorem rewrittenIdentity_eq (mappings : OrderedMap JsString JsString) :
    identityOf (rewriteTombstoneLine tables tombstone.entry mappings) =
      ⟨rewriteEntityRef mappings tombstone.entityRef, some ((segmentKey tables mappings tombstone.key).getD tombstone.key)⟩ := by
  unfold identityOf rewriteTombstoneLine
  dsimp only
  rw [tombstone.holds, (supersessionKey_eq tombstone).1, bind_some, map_some, rewriteSupersessionKey_eq]

theorem rewriteEntityRef_iff {entityRef canonical : JsString} :
    rewriteEntityRef journal.mappings entityRef = some canonical ↔ target journal.mappings entityRef = canonical ∧
      (journal.mappings.lookup entityRef = none → entityRef ∉ objectPropertyNames) := by
  unfold rewriteEntityRef target
  cases maps : journal.mappings.lookup entityRef with
  | none =>
    have absent : truthy (none : Option JsString) = none := rfl
    rw [absent, getD_none]
    dsimp only
    split_ifs with inherited
    · exact iff_of_false nofun fun facts => facts.2 rfl inherited
    · exact ⟨fun same => ⟨some.inj same, fun _ => inherited⟩, fun facts => congrArg some facts.1⟩
  | some canonicalId =>
    rw [truthy_eq_some.mpr ⟨rfl, (ids_some journal _ _ maps).2⟩, getD_some]
    exact ⟨fun same => ⟨some.inj same, nofun⟩, fun facts => congrArg some facts.1⟩

theorem nul_notMem_of_safe {id : JsString} (safe : isSafeEntityId id = true) : nul ∉ id := by
  intro member
  unfold isSafeEntityId at safe
  rw [Bool.and_eq_true, Bool.not_eq_true'] at safe
  exact absurd (any_eq_true.mpr ⟨nul, member, by decide⟩) (Bool.eq_false_iff.mp safe.2)

theorem nul_notMem_resolve {entityRef : JsString} (separate : nul ∉ entityRef) :
    nul ∉ resolveHistoricalEntityCanonicalId entityRef journal.mappings := by
  have walk (rounds : Nat) (seen : List JsString) (current : JsString) (free : nul ∉ current) :
      nul ∉ resolveFrom journal.mappings rounds seen current := by
    induction rounds generalizing seen current with
    | zero => exact free
    | succ rounds ih =>
      unfold resolveFrom
      split_ifs
      · exact free
      · split
        next => exact free
        next next_ maps =>
          split_ifs
          · exact free
          · exact ih _ _ (nul_notMem_of_safe (journal.safe _ ((lookup_eq_some_iff _ _ _).mp maps)).2)
  exact walk _ _ _ separate

theorem mem_keys_again {tombstone : KeyedTombstone tables} {attributes : Attributes} {ref : JsString}
    (listed : tombstone.key ∈ supersessionKeysForFact tables (some tombstone.entityRef) (some attributes)) (some_ : ref ≠ [])
    (normal : normalizeSupersessionKey tables ref ≠ []) :
    normalizeSupersessionKey tables ref ++ text "::" ++ normalizeSupersessionKey tables tombstone.attributeName ∈
      supersessionKeysForFact tables (some ref) (some attributes) := by
  obtain ⟨name, member, computed⟩ := mem_keysForFact_iff.mp listed
  obtain ⟨⟨_, named⟩, ⟨_, attributed⟩, shape⟩ := computeSupersessionKey_some_iff.mp computed
  have same : normalizeSupersessionKey tables tombstone.attributeName = normalizeSupersessionKey tables name :=
    append_cancel_left shape
  exact mem_keysForFact_iff.mpr ⟨name, member, computeSupersessionKey_some_iff.mpr ⟨⟨some_, named⟩, ⟨normal, attributed⟩,
    by rw [same]⟩⟩

end Main

section Samples

theorem acyclic_of_flat {mappings : OrderedMap JsString JsString}
    (flat : ∀ entry ∈ mappings.entries, mappings.lookup entry.2 = none) :
    Acyclic fun legacyId canonicalId => mappings.lookup legacyId = some canonicalId := by
  intro id circle
  obtain ⟨last, _, link⟩ := Relation.TransGen.tail'_iff.mp circle
  obtain ⟨next, first, _⟩ := Relation.TransGen.head'_iff.mp circle
  rw [flat _ ((lookup_eq_some_iff _ _ _).mp link)] at first
  cases first

/-- Two legacy ids with one normal form, of two entities. -/
def sampleJournal : Journal where
  mappings := (OrderedMap.empty.set (text "foo bar") (text "person-x")).set (text "foo-bar") (text "person-y")
  safe := by decide +kernel
  plain := by decide +kernel
  acyclic := acyclic_of_flat (by decide +kernel)

def sampleKeyed (entityRef : String) (named : computeSupersessionKey plainTables (some (text entityRef)) (text "city") ≠ none) :
    KeyedTombstone plainTables where
  entry := { sampleTombstone "t" with
    entityRef := some (text entityRef)
    supersessionKey := computeSupersessionKey plainTables (some (text entityRef)) (text "city") }
  tombstone := rfl
  named := by
    change text "t" ≠ []
    decide
  entityRef := text entityRef
  attributeName := text "city"
  holds := rfl
  keyed := rfl
  some_ := named

def sampleFact (entityRef : String) : CandidateFact :=
  ⟨text "default", some (text entityRef), OrderedMap.empty.set (text "city") (text "oslo")⟩

end Samples

end Remnic.Tombstone.MigratedKeys
