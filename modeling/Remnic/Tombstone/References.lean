import Remnic.Memory.FrontmatterLines
import Remnic.Tombstone.MigratedKeys

/-!
The rewrites of an entity reference along a collapsed journal: in memories, in relationships, in
tombstones, by `resolveHistoricalEntityCanonicalId`, and in the raw text of a record. When they
agree, and when the text of a record is read as before but for its reference.
-/

namespace Remnic.Tombstone.References

open Library Text.CodeUnits Memory.SupersessionKey Memory.Frontmatter Memory.FrontmatterLines Entry IdMigration MigratedKeys Option

/-- A journal that leads from each legacy id to its last id in one step. -/
structure CollapsedJournal extends Journal where
  collapsed : ∀ legacyId canonicalId, mappings.lookup legacyId = some canonicalId → mappings.lookup canonicalId = none

/-- What a rewrite puts in the place of a reference: a text, or what every object has under a name. -/
inductive Written where
  | own (value : JsString)
  | inherited (name : JsString)
  deriving DecidableEq, Repr

/-- A property of a plain object, if it is truthy. -/
def plainProperty (mappings : OrderedMap JsString JsString) (key : JsString) : Option Written :=
  match mappings.lookup key with
  | some value => if value = [] then none else some (.own value)
  | none => if key ∈ objectPropertyNames then some (.inherited key) else none

/-- `rewriteReferences`, on the reference of a memory. -/
def rewriteMemoryReference (mappings : OrderedMap JsString JsString) (previousEntityRef : JsString) : Written :=
  match if previousEntityRef ≠ [] then plainProperty mappings previousEntityRef else none with
  | some canonicalId => canonicalId
  | none => .own previousEntityRef

/-- `rewriteRelationshipTargets`, on the target of a relationship. -/
def rewriteRelationshipTarget (mappings : OrderedMap JsString JsString) (relationshipTarget : JsString) : Written :=
  (plainProperty mappings relationshipTarget).getD (.own relationshipTarget)

def canonicalizeEntityRefFrontmatter (content : JsString) (mappings : OrderedMap JsString JsString) : JsString :=
  if mappings.entries = [] then content
  else
    match locateEntityRefLine content with
    | none => content
    | some location =>
        let canonical := resolveHistoricalEntityCanonicalId location.value mappings
        if canonical = location.value then content else location.withEntityRef canonical

/-- Each rewriter makes the same of a reference. -/
structure AllRewrite (tables : UnicodeTables) (mappings : OrderedMap JsString JsString) (entityRef result : JsString) : Prop where
  memory : rewriteMemoryReference mappings entityRef = .own result
  relationship : rewriteRelationshipTarget mappings entityRef = .own result
  tombstone : ∀ tombstone, tombstone.entityRef = some entityRef → (rewriteTombstoneLine tables tombstone mappings).entityRef = some result
  resolved : resolveHistoricalEntityCanonicalId entityRef mappings = result

/-- A record is read after the rewrite of its text as before, with the canonical id in the place of a legacy one. -/
structure RecordCanonical (mappings : OrderedMap JsString JsString) (content : JsString) : Prop where
  unread : parseFrontmatter content = none → canonicalizeEntityRefFrontmatter content mappings = content
  read : ∀ parsed, parseFrontmatter content = some parsed → ∃ after,
    parseFrontmatter (canonicalizeEntityRefFrontmatter content mappings) = some after ∧
      (∀ key, key ≠ entityRefKey → after.field key = parsed.field key) ∧ after.content = parsed.content ∧
        after.entityRef = parsed.entityRef.map (target mappings)
  again : canonicalizeEntityRefFrontmatter (canonicalizeEntityRefFrontmatter content mappings) mappings =
    canonicalizeEntityRefFrontmatter content mappings

/-- A legacy id of a record stands in the line that is found, and its canonical id has no blanks around it. -/
def Replaceable (mappings : OrderedMap JsString JsString) (content : JsString) : Prop :=
  ∀ parsed, parseFrontmatter content = some parsed → ∀ value, parsed.entityRef = some value → target mappings value ≠ value →
    readEntityRefFromFrontmatter content = some value ∧ trim (target mappings value) = target mappings value

section rewriters

variable (journal : CollapsedJournal)

variable (tables : UnicodeTables) (entityRef : JsString)

theorem lookup_target : journal.mappings.lookup (target journal.mappings entityRef) = none := by
  unfold target
  cases maps : journal.mappings.lookup entityRef with
  | none => exact maps
  | some canonicalId => exact journal.collapsed entityRef canonicalId maps

theorem resolve_eq_target : resolveHistoricalEntityCanonicalId entityRef journal.mappings = target journal.mappings entityRef :=
  resolve_of_direct journal.toJournal (lookup_target journal entityRef)

theorem target_target : target journal.mappings (target journal.mappings entityRef) = target journal.mappings entityRef := by
  conv_lhs => rw [target, lookup_target journal]
  rfl

theorem plainProperty_eq {entityRef : JsString} (own : journal.mappings.lookup entityRef = none → entityRef ∉ objectPropertyNames) :
    (plainProperty journal.mappings entityRef).getD (.own entityRef) = .own (target journal.mappings entityRef) := by
  unfold plainProperty target
  cases maps : journal.mappings.lookup entityRef with
  | none => simp [own maps]
  | some canonicalId => simp [(ids_some journal.toJournal entityRef canonicalId maps).2]

theorem rewriteMemoryReference_eq : rewriteMemoryReference journal.mappings entityRef =
    rewriteRelationshipTarget journal.mappings entityRef := by
  unfold rewriteMemoryReference rewriteRelationshipTarget
  by_cases some_ : entityRef = []
  · subst some_
    have absent : journal.mappings.lookup [] = none := by
      cases maps : journal.mappings.lookup [] with
      | none => rfl
      | some canonicalId => exact absurd rfl (ids_some journal.toJournal [] canonicalId maps).1
    have plain : ([] : JsString) ∉ objectPropertyNames := by decide
    simp [plainProperty, absent, plain]
  · rw [if_pos some_]
    cases plainProperty journal.mappings entityRef <;> rfl

theorem allRewrite_iff :
    AllRewrite tables journal.mappings entityRef (target journal.mappings entityRef) ↔
      (journal.mappings.lookup entityRef = none → entityRef ∉ objectPropertyNames) := by
  constructor
  · intro all unmapped inherited
    have relationship := all.relationship
    simp only [rewriteRelationshipTarget, plainProperty, unmapped, if_pos inherited, getD_some] at relationship
    cases relationship
  · intro own
    have relationship : rewriteRelationshipTarget journal.mappings entityRef = .own (target journal.mappings entityRef) :=
      plainProperty_eq journal own
    refine ⟨(rewriteMemoryReference_eq journal entityRef).trans relationship, relationship, fun tombstone holds => ?_,
      resolve_eq_target journal entityRef⟩
    rw [rewriteTombstoneLine, holds]
    exact (rewriteEntityRef_iff journal.toJournal).mpr ⟨rfl, own⟩

/-- The rewriters agree on a reference, and change nothing after that, exactly when it does not end at an inherited name. -/
theorem allRewrite_twice_iff :
    (AllRewrite tables journal.mappings entityRef (target journal.mappings entityRef) ∧
      AllRewrite tables journal.mappings (target journal.mappings entityRef) (target journal.mappings entityRef)) ↔
        target journal.mappings entityRef ∉ objectPropertyNames := by
  have second := allRewrite_iff journal tables (target journal.mappings entityRef)
  rw [target_target] at second
  rw [allRewrite_iff, second]
  constructor
  · exact fun both => both.2 (lookup_target journal entityRef)
  · intro own
    refine ⟨fun unmapped => ?_, fun _ => own⟩
    rwa [target, unmapped] at own

end rewriters

section records

variable (journal : CollapsedJournal) {content : JsString}

theorem canonicalize_of_located {location : Location} (located : Located content location) :
    canonicalizeEntityRefFrontmatter content journal.mappings =
      if target journal.mappings location.value = location.value then content
      else location.withEntityRef (target journal.mappings location.value) := by
  rw [canonicalizeEntityRefFrontmatter, locateEntityRefLine_eq_some_iff.mpr located]
  dsimp only
  rw [resolve_eq_target]
  by_cases empty : journal.mappings.entries = []
  · have same : target journal.mappings location.value = location.value := by simp [target, OrderedMap.lookup, empty]
    rw [if_pos empty, if_pos same]
  · rw [if_neg empty]

theorem canonicalize_of_unlocated (none : locateEntityRefLine content = none) :
    canonicalizeEntityRefFrontmatter content journal.mappings = content := by
  rw [canonicalizeEntityRefFrontmatter, none, ite_self]

theorem one_line_of_mapped {value : JsString} (mapped : target journal.mappings value ≠ value) :
    newline ∉ target journal.mappings value ∧ carriageReturn ∉ target journal.mappings value ∧ target journal.mappings value ≠ [] := by
  unfold target at mapped ⊢
  cases maps : journal.mappings.lookup value with
  | none => rw [maps] at mapped; exact absurd rfl mapped
  | some canonicalId =>
    have safe := (journal.safe _ ((OrderedMap.lookup_eq_some_iff _ _ _).mp maps)).2
    rw [isSafeEntityId, Bool.and_eq_true, Bool.not_eq_true', List.any_eq_false] at safe
    have control : ∀ c : CodeUnit, isUnsafeUnit c = true → c ∉ canonicalId := fun c unsafe_ member => safe.2 c member unsafe_
    exact ⟨control newline (by decide), control carriageReturn (by decide), of_decide_eq_true safe.1⟩

theorem recordCanonical_iff (content : JsString) : RecordCanonical journal.mappings content ↔ Replaceable journal.mappings content := by
  cases found : locateEntityRefLine content with
  | none =>
    have same := canonicalize_of_unlocated journal found
    have unread : readEntityRefFromFrontmatter content = none := by rw [readEntityRefFromFrontmatter, found]; rfl
    constructor
    · intro canonical parsed read value named mapped
      obtain ⟨after, again, _, _, entity⟩ := canonical.read parsed read
      rw [same, read] at again
      cases again
      rw [named, map_some] at entity
      exact absurd (some.inj entity).symm mapped
    · intro replaceable
      refine ⟨fun _ => same, fun parsed read => ⟨parsed, by rw [same, read], fun _ _ => rfl, rfl, ?_⟩, by rw [same, same]⟩
      cases named : parsed.entityRef with
      | none => rfl
      | some value =>
        by_cases mapped : target journal.mappings value = value
        · rw [map_some, mapped]
        · have line := (replaceable parsed read value named mapped).1
          rw [unread] at line
          cases line
  | some location =>
    have located := locateEntityRefLine_eq_some_iff.mp found
    obtain ⟨body, closes, read⟩ := parseFrontmatter_of_located located
    have rewritten := canonicalize_of_located journal located
    have value : readEntityRefFromFrontmatter content = some location.value := by rw [readEntityRefFromFrontmatter, found]; rfl
    by_cases mapped : target journal.mappings location.value = location.value
    · rw [if_pos mapped] at rewritten
      refine iff_of_true ⟨fun _ => rewritten, fun parsed held => ?_, by rw [rewritten, rewritten]⟩ fun parsed held other named moved => ?_
      · rw [read] at held
        cases held
        refine ⟨_, by rw [rewritten, read], fun _ _ => rfl, rfl, ?_⟩
        rw [entityRef_of_located located, map_some, mapped]
      · rw [read] at held
        cases held
        rw [entityRef_of_located located] at named
        cases named
        exact absurd mapped moved
    · rw [if_neg mapped] at rewritten
      obtain ⟨line, free, some_⟩ := one_line_of_mapped journal mapped
      constructor
      · intro canonical parsed held other named _
        rw [read] at held
        cases held
        obtain ⟨after, again, _, _, entity⟩ := canonical.read _ read
        rw [entityRef_of_located located, map_some] at entity
        rw [entityRef_of_located located] at named
        cases named
        exact ⟨value, trim_of_entityRef again entity⟩
      · intro replaceable
        have trimmed := (replaceable _ read location.value (entityRef_of_located located _) mapped).2
        have moved := located_withEntityRef located line free (by rwa [trimmed])
        obtain ⟨_, closesAgain, readAgain⟩ := parseFrontmatter_of_located moved
        dsimp only at closesAgain readAgain
        rw [closes] at closesAgain
        cases closesAgain
        rw [trimmed] at readAgain
        refine ⟨fun unread => ?_, fun parsed held => ?_, ?_⟩
        · rw [read] at unread
          cases unread
        · rw [read] at held
          cases held
          have entity := entityRef_of_located moved (trim body)
          dsimp only at entity
          rw [trimmed] at entity
          rw [rewritten, entityRef_of_located located, map_some]
          exact ⟨_, readAgain, fun key other => field_of_other other, rfl, entity⟩
        · have again := canonicalize_of_located journal moved
          dsimp only at again
          rw [trimmed, target_target, if_pos rfl] at again
          rw [rewritten, again]

end records

def renamedJournal : CollapsedJournal where
  mappings := OrderedMap.empty.set (text "old-ann") (text "person-ann")
  safe := by decide +kernel
  plain := by decide +kernel
  acyclic := acyclic_of_flat (by decide +kernel)
  collapsed := fun legacyId canonicalId maps => by
    have entry := (OrderedMap.lookup_eq_some_iff _ _ _).mp maps
    have only : canonicalId = text "person-ann" := by
      have listed : (legacyId, canonicalId) ∈ [(text "old-ann", text "person-ann")] := entry
      exact congrArg Prod.snd (List.mem_singleton.mp listed)
    rw [only]
    decide +kernel

end Remnic.Tombstone.References
