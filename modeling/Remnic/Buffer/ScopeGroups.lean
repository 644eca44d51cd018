import Remnic.Library.Grouping
import Remnic.Buffer.Turn

/-!
Extraction turns are grouped by a text made of their scope pins. Turns of other scopes share
a group exactly when an absent pin, or a separator within a pin, makes their texts the same.
-/

namespace Remnic.Buffer.ScopeGroups

open Library Library.Grouping Text.CodeUnits Turn List

inductive ScopeProfileLayerId where
  | userProject | teamProject | userGlobal | serverShared
  deriving DecidableEq, Repr

def ScopeProfileLayerId.name : ScopeProfileLayerId → JsString
  | .userProject => text "userProject"
  | .teamProject => text "teamProject"
  | .userGlobal => text "userGlobal"
  | .serverShared => text "serverShared"

/-- A plan by its identity; the rest of it is not compared. -/
structure ResolvedScopeProfilePlan where
  profileId : JsString
  writeLayer : ScopeProfileLayerId
  writeNamespace : JsString
  deriving DecidableEq, Repr

/-- A turn with its scope pins. A plan is absent, `null` or given. -/
structure ScopedTurn where
  role : Role
  content : JsString
  writeNamespaceOverride : Option JsString
  principalOverride : Option JsString
  scopeProfileWritePlan : Option (Option ResolvedScopeProfilePlan)
  acceptedCapture : Option Bool
  codingContext : Option CodingContext
  deriving DecidableEq, Repr

structure ExtractionScopeGroup where
  writeNamespaceOverride : Option JsString
  principalOverride : Option JsString
  scopeProfileWritePlan : Option (Option ResolvedScopeProfilePlan)
  codingContext : Option CodingContext
  turns : List ScopedTurn
  deriving DecidableEq, Repr

def separator : CodeUnit := unit 0

def scopeProfilePlanIdentity (plan : Option (Option ResolvedScopeProfilePlan)) : JsString :=
  match plan with
  | some (some plan) => plan.profileId ++ [separator] ++ plan.writeLayer.name ++ [separator] ++ plan.writeNamespace
  | _ => []

def isAccepted (turn : ScopedTurn) : Bool := turn.acceptedCapture = some true

def scopeKey (turn : ScopedTurn) : JsString :=
  [separator].intercalate [
    turn.writeNamespaceOverride.getD [],
    turn.principalOverride.getD [],
    scopeProfilePlanIdentity turn.scopeProfileWritePlan,
    if isAccepted turn then text "accepted" else [],
    (turn.codingContext.map CodingContext.projectId).getD [],
    (turn.codingContext.map CodingContext.rootPath).getD [],
    (turn.codingContext.bind CodingContext.branch).getD [],
    (turn.codingContext.bind CodingContext.defaultBranch).getD []]

def createGroup (turn : ScopedTurn) : ExtractionScopeGroup :=
  ⟨turn.writeNamespaceOverride, turn.principalOverride, turn.scopeProfileWritePlan, turn.codingContext, [turn]⟩

def pushTurn (group : ExtractionScopeGroup) (turn : ScopedTurn) : ExtractionScopeGroup := { group with turns := group.turns ++ [turn] }

def groupTurnsByExtractionScope (turns : List ScopedTurn) : List ExtractionScopeGroup :=
  (groupBy scopeKey createGroup pushTurn turns).entries.map Prod.snd

/-- A given plan as it is; accepted captures without one are pinned to none; other turns resolve the current profile. -/
def planOptionForGroup (group : ExtractionScopeGroup) : Option (Option ResolvedScopeProfilePlan) :=
  match group.scopeProfileWritePlan with
  | some plan => some plan
  | none => if group.turns.any isAccepted then some none else none

def explicitModeDenied (group : ExtractionScopeGroup) (skipImplicitExtraction : Bool) : Bool :=
  skipImplicitExtraction && !group.turns.any isAccepted

/-- What extraction runs under. -/
structure Scope where
  writeNamespaceOverride : Option JsString
  principalOverride : Option JsString
  scopeProfileWritePlan : Option (Option ResolvedScopeProfilePlan)
  accepted : Bool
  codingContext : Option CodingContext
  deriving DecidableEq

def scopeOf (turn : ScopedTurn) : Scope :=
  ⟨turn.writeNamespaceOverride, turn.principalOverride, turn.scopeProfileWritePlan, isAccepted turn, turn.codingContext⟩

/-- The groups are the turns by scope. -/
structure GroupsByScope (turns : List ScopedTurn) (groups : List ExtractionScopeGroup) : Prop where
  all : (groups.flatMap ExtractionScopeGroup.turns).Perm turns
  ordered : ∀ group ∈ groups, group.turns.Sublist turns
  apart : groups.Pairwise fun one other => ∀ turn ∈ one.turns, ∀ foreign ∈ other.turns, scopeOf turn ≠ scopeOf foreign
  together : ∀ group ∈ groups, ∀ turn ∈ group.turns, ∀ other ∈ group.turns, scopeOf turn = scopeOf other
  pins : ∀ group ∈ groups, ∀ turn ∈ group.turns,
    group.writeNamespaceOverride = turn.writeNamespaceOverride ∧ group.principalOverride = turn.principalOverride ∧
      group.scopeProfileWritePlan = turn.scopeProfileWritePlan ∧ group.codingContext = turn.codingContext

/-- The strings of a scope in a row, absent ones empty. A plan has three, no plan one. -/
def scopeFields (turn : ScopedTurn) : List JsString :=
  let planFields :=
    match turn.scopeProfileWritePlan with
    | some (some plan) => [plan.profileId, plan.writeLayer.name, plan.writeNamespace]
    | _ => [[]]
  [turn.writeNamespaceOverride.getD [], turn.principalOverride.getD []] ++ planFields ++
    [if isAccepted turn then text "accepted" else [],
      (turn.codingContext.map CodingContext.projectId).getD [],
      (turn.codingContext.map CodingContext.rootPath).getD [],
      (turn.codingContext.bind CodingContext.branch).getD [],
      (turn.codingContext.bind CodingContext.defaultBranch).getD []]

def scopePieces (turn : ScopedTurn) : List JsString := (scopeFields turn).flatMap (split separator)

theorem scopeKey_eq_intercalate (turn : ScopedTurn) : scopeKey turn = [separator].intercalate (scopeFields turn) := by
  unfold scopeKey scopeFields scopeProfilePlanIdentity
  rcases turn.scopeProfileWritePlan with _ | _ | plan <;> simp [List.intercalate]

variable {group : ExtractionScopeGroup} {turn : ScopedTurn} (fields : List JsString)

theorem split_intercalate (filled : fields ≠ []) :
    split separator ([separator].intercalate fields) = fields.flatMap (split separator) := by
  induction fields with
  | nil => exact absurd rfl filled
  | cons first rest ih =>
    cases rest with
    | nil => simp [List.intercalate]
    | cons second rest =>
      rw [intercalate_cons_cons, append_assoc, singleton_append, flatMap_cons, ← ih (cons_ne_nil _ _)]
      exact splitOn_append_cons_self _ _

theorem intercalate_pieces (filled : fields ≠ []) :
    [separator].intercalate (fields.flatMap (split separator)) = [separator].intercalate fields := by
  rw [← split_intercalate fields filled, join_split]

theorem scopeKey_eq_iff {turn other : ScopedTurn} : scopeKey turn = scopeKey other ↔ scopePieces turn = scopePieces other := by
  have filled : ∀ turn, scopeFields turn ≠ [] := fun turn => by simp [scopeFields]
  rw [scopeKey_eq_intercalate, scopeKey_eq_intercalate]
  unfold scopePieces
  constructor
  · intro same
    rw [← split_intercalate _ (filled turn), ← split_intercalate _ (filled other), same]
  · intro same
    rw [← intercalate_pieces _ (filled turn), ← intercalate_pieces _ (filled other), same]

variable {turns : List ScopedTurn}

def pinsOf (group : ExtractionScopeGroup) :
    Option JsString × Option JsString × Option (Option ResolvedScopeProfilePlan) × Option CodingContext :=
  (group.writeNamespaceOverride, group.principalOverride, group.scopeProfileWritePlan, group.codingContext)

theorem group_of_mem (member : group ∈ groupTurnsByExtractionScope turns) :
    ∃ first rest, (turns.filter fun turn => scopeKey turn = scopeKey first) = first :: rest ∧
      group = { createGroup first with turns := first :: rest } := by
  obtain ⟨⟨key, _⟩, listed, rfl⟩ := mem_map.mp member
  have gathered := (lookup_groupBy turns key).symm.trans ((OrderedMap.lookup_eq_some_iff _ _ _).mpr listed)
  cases members : turns.filter (fun turn => scopeKey turn = key) with
  | nil =>
    rw [members] at gathered
    cases gathered
  | cons first rest =>
    have same : scopeKey first = key := by
      have listed : first ∈ turns.filter fun turn => scopeKey turn = key := by
        rw [members]
        exact mem_cons_self
      simpa using (mem_filter.mp listed).2
    rw [members] at gathered
    have items := items_gather ExtractionScopeGroup.turns (fun _ => rfl) (fun _ _ => rfl) gathered
    have mark := mark_gather pinsOf (by intro _ _; rfl) gathered
    refine ⟨first, rest, by rw [same, members], ?_⟩
    simp only [pinsOf, Prod.mk.injEq] at mark
    obtain ⟨namespaces, principals, plans, contexts⟩ := mark
    rw [ExtractionScopeGroup.mk.injEq]
    exact ⟨namespaces, principals, plans, contexts, items⟩

theorem exists_group (member : turn ∈ turns) :
    ∃ group ∈ groupTurnsByExtractionScope turns, group.turns = turns.filter fun other => scopeKey other = scopeKey turn := by
  have found : (groupBy scopeKey createGroup pushTurn turns).lookup (scopeKey turn) = _ := lookup_groupBy turns (scopeKey turn)
  cases members : turns.filter (fun other => scopeKey other = scopeKey turn) with
  | nil =>
    have listed : turn ∈ turns.filter fun other => scopeKey other = scopeKey turn := mem_filter.mpr ⟨member, decide_eq_true rfl⟩
    rw [members] at listed
    cases listed
  | cons first rest =>
    rw [members] at found
    refine ⟨_, mem_map_of_mem ((OrderedMap.lookup_eq_some_iff _ _ _).mp found), ?_⟩
    exact items_gather ExtractionScopeGroup.turns (fun _ => rfl) (fun _ _ => rfl) rfl

theorem groups_apart (turns : List ScopedTurn) : (groupTurnsByExtractionScope turns).Pairwise fun one other =>
    ∀ turn ∈ one.turns, ∀ foreign ∈ other.turns, scopeOf turn ≠ scopeOf foreign := by
  have keyed : ∀ entry ∈ (groupBy scopeKey createGroup pushTurn turns).entries, ∀ turn ∈ entry.2.turns, scopeKey turn = entry.1 := by
    intro entry listed turn inside
    have gathered := (lookup_groupBy turns entry.1).symm.trans ((OrderedMap.lookup_eq_some_iff _ _ _).mpr listed)
    rw [items_gather ExtractionScopeGroup.turns (fun _ => rfl) (fun _ _ => rfl) gathered] at inside
    simpa using (mem_filter.mp inside).2
  have distinct := (groupBy scopeKey createGroup pushTurn turns).keysNodup
  rw [Nodup, pairwise_map] at distinct
  rw [groupTurnsByExtractionScope, pairwise_map]
  refine distinct.imp_of_mem ?_
  intro one other listed foreign different turn inside stranger outside same
  refine different ?_
  rw [← keyed one listed turn inside, ← keyed other foreign stranger outside]
  simp only [scopeOf, Scope.mk.injEq] at same
  obtain ⟨namespaces, principals, plans, accepted, contexts⟩ := same
  unfold scopeKey
  rw [namespaces, principals, plans, accepted, contexts]

/-- The groups are the turns by scope exactly when no two turns of other scopes have the same pieces. -/
theorem groups_by_scope_iff (turns : List ScopedTurn) : GroupsByScope turns (groupTurnsByExtractionScope turns) ↔
    ∀ turn ∈ turns, ∀ other ∈ turns, scopePieces turn = scopePieces other → scopeOf turn = scopeOf other := by
  constructor
  · intro grouped turn member other foreign same
    obtain ⟨group, listed, members⟩ := exists_group member
    refine grouped.together group listed turn ?_ other ?_
    · rw [members]
      exact mem_filter.mpr ⟨member, decide_eq_true rfl⟩
    · rw [members]
      exact mem_filter.mpr ⟨foreign, decide_eq_true (scopeKey_eq_iff.mpr same.symm)⟩
  · intro apart
    have inside : ∀ group ∈ groupTurnsByExtractionScope turns, ∃ first, group.writeNamespaceOverride = first.writeNamespaceOverride ∧
        group.principalOverride = first.principalOverride ∧ group.scopeProfileWritePlan = first.scopeProfileWritePlan ∧
        group.codingContext = first.codingContext ∧ group.turns.Sublist turns ∧ ∀ turn ∈ group.turns, scopeOf turn = scopeOf first := by
      intro group listed
      obtain ⟨first, rest, members, same⟩ := group_of_mem listed
      rw [same]
      refine ⟨first, rfl, rfl, rfl, rfl, ?_, fun turn member => ?_⟩
      · show (first :: rest).Sublist turns
        rw [← members]
        exact filter_sublist
      · have here : ∀ turn ∈ first :: rest, turn ∈ turns ∧ scopeKey turn = scopeKey first := by
          intro turn member
          rw [← members, mem_filter, decide_eq_true_eq] at member
          exact member
        exact apart turn (here turn member).1 first (here first mem_cons_self).1 (scopeKey_eq_iff.mp (here turn member).2)
    refine ⟨?_, fun group listed => ?_, groups_apart turns, fun group listed turn member other also => ?_, fun group listed turn member => ?_⟩
    · rw [groupTurnsByExtractionScope, flatMap_map]
      exact groupBy_perm ExtractionScopeGroup.turns (fun _ => rfl) (fun _ _ => rfl) turns
    · obtain ⟨first, _, _, _, _, ordered, _⟩ := inside group listed
      exact ordered
    · obtain ⟨first, _, _, _, _, _, scopes⟩ := inside group listed
      exact (scopes turn member).trans (scopes other also).symm
    · obtain ⟨first, namespaces, principals, plans, contexts, _, scopes⟩ := inside group listed
      have same := scopes turn member
      unfold scopeOf at same
      rw [Scope.mk.injEq] at same
      exact ⟨namespaces.trans same.1.symm, principals.trans same.2.1.symm, plans.trans same.2.2.1.symm, contexts.trans same.2.2.2.2.symm⟩

def sampleTurn (writeNamespaceOverride principalOverride : JsString) : ScopedTurn :=
  ⟨.user, text "hello", some writeNamespaceOverride, some principalOverride, none, some true, none⟩

/-- A separator within a pin moves a turn into the group of another namespace and principal. -/
theorem separator_mixes_scopes :
    let turns := [sampleTurn (text "team") (text "a" ++ [separator] ++ text "b"),
      sampleTurn (text "team" ++ [separator] ++ text "a") (text "b")]
    (groupTurnsByExtractionScope turns).map (fun group => (group.writeNamespaceOverride, group.turns.length)) = [(some (text "team"), 2)] ∧
      ¬GroupsByScope turns (groupTurnsByExtractionScope turns) := by
  intro turns
  refine ⟨by decide, fun grouped => ?_⟩
  have pieces := (groups_by_scope_iff turns).mp grouped
  have same := pieces _ mem_cons_self _ (mem_cons_of_mem _ mem_cons_self) (by decide)
  exact absurd same (by decide)

end Remnic.Buffer.ScopeGroups
