import Remnic.SupportPassport.Revocation

/-!
The bounds of an owner's grants in any interleaving of calls, and what a create
that fails part-way may leave behind.
-/

namespace Remnic.SupportPassport.GrantCap
open Library.Interleaving Library.Interleaving.Contract Text.CodeUnits Grants GrantStore GrantHistory GrantGuard
open GrantContract GrantWrites GrantCreate Revocation

variable {host : Host}

/-- A grant that was handed out and is still active. -/
structure ActiveHandedOut (c : Calls) (owner : Owner) (state : GrantState) : Prop where
  created : ∃ process input made secret, c.Returned process (.create input) (.created made secret) ∧
    made.grantId = state.grantId
  stored : c.shared.states state.grantId = some state
  owned : state.owner = owner
  active : state.isActive c.shared.now = true

/-- The index file of the owner names the grant. -/
def InIndex (host : Host) (c : Calls) (owner : Owner) (grantId : GrantId) : Prop :=
  ∃ grantIds, c.shared.index (ownerHash host owner) = some grantIds ∧ grantId ∈ grantIds

/-- The state files removed so far were those of grants that were over, or that the removing call
itself had made. -/
def RemovesNoOther (c : Calls) : Prop :=
  ∀ process grantId state time, Event.removed process grantId (some state) time ∈ c.shared.log →
    state.isActive time = true → Drew c.shared process grantId

theorem activeMember_of_handedOut {c : Calls} {process : Nat} {state made : GrantState} (inv : Invariant host c.shared)
    (handed : HandedOut host process c.shared made) (same : made.grantId = state.grantId)
    (stored : c.shared.states state.grantId = some state) (active : state.isActive c.shared.now = true) :
    ActiveMember c.shared (ownerHash host state.owner) state ∧
      Indexed c.shared (ownerHash host state.owner) state.grantId := by
  have live := (GrantState.isActive_iff.mp active).1
  have only := inv.toRecorded.history_eq stored live
  have recorded := handed.committed.recorded
  rw [same, only] at recorded
  obtain rfl := List.mem_singleton.mp recorded
  have listed := inv.memberKept _ _ _ handed.committed.enrolled stored live
  refine ⟨⟨listed, stored, active⟩, handed.settled.resolve_right fun ended => ?_⟩
  rw [active] at ended
  cases ended

/-- Whatever calls are interleaved, and wherever calls stop or operations fail: an owner has at most
a hundred active grants on its membership list, and every active grant that was handed out is on the
list; an index holds at most a hundred identifiers, none twice, and every active grant that was
handed out; and no call removes an active grant that another call has made. -/
theorem grants_are_capped {c : Calls} (reachable : Reachable host c) (distinct : DistinctIds c.shared)
    (apart : NoCollision host c.shared) (owner : Owner) :
    (activeMembers host c.shared owner).length ≤ maxOwnerGrantHistory ∧
      (∀ grantIds, c.shared.index (ownerHash host owner) = some grantIds →
        grantIds.length ≤ maxOwnerGrantHistory ∧ grantIds.Nodup) ∧
      (∀ state, ActiveHandedOut c owner state →
        state.grantId ∈ activeMembers host c.shared owner ∧ InIndex host c owner state.grantId) ∧
      RemovesNoOther c := by
  have safe := safe_of_reachable reachable distinct
  refine ⟨safe.1.capped owner, fun grantIds found => ?_, fun state handed => ?_, safe.1.removals⟩
  · have shape := safe.1.indexShape _ _ found
    exact ⟨shape.2.1, shape.1⟩
  · obtain ⟨process, input, made, secret, returned, same⟩ := handed.created
    have known : HandedOut host process c.shared made := safe.returned returned
    obtain ⟨member, indexed⟩ := activeMember_of_handedOut safe.1 known same handed.stored handed.active
    rw [handed.owned] at member indexed
    exact ⟨mem_activeMembers_iff.mpr ⟨member.listed, state, handed.stored, handed.owned, handed.active⟩,
      safe.1.listed apart _ state member indexed⟩

section Sample

/-- The owners of two states are told apart by their digests. -/
def tellsApart (host : Host) : Event → Event → Bool
  | .landed first, .landed second =>
    decide (ownerHash host first.owner = ownerHash host second.owner → first.owner = second.owner)
  | _, _ => true

theorem noCollision_of_tellsApart {w : World} (all : w.log.all (fun first => w.log.all (tellsApart host first)) = true) :
    NoCollision host w := by
  intro first second one two
  exact of_decide_eq_true (List.all_eq_true.mp (List.all_eq_true.mp all _ one) _ two)

def sampleOwner : Owner := ⟨text "work", aliceKey⟩

def sampleCreated : Moves := callsThrough 0 (.create sampleInput) 21

theorem grants_are_capped_sample : ∃ c, Reachable sampleHost c ∧
    (activeMembers sampleHost c.shared sampleOwner).length = 1 ∧
      (activeMembers sampleHost c.shared sampleOwner).length ≤ maxOwnerGrantHistory ∧ RemovesNoOther c := by
  have ran : (sampleRun sampleCreated).any (fun c => decide (DistinctIds c.shared) &&
      c.shared.log.all (fun first => c.shared.log.all (tellsApart sampleHost first)) &&
        decide ((activeMembers sampleHost c.shared sampleOwner).length = 1)) = true := by
    decide +kernel
  obtain ⟨c, found, facts⟩ := (Option.any_eq_true _ _).mp ran
  simp only [Bool.and_eq_true, decide_eq_true_eq] at facts
  have reachable : Reachable sampleHost c := ⟨0, Machine.runs_of_run _ sampleCreated found⟩
  have capped := grants_are_capped reachable facts.1.1 (noCollision_of_tellsApart facts.1.2) sampleOwner
  exact ⟨c, reachable, facts.2, capped.1, capped.2.2.2⟩

/-- The index cannot be written and the grant cannot be locked for its removal. -/
def failedCreate : Moves :=
  callsThrough 0 (.create sampleInput) 18 ++ [.go 0 .fail, .go 0 .ok, .go 0 .ok, .go 0 .late]

/-- A create that failed leaves an active grant on the owner's list that no index names. -/
theorem failedCreate_unindexed : ¬ ∀ (host : Host) (c : Calls), Reachable host c → DistinctIds c.shared →
    NoCollision host c.shared → ∀ owner grantId, c.shared.locks (.owner (ownerHash host owner)) = none →
      grantId ∈ activeMembers host c.shared owner → InIndex host c owner grantId := by
  intro claim
  have ran : (sampleRun failedCreate).any (fun c => decide (DistinctIds c.shared) &&
      c.shared.log.all (fun first => c.shared.log.all (tellsApart sampleHost first)) &&
        decide (c.shared.locks (.owner (ownerHash sampleHost sampleOwner)) = none) &&
          decide (sampleGrantId ∈ activeMembers sampleHost c.shared sampleOwner) && hasEnded c 0 &&
            (c.shared.index (ownerHash sampleHost sampleOwner)).isNone) = true := by
    decide +kernel
  obtain ⟨c, found, facts⟩ := (Option.any_eq_true _ _).mp ran
  simp only [Bool.and_eq_true, decide_eq_true_eq] at facts
  obtain ⟨⟨⟨⟨⟨distinct, apart⟩, free⟩, active⟩, _⟩, absent⟩ := facts
  obtain ⟨grantIds, written, _⟩ := claim sampleHost c ⟨0, Machine.runs_of_run _ failedCreate found⟩ distinct
    (noCollision_of_tellsApart apart) sampleOwner sampleGrantId free active
  rw [written] at absent
  cases absent

end Sample

end Remnic.SupportPassport.GrantCap
