import Mathlib.Data.List.Infix
import Mathlib.Data.List.Pairwise
import Remnic.SupportPassport.GrantStore

/-!
The states that the file of a grant has had. A grant is written once as active
and once as revoked; the last state written is the one on disk, or none is.
-/

namespace Remnic.SupportPassport.GrantHistory
open Library.Interleaving Text.CodeUnits Grants GrantStore List

/-- The process behind an event, where one matters. -/
def actor : Event → Option Nat
  | .called process _ => some process
  | .drew process _ => some process
  | .removed process _ _ _ => some process
  | .actionStarted process => some process
  | .actionEnded process => some process
  | _ => none

def landedAs (grantId : GrantId) : Event → Option GrantState
  | .landed state => if state.grantId = grantId then some state else none
  | _ => none

def drawnId : Event → Option GrantId
  | .drew _ raw => grantIdOf raw
  | _ => none

def history (w : World) (grantId : GrantId) : List GrantState := w.log.filterMap (landedAs grantId)

def Drew (w : World) (process : Nat) (grantId : GrantId) : Prop :=
  ∃ raw, Event.drew process raw ∈ w.log ∧ grantIdOf raw = some grantId

/-- `makeGrantId` has not repeated itself, as `randomUUID` promises. -/
def DistinctIds (w : World) : Prop := (w.log.filterMap drawnId).Nodup

instance (w : World) : Decidable (DistinctIds w) := inferInstanceAs (Decidable (Nodup _))

/-- A revoked state of the grant has been put in place. -/
def Revoked (log : List Event) (grantId : GrantId) : Prop :=
  ∃ state, Event.landed state ∈ log ∧ state.grantId = grantId ∧ state.revokedAt.isSome = true

instance (log : List Event) (grantId : GrantId) : Decidable (Revoked log grantId) :=
  decidable_of_iff (log.any (fun event => (landedAs grantId event).any fun state => state.revokedAt.isSome) = true) <| by
    rw [any_eq_true]
    constructor
    · intro ⟨event, member, revoked⟩
      cases event <;> simp only [landedAs, Option.any_none, Bool.false_eq_true] at revoked
      split_ifs at revoked with same
      · exact ⟨_, member, same, revoked⟩
      · cases revoked
    · intro ⟨state, member, same, revoked⟩
      exact ⟨_, member, by rw [landedAs, if_pos same]; exact revoked⟩

variable {grantId : GrantId}

theorem mem_history_iff {w : World} {state : GrantState} :
    state ∈ history w grantId ↔ Event.landed state ∈ w.log ∧ state.grantId = grantId := by
  rw [history, mem_filterMap]
  constructor
  · rintro ⟨event, member, landed⟩
    cases event <;> simp only [landedAs, reduceCtorEq] at landed
    split_ifs at landed with same
    obtain rfl := Option.some.inj landed
    exact ⟨member, same⟩
  · intro ⟨member, same⟩
    exact ⟨_, member, if_pos same⟩

theorem Drew.unique {w : World} (distinct : DistinctIds w) {first second : Nat} (one : Drew w first grantId)
    (two : Drew w second grantId) : first = second := by
  obtain ⟨left, leftIn, leftId⟩ := one
  obtain ⟨right, rightIn, rightId⟩ := two
  rw [DistinctIds, Nodup, pairwise_filterMap] at distinct
  have symmetric : Std.Symm fun a b : Event => ∀ x, drawnId a = some x → ∀ y, drawnId b = some y → x ≠ y :=
    ⟨fun a b apart x bx y ay same => apart y ay x bx same.symm⟩
  by_contra differ
  have apart : Event.drew first left ≠ Event.drew second right := by
    intro same
    exact differ (Event.drew.inj same).1
  exact distinct.forall leftIn rightIn apart grantId leftId grantId rightId rfl

inductive Lineage : List GrantState → Prop where
  | unborn : Lineage []
  | created {state : GrantState} (active : state.revokedAt = none) (first : state.stateVersion = 1) : Lineage [state]
  | revoked {state : GrantState} (time : Int) (active : state.revokedAt = none) (first : state.stateVersion = 1) :
      Lineage [state, state.revokedAs time]

namespace Lineage

variable {states later : List GrantState} {state other : GrantState}

theorem eq_singleton (lineage : Lineage states) (last : states.getLast? = some state) (active : state.revokedAt = none) :
    states = [state] := by
  cases lineage with
  | unborn => cases last
  | created => simpa using last
  | revoked time =>
    obtain rfl : GrantState.revokedAs _ time = state := by simpa using last
    cases active

theorem revoked_last (lineage : Lineage states) (last : states.getLast? = some state) (member : other ∈ states)
    (revoked : other.revokedAt.isSome = true) : state.revokedAt.isSome = true := by
  cases lineage with
  | unborn => cases last
  | created active =>
    obtain rfl := mem_singleton.mp member
    rw [active] at revoked
    cases revoked
  | revoked time =>
    obtain rfl : GrantState.revokedAs _ time = state := by simpa using last
    rfl

theorem owner_eq (lineage : Lineage states) (one : state ∈ states) (two : other ∈ states) : state.owner = other.owner := by
  cases lineage with
  | unborn => cases one
  | created => rw [mem_singleton.mp one, mem_singleton.mp two]
  | revoked time =>
    simp only [mem_cons, not_mem_nil, or_false] at one two
    obtain rfl | rfl := one <;> obtain rfl | rfl := two <;> rfl

theorem stateVersion_le (lineage : Lineage later) (grew : states <+: later) (before : states.getLast? = some state)
    (after : later.getLast? = some other) : state.stateVersion ≤ other.stateVersion := by
  cases lineage with
  | unborn =>
    rw [prefix_nil.mp grew] at before
    cases before
  | created active first =>
    obtain rfl := by simpa using after
    have member : state ∈ states := mem_of_getLast? before
    obtain rfl := mem_singleton.mp (grew.subset member)
    exact le_rfl
  | revoked time active first =>
    obtain rfl : GrantState.revokedAs _ time = other := by simpa using after
    have member := grew.subset (mem_of_getLast? before)
    simp only [mem_cons, not_mem_nil, or_false] at member
    obtain rfl | rfl := member
    · exact Nat.le_succ _
    · exact le_rfl

theorem grow_created (unborn : states = []) (active : state.revokedAt = none) (first : state.stateVersion = 1) :
    Lineage (states ++ [state]) := by
  subst unborn
  exact .created active first

theorem grow_revoked (lineage : Lineage states) (only : states = [state]) (active : state.revokedAt = none) (time : Int) :
    Lineage (states ++ [state.revokedAs time]) := by
  subst only
  cases lineage with
  | created _ first => exact .revoked time active first

end Lineage

/-- What every move does to the store: the clock and the log go on, and a file that is absent
comes back only by being written. -/
structure Grown (w later : World) : Prop where
  clock : w.now ≤ later.now
  log : w.log <+: later.log
  vanished : ∀ grantId, w.states grantId = none → history later grantId = history w grantId → later.states grantId = none

namespace Grown

variable {w middle later : World}

theorem refl (w : World) : Grown w w := ⟨le_rfl, prefix_rfl, fun _ absent _ => absent⟩

theorem history_grows (grown : Grown w later) (grantId : GrantId) : history w grantId <+: history later grantId :=
  grown.log.filterMap _

theorem trans (first : Grown w middle) (second : Grown middle later) : Grown w later where
  clock := first.clock.trans second.clock
  log := first.log.trans second.log
  vanished grantId absent same := by
    have lower := first.history_grows grantId
    have upper := second.history_grows grantId
    rw [same] at upper
    have equal := List.IsPrefix.eq_of_length_le upper lower.length_le
    exact second.vanished grantId (first.vanished grantId absent equal) (same.trans equal.symm)

theorem mem (grown : Grown w later) {event : Event} (member : event ∈ w.log) : event ∈ later.log :=
  grown.log.subset member

variable {grantId : GrantId}

theorem drew (grown : Grown w later) {process : Nat} (drew : Drew w process grantId) : Drew later process grantId := by
  obtain ⟨raw, member, named⟩ := drew
  exact ⟨raw, grown.mem member, named⟩

theorem born (grown : Grown w later) (born : history w grantId ≠ []) : history later grantId ≠ [] := by
  intro empty
  have grew := grown.history_grows grantId
  rw [empty] at grew
  exact born (prefix_nil.mp grew)

theorem revoked (grown : Grown w later) (revoked : Revoked w.log grantId) : Revoked later.log grantId := by
  obtain ⟨state, member, named, gone⟩ := revoked
  exact ⟨state, grown.mem member, named, gone⟩

theorem distinctIds (grown : Grown w later) (distinct : DistinctIds later) : DistinctIds w :=
  (grown.log.filterMap drawnId).sublist.nodup distinct

end Grown

theorem history_land (w : World) (state : GrantState) (grantId : GrantId) :
    history (w.land state) grantId = history w grantId ++ if state.grantId = grantId then [state] else [] := by
  rw [history, World.land, filterMap_append]
  simp only [filterMap_cons, filterMap_nil, landedAs]
  split_ifs with same <;> rfl

end Remnic.SupportPassport.GrantHistory
