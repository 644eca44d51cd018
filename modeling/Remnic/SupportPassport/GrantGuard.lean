import Mathlib.Data.List.Perm.Subperm
import Remnic.SupportPassport.GrantHistory

/-!
What holds of the store between any two file operations, and what each call may
rely on while the others move: its locks, the identifiers it drew, the grant and
the owner whose lock it holds.
-/

namespace Remnic.SupportPassport.GrantGuard
open Library.Interleaving Text.CodeUnits Grants GrantStore GrantHistory List

/-- An active grant that a membership directory lists. -/
structure ActiveMember (w : World) (hash : Digest) (state : GrantState) : Prop where
  listed : state.grantId ∈ w.members hash
  stored : w.states state.grantId = some state
  active : state.isActive w.now = true

/-- The files of states match what has been written, and only drawn identifiers have files. -/
structure Recorded (w : World) : Prop where
  lineage : ∀ grantId, Lineage (history w grantId)
  stored : ∀ grantId state, w.states grantId = some state → (history w grantId).getLast? = some state
  born : ∀ grantId, history w grantId ≠ [] → ∃ process, Drew w process grantId

namespace Recorded

variable {w : World} {grantId : GrantId} {state other : GrantState}

theorem mem (recorded : Recorded w) (stored : w.states grantId = some state) : state ∈ history w grantId :=
  mem_of_getLast? (recorded.stored grantId state stored)

theorem named (recorded : Recorded w) (stored : w.states grantId = some state) : state.grantId = grantId :=
  (mem_history_iff.mp (recorded.mem stored)).2

theorem revoked (recorded : Recorded w) (revoked : Revoked w.log grantId) (stored : w.states grantId = some state) :
    state.revokedAt.isSome = true := by
  obtain ⟨gone, member, named, since⟩ := revoked
  exact (recorded.lineage grantId).revoked_last (recorded.stored grantId state stored)
    (mem_history_iff.mpr ⟨member, named⟩) since

theorem history_eq (recorded : Recorded w) (stored : w.states grantId = some state) (active : state.revokedAt = none) :
    history w grantId = [state] :=
  (recorded.lineage grantId).eq_singleton (recorded.stored grantId state stored) active

theorem back {later : World} (recorded : Recorded w) (after : Recorded later) (grown : Grown w later)
    (born : history w grantId ≠ []) (stored : later.states grantId = some state) (active : state.revokedAt = none) :
    w.states grantId = some state := by
  have whole := after.history_eq stored active
  have grew := grown.history_grows grantId
  have same : history w grantId = history later grantId := by
    apply List.IsPrefix.eq_of_length_le grew
    rw [whole]
    exact length_pos_iff.mpr born
  cases found : w.states grantId with
  | none =>
    rw [grown.vanished grantId found same.symm] at stored
    cases stored
  | some earlier =>
    have last := recorded.stored grantId earlier found
    rw [same, whole] at last
    exact congrArg some (Option.some.inj last).symm

end Recorded

section Invariants

variable (host : Host)

def NoCollision (w : World) : Prop :=
  ∀ first second, Event.landed first ∈ w.log → Event.landed second ∈ w.log →
    ownerHash host first.owner = ownerHash host second.owner → first.owner = second.owner

/-- The active grants of an owner, as the membership directory and the state files give them. -/
def activeMembers (w : World) (owner : Owner) : List GrantId :=
  (w.members (ownerHash host owner)).filter fun grantId =>
    (w.states grantId).any fun state => decide (state.owner = owner) && state.isActive w.now

structure Invariant (w : World) : Prop extends Recorded w where
  distinctMembers : ∀ hash, (w.members hash).Nodup
  enrolledMembers : ∀ hash grantId, grantId ∈ w.members hash → Event.enrolled hash grantId ∈ w.log
  enrolledBorn : ∀ hash grantId, Event.enrolled hash grantId ∈ w.log →
    ∃ state ∈ history w grantId, ownerHash host state.owner = hash
  memberKept : ∀ hash grantId state, Event.enrolled hash grantId ∈ w.log → w.states grantId = some state →
    state.revokedAt = none → grantId ∈ w.members hash
  indexedEnrolled : ∀ hash grantIds grantId, Event.indexed hash grantIds ∈ w.log → grantId ∈ grantIds →
    Event.enrolled hash grantId ∈ w.log
  indexShape : ∀ hash grantIds, w.index hash = some grantIds →
    grantIds.Nodup ∧ grantIds.length ≤ maxOwnerGrantHistory ∧ Event.indexed hash grantIds ∈ w.log
  capped : ∀ owner, (activeMembers host w owner).length ≤ maxOwnerGrantHistory
  listed : NoCollision host w → ∀ hash state, ActiveMember w hash state →
    (∃ grantIds, Event.indexed hash grantIds ∈ w.log ∧ state.grantId ∈ grantIds) →
      ∃ grantIds, w.index hash = some grantIds ∧ state.grantId ∈ grantIds
  removals : ∀ process grantId state time, Event.removed process grantId (some state) time ∈ w.log →
    state.isActive time = true → Drew w process grantId

end Invariants

variable {host : Host} {w middle later : World} {process : Nat}

variable {hash : Digest} {owner : Owner}

theorem mem_activeMembers_iff {grantId : GrantId} :
    grantId ∈ activeMembers host w owner ↔
      grantId ∈ w.members (ownerHash host owner) ∧
        ∃ state, w.states grantId = some state ∧ state.owner = owner ∧ state.isActive w.now = true := by
  rw [activeMembers, mem_filter, Option.any_eq_true]
  simp only [Bool.and_eq_true, decide_eq_true_eq]

theorem Invariant.member_born (inv : Invariant host w) {grantId : GrantId} (member : grantId ∈ w.members hash) :
    history w grantId ≠ [] := by
  obtain ⟨state, listed, _⟩ := inv.enrolledBorn hash grantId (inv.enrolledMembers hash grantId member)
  exact ne_nil_of_mem listed

theorem Invariant.active_back (inv : Invariant host w) (after : Recorded later) (grown : Grown w later) {grantId : GrantId}
    {state : GrantState} (member : grantId ∈ w.members hash) (stored : later.states grantId = some state)
    (active : state.isActive later.now = true) : w.states grantId = some state ∧ state.isActive w.now = true :=
  ⟨inv.toRecorded.back after grown (inv.member_born member) stored (GrantState.isActive_iff.mp active).1,
    GrantState.isActive_mono grown.clock active⟩

theorem Invariant.activeMembers_subset (inv : Invariant host w) (after : Recorded later) (grown : Grown w later)
    (members : later.members (ownerHash host owner) ⊆ w.members (ownerHash host owner)) :
    activeMembers host later owner ⊆ activeMembers host w owner := by
  intro grantId member
  obtain ⟨listed, state, stored, owned, active⟩ := mem_activeMembers_iff.mp member
  have before := inv.active_back after grown (members listed) stored active
  exact mem_activeMembers_iff.mpr ⟨members listed, state, before.1, owned, before.2⟩

theorem activeMembers_nodup (distinct : ∀ hash, (w.members hash).Nodup) (owner : Owner) :
    (activeMembers host w owner).Nodup :=
  (distinct _).filter _

theorem activeMembers_length_le (distinct : ∀ hash, (later.members hash).Nodup)
    (subset : activeMembers host later owner ⊆ activeMembers host w owner) :
    (activeMembers host later owner).length ≤ (activeMembers host w owner).length :=
  (subperm_of_subset (activeMembers_nodup distinct owner) subset).length_le

/-- An event that adds no member, no index and no removal of another call's active grant. -/
def Harmless (w : World) : Event → Prop
  | .enrolled _ _ => False
  | .indexed _ _ => False
  | .removed process grantId (some state) time => state.isActive time = true → Drew w process grantId
  | _ => True

theorem NoCollision.back (grown : Grown w later) (apart : NoCollision host later) : NoCollision host w :=
  fun first second one two => apart first second (grown.mem one) (grown.mem two)

theorem Invariant.next (inv : Invariant host w) (after : Recorded later) (grown : Grown w later)
    (events : ∀ event ∈ later.log, event ∈ w.log ∨ Harmless later event)
    (members : ∀ hash, Sublist (later.members hash) (w.members hash)) (index : later.index = w.index)
    (kept : ∀ hash grantId state, grantId ∈ w.members hash → later.states grantId = some state →
      state.revokedAt = none → grantId ∈ later.members hash) : Invariant host later := by
  have enrolled : ∀ hash grantId, Event.enrolled hash grantId ∈ later.log → Event.enrolled hash grantId ∈ w.log :=
    fun hash grantId member => (events _ member).resolve_right id
  have indexed : ∀ hash grantIds, Event.indexed hash grantIds ∈ later.log → Event.indexed hash grantIds ∈ w.log :=
    fun hash grantIds member => (events _ member).resolve_right id
  have distinct : ∀ hash, (later.members hash).Nodup := fun hash => (members hash).nodup (inv.distinctMembers hash)
  refine {
    toRecorded := after
    distinctMembers := distinct
    enrolledMembers := fun hash grantId member => grown.mem (inv.enrolledMembers hash grantId ((members hash).subset member))
    enrolledBorn := ?_
    memberKept := ?_
    indexedEnrolled := fun hash grantIds grantId member listed =>
      grown.mem (inv.indexedEnrolled hash grantIds grantId (indexed hash grantIds member) listed)
    indexShape := ?_
    capped := ?_
    listed := ?_
    removals := ?_ }
  · intro hash grantId member
    obtain ⟨state, listed, owned⟩ := inv.enrolledBorn hash grantId (enrolled hash grantId member)
    exact ⟨state, (grown.history_grows grantId).subset listed, owned⟩
  · intro hash grantId state member stored active
    obtain ⟨first, listed, _⟩ := inv.enrolledBorn hash grantId (enrolled hash grantId member)
    have before := inv.toRecorded.back after grown (ne_nil_of_mem listed) stored active
    exact kept hash grantId state (inv.memberKept hash grantId state (enrolled hash grantId member) before active) stored active
  · intro hash grantIds found
    rw [index] at found
    obtain ⟨nodup, short, written⟩ := inv.indexShape hash grantIds found
    exact ⟨nodup, short, grown.mem written⟩
  · intro owner
    exact (activeMembers_length_le distinct (inv.activeMembers_subset after grown (members _).subset)).trans (inv.capped owner)
  · intro apart hash state member written
    obtain ⟨grantIds, written, listed⟩ := written
    have back := inv.active_back after grown ((members hash).subset member.listed) member.stored member.active
    have found := inv.listed (apart.back grown) hash state ⟨(members hash).subset member.listed, back.1, back.2⟩
      ⟨grantIds, indexed hash grantIds written, listed⟩
    rw [index]
    exact found
  · intro remover grantId state time member active
    rcases events _ member with before | new
    · exact grown.drew (inv.removals remover grantId state time before active)
    · exact new active

/-- What the moves of the others leave alone for a process. -/
structure Rely (process : Nat) (w later : World) : Prop extends Grown w later where
  silent : ∀ event, actor event = some process → event ∈ later.log → event ∈ w.log
  locks : ∀ key, later.locks key = some process ↔ w.locks key = some process
  reserved : ∀ grantId, Drew w process grantId → history w grantId = [] → history later grantId = []
  unenrolled : ∀ grantId, Drew w process grantId → (∀ hash, Event.enrolled hash grantId ∉ w.log) →
    ∀ hash, Event.enrolled hash grantId ∉ later.log
  granted : ∀ grantId, w.locks (.grant grantId) = some process → history w grantId ≠ [] →
    history later grantId = history w grantId
  owned : ∀ hash, w.locks (.owner hash) = some process →
    later.members hash ⊆ w.members hash ∧ later.index hash = w.index hash

namespace Rely

theorem refl (process : Nat) (w : World) : Rely process w w where
  toGrown := .refl w
  silent _ _ member := member
  locks _ := Iff.rfl
  reserved _ _ empty := empty
  unenrolled _ _ absent := absent
  granted _ _ _ := rfl
  owned _ _ := ⟨Subset.refl _, rfl⟩

theorem trans (first : Rely process w middle) (second : Rely process middle later) : Rely process w later where
  toGrown := first.toGrown.trans second.toGrown
  silent event mine member := first.silent event mine (second.silent event mine member)
  locks key := (second.locks key).trans (first.locks key)
  reserved grantId drew empty := second.reserved grantId (first.drew drew) (first.reserved grantId drew empty)
  unenrolled grantId drew absent := second.unenrolled grantId (first.drew drew) (first.unenrolled grantId drew absent)
  granted grantId held born := by
    have same := first.granted grantId held born
    rw [second.granted grantId ((first.locks _).mpr held) (by rw [same]; exact born), same]
  owned hash held := by
    have one := first.owned hash held
    have two := second.owned hash ((first.locks _).mpr held)
    exact ⟨Subset.trans two.1 one.1, two.2.trans one.2⟩

theorem next (grown : Grown w later) (silent : ∀ event, actor event = some process → event ∈ later.log → event ∈ w.log)
    (locks : ∀ key, later.locks key = some process ↔ w.locks key = some process)
    (states : ∀ grantId, history later grantId = history w grantId)
    (enrolled : ∀ hash grantId, Event.enrolled hash grantId ∈ later.log → Event.enrolled hash grantId ∈ w.log)
    (members : ∀ hash, later.members hash ⊆ w.members hash) (index : later.index = w.index) : Rely process w later where
  toGrown := grown
  silent := silent
  locks := locks
  reserved grantId _ empty := by rw [states, empty]
  unenrolled grantId _ absent hash member := absent hash (enrolled hash grantId member)
  granted grantId _ _ := states grantId
  owned hash _ := ⟨members hash, by rw [index]⟩

end Rely

/-- A move of one process that keeps the invariant and what every other process relies on. -/
def Permitted (host : Host) (process : Nat) (w later : World) : Prop :=
  Invariant host later ∧ ∀ other, other ≠ process → Rely other w later

def isCalm : Event → Bool
  | .called _ _ => true
  | .drew _ _ => true
  | .actionStarted _ => true
  | .actionEnded _ => true
  | _ => false

structure Calm (process : Nat) (w later : World) : Prop where
  states : later.states = w.states
  members : later.members = w.members
  index : later.index = w.index
  clock : w.now ≤ later.now
  log : ∃ events, later.log = w.log ++ events ∧ ∀ event ∈ events, isCalm event = true ∧ actor event = some process
  locks : ∀ other, other ≠ process → ∀ key, later.locks key = some other ↔ w.locks key = some other

namespace Calm

section

variable (calm : Calm process w later)
include calm

theorem history_eq (grantId : GrantId) : history later grantId = history w grantId := by
  obtain ⟨events, log, quiet⟩ := calm.log
  have none_landed : events.filterMap (landedAs grantId) = [] := by
    rw [filterMap_eq_nil_iff]
    intro event member
    have still := (quiet event member).1
    cases event <;> first | rfl | cases still
  rw [history, log, filterMap_append, none_landed, append_nil]
  rfl

theorem grown : Grown w later where
  clock := calm.clock
  log := by
    obtain ⟨events, log, _⟩ := calm.log
    exact ⟨events, log.symm⟩
  vanished grantId absent _ := by rw [calm.states, absent]

theorem mem {event : Event} (member : event ∈ later.log) :
    event ∈ w.log ∨ isCalm event = true ∧ actor event = some process := by
  obtain ⟨events, log, quiet⟩ := calm.log
  rw [log, mem_append] at member
  exact member.imp_right (quiet event)

theorem recorded (recorded : Recorded w) : Recorded later where
  lineage grantId := by
    rw [calm.history_eq]
    exact recorded.lineage grantId
  stored grantId state stored := by
    rw [calm.history_eq]
    rw [calm.states] at stored
    exact recorded.stored grantId state stored
  born grantId born := by
    rw [calm.history_eq] at born
    obtain ⟨drawer, drew⟩ := recorded.born grantId born
    exact ⟨drawer, calm.grown.drew drew⟩

theorem permitted (inv : Invariant host w) : Permitted host process w later := by
  constructor
  · apply inv.next (calm.recorded inv.toRecorded) calm.grown
    · intro event member
      refine (calm.mem member).imp_right fun quiet => ?_
      cases event <;> first | trivial | cases quiet.1
    · intro hash
      rw [calm.members]
    · exact calm.index
    · intro hash grantId state member _ _
      rw [calm.members]
      exact member
  · intro other differs
    apply Rely.next calm.grown
    · intro event mine member
      refine (calm.mem member).resolve_right fun quiet => ?_
      rw [quiet.2] at mine
      exact differs (Option.some.inj mine).symm
    · exact calm.locks other differs
    · exact calm.history_eq
    · intro hash grantId member
      refine (calm.mem member).resolve_right fun quiet => ?_
      cases quiet.1
    · intro hash
      rw [calm.members]
      exact Subset.refl _
    · exact calm.index

end

end Calm

theorem Calm.still (states : later.states = w.states) (members : later.members = w.members) (index : later.index = w.index)
    (clock : w.now ≤ later.now) (log : later.log = w.log)
    (locks : ∀ other, other ≠ process → ∀ key, later.locks key = some other ↔ w.locks key = some other) :
    Calm process w later where
  states := states
  members := members
  index := index
  clock := clock
  log := ⟨[], by rw [log, append_nil], by simp⟩
  locks := locks

theorem calm_refl (process : Nat) (w : World) : Calm process w w :=
  .still rfl rfl rfl le_rfl rfl fun _ _ _ => Iff.rfl

theorem calm_record {event : Event} (quiet : isCalm event = true) (own : actor event = some process) :
    Calm process w (w.record event) where
  states := rfl
  members := rfl
  index := rfl
  clock := le_rfl
  log := ⟨[event], rfl, by simp [quiet, own]⟩
  locks _ _ _ := Iff.rfl

theorem calm_acquire {key : LockKey} (free : w.locks key = none) : Calm process w (w.setLock key (some process)) := by
  refine .still rfl rfl rfl le_rfl rfl fun other differs lock => ?_
  by_cases same : lock = key
  · subst same
    simp only [World.setLock, Function.update_self, Option.some.injEq, free, reduceCtorEq, iff_false]
    exact differs.symm
  · simp only [World.setLock, Function.update_of_ne same]

theorem calm_unlock (process : Nat) (w : World) (key : LockKey) :
    Calm process w (if w.locks key = some process then w.setLock key none else w) := by
  split_ifs with held
  · refine .still rfl rfl rfl le_rfl rfl fun other differs lock => ?_
    by_cases same : lock = key
    · subst same
      simp only [World.setLock, Function.update_self, reduceCtorEq, held, Option.some.injEq, false_iff]
      exact differs.symm
    · simp only [World.setLock, Function.update_of_ne same]
  · exact calm_refl process w

theorem calm_release (process : Nat) (w : World) : Calm process w (w.release process) := by
  refine .still rfl rfl rfl le_rfl rfl fun other differs lock => ?_
  simp only [World.release]
  split_ifs with held
  · rw [held]
    simp only [Option.some.injEq, false_iff]
    exact differs.symm
  · rfl

end Remnic.SupportPassport.GrantGuard
