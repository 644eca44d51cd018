import Remnic.SupportPassport.GrantContract

/-!
The parts of the store that only read. Their files are read one by one while
the others move, so an answer is about several moments; what it still says about
the last of them follows from the contract.
-/

namespace Remnic.SupportPassport.GrantReads
open Library.Interleaving Library.Interleaving.Contract Text.CodeUnits Grants GrantStore GrantHistory GrantGuard GrantContract List

variable {host : Host} {w later after : World} {process : Nat} {grantId : GrantId} {state : GrantState}

/-- The state was the file of the grant at one moment between two. -/
def Glimpsed (host : Host) (process : Nat) (w : World) (grantId : GrantId) (state : GrantState) (later : World) : Prop :=
  ∃ now, Rely process w now ∧ Invariant host now ∧ now.states grantId = some state ∧ Rely process now later

/-- The grant had no file at one moment between two. -/
def Missed (host : Host) (process : Nat) (w : World) (grantId : GrantId) (later : World) : Prop :=
  ∃ now, Rely process w now ∧ Invariant host now ∧ now.states grantId = none ∧ Rely process now later

namespace Glimpsed

section

variable (seen : Glimpsed host process w grantId state later)
include seen

theorem rely : Rely process w later := by
  obtain ⟨now, relied, _, _, further⟩ := seen
  exact relied.trans further

theorem mono (relied : Rely process later after) : Glimpsed host process w grantId state after := by
  obtain ⟨now, first, inv, stored, further⟩ := seen
  exact ⟨now, first, inv, stored, further.trans relied⟩

theorem mem : state ∈ history later grantId := by
  obtain ⟨now, _, inv, stored, further⟩ := seen
  exact (further.toGrown.history_grows grantId).subset (inv.toRecorded.mem stored)

theorem named : state.grantId = grantId := by
  obtain ⟨now, _, inv, stored, _⟩ := seen
  exact inv.toRecorded.named stored

theorem not_revoked (active : state.revokedAt = none) : ¬ Revoked w.log grantId := by
  obtain ⟨now, relied, inv, stored, _⟩ := seen
  intro revoked
  have since := inv.toRecorded.revoked (relied.toGrown.revoked revoked) stored
  rw [active] at since
  cases since

theorem history_eq (held : w.locks (.grant grantId) = some process) (active : state.revokedAt = none) : history later grantId = [state] := by
  obtain ⟨now, relied, inv, stored, further⟩ := seen
  have only := inv.toRecorded.history_eq stored active
  rw [further.granted grantId ((relied.locks _).mpr held) (by rw [only]; exact cons_ne_nil _ _), only]

theorem eq_stored (inv : Invariant host later) {stored : GrantState} (found : later.states grantId = some stored)
    (active : stored.revokedAt = none) : state = stored := by
  have member := seen.mem
  rw [inv.toRecorded.history_eq found active] at member
  exact mem_singleton.mp member

end

end Glimpsed

namespace Missed

theorem revoked (missed : Missed host process w grantId later) (inv : Invariant host later)
    (born : history w grantId ≠ []) (found : later.states grantId = some state) : state.revokedAt ≠ none := by
  obtain ⟨now, relied, before, absent, further⟩ := missed
  intro active
  have there := before.toRecorded.back inv.toRecorded further.toGrown (relied.toGrown.born born) found active
  rw [absent] at there
  cases there

end Missed

theorem holds_readState (grantId : GrantId) :
    (grantContract host).Holds process (readState grantId)
      (fun state later => Glimpsed host process w grantId state later)
      (fun error later => Rely process w later ∧ (∀ message, error ≠ .malformedGrantState message) ∧
        (error = .fault .enoent → Missed host process w grantId later)) w := by
  have read : (grantContract host).Holds process (fallible (ask (.readState grantId)))
      (fun state later => Glimpsed host process w grantId state later)
      (fun error later => Rely process w later ∧ (∀ message, error ≠ .malformedGrantState message) ∧
        (error = .fault .enoent → Missed host process w grantId later)) w := by
    refine holds_look_then rfl fun now choice answer later relied inv performed further _ => ?_
    have shown := (observe_after performed).2
    cases answer with
    | ok state =>
      have stored : now.states grantId = some state := by
        rcases shown with same | failed
        · split at same
          · next found => rw [Except.ok.inj same, found]
          · cases same
        · cases failed
      exact Holds.pure fun after last _ => ⟨now, relied, inv, stored, further.trans last⟩
    | error fault =>
      refine Holds.throw fun after last _ => ⟨(relied.trans further).trans last, fun message => by simp, fun absent => ?_⟩
      cases absent
      have missing : now.states grantId = none := by
        rcases shown with same | failed
        · split at same
          · cases same
          · assumption
        · cases failed
      exact ⟨now, relied, inv, missing, further.trans last⟩
  refine read.bind (fun state later inv seen => ?_) fun error later _ failed => failed
  rw [if_pos seen.named]
  exact Holds.pure fun after last _ => seen.mono last

theorem holds_now_then {Value : Type} {Returns : Value → World → Prop} {Throws : StoreError → World → Prop}
    {rest : Int → Store Value}
    (next : ∀ time later, Rely process w later → Invariant host later → time ≤ later.now →
      (grantContract host).Holds process (rest time) Returns Throws later) :
    (grantContract host).Holds process (ask .now >>= rest) Returns Throws w := by
  refine holds_look_then rfl fun now choice answer later relied inv performed further after => ?_
  obtain rfl := (Prod.mk.inj (Option.some.inj performed)).1
  exact next now.now later (relied.trans further) after further.clock

theorem holds_requireMutationLock {key : LockKey} :
    (grantContract host).Holds process (requireMutationLock key) (fun _ later => Rely process w later)
      (fun _ later => Rely process w later) w := by
  refine holds_look_then rfl fun now choice answer later relied _ _ further _ => ?_
  cases answer with
  | true => exact Holds.pure fun after last _ => (relied.trans further).trans last
  | false => exact Holds.throw fun after last _ => (relied.trans further).trans last

variable {states : List GrantState} (owner : Owner) (hash : Digest)

theorem holds_requireOwnerIndexLock :
    (grantContract host).Holds process (requireOwnerIndexLock hash) (fun _ later => Rely process w later)
      (fun _ later => Rely process w later) w := by
  refine holds_look_then rfl fun now choice answer later relied _ _ further _ => ?_
  cases answer with
  | true => exact Holds.pure fun after last _ => (relied.trans further).trans last
  | false => exact Holds.throw fun after last _ => (relied.trans further).trans last

theorem holds_requireActiveState (state : GrantState) :
    (grantContract host).Holds process (requireActiveState state)
      (fun _ later => Rely process w later ∧ state.revokedAt = none) (fun _ later => Rely process w later) w := by
  rw [requireActiveState]
  split_ifs with revoked
  · exact Holds.throw fun after last _ => last
  · have active : state.revokedAt = none := by simpa using revoked
    refine holds_now_then fun time later relied _ _ => ?_
    split_ifs
    · exact Holds.throw fun after last _ => relied.trans last
    · exact Holds.pure fun after last _ => ⟨relied.trans last, active⟩

theorem holds_checked {α : Type} {outcome : Except StoreError α} :
    (grantContract host).Holds process (checked outcome)
      (fun value later => Rely process w later ∧ outcome = .ok value) (fun _ later => Rely process w later) w := by
  cases outcome with
  | ok value => exact Holds.pure fun after last _ => ⟨last, rfl⟩
  | error error => exact Holds.throw fun after last _ => last

/-- What the loop over a membership directory has gathered. -/
structure Collected (process : Nat) (owner : Owner) (grantIds : List GrantId) (w : World) (states : List GrantState)
    (later : World) : Prop where
  relied : Rely process w later
  owned : ∀ state ∈ states, state.owner = owner ∧ state ∈ history later state.grantId
  named : Sublist (states.map GrantState.grantId) grantIds
  seen : ∀ grantId ∈ grantIds, history w grantId ≠ [] → ∀ state, later.states grantId = some state →
    state.revokedAt = none → state.owner = owner → state ∈ states

theorem Collected.mono {owner : Owner} {grantIds : List GrantId} (collected : Collected process owner grantIds w states later)
    (inv : Invariant host later) (next : Invariant host after) (last : Rely process later after) :
    Collected process owner grantIds w states after where
  relied := collected.relied.trans last
  owned state member := by
    have facts := collected.owned state member
    exact ⟨facts.1, (last.toGrown.history_grows _).subset facts.2⟩
  named := collected.named
  seen grantId member born state found active owned := by
    have there := inv.toRecorded.back next.toRecorded last.toGrown (collected.relied.toGrown.born born) found active
    exact collected.seen grantId member born state there active owned

theorem holds_collectStates (grantIds : List GrantId) (w : World) :
    (grantContract host).Holds process (collectStates owner grantIds)
      (fun states later => Collected process owner grantIds w states later) (fun _ later => Rely process w later) w := by
  induction grantIds generalizing w with
  | nil => exact Holds.pure fun after last _ => ⟨last, by simp, Sublist.refl _, by simp⟩
  | cons grantId rest ih =>
    refine (holds_readState grantId).attempt_bind (fun state middle inv seen => ?_) fun error middle inv failed => ?_
    · refine (ih middle).bind (fun others later inv collected => ?_) fun _ _ _ relied => seen.rely.trans relied
      have glimpse := seen.mono collected.relied
      have gathered : Collected process owner (grantId :: rest) w
          (if state.owner = owner then state :: others else others) later := by
        refine ⟨glimpse.rely, ?_, ?_, ?_⟩
        · intro item member
          split_ifs at member with mine
          · rcases mem_cons.mp member with rfl | other
            · rw [glimpse.named]
              exact ⟨mine, glimpse.mem⟩
            · exact collected.owned item other
          · exact collected.owned item member
        · split_ifs
          · rw [map_cons, glimpse.named]
            exact collected.named.cons_cons grantId
          · exact collected.named.cons grantId
        · intro other member born stored found active mine
          rcases mem_cons.mp member with rfl | tail
          · obtain rfl := glimpse.eq_stored inv found active
            rw [if_pos mine]
            exact mem_cons_self
          · have listed := collected.seen other tail (seen.rely.toGrown.born born) stored found active mine
            split_ifs
            · exact mem_cons_of_mem _ listed
            · exact listed
      exact Holds.pure fun after last next => gathered.mono inv next last
    · obtain ⟨relied, regular, absent⟩ := failed
      have skip : Missed host process w grantId middle →
          (grantContract host).Holds process (collectStates owner rest)
            (fun states later => Collected process owner (grantId :: rest) w states later)
            (fun _ later => Rely process w later) middle := by
        intro missed
        refine (ih middle).mono (fun states later inv collected => ?_) fun _ _ _ further => relied.trans further
        refine ⟨relied.trans collected.relied, collected.owned, collected.named.cons grantId, ?_⟩
        intro other member born stored found active mine
        rcases mem_cons.mp member with rfl | tail
        · obtain ⟨now, first, before, none_there, further⟩ := missed
          have whole : Missed host process w other later := ⟨now, first, before, none_there, further.trans collected.relied⟩
          exact absurd active (whole.revoked inv born found)
        · exact collected.seen other tail (relied.toGrown.born born) stored found active mine
      cases error with
      | fault fault =>
        cases fault with
        | enoent => exact skip (absent rfl)
        | failed => exact Holds.throw fun after last _ => relied.trans last
      | malformedGrantState message => exact absurd rfl (regular message)
      | support | ownerIndexLockLost | invalid => exact Holds.throw fun after last _ => relied.trans last

/-- What is known of an owner's states once they were read under the owner's lock. -/
structure Listing (host : Host) (process : Nat) (owner : Owner) (w : World) (states : List GrantState) (later : World) :
    Prop where
  relied : Rely process w later
  owned : ∀ state ∈ states, state.owner = owner ∧ state ∈ history later state.grantId ∧
    Event.enrolled (ownerHash host owner) state.grantId ∈ later.log
  distinct : (states.map GrantState.grantId).Nodup
  covers : w.locks (.owner (ownerHash host owner)) = some process → ∀ state, ActiveMember later (ownerHash host owner) state →
    state.owner = owner → state ∈ states

theorem Listing.mono {owner : Owner} (listing : Listing host process owner w states later) (inv : Invariant host later)
    (next : Invariant host after) (last : Rely process later after) :
    Listing host process owner w states after where
  relied := listing.relied.trans last
  owned state member := by
    have facts := listing.owned state member
    exact ⟨facts.1, (last.toGrown.history_grows _).subset facts.2.1, last.toGrown.mem facts.2.2⟩
  distinct := listing.distinct
  covers held state member owned := by
    have members := (last.owned _ ((listing.relied.locks _).mpr held)).1
    have before := inv.active_back next.toRecorded last.toGrown (members member.listed) member.stored member.active
    exact listing.covers held state ⟨members member.listed, before.1, before.2⟩ owned

theorem holds_readMembership :
    (grantContract host).Holds process (fallible (ask (.readMembership hash)))
      (fun grantIds later => ∃ now, Rely process w now ∧ Invariant host now ∧ Perm grantIds (now.members hash) ∧
        Rely process now later) (fun _ later => Rely process w later) w := by
  refine holds_look_then rfl fun now choice answer later relied inv performed further _ => ?_
  cases answer with
  | ok grantIds =>
    have listed : Perm grantIds (now.members hash) := by
      have performed : perform host process (.readMembership hash) choice now = some (.ok grantIds, now) := performed
      cases choice with
      | listed order =>
        simp only [perform] at performed
        split_ifs at performed with perm
        obtain rfl := Except.ok.inj (Prod.mk.inj (Option.some.inj performed)).1
        exact isPerm_iff.mp perm
      | ok | late | fail =>
        simp only [perform] at performed
        rcases (observe_after performed).2 with same | failed
        · rw [Except.ok.inj same]
        · cases failed
    exact Holds.pure fun after last _ => ⟨now, relied, inv, listed, further.trans last⟩
  | error fault => exact Holds.throw fun after last _ => (relied.trans further).trans last

theorem holds_readOwnerMembershipStates :
    (grantContract host).Holds process (readOwnerMembershipStates host owner)
      (fun states later => Listing host process owner w states later) (fun _ later => Rely process w later) w := by
  refine (holds_readMembership _).bind (fun grantIds middle inv listed => ?_) fun _ _ _ relied => relied
  obtain ⟨now, relied, before, perm, further⟩ := listed
  refine (holds_collectStates owner grantIds middle).mono (fun states later inv collected => ?_)
    fun _ _ _ last => (relied.trans further).trans last
  have whole := (relied.trans further).trans collected.relied
  refine ⟨whole, fun state member => ?_, ?_, fun held state member owned => ?_⟩
  · have facts := collected.owned state member
    have listed := perm.subset (collected.named.subset (mem_map_of_mem member))
    exact ⟨facts.1, facts.2, (further.trans collected.relied).toGrown.mem (before.enrolledMembers _ _ listed)⟩
  · exact collected.named.nodup (perm.nodup_iff.mpr (before.distinctMembers _))
  · have kept := ((further.trans collected.relied).owned _ ((relied.locks _).mpr held)).1 member.listed
    have active := (GrantState.isActive_iff.mp member.active).1
    exact collected.seen state.grantId (perm.symm.subset kept) (further.toGrown.born (before.member_born kept)) state
      member.stored active owned

/-- There is room for one more active grant of the owner. -/
def Room (host : Host) (owner : Owner) (w : World) : Prop := (activeMembers host w owner).length < maxOwnerGrantHistory

theorem holds_requireAvailableOwnerGrantSlot :
    (grantContract host).Holds process (requireAvailableOwnerGrantSlot host owner)
      (fun _ later => Rely process w later ∧
        (w.locks (.owner (ownerHash host owner)) = some process → Room host owner later))
      (fun _ later => Rely process w later) w := by
  refine holds_now_then fun cutoff start relied _ clock => ?_
  refine (holds_readOwnerMembershipStates owner).bind (fun states later inv listing => ?_)
    fun _ _ _ further => relied.trans further
  split_ifs with full
  · exact Holds.throw fun after last _ => (relied.trans listing.relied).trans last
  · refine Holds.pure fun after last next => ⟨(relied.trans listing.relied).trans last, fun held => ?_⟩
    have current := listing.mono inv next last
    have subset : activeMembers host after owner ⊆ (states.filter (·.isActive cutoff)).map GrantState.grantId := by
      intro grantId member
      obtain ⟨listed, state, stored, owned, active⟩ := mem_activeMembers_iff.mp member
      have same := next.toRecorded.named stored
      subst same
      have member := current.covers ((relied.locks _).mpr held) state ⟨listed, stored, active⟩ owned
      have earlier := GrantState.isActive_mono (clock.trans (listing.relied.trans last).clock) active
      exact mem_map_of_mem (mem_filter.mpr ⟨member, earlier⟩)
    have bound := (subperm_of_subset (activeMembers_nodup next.distinctMembers owner) subset).length_le
    rw [length_map] at bound
    exact bound.trans_lt (Nat.lt_of_not_le full)

theorem holds_readOwnerIndexByHash :
    (grantContract host).Holds process (readOwnerIndexByHash hash)
      (fun grantIds later => Rely process w later ∧
        ∀ grantId ∈ grantIds, ∃ written, Event.indexed hash written ∈ later.log ∧ grantId ∈ written)
      (fun _ later => Rely process w later) w := by
  refine holds_look_then rfl fun now choice answer later relied inv performed further _ => ?_
  cases answer with
  | ok grantIds =>
    have performed : observe now _ choice = some (.ok grantIds, now) := performed
    have found : now.index hash = some grantIds := by
      rcases (observe_after performed).2 with same | failed
      · split at same
        · next found => rw [Except.ok.inj same, found]
        · cases same
      · cases failed
    have written := (inv.indexShape hash grantIds found).2.2
    simp only
    split_ifs
    · exact Holds.pure fun after last _ => ⟨(relied.trans further).trans last,
        fun grantId member => ⟨grantIds, (further.trans last).toGrown.mem written, member⟩⟩
    · exact Holds.throw fun after last _ => (relied.trans further).trans last
  | error fault =>
    cases fault with
    | enoent => exact Holds.pure fun after last _ => ⟨(relied.trans further).trans last, by simp⟩
    | failed => exact Holds.throw fun after last _ => (relied.trans further).trans last

end Remnic.SupportPassport.GrantReads
