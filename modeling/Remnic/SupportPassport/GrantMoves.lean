import Remnic.SupportPassport.GrantGuard

/-!
The moves that change a file, one rule for each: what a call must know before it
for the invariant and for the others. The rules make the contract of the store.
-/

namespace Remnic.SupportPassport.GrantMoves
open Library.Interleaving Text.CodeUnits Grants GrantStore GrantHistory GrantGuard List Option Function

variable {host : Host} {w later : World} {process : Nat}

section Land

variable {state : GrantState}

theorem grown_land (w : World) (state : GrantState) : Grown w (w.land state) where
  clock := le_rfl
  log := prefix_append _ _
  vanished grantId absent same := by
    have other : state.grantId ≠ grantId := by
      intro named
      rw [history_land, if_pos named] at same
      exact cons_ne_nil _ _ (append_right_eq_self.mp same)
    simp only [World.land, update_of_ne other.symm, absent]

theorem recorded_land (recorded : Recorded w) (lineage : Lineage (history w state.grantId ++ [state]))
    (drew : ∃ drawer, Drew w drawer state.grantId) : Recorded (w.land state) where
  lineage grantId := by
    rw [history_land]
    split_ifs with same
    · rw [← same]
      exact lineage
    · rw [append_nil]
      exact recorded.lineage grantId
  stored grantId stored found := by
    rw [history_land]
    by_cases same : state.grantId = grantId
    · subst same
      simp only [World.land, update_self, some.injEq] at found
      rw [if_pos rfl, getLast?_append, found]
      rfl
    · simp only [World.land, update_of_ne (Ne.symm same)] at found
      rw [if_neg same, append_nil]
      exact recorded.stored grantId stored found
  born grantId born := by
    by_cases same : state.grantId = grantId
    · subst same
      obtain ⟨drawer, drew⟩ := drew
      exact ⟨drawer, (grown_land w state).drew drew⟩
    · rw [history_land, if_neg same, append_nil] at born
      obtain ⟨drawer, drew⟩ := recorded.born grantId born
      exact ⟨drawer, (grown_land w state).drew drew⟩

theorem mem_land {event : Event} (member : event ∈ (w.land state).log) : event ∈ w.log ∨ event = .landed state := by
  rw [World.land, mem_append, mem_singleton] at member
  exact member

theorem permitted_land (inv : Invariant host w) (lineage : Lineage (history w state.grantId ++ [state]))
    (drew : ∃ drawer, Drew w drawer state.grantId)
    (alone : ∀ other, other ≠ process → Drew w other state.grantId → history w state.grantId ≠ [])
    (locked : ∀ other, other ≠ process → w.locks (.grant state.grantId) = some other → history w state.grantId = []) :
    Permitted host process w (w.land state) := by
  have grown := grown_land w state
  have after := recorded_land inv.toRecorded lineage drew
  constructor
  · apply inv.next after grown
    · intro event member
      refine (mem_land member).imp_right fun landed => ?_
      subst landed
      trivial
    · exact fun hash => Sublist.refl _
    · rfl
    · exact fun hash grantId stored member _ _ => member
  · intro other differs
    refine {
      toGrown := grown
      silent := fun event mine member => (mem_land member).resolve_right fun landed => by subst landed; cases mine
      locks := fun key => Iff.rfl
      reserved := fun grantId mine empty => ?_
      unenrolled := fun grantId _ absent hash member =>
        absent hash ((mem_land member).resolve_right fun landed => by cases landed)
      granted := fun grantId held born => ?_
      owned := fun hash _ => ⟨Subset.refl _, rfl⟩ }
    · have elsewhere : state.grantId ≠ grantId := by
        intro same
        subst same
        exact alone other differs mine empty
      rw [history_land, if_neg elsewhere, append_nil, empty]
    · have elsewhere : state.grantId ≠ grantId := by
        intro same
        subst same
        exact born (locked other differs held)
      rw [history_land, if_neg elsewhere, append_nil]

theorem permitted_create (inv : Invariant host w) (distinct : DistinctIds w) (drew : Drew w process state.grantId)
    (unborn : history w state.grantId = []) (active : state.revokedAt = none) (first : state.stateVersion = 1) :
    Permitted host process w (w.land state) := by
  apply permitted_land inv (Lineage.grow_created unborn active first) ⟨process, drew⟩
  · intro other differs theirs
    exact absurd (theirs.unique distinct drew) differs
  · exact fun _ _ _ => unborn

theorem permitted_revoke (inv : Invariant host w) (held : w.locks (.grant state.grantId) = some process)
    (only : history w state.grantId = [state]) (active : state.revokedAt = none) (time : Int) :
    Permitted host process w (w.land (state.revokedAs time)) := by
  have born : history w state.grantId ≠ [] := by
    rw [only]
    exact cons_ne_nil _ _
  have lineage : Lineage (history w (state.revokedAs time).grantId ++ [state.revokedAs time]) :=
    (inv.lineage state.grantId).grow_revoked only active time
  have drew : ∃ drawer, Drew w drawer (state.revokedAs time).grantId := inv.born _ born
  apply permitted_land inv lineage drew
  · exact fun _ _ _ => born
  · intro other differs theirs
    rw [GrantState.revokedAs_grantId, held] at theirs
    exact absurd (some.inj theirs).symm differs

end Land

section Remove

variable {grantId : GrantId}

theorem history_remove (w : World) (process : Nat) (grantId other : GrantId) :
    history (w.remove process grantId) other = history w other := by
  simp only [history, World.remove, filterMap_append, filterMap_cons, filterMap_nil, landedAs,
    append_nil]

theorem grown_remove (w : World) (process : Nat) (grantId : GrantId) : Grown w (w.remove process grantId) where
  clock := le_rfl
  log := prefix_append _ _
  vanished other absent _ := by
    simp only [World.remove, update_apply, absent, ite_self]

theorem mem_remove {event : Event} (member : event ∈ (w.remove process grantId).log) :
    event ∈ w.log ∨ event = .removed process grantId (w.states grantId) w.now := by
  rw [World.remove, mem_append, mem_singleton] at member
  exact member

theorem remove_states {other : GrantId} {state : GrantState} (found : (w.remove process grantId).states other = some state) :
    w.states other = some state := by
  simp only [World.remove, update_apply] at found
  split_ifs at found
  exact found

theorem permitted_remove (inv : Invariant host w)
    (spent : ∀ state, w.states grantId = some state → state.isActive w.now = true → Drew w process grantId) :
    Permitted host process w (w.remove process grantId) := by
  have grown := grown_remove w process grantId
  have after : Recorded (w.remove process grantId) := {
    lineage := fun other => by
      rw [history_remove]
      exact inv.lineage other
    stored := fun other state found => by
      rw [history_remove]
      exact inv.stored other state (remove_states found)
    born := fun other born => by
      rw [history_remove] at born
      obtain ⟨drawer, drew⟩ := inv.born other born
      exact ⟨drawer, grown.drew drew⟩ }
  constructor
  · apply inv.next after grown
    · intro event member
      refine (mem_remove member).imp_right fun removed => ?_
      subst removed
      cases found : w.states grantId with
      | none => trivial
      | some state => exact fun active => grown.drew (spent state found active)
    · exact fun hash => Sublist.refl _
    · rfl
    · exact fun hash other state member _ _ => member
  · intro other differs
    apply Rely.next grown
    · intro event mine member
      refine (mem_remove member).resolve_right fun removed => ?_
      subst removed
      exact differs (some.inj mine).symm
    · exact fun key => Iff.rfl
    · exact history_remove w process grantId
    · intro hash enrolled member
      exact (mem_remove member).resolve_right fun removed => by cases removed
    · exact fun hash => Subset.refl _
    · rfl

end Remove

section Members

variable {hash : Digest} {grantId : GrantId}

theorem history_enroll (w : World) (hash : Digest) (grantId other : GrantId) :
    history (w.enroll hash grantId) other = history w other := by
  simp only [history, World.enroll, filterMap_append, filterMap_cons, filterMap_nil, landedAs,
    append_nil]

theorem grown_enroll (w : World) (hash : Digest) (grantId : GrantId) : Grown w (w.enroll hash grantId) where
  clock := le_rfl
  log := prefix_append _ _
  vanished _ absent _ := absent

theorem mem_enroll {event : Event} (member : event ∈ (w.enroll hash grantId).log) :
    event ∈ w.log ∨ event = .enrolled hash grantId := by
  rw [World.enroll, mem_append, mem_singleton] at member
  exact member

theorem mem_enroll_members {other : Digest} {member : GrantId} (listed : member ∈ (w.enroll hash grantId).members other) :
    member ∈ w.members other ∨ other = hash ∧ member = grantId := by
  simp only [World.enroll, update_apply] at listed
  split_ifs at listed with same
  · subst same
    rcases mem_insert_iff.mp listed with new | old
    · exact .inr ⟨rfl, new⟩
    · exact .inl old
  · exact .inl listed

theorem enroll_members {other : Digest} {member : GrantId} (listed : member ∈ w.members other) :
    member ∈ (w.enroll hash grantId).members other := by
  simp only [World.enroll, update_apply]
  split_ifs with same
  · subst same
    exact mem_insert_of_mem listed
  · exact listed

theorem recorded_of_same (recorded : Recorded w) (grown : Grown w later)
    (histories : ∀ grantId, history later grantId = history w grantId) (states : later.states = w.states) :
    Recorded later where
  lineage other := by
    rw [histories]
    exact recorded.lineage other
  stored other state found := by
    rw [histories]
    rw [states] at found
    exact recorded.stored other state found
  born other born := by
    rw [histories] at born
    obtain ⟨drawer, drew⟩ := recorded.born other born
    exact ⟨drawer, grown.drew drew⟩

theorem activeMembers_enroll_length (inv : Invariant host w) {owner : Owner}
    (room : ∀ state, w.states grantId = some state → state.owner = owner → ownerHash host owner = hash →
      (activeMembers host w owner).length < maxOwnerGrantHistory) :
    (activeMembers host (w.enroll hash grantId) owner).length ≤ maxOwnerGrantHistory := by
  have subset : activeMembers host (w.enroll hash grantId) owner ⊆ grantId :: activeMembers host w owner := by
    intro member listed
    obtain ⟨listed, active⟩ := mem_activeMembers_iff.mp listed
    rcases mem_enroll_members listed with old | new
    · exact mem_cons_of_mem _ (mem_activeMembers_iff.mpr ⟨old, active⟩)
    · rw [new.2]
      exact mem_cons_self
  have distinct : ∀ other, ((w.enroll hash grantId).members other).Nodup := by
    intro other
    simp only [World.enroll, update_apply]
    split_ifs
    · exact (inv.distinctMembers hash).insert
    · exact inv.distinctMembers other
  by_cases counted : grantId ∈ activeMembers host (w.enroll hash grantId) owner ∧ grantId ∉ w.members (ownerHash host owner)
  · obtain ⟨listed, state, stored, owned, _⟩ := mem_activeMembers_iff.mp counted.1
    have here := (mem_enroll_members listed).resolve_left counted.2
    have bound := (subperm_of_subset (activeMembers_nodup distinct owner) subset).length_le
    have free := room state stored owned here.1
    rw [length_cons] at bound
    omega
  · have within : activeMembers host (w.enroll hash grantId) owner ⊆ activeMembers host w owner := by
      intro member listed
      rcases mem_cons.mp (subset listed) with new | old
      · subst new
        have before : member ∈ w.members (ownerHash host owner) := by
          by_contra absent
          exact counted ⟨listed, absent⟩
        exact mem_activeMembers_iff.mpr ⟨before, (mem_activeMembers_iff.mp listed).2⟩
      · exact old
    exact (activeMembers_length_le distinct within).trans (inv.capped owner)

/-- A grant joins the membership directory of its owner, under the owner's lock, once and while
there is room. -/
theorem permitted_enroll (inv : Invariant host w) (distinct : DistinctIds w) (drew : Drew w process grantId)
    (held : w.locks (.owner hash) = some process) (absent : ∀ other, Event.enrolled other grantId ∉ w.log)
    (born : ∃ state ∈ history w grantId, ownerHash host state.owner = hash)
    (room : ∀ owner state, w.states grantId = some state → state.owner = owner → ownerHash host owner = hash →
      (activeMembers host w owner).length < maxOwnerGrantHistory) :
    Permitted host process w (w.enroll hash grantId) := by
  have grown := grown_enroll w hash grantId
  have after := recorded_of_same inv.toRecorded grown (history_enroll w hash grantId) rfl
  have indexed : ∀ other grantIds, Event.indexed other grantIds ∈ (w.enroll hash grantId).log →
      Event.indexed other grantIds ∈ w.log :=
    fun other grantIds member => (mem_enroll member).resolve_right fun same => by cases same
  constructor
  · refine {
      toRecorded := after
      distinctMembers := ?_
      enrolledMembers := ?_
      enrolledBorn := ?_
      memberKept := ?_
      indexedEnrolled := fun other grantIds member written listed =>
        grown.mem (inv.indexedEnrolled other grantIds member (indexed other grantIds written) listed)
      indexShape := ?_
      capped := fun owner => activeMembers_enroll_length inv fun state => room owner state
      listed := ?_
      removals := ?_ }
    · intro other
      simp only [World.enroll, update_apply]
      split_ifs
      · exact (inv.distinctMembers hash).insert
      · exact inv.distinctMembers other
    · intro other member listed
      rcases mem_enroll_members listed with old | ⟨rfl, rfl⟩
      · exact grown.mem (inv.enrolledMembers other member old)
      · exact mem_append_right _ (mem_singleton_self _)
    · intro other member listed
      rcases mem_enroll listed with old | new
      · obtain ⟨state, recorded, owned⟩ := inv.enrolledBorn other member old
        exact ⟨state, (grown.history_grows member).subset recorded, owned⟩
      · obtain ⟨rfl, rfl⟩ := Event.enrolled.inj new
        obtain ⟨state, recorded, owned⟩ := born
        exact ⟨state, (grown.history_grows _).subset recorded, owned⟩
    · intro other member state listed stored active
      rcases mem_enroll listed with old | new
      · exact enroll_members (inv.memberKept other member state old stored active)
      · obtain ⟨rfl, rfl⟩ := Event.enrolled.inj new
        simp only [World.enroll, update_self]
        exact mem_insert_self
    · intro other grantIds found
      obtain ⟨nodup, short, written⟩ := inv.indexShape other grantIds found
      exact ⟨nodup, short, grown.mem written⟩
    · intro apart other state member written
      obtain ⟨grantIds, written, listed⟩ := written
      have before := indexed other grantIds written
      have old : state.grantId ∈ w.members other := by
        rcases mem_enroll_members member.listed with old | ⟨rfl, same⟩
        · exact old
        · rw [same] at listed
          exact absurd (inv.indexedEnrolled other grantIds grantId before listed) (absent other)
      exact inv.listed (apart.back grown) other state ⟨old, member.stored, member.active⟩ ⟨grantIds, before, listed⟩
    · intro remover member state time removed active
      have before := (mem_enroll removed).resolve_right fun same => by cases same
      exact grown.drew (inv.removals remover member state time before active)
  · intro other differs
    refine {
      toGrown := grown
      silent := fun event mine member => (mem_enroll member).resolve_right fun same => by subst same; cases mine
      locks := fun key => Iff.rfl
      reserved := fun _ _ empty => by rw [history_enroll, empty]
      unenrolled := fun member theirs fresh place listed => ?_
      granted := fun _ _ _ => history_enroll _ _ _ _
      owned := fun place theirs => ?_ }
    · refine fresh place ((mem_enroll listed).resolve_right fun same => ?_)
      obtain ⟨_, rfl⟩ := Event.enrolled.inj same
      exact differs (theirs.unique distinct drew)
    · have elsewhere : place ≠ hash := by
        intro same
        subst same
        rw [held] at theirs
        exact differs (some.inj theirs).symm
      refine ⟨fun member listed => ?_, rfl⟩
      exact (mem_enroll_members listed).resolve_right fun new => elsewhere new.1

theorem grown_dismiss (w : World) (hash : Digest) (grantId : GrantId) : Grown w (w.dismiss hash grantId) :=
  ⟨le_rfl, prefix_rfl, fun _ absent _ => absent⟩

theorem dismiss_members (other : Digest) : Sublist ((w.dismiss hash grantId).members other) (w.members other) := by
  simp only [World.dismiss, update_apply]
  split_ifs with same
  · subst same
    exact filter_sublist
  · exact Sublist.refl _

theorem permitted_dismiss (inv : Invariant host w)
    (gone : ∀ state, w.states grantId = some state → state.revokedAt.isSome = true) :
    Permitted host process w (w.dismiss hash grantId) := by
  have grown := grown_dismiss w hash grantId
  constructor
  · apply inv.next (recorded_of_same inv.toRecorded grown (fun _ => rfl) rfl) grown
    · exact fun event member => .inl member
    · exact dismiss_members
    · rfl
    · intro other member state listed stored active
      simp only [World.dismiss, update_apply]
      split_ifs with same
      · subst same
        refine mem_filter.mpr ⟨listed, decide_eq_true ?_⟩
        rintro rfl
        have since := gone state stored
        rw [active] at since
        cases since
      · exact listed
  · intro other differs
    exact Rely.next grown (fun _ _ member => member) (fun _ => Iff.rfl) (fun _ => rfl) (fun _ _ member => member)
      (fun place => (dismiss_members place).subset) rfl

end Members

section Index

variable {hash : Digest} {grantIds : List GrantId}

theorem history_setIndex (w : World) (hash : Digest) (grantIds : List GrantId) (other : GrantId) :
    history (w.setIndex hash grantIds) other = history w other := by
  simp only [history, World.setIndex, filterMap_append, filterMap_cons, filterMap_nil, landedAs,
    append_nil]

theorem grown_setIndex (w : World) (hash : Digest) (grantIds : List GrantId) : Grown w (w.setIndex hash grantIds) where
  clock := le_rfl
  log := prefix_append _ _
  vanished _ absent _ := absent

theorem mem_setIndex {event : Event} (member : event ∈ (w.setIndex hash grantIds).log) :
    event ∈ w.log ∨ event = .indexed hash grantIds := by
  rw [World.setIndex, mem_append, mem_singleton] at member
  exact member

/-- An index is written under the owner's lock, within its bounds, and with every active member. -/
theorem permitted_setIndex (inv : Invariant host w) (held : w.locks (.owner hash) = some process)
    (nodup : grantIds.Nodup) (short : grantIds.length ≤ maxOwnerGrantHistory)
    (enrolled : ∀ grantId ∈ grantIds, Event.enrolled hash grantId ∈ w.log)
    (covers : NoCollision host w → ∀ state, ActiveMember w hash state → state.grantId ∈ grantIds) :
    Permitted host process w (w.setIndex hash grantIds) := by
  have grown := grown_setIndex w hash grantIds
  have after := recorded_of_same inv.toRecorded grown (history_setIndex w hash grantIds) rfl
  have old : ∀ other grantId, Event.enrolled other grantId ∈ (w.setIndex hash grantIds).log →
      Event.enrolled other grantId ∈ w.log :=
    fun other grantId member => (mem_setIndex member).resolve_right fun same => by cases same
  constructor
  · refine {
      toRecorded := after
      distinctMembers := inv.distinctMembers
      enrolledMembers := fun other member listed => grown.mem (inv.enrolledMembers other member listed)
      enrolledBorn := fun other member listed => ?_
      memberKept := fun other member state listed => inv.memberKept other member state (old other member listed)
      indexedEnrolled := ?_
      indexShape := ?_
      capped := inv.capped
      listed := ?_
      removals := ?_ }
    · obtain ⟨state, recorded, owned⟩ := inv.enrolledBorn other member (old other member listed)
      exact ⟨state, (grown.history_grows member).subset recorded, owned⟩
    · intro other written member event listed
      rcases mem_setIndex event with before | new
      · exact grown.mem (inv.indexedEnrolled other written member before listed)
      · obtain ⟨rfl, rfl⟩ := Event.indexed.inj new
        exact grown.mem (enrolled member listed)
    · intro other written found
      simp only [World.setIndex, update_apply] at found
      split_ifs at found with same
      · subst same
        obtain rfl := some.inj found
        exact ⟨nodup, short, mem_append_right _ (mem_singleton_self _)⟩
      · obtain ⟨nodup, short, before⟩ := inv.indexShape other written found
        exact ⟨nodup, short, grown.mem before⟩
    · intro apart other state member written
      simp only [World.setIndex, update_apply]
      split_ifs with same
      · subst same
        exact ⟨grantIds, rfl, covers (apart.back grown) state ⟨member.listed, member.stored, member.active⟩⟩
      · obtain ⟨earlier, event, listed⟩ := written
        have before := (mem_setIndex event).resolve_right fun new => same (Event.indexed.inj new).1
        exact inv.listed (apart.back grown) other state ⟨member.listed, member.stored, member.active⟩
          ⟨earlier, before, listed⟩
    · intro remover member state time removed active
      have before := (mem_setIndex removed).resolve_right fun same => by cases same
      exact grown.drew (inv.removals remover member state time before active)
  · intro other differs
    refine {
      toGrown := grown
      silent := fun event mine member => (mem_setIndex member).resolve_right fun same => by subst same; cases mine
      locks := fun key => Iff.rfl
      reserved := fun _ _ empty => by rw [history_setIndex, empty]
      unenrolled := fun member _ absent place listed => absent place (old place member listed)
      granted := fun _ _ _ => history_setIndex _ _ _ _
      owned := fun place theirs => ⟨Subset.refl _, ?_⟩ }
    have elsewhere : place ≠ hash := by
      intro same
      subst same
      rw [held] at theirs
      exact differs (some.inj theirs).symm
    simp only [World.setIndex, update_of_ne elsewhere]

end Index

end Remnic.SupportPassport.GrantMoves
