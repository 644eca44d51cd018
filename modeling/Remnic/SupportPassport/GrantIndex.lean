import Remnic.SupportPassport.GrantWrites

/-!
The index of an owner: which grants stay when a new one is added, and what an
operation that ends well has left in the index.
-/

namespace Remnic.SupportPassport.GrantIndex
open Library.Interleaving Library.Interleaving.Contract Text.CodeUnits Grants GrantStore GrantHistory GrantGuard GrantMoves List
open GrantContract GrantReads GrantWrites

variable {host : Host} {w later : World} {process : Nat} {state : GrantState}

theorem sortNewest_perm (states : List GrantState) : Perm (sortNewest states) states :=
  mergeSort_perm states newestGrantFirst

/-- A selection that keeps every active grant, within a bound. -/
structure Retains (states : List GrantState) (cutoff : Int) (retained : List GrantState) (limit : Nat) : Prop where
  active : ∀ state ∈ states, state.isActive cutoff = true → state ∈ retained
  subset : ∀ state ∈ retained, state ∈ states
  nodup : (states.map GrantState.grantId).Nodup → (retained.map GrantState.grantId).Nodup
  short : retained.length ≤ limit

variable {retained : List GrantState} {limit : Nat} {states : List GrantState} {cutoff : Int}

theorem retains_take (states : List GrantState) (cutoff : Int) {room : Nat}
    (fits : (states.filter (·.isActive cutoff)).length + room ≤ limit) :
    Retains states cutoff
      (states.filter (·.isActive cutoff) ++ (sortNewest (states.filter fun state => !state.isActive cutoff)).take room)
      limit where
  active state member active := mem_append_left _ (mem_filter.mpr ⟨member, active⟩)
  subset state member := by
    rcases mem_append.mp member with active | inactive
    · exact (mem_filter.mp active).1
    · exact (mem_filter.mp ((sortNewest_perm _).subset (mem_of_mem_take inactive))).1
  nodup distinct := by
    have sorted := (sortNewest_perm (states.filter fun state => !state.isActive cutoff)).append_left
      (states.filter (·.isActive cutoff))
    have whole := (sorted.trans (filter_append_perm _ states)).map GrantState.grantId
    have shorter : Sublist
        (states.filter (·.isActive cutoff) ++ (sortNewest (states.filter fun state => !state.isActive cutoff)).take room)
        (states.filter (·.isActive cutoff) ++ sortNewest (states.filter fun state => !state.isActive cutoff)) :=
      (Sublist.refl _).append (take_sublist _ _)
    exact (shorter.map GrantState.grantId).nodup (whole.nodup_iff.mpr distinct)
  short := by
    rw [length_append, length_take]
    omega

theorem retains_all (few : states.length ≤ limit) : Retains states cutoff states limit :=
  ⟨fun _ member _ => member, fun _ member => member, id, few⟩

theorem retainedBesides_ok {others : List GrantState} (kept : retainedBesides others cutoff = .ok retained) :
    Retains others cutoff retained (maxOwnerGrantHistory - 1) := by
  simp only [retainedBesides] at kept
  split_ifs at kept with full
  obtain rfl := Except.ok.inj kept
  apply retains_take
  omega

theorem retainedOwnerStates_ok (kept : retainedOwnerStates states cutoff = .ok retained) :
    Retains states cutoff retained maxOwnerGrantHistory := by
  simp only [retainedOwnerStates] at kept
  split_ifs at kept with full
  obtain rfl := Except.ok.inj kept
  apply retains_take
  omega

theorem Retains.spent (retains : Retains states cutoff retained limit) (passed : cutoff ≤ w.now)
    (recorded : ∀ item ∈ states, item ∈ history w item.grantId) {grantIds : List GrantId}
    (listed : ∀ item ∈ retained, item.grantId ∈ grantIds) :
    AllSpent process w (states.filter fun item => decide (item.grantId ∉ grantIds)) := by
  intro item member
  obtain ⟨member, dropped⟩ := mem_filter.mp member
  have here := recorded item member
  refine ⟨.inr ⟨item, here, ?_⟩, ne_nil_of_mem here⟩
  by_contra active
  have earlier := GrantState.isActive_mono passed (by simpa using active)
  exact of_decide_eq_true dropped (listed item (retains.active item member earlier))

theorem active_member_owner (inv : Invariant host w) (apart : NoCollision host w) {member : GrantState}
    (active : ActiveMember w (ownerHash host state.owner) member) (recorded : state ∈ history w state.grantId) :
    member.owner = state.owner := by
  obtain ⟨first, listed, hashed⟩ := inv.enrolledBorn _ _ (inv.enrolledMembers _ _ active.listed)
  have same := (inv.lineage member.grantId).owner_eq (inv.toRecorded.mem active.stored) listed
  rw [same]
  exact apart first state (mem_history_iff.mp listed).1 (mem_history_iff.mp recorded).1 hashed

/-- What `create` knows of a grant once it is stored and listed. -/
structure Committed (host : Host) (process : Nat) (w : World) (state : GrantState) : Prop where
  drew : Drew w process state.grantId
  recorded : state ∈ history w state.grantId
  enrolled : Event.enrolled (ownerHash host state.owner) state.grantId ∈ w.log

theorem Committed.mono (grown : Grown w later) (committed : Committed host process w state) :
    Committed host process later state :=
  ⟨grown.drew committed.drew, (grown.history_grows _).subset committed.recorded, grown.mem committed.enrolled⟩

theorem Committed.spent (committed : Committed host process w state) :
    Spent process w state.grantId ∧ history w state.grantId ≠ [] :=
  ⟨.inl committed.drew, ne_nil_of_mem committed.recorded⟩

theorem holds_retainedOthers (others : List GrantState) :
    (grantContract host).Holds process (retainedOthers others)
      (fun retained later => Rely process w later ∧
        ∃ cutoff, cutoff ≤ later.now ∧ Retains others cutoff retained (maxOwnerGrantHistory - 1))
      (fun _ later => Rely process w later) w := by
  rw [retainedOthers]
  split_ifs with full
  · refine holds_now_then fun cutoff middle relied _ passed => ?_
    refine holds_checked.mono (fun retained later _ kept => ?_) fun _ _ _ further => relied.trans further
    exact ⟨relied.trans kept.1, cutoff, passed.trans kept.1.clock, retainedBesides_ok kept.2⟩
  · refine Holds.pure fun after last _ => ⟨last, after.now, le_rfl, retains_all ?_⟩
    omega

theorem holds_addToOwnerIndex (committed : Committed host process w state)
    (held : w.locks (.owner (ownerHash host state.owner)) = some process) :
    (grantContract host).Holds process (addToOwnerIndex host state)
      (fun _ later => Kept process w later ∧ Indexed later (ownerHash host state.owner) state.grantId)
      (fun _ later => Kept process w later) w := by
  refine (holds_readOwnerMembershipStates state.owner).bind (fun members first inv listing => ?_)
    fun _ _ _ relied => Kept.of_rely relied
  refine (holds_retainedOthers _).bind (fun retained second next chosen => ?_)
    fun _ _ _ relied => Kept.of_rely (listing.relied.trans relied)
  obtain ⟨relied, cutoff, passed, retains⟩ := chosen
  have current := listing.mono inv next relied
  have here := committed.mono current.relied.toGrown
  have others : ∀ item ∈ sortNewest (members.filter fun item => decide (item.grantId ≠ state.grantId)),
      item ∈ members ∧ item.grantId ≠ state.grantId := by
    intro item member
    obtain ⟨member, differs⟩ := mem_filter.mp ((sortNewest_perm _).subset member)
    exact ⟨member, of_decide_eq_true differs⟩
  have distinct : ((sortNewest (members.filter fun item => decide (item.grantId ≠ state.grantId))).map
      GrantState.grantId).Nodup := by
    rw [((sortNewest_perm _).map GrantState.grantId).nodup_iff]
    exact (filter_sublist.map GrantState.grantId).nodup current.distinct
  have indexable : Indexable host process second (ownerHash host state.owner)
      (retained.map GrantState.grantId ++ [state.grantId]) := by
    refine ⟨(current.relied.locks _).mpr held, ?_, ?_, ?_, ?_⟩
    · rw [nodup_append]
      refine ⟨retains.nodup distinct, nodup_singleton _, fun left leftIn right rightIn => ?_⟩
      obtain ⟨item, member, rfl⟩ := mem_map.mp leftIn
      rw [mem_singleton.mp rightIn]
      exact (others item (retains.subset item member)).2
    · have short := retains.short
      rw [length_append, length_map, length_singleton]
      simp only [maxOwnerGrantHistory] at short ⊢
      omega
    · intro grantId member
      rcases mem_append.mp member with kept | own
      · obtain ⟨item, picked, rfl⟩ := mem_map.mp kept
        exact (current.owned item (others item (retains.subset item picked)).1).2.2
      · rw [mem_singleton.mp own]
        exact here.enrolled
    · intro apart item active
      have owned := active_member_owner next apart active here.recorded
      have member := current.covers held item active owned
      by_cases same : item.grantId = state.grantId
      · rw [same]
        exact mem_append_right _ (mem_singleton_self _)
      · have listed : item ∈ sortNewest (members.filter fun item => decide (item.grantId ≠ state.grantId)) :=
          (sortNewest_perm _).symm.subset (mem_filter.mpr ⟨member, decide_eq_true same⟩)
        have stays := retains.active item listed (GrantState.isActive_mono passed active.active)
        exact mem_append_left _ (mem_map_of_mem stays)
  refine (holds_writeOwnerIndexWhileLocked next indexable).bind (fun _ third _ written => ?_)
    fun _ _ _ kept => (Kept.of_rely current.relied).trans kept
  have before := (Kept.of_rely current.relied).trans written.1
  have spent : AllSpent process third ((sortNewest (members.filter fun item => decide (item.grantId ≠ state.grantId))).filter
      fun item => decide (item.grantId ∉ retained.map GrantState.grantId ++ [state.grantId])) := by
    apply Retains.spent retains (passed.trans written.1.clock)
    · intro item member
      exact (written.1.history_grows _).subset (current.owned item (others item member).1).2.1
    · exact fun item member => mem_append_left _ (mem_map_of_mem member)
  have indexed : Indexed third (ownerHash host state.owner) state.grantId :=
    ⟨_, written.2, mem_append_right _ (mem_singleton_self _)⟩
  have ends : ∀ fourth, Kept process third fourth → ∀ after, Rely process fourth after →
      Kept process w after ∧ Indexed after (ownerHash host state.owner) state.grantId := fun _ kept _ last =>
    ⟨before.trans (kept.trans (Kept.of_rely last)), indexed.mono (kept.toGrown.trans last.toGrown)⟩
  exact (holds_removeAllLocked _ third spent).attempt_bind (fun _ _ _ kept => Holds.pure fun _ last _ => ends _ kept _ last)
    fun _ _ _ kept => Holds.pure fun _ last _ => ends _ kept _ last

theorem holds_indexCommitted {committed : Created} (known : Committed host process w committed.state)
    (held : w.locks (.owner (ownerHash host committed.state.owner)) = some process) :
    (grantContract host).Holds process (indexCommitted host committed)
      (fun _ later => Grown w later ∧ Indexed later (ownerHash host committed.state.owner) committed.state.grantId)
      (fun _ later => Grown w later) w := by
  refine (holds_addToOwnerIndex known held).attempt_bind (fun _ _ _ done => ?_) fun error first _ before => ?_
  · exact Holds.pure fun after last _ => ⟨done.1.toGrown.trans last.toGrown, done.2.mono last.toGrown⟩
  cases error with
  | ownerIndexLockLost => exact Holds.throw fun after last _ => before.toGrown.trans last.toGrown
  | support | malformedGrantState | invalid | fault =>
    refine (holds_readOwnerIndexByHash _).attempt_bind (fun indexed second _ listing => ?_) fun _ _ _ relied =>
      Holds.throw fun after last _ => before.toGrown.trans (relied.trans last).toGrown
    have grown := before.toGrown.trans listing.1.toGrown
    simp only
    split_ifs with member
    · have listed : Indexed second (ownerHash host committed.state.owner) committed.state.grantId := listing.2 _ member
      refine (holds_outside .syncDirectory).attempt_bind (fun _ third _ relied => ?_) fun _ _ _ relied =>
        Holds.throw fun after last _ => grown.trans (relied.trans last).toGrown
      refine (holds_requireOwnerIndexLock _).mono (fun _ later _ further => ?_)
        fun _ _ _ further => grown.trans (relied.trans further).toGrown
      exact ⟨grown.trans (relied.trans further).toGrown, listed.mono (relied.trans further).toGrown⟩
    · exact Holds.throw fun after last _ => grown.trans last.toGrown

end Remnic.SupportPassport.GrantIndex
