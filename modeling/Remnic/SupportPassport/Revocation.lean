import Remnic.SupportPassport.GrantCreate

/-!
The life of a share link in any interleaving of calls: what an authentication or
a revocation that ends well has seen, and that a revocation is final.
-/

namespace Remnic.SupportPassport.Revocation
open Library.Interleaving Library.Interleaving.Contract Text.CodeUnits Grants GrantStore GrantHistory GrantGuard GrantMoves List Option
open GrantContract GrantReads GrantWrites GrantCreate

variable {host : Host} {w later : World} {process : Nat} {state : GrantState}

variable {grantId : GrantId} (raw space secret principal : JsString) (expectedStateVersion : Option Nat)

theorem grantIdOf_of_normalizeGrantId {raw : JsString} (normal : normalizeGrantId raw = .ok grantId) :
    grantIdOf raw = some grantId := by
  simp only [normalizeGrantId] at normal
  split at normal
  · next found => rw [found, Except.ok.inj normal]
  · cases normal

theorem holds_authenticate :
    (grantContract host).Holds process (authenticate host raw secret)
      (fun state later => Rely process w later ∧ grantIdOf raw = some state.grantId ∧ ¬ Revoked w.log state.grantId)
      (fun _ later => Rely process w later) w := by
  refine holds_checked.bind (fun grantId first _ normal => ?_) fun _ _ _ relied => relied
  have named := grantIdOf_of_normalizeGrantId normal.2
  split_ifs
  · exact Holds.throw fun after last _ => normal.1.trans last
  · refine (holds_readState grantId).attempt_bind (fun state second _ seen => ?_) fun error _ _ failed => ?_
    rotate_left
    · have relied := normal.1.trans failed.1
      cases error with
      | fault fault => cases fault <;> exact Holds.throw fun after last _ => relied.trans last
      | support | malformedGrantState | invalid | ownerIndexLockLost => exact Holds.throw fun after last _ => relied.trans last
    · have relied := normal.1.trans seen.rely
      simp only
      split_ifs
      · exact Holds.throw fun after last _ => relied.trans last
      · refine (holds_requireActiveState state).bind (fun _ third _ active => ?_) fun _ _ _ further => relied.trans further
        refine Holds.pure fun after last _ => ⟨(relied.trans active.1).trans last, ?_, ?_⟩
        · rw [seen.named, named]
        · rw [seen.named]
          exact fun revoked => seen.not_revoked active.2 (normal.1.toGrown.revoked revoked)

/-- What `withAuthenticatedGrant` has gone through when it returns. -/
def ActedBefore (process : Nat) (raw : JsString) (log : List Event) : Prop :=
  ∃ grantId before after, grantIdOf raw = some grantId ∧ log = before ++ .actionEnded process :: after ∧
    Event.actionStarted process ∈ before ∧ ¬ Revoked before grantId

theorem ActedBefore.mono {raw : JsString} (grown : Grown w later) (acted : ActedBefore process raw w.log) :
    ActedBefore process raw later.log := by
  obtain ⟨grantId, before, after, named, log, started, valid⟩ := acted
  obtain ⟨rest, grew⟩ := grown.log
  refine ⟨grantId, before, after ++ rest, named, ?_, started, valid⟩
  rw [← grew, log, append_assoc, cons_append]

theorem holds_withAuthenticatedGrant (task : GrantState → JsString) :
    (grantContract host).Holds process (withAuthenticatedGrant host raw secret task)
      (fun _ later => ActedBefore process raw later.log) (fun _ _ => True) w := by
  refine holds_checked.bind (fun grantId first _ _ => ?_) fun _ _ _ _ => trivial
  have known : ∀ (_ : JsString) (a b : World), Grown a b → Invariant host a → Invariant host b →
      ActedBefore process raw a.log → ActedBefore process raw b.log := fun _ _ _ grown _ _ acted => acted.mono grown
  refine (holds_withExclusiveLock passing_any _ (fun _ => True) known (fun _ _ _ _ => trivial) (fun _ _ => trivial)
    fun inside _ _ _ => ?_).mono (fun _ _ _ done => done.2) fun _ _ _ _ => trivial
  refine (holds_authenticate raw secret).bind (fun state second _ _ => ?_) fun _ _ _ _ => trivial
  refine holds_stir_then rfl fun now choice answer after third _ _ _ performed further _ => ?_
  obtain rfl := (Prod.mk.inj (some.inj performed)).2
  have started : Event.actionStarted process ∈ third.log :=
    further.toGrown.mem (mem_append_right _ (mem_singleton_self _))
  have ended : (grantContract host).Holds process (fallible (ask .endAction))
      (fun _ later => ∃ before after, later.log = before ++ .actionEnded process :: after ∧
        Event.actionStarted process ∈ before) (fun _ _ => True) third := by
    refine holds_stir_then rfl fun now choice answer after fourth relied _ _ performed further _ => ?_
    obtain rfl := (Prod.mk.inj (some.inj performed)).2
    cases answer with
    | error _ => exact Holds.throw fun _ _ _ => trivial
    | ok _ =>
      refine Holds.pure fun final last _ => ?_
      obtain ⟨rest, grew⟩ := (further.trans last).log
      refine ⟨now.log, rest, ?_, relied.toGrown.mem started⟩
      rw [← grew, World.record, append_assoc]
      rfl
  refine ended.bind (fun _ fourth _ done => ?_) fun _ _ _ _ => trivial
  obtain ⟨before, after, log, begun⟩ := done
  refine holds_requireMutationLock.bind (fun _ fifth _ relied => ?_) fun _ _ _ _ => trivial
  refine (holds_authenticate raw secret).bind (fun final sixth _ valid => ?_) fun _ _ _ _ => trivial
  have acted : ActedBefore process raw sixth.log := by
    obtain ⟨rest, grew⟩ := (relied.trans valid.1).log
    refine ⟨final.grantId, before, after ++ rest, valid.2.1, ?_, begun, fun revoked => valid.2.2 ?_⟩
    · rw [← grew, log, append_assoc, cons_append]
    · obtain ⟨gone, member, facts⟩ := revoked
      exact ⟨gone, relied.toGrown.mem (log ▸ mem_append_left _ member), facts⟩
  refine holds_requireMutationLock.bind (fun _ seventh _ relied => ?_) fun _ _ _ _ => trivial
  have further := acted.mono relied.toGrown
  split_ifs
  · exact Holds.throw fun _ _ _ => trivial
  · refine (holds_requireActiveState _).bind (fun _ eighth _ relied => ?_) fun _ _ _ _ => trivial
    refine (holds_outside _).bind (fun _ ninth _ outside => ?_) fun _ _ _ _ => trivial
    refine holds_requireMutationLock.bind (fun _ tenth _ locked => ?_) fun _ _ _ _ => trivial
    refine (holds_requireActiveState _).bind (fun _ last _ active => ?_) fun _ _ _ _ => trivial
    have whole := ((relied.1.trans outside).trans locked).trans active.1
    exact Holds.pure fun _ done _ => ⟨trivial, further.mono (whole.trans done).toGrown⟩

theorem revoked_of_mem (member : state ∈ history w grantId) (revoked : state.revokedAt.isSome = true) : Revoked w.log state.grantId :=
  ⟨state, (mem_history_iff.mp member).1, rfl, revoked⟩

theorem holds_storeRevoked {time : Int} (held : w.locks (.grant state.grantId) = some process)
    (only : history w state.grantId = [state]) (active : state.revokedAt = none) :
    (grantContract host).Holds process (storeRevoked (state.revokedAs time))
      (fun _ later => Revoked later.log state.grantId) (fun _ _ => True) w := by
  have permitted : ∀ now, Rely process w now → Invariant host now → DistinctIds now →
      Permitted host process now (now.apply process (.putState (state.revokedAs time))) := by
    intro now relied inv _
    have same := relied.granted _ held (by rw [only]; exact cons_ne_nil _ _)
    exact permitted_revoke inv ((relied.locks _).mpr held) (same.trans only) active time
  have landed : ∀ later, Changed host process w (.putState (state.revokedAs time)) later → Revoked later.log state.grantId := by
    rintro later ⟨now, _, _, further⟩
    exact ⟨_, further.toGrown.mem (mem_append_right _ (mem_singleton_self _)), rfl, rfl⟩
  refine (holds_writeState false permitted landed).attempt_bind
    (fun _ _ _ done => Holds.pure fun after last _ => last.toGrown.revoked done.2) fun error first _ _ => ?_
  refine (holds_readState _).attempt_bind (fun persisted second _ seen => ?_)
    fun _ _ _ _ => Holds.throw fun _ _ _ => trivial
  simp only
  split_ifs with differs
  · exact Holds.throw fun _ _ _ => trivial
  · obtain rfl : persisted = state.revokedAs time := by simpa using differs
    have revoked := revoked_of_mem seen.mem rfl
    exact (holds_outside _).mono (fun _ _ _ relied => relied.toGrown.revoked revoked) fun _ _ _ _ => trivial

theorem holds_revokeLocked (held : w.locks (.grant grantId) = some process) :
    (grantContract host).Holds process (revokeLocked host grantId space principal expectedStateVersion)
      (fun state later => state.grantId = grantId ∧ Revoked later.log grantId) (fun _ _ => True) w := by
  refine (holds_readState grantId).attempt_bind (fun state first _ seen => ?_) fun error _ _ _ => ?_
  rotate_left
  · cases error with
    | fault fault => cases fault <;> exact Holds.throw fun _ _ _ => trivial
    | support | malformedGrantState | invalid | ownerIndexLockLost => exact Holds.throw fun _ _ _ => trivial
  · refine holds_checked.bind (fun normalized second _ checked => ?_) fun _ _ _ _ => trivial
    have relied := seen.rely.trans checked.1
    have there := seen.mono checked.1
    split_ifs with foreign revoked stale
    · exact Holds.throw fun _ _ _ => trivial
    · refine Holds.pure fun after last _ => ⟨there.named, last.toGrown.revoked ?_⟩
      have recorded := revoked_of_mem there.mem revoked
      rw [there.named] at recorded
      exact recorded
    · exact Holds.throw fun _ _ _ => trivial
    · have active : state.revokedAt = none := by simpa using revoked
      refine holds_now_then fun time third thirdRely _ _ => ?_
      refine holds_requireMutationLock.bind (fun _ fourth _ fourthRely => ?_) fun _ _ _ _ => trivial
      refine (holds_outside _).bind (fun _ fifth _ fifthRely => ?_) fun _ _ _ _ => trivial
      refine holds_requireMutationLock.bind (fun _ sixth _ sixthRely => ?_) fun _ _ _ _ => trivial
      have waited := ((thirdRely.trans fourthRely).trans fifthRely).trans sixthRely
      have current := there.mono waited
      obtain rfl := current.named
      have only := current.history_eq held active
      have heldNow := ((relied.trans waited).locks _).mpr held
      refine (holds_storeRevoked heldNow only active).bind (fun _ seventh _ committed => ?_) fun _ _ _ _ => trivial
      exact Holds.pure fun after last _ => ⟨rfl, last.toGrown.revoked committed⟩

theorem holds_revoke :
    (grantContract host).Holds process (revoke host raw space principal expectedStateVersion)
      (fun state later => grantIdOf raw = some state.grantId ∧ Revoked later.log state.grantId) (fun _ _ => True) w := by
  refine holds_checked.bind (fun grantId first _ normal => ?_) fun _ _ _ _ => trivial
  refine holds_checked.bind (fun normalized second _ _ => ?_) fun _ _ _ _ => trivial
  have known : ∀ (state : GrantState) (a b : World), Grown a b → Invariant host a → Invariant host b →
      (state.grantId = grantId ∧ Revoked a.log grantId) → state.grantId = grantId ∧ Revoked b.log grantId :=
    fun _ _ _ grown _ _ known => ⟨known.1, grown.revoked known.2⟩
  refine (holds_withExclusiveLock passing_any _ (fun _ => True) known (fun _ _ _ _ => trivial) (fun _ _ => trivial)
    fun inside _ held _ => (holds_revokeLocked normalized principal expectedStateVersion held).mono
      (fun _ _ _ done => ⟨trivial, done⟩) fun _ _ _ _ => trivial).mono (fun state later _ done => ?_) fun _ _ _ _ => trivial
  obtain ⟨_, rfl, revoked⟩ := done
  exact ⟨grantIdOf_of_normalizeGrantId normal.2, revoked⟩

theorem holds_listForOwner :
    (grantContract host).Holds process (listForOwner host space principal) (fun _ _ => True) (fun _ _ => True) w := by
  refine holds_checked.bind (fun normalizedNamespace first _ _ => ?_) fun _ _ _ _ => trivial
  refine holds_checked.bind (fun normalizedPrincipal second _ _ => ?_) fun _ _ _ _ => trivial
  refine holds_now_then fun cutoff third _ _ _ => ?_
  refine (holds_readOwnerMembershipStates _).bind (fun states fourth _ _ => ?_) fun _ _ _ _ => trivial
  exact Holds.pure fun _ _ _ => trivial

/-- What each reply says about the store, from the moment of its request on. -/
def Meets (host : Host) (process : Nat) : Request → Reply → World → Prop
  | .create _, .created state _, w => HandedOut host process w state
  | .authenticate raw secret, .authenticated state, w => grantIdOf raw = some state.grantId ∧
      ∃ before after, w.log = before ++ .called process (.authenticate raw secret) :: after ∧ ¬ Revoked before state.grantId
  | .withAuthenticatedGrant raw _ _, .result _, w => ActedBefore process raw w.log
  | .revoke raw _ _ _, .revoked state, w => grantIdOf raw = some state.grantId ∧ Revoked w.log state.grantId
  | _, _, _ => True

/-- Every request, from its start, in any interleaving. -/
theorem holds_start (request : Request) :
    (grantContract host).Holds process (start host request) (Meets host process request) (fun _ _ => True)
      ((grantMachine host).begins process request w) := by
  cases request with
  | create input =>
    refine (holds_create input).bind (fun created first _ handed => ?_) fun _ _ _ _ => trivial
    exact Holds.pure fun _ last _ => handed.mono last.toGrown
  | authenticate raw secret =>
    refine (holds_authenticate raw secret).bind (fun state first _ done => ?_) fun _ _ _ _ => trivial
    refine Holds.pure fun after last _ => ⟨done.2.1, ?_⟩
    obtain ⟨rest, grew⟩ := (done.1.trans last).log
    have calm : Calm process w ((grantMachine host).begins process (.authenticate raw secret) w) := calm_called _
    refine ⟨w.log, rest, ?_, fun revoked => done.2.2 (calm.grown.revoked revoked)⟩
    have begun : ((grantMachine host).begins process (.authenticate raw secret) w).log =
        w.log ++ [.called process (.authenticate raw secret)] := rfl
    rw [← grew, begun, append_assoc, singleton_append]
  | withAuthenticatedGrant raw secret task =>
    refine (holds_withAuthenticatedGrant raw secret task).bind (fun value first _ acted => ?_) fun _ _ _ _ => trivial
    exact Holds.pure fun _ last _ => acted.mono last.toGrown
  | listForOwner space principal =>
    refine (holds_listForOwner space principal).bind (fun states first _ _ => ?_) fun _ _ _ _ => trivial
    exact Holds.pure fun _ _ _ => trivial
  | revoke raw space principal expectedStateVersion =>
    refine (holds_revoke raw space principal expectedStateVersion).bind (fun state first _ done => ?_) fun _ _ _ _ => trivial
    exact Holds.pure fun _ last _ => ⟨done.1, last.toGrown.revoked done.2⟩

theorem safe_initial (host : Host) (now : Int) :
    (grantContract host).Safe (Meets host) (Config.initial (World.empty now)) :=
  ⟨invariant_empty now, fun _ _ member => by cases member⟩

theorem safe_of_reachable {c : Calls} (reachable : Reachable host c) (distinct : DistinctIds c.shared) :
    (grantContract host).Safe (Meets host) c := by
  obtain ⟨now, ran⟩ := reachable
  exact (safe_initial host now).runs (fun _ request _ _ _ => holds_start request) ran distinct

/-- A revocation of the grant has been committed: the revoked state was put in place. -/
def RevokeCommitted (c : Calls) (grantId : GrantId) : Prop := Revoked c.shared.log grantId

def ActionStarted (c : Calls) (process : Nat) : Prop := Event.actionStarted process ∈ c.shared.log

def ActionEnded (c : Calls) (process : Nat) : Prop := Event.actionEnded process ∈ c.shared.log

theorem prefix_of_absent {log before after : List Event} {event : Event} (grew : log <+: before ++ event :: after)
    (absent : event ∉ log) : log <+: before := by
  rcases prefix_or_prefix_of_prefix grew (prefix_append before (event :: after)) with inside | beyond
  · exact inside
  · obtain ⟨rest, same⟩ := beyond
    cases rest with
    | nil =>
      rw [append_nil] at same
      exact same ▸ prefix_rfl
    | cons head rest =>
      obtain ⟨tail, whole⟩ := grew
      rw [← same, append_assoc, append_cancel_left_eq, cons_append] at whole
      have first := (List.cons.inj whole).1
      refine absurd ?_ absent
      rw [← same, ← first]
      exact mem_append_right _ mem_cons_self

/-- Whatever calls are interleaved, and wherever calls stop or operations fail: once a revocation of
a grant is committed, no authentication that is called later succeeds, no action of
`withAuthenticatedGrant` that starts or ends later gives a result, and the version of a grant on
disk never goes back. -/
theorem revocation_is_permanent {middle final : Calls} (reachable : Reachable host middle)
    (later : (grantMachine host).Runs middle final) (distinct : DistinctIds final.shared) (grantId : GrantId) :
    (RevokeCommitted middle grantId →
      (∀ process raw secret state, grantIdOf raw = some grantId → middle.threads process = .idle →
        ¬ final.Returned process (.authenticate raw secret) (.authenticated state)) ∧
      ∀ process raw secret task value, grantIdOf raw = some grantId →
        ¬ ActionStarted middle process ∨ ¬ ActionEnded middle process →
          ¬ final.Returned process (.withAuthenticatedGrant raw secret task) (.result value)) ∧
    ∀ before after, middle.shared.states grantId = some before → final.shared.states grantId = some after →
      before.stateVersion ≤ after.stateVersion := by
  have grown := grown_runs later
  have safeMiddle := safe_of_reachable reachable (grown.distinctIds distinct)
  have safeFinal : (grantContract host).Safe (Meets host) final :=
    safeMiddle.runs (fun _ request _ _ _ => holds_start request) later distinct
  refine ⟨fun committed => ⟨?_, ?_⟩, ?_⟩
  · intro process raw secret state named idle returned
    obtain ⟨same, before, after, log, valid⟩ := safeFinal.returned returned
    obtain rfl := some.inj (named.symm.trans same)
    have absent : Event.called process (.authenticate raw secret) ∉ middle.shared.log :=
      fun member => safeMiddle.fresh idle _ member rfl
    have inside := prefix_of_absent (log ▸ grown.log) absent
    obtain ⟨gone, member, facts⟩ := committed
    exact valid ⟨gone, inside.subset member, facts⟩
  · intro process raw secret task value named pending returned
    obtain ⟨other, before, after, same, log, started, valid⟩ := safeFinal.returned returned
    obtain rfl := some.inj (named.symm.trans same)
    have inside : middle.shared.log <+: before := by
      rcases pending with unstarted | unended
      · rcases prefix_or_prefix_of_prefix grown.log (log ▸ prefix_append before _) with inside | beyond
        · exact inside
        · exact absurd (beyond.subset started) unstarted
      · exact prefix_of_absent (log ▸ grown.log) unended
    obtain ⟨gone, member, facts⟩ := committed
    exact valid ⟨gone, inside.subset member, facts⟩
  · intro before after stored found
    exact (safeFinal.1.lineage grantId).stateVersion_le (grown.history_grows grantId)
      (safeMiddle.1.stored grantId before stored) (safeFinal.1.stored grantId after found)

section Sample

def sampleDigest (hex : String) (wellFormed : Revision.Shard.isSha256Hex (text hex) = true) : Digest := ⟨text hex, wellFormed⟩

def aliceKey : Digest :=
  sampleDigest "2bd806c97f0e00af1a1fc3328fa763a9269723c8db8fac4f93af71db186d6e90" (by decide +kernel)

def aliceLockKey : Digest :=
  sampleDigest "cf92317ae842c6468606f4b7156d11013da3339255e05f01ccab0f7f0e89775f" (by decide +kernel)

def aliceSecretHash : Digest :=
  sampleDigest "bbb0aecef94001e6f30dc74868101bf5878a88fc2cb5724cb2a4a7585e1aecdd" (by decide +kernel)

def aliceOwnerHash : Digest :=
  sampleDigest "90b91d48f98b598c501bfb588682a36ae0c3caa196b8e642b579bb58bff73325" (by decide +kernel)

def sampleSecret : JsString := List.replicate 43 (unit 0x41)

/-- SHA-256 on the texts that the sample runs hash. -/
def sampleSha256 (value : JsString) : Digest :=
  if value = text "alice" then aliceKey
  else if value = text "[\"work\",\"alice\"]" then aliceLockKey
  else if value = text "support-passport-secret:v1" ++ unit 0 :: sampleSecret then aliceSecretHash
  else aliceOwnerHash

def sampleUuid : JsString := text "0b0e3c4a-1111-4111-8111-000000000001"

def sampleGrantId : GrantId := ⟨sampleUuid, by decide +kernel⟩

def sampleHost : Host where
  sha256 := sampleSha256
  tables := plainTables
  makeSecret _ := List.replicate 32 0
  makeGrantId _ := sampleUuid

def sampleInput : CreateStoredGrantInput where
  space := text "work"
  principal := text "alice"
  cards := [⟨text "card-1", aliceKey.hex⟩]
  expiresAt := some 600000
  requestedAt := none

abbrev Moves := List (Move Choice Request Nat)

def sampleRun (moves : Moves) : Option Calls :=
  Library.Transition.run (grantMachine sampleHost).step moves (.initial (World.empty 0))

def callsThrough (process : Nat) (request : Request) (operations : Nat) : Moves :=
  .call process request :: List.replicate operations (.go process .ok)

def createdAndRevoked : Moves :=
  callsThrough 0 (.create sampleInput) 21 ++ callsThrough 1 (.revoke sampleUuid (text "work") (text "alice") (some 1)) 9

def thenAuthenticated : Moves := callsThrough 2 (.authenticate sampleUuid sampleSecret) 1

def isIdle (c : Calls) (process : Nat) : Bool :=
  match c.threads process with
  | .idle => true
  | _ => false

variable {c : Calls}

theorem idle_of_isIdle {process : Nat} (idle : isIdle c process = true) : c.threads process = .idle := by
  rw [isIdle] at idle
  split at idle
  · assumption
  · cases idle

def Ended (c : Calls) (process : Nat) (request : Request) : Prop := ∃ outcome, c.threads process = .live request (.done outcome)

def hasEnded (c : Calls) (process : Nat) : Bool :=
  match c.threads process with
  | .live _ (.done _) => true
  | _ => false

theorem ended_of_hasEnded {process : Nat} (ended : hasEnded c process = true) : ∃ request, Ended c process request := by
  rw [hasEnded] at ended
  split at ended
  · exact ⟨_, _, by assumption⟩
  · cases ended

theorem revocation_is_permanent_sample : ∃ middle final, Reachable sampleHost middle ∧
    (grantMachine sampleHost).Runs middle final ∧ RevokeCommitted middle sampleGrantId ∧
      (∃ request, Ended final 2 request) ∧
        ¬ ∃ state, final.Returned 2 (.authenticate sampleUuid sampleSecret) (.authenticated state) := by
  have ran : (sampleRun createdAndRevoked).any (fun c => decide (Revoked c.shared.log sampleGrantId) && isIdle c 2 &&
      (Library.Transition.run (grantMachine sampleHost).step thenAuthenticated c).any fun d =>
        decide (DistinctIds d.shared) && hasEnded d 2) = true := by
    decide +kernel
  obtain ⟨middle, found, facts⟩ := (any_eq_true _ _).mp ran
  simp only [Bool.and_eq_true, decide_eq_true_eq] at facts
  obtain ⟨⟨revoked, idle⟩, further⟩ := facts
  obtain ⟨final, moved, facts⟩ := (any_eq_true _ _).mp further
  simp only [Bool.and_eq_true, decide_eq_true_eq] at facts
  have reachable : Reachable sampleHost middle := ⟨0, Machine.runs_of_run _ createdAndRevoked found⟩
  have later : (grantMachine sampleHost).Runs middle final := Machine.runs_of_run _ thenAuthenticated moved
  have permanent := (revocation_is_permanent reachable later facts.1 sampleGrantId).1 revoked
  exact ⟨middle, final, reachable, later, revoked, ended_of_hasEnded facts.2, fun ⟨state, returned⟩ =>
    permanent.1 2 sampleUuid sampleSecret state (by decide +kernel) (idle_of_isIdle idle) returned⟩

end Sample

end Remnic.SupportPassport.Revocation
