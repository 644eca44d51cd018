import Remnic.SupportPassport.GrantMoves

/-!
The contract of the store, and what each single file operation tells the call
that performs it.
-/

namespace Remnic.SupportPassport.GrantContract
open Library.Interleaving Library.Interleaving.Contract Text.CodeUnits Grants GrantStore GrantHistory GrantGuard GrantMoves Option

variable {host : Host} {w later : World} {process : Nat}

variable {op : Op} {choice : Choice}

theorem effect_after {changed : World} {answer : Except Fault Unit} (performed : effect w changed choice = some (answer, later)) :
    later = changed ∨ later = w ∧ ∃ fault, answer = .error fault := by
  cases choice <;> simp only [effect, some.injEq, Prod.mk.injEq, reduceCtorEq] at performed
  · exact .inl performed.2.symm
  · exact .inl performed.2.symm
  · exact .inr ⟨performed.2.symm, .failed, performed.1.symm⟩

theorem observe_after {α : Type} {shown answer : Except Fault α} (performed : observe w shown choice = some (answer, later)) :
    later = w ∧ (answer = shown ∨ answer = .error .failed) := by
  cases choice <;> simp only [observe, some.injEq, Prod.mk.injEq, reduceCtorEq] at performed
  · exact ⟨performed.2.symm, .inl performed.1.symm⟩
  · exact ⟨performed.2.symm, .inr performed.1.symm⟩
  · exact ⟨performed.2.symm, .inr performed.1.symm⟩

/-- The operations that leave the store as it is. -/
def looks : Op → Bool
  | .refresh _ => true
  | .now => true
  | .lstatState _ => true
  | .readState _ => true
  | .readMembership _ => true
  | .readIndex _ => true
  | .outside _ => true
  | _ => false

theorem after_of_looks (look : looks op = true) {answer : Answer op}
    (performed : perform host process op choice w = some (answer, later)) : later = w := by
  cases op with
  | refresh key => cases choice <;> exact (Prod.mk.inj (some.inj performed)).2.symm
  | now => exact (Prod.mk.inj (some.inj performed)).2.symm
  | readMembership hash =>
    cases choice with
    | listed order =>
      simp only [perform] at performed
      split_ifs at performed
      exact (Prod.mk.inj (some.inj performed)).2.symm
    | ok | late | fail =>
      simp only [perform] at performed
      exact (observe_after performed).1
  | lstatState | readState | readIndex | outside => exact (observe_after performed).1
  | acquire | release | makeSecret | makeGrantId | change | startAction | endAction => cases look

/-- The operations that move locks and counters or tell of the call itself. -/
def stirs : Op → Bool
  | .acquire _ => true
  | .release _ => true
  | .makeSecret => true
  | .makeGrantId => true
  | .startAction => true
  | .endAction => true
  | _ => false

theorem calm_of_stirs (stir : stirs op = true) {answer : Answer op}
    (performed : perform host process op choice w = some (answer, later)) : Calm process w later := by
  cases op with
  | acquire key =>
    cases choice <;> simp only [perform] at performed
    · split_ifs at performed with free
      obtain rfl := (Prod.mk.inj (some.inj performed)).2
      exact calm_acquire free
    · obtain rfl := (Prod.mk.inj (some.inj performed)).2
      exact calm_refl process w
    · obtain rfl := (Prod.mk.inj (some.inj performed)).2
      exact calm_refl process w
    · cases performed
  | release key =>
    obtain rfl := (Prod.mk.inj (some.inj performed)).2
    exact calm_unlock process w key
  | makeSecret =>
    obtain rfl := (Prod.mk.inj (some.inj performed)).2
    exact .still rfl rfl rfl le_rfl rfl fun _ _ _ => Iff.rfl
  | makeGrantId =>
    obtain rfl := (Prod.mk.inj (some.inj performed)).2
    exact ⟨rfl, rfl, rfl, le_rfl, ⟨_, rfl, by simp [isCalm, actor]⟩, fun _ _ _ => Iff.rfl⟩
  | startAction =>
    obtain rfl := (Prod.mk.inj (some.inj performed)).2
    exact calm_record rfl rfl
  | endAction =>
    obtain rfl := (Prod.mk.inj (some.inj performed)).2
    exact calm_record rfl rfl
  | refresh | now | lstatState | readState | readMembership | readIndex | change | outside =>
    cases stir

theorem grown_apply (w : World) (process : Nat) (change : FileChange) : Grown w (w.apply process change) := by
  cases change with
  | putState state => exact grown_land w state
  | removeState grantId => exact grown_remove w process grantId
  | putMembership hash grantId => exact grown_enroll w hash grantId
  | removeMembership hash grantId => exact grown_dismiss w hash grantId
  | putIndex hash grantIds => exact grown_setIndex w hash grantIds

theorem grown_perform {answer : Answer op} (performed : perform host process op choice w = some (answer, later)) : Grown w later := by
  by_cases look : looks op = true
  · rw [after_of_looks look performed]
    exact .refl w
  by_cases stir : stirs op = true
  · exact (calm_of_stirs stir performed).grown
  · cases op with
    | change change =>
      rcases effect_after performed with rfl | ⟨rfl, _⟩
      · exact grown_apply w process change
      · exact .refl later
    | _ => first | exact absurd rfl look | exact absurd rfl stir

theorem calm_called (request : Request) : Calm process w ((grantMachine host).begins process request w) :=
  calm_record rfl rfl

theorem calm_passed (passed : Nat) : Calm process w ((grantMachine host).changes passed w) :=
  .still rfl rfl rfl (by simp [grantMachine]) rfl fun _ _ _ => Iff.rfl

theorem grown_touches (touched : (grantMachine host).Touches w later) : Grown w later := by
  cases touched with
  | perform performed => exact grown_perform performed
  | begins process request =>
    have calm : Calm process w ((grantMachine host).begins process request w) := calm_called request
    exact calm.grown
  | stops process => exact (calm_release process w).grown
  | changes passed =>
    have calm : Calm 0 w ((grantMachine host).changes passed w) := calm_passed passed
    exact calm.grown

def grantContract (host : Host) : Contract (grantMachine host) where
  Invariant := Invariant host
  Rely := Rely
  Promised := DistinctIds
  Fresh process w := ∀ event ∈ w.log, actor event ≠ some process
  refl := Rely.refl
  trans := Rely.trans
  promised_back touched := (grown_touches touched).distinctIds
  fresh_later relied fresh event member mine := fresh event (relied.silent event mine member) mine
  begins request _ inv := (calm_called request).permitted inv
  stops inv := (calm_release _ _).permitted inv
  changes passed _ inv := by
    rename_i w
    have moved : ∀ process, Permitted host process w ((grantMachine host).changes passed w) :=
      fun process => (calm_passed passed).permitted inv
    exact ⟨(moved 0).1, fun process => (moved (process + 1)).2 process (Nat.ne_of_lt (Nat.lt_succ_self process))⟩

theorem invariant_empty (now : Int) : Invariant host (World.empty now) where
  lineage _ := .unborn
  stored _ _ found := by cases found
  born _ born := absurd rfl born
  distinctMembers _ := List.nodup_nil
  enrolledMembers _ _ member := by cases member
  enrolledBorn _ _ member := by cases member
  memberKept _ _ _ member := by cases member
  indexedEnrolled _ _ _ member := by cases member
  indexShape _ _ found := by cases found
  capped _ := Nat.zero_le _
  listed _ _ _ member := by cases member.listed
  removals _ _ _ _ member := by cases member

/-- The condition on the last state of a run goes back to every state of it. -/
theorem grown_runs {start final : Calls} (ran : (grantMachine host).Runs start final) : Grown start.shared final.shared :=
  Machine.Runs.related Grown.refl (fun _ _ _ => Grown.trans) (fun _ _ => grown_touches) ran

section Rules

variable {Value : Type} {Returns : Value → World → Prop} {Throws : StoreError → World → Prop}

variable {op : Op}

theorem holds_look (look : looks op = true) :
    (grantContract host).Holds process (ask op)
      (fun answer later => ∃ now choice, Rely process w now ∧ Invariant host now ∧
        perform host process op choice now = some (answer, now) ∧ Rely process now later) (fun _ _ => False) w := by
  apply Holds.look
  · intro now choice answer after performed
    exact after_of_looks look performed
  · intro now choice answer relied inv performed later further _
    exact ⟨now, choice, relied, inv, performed, further⟩

theorem holds_look_then (look : looks op = true) {rest : Answer op → Store Value}
    (next : ∀ now choice answer later, Rely process w now → Invariant host now →
      perform host process op choice now = some (answer, now) → Rely process now later → Invariant host later →
        (grantContract host).Holds process (rest answer) Returns Throws later) :
    (grantContract host).Holds process (ask op >>= rest) Returns Throws w := by
  refine (holds_look look).bind (fun answer later inv seen => ?_) fun error later _ impossible => impossible.elim
  obtain ⟨now, choice, relied, before, performed, further⟩ := seen
  exact next now choice answer later relied before performed further inv

theorem holds_stir (stir : stirs op = true) :
    (grantContract host).Holds process (ask op)
      (fun answer later => ∃ now choice after, Rely process w now ∧ Invariant host now ∧ DistinctIds after ∧
        perform host process op choice now = some (answer, after) ∧ Rely process after later) (fun _ _ => False) w := by
  apply Holds.ask
  intro now choice answer after relied inv promised performed
  have permitted := (calm_of_stirs stir performed).permitted inv
  exact ⟨permitted.1, permitted.2, fun later further _ => ⟨now, choice, after, relied, inv, promised, performed, further⟩⟩

theorem holds_stir_then (stir : stirs op = true) {rest : Answer op → Store Value}
    (next : ∀ now choice answer after later, Rely process w now → Invariant host now → DistinctIds after →
      perform host process op choice now = some (answer, after) → Rely process after later → Invariant host later →
        (grantContract host).Holds process (rest answer) Returns Throws later) :
    (grantContract host).Holds process (ask op >>= rest) Returns Throws w := by
  refine (holds_stir stir).bind (fun answer later inv done => ?_) fun error later _ impossible => impossible.elim
  obtain ⟨now, choice, after, relied, before, promised, performed, further⟩ := done
  exact next now choice answer after later relied before promised performed further inv

/-- The change of a file took place at one moment between two states. -/
def Changed (host : Host) (process : Nat) (w : World) (change : FileChange) (later : World) : Prop :=
  ∃ now, Rely process w now ∧ Invariant host now ∧ Rely process (now.apply process change) later

theorem holds_change {change : FileChange}
    (permitted : ∀ now, Rely process w now → Invariant host now → DistinctIds now →
      Permitted host process now (now.apply process change)) :
    (grantContract host).Holds process (fallible (ask (.change change)))
      (fun _ later => Changed host process w change later)
      (fun _ later => Changed host process w change later ∨ Rely process w later) w := by
  have asked : (grantContract host).Holds process (ask (.change change))
      (fun answer later => Changed host process w change later ∨
        Rely process w later ∧ ∃ fault, answer = .error fault) (fun _ _ => False) w := by
    apply Holds.ask
    intro now choice answer after relied inv promised performed
    have did : perform host process (.change change) choice now = some (answer, after) := performed
    have distinct := (grown_perform did).distinctIds promised
    rcases effect_after performed with rfl | ⟨rfl, failed⟩
    · have kept := permitted now relied inv distinct
      exact ⟨kept.1, kept.2, fun later further _ => .inl ⟨now, relied, inv, further⟩⟩
    · exact ⟨inv, fun other _ => Rely.refl other after, fun later further _ => .inr ⟨relied.trans further, failed⟩⟩
  refine asked.bind (fun answer later _ outcome => ?_) fun error later _ impossible => impossible.elim
  cases answer with
  | ok value =>
    apply Holds.pure
    intro after further _
    rcases outcome with ⟨now, relied, inv, done⟩ | ⟨_, fault, same⟩
    · exact ⟨now, relied, inv, done.trans further⟩
    · cases same
  | error fault =>
    apply Holds.throw
    intro after further _
    rcases outcome with ⟨now, relied, inv, done⟩ | ⟨relied, _⟩
    · exact .inl ⟨now, relied, inv, done.trans further⟩
    · exact .inr (relied.trans further)

theorem holds_outside (call : Outside) :
    (grantContract host).Holds process (fallible (ask (.outside call)))
      (fun _ later => Rely process w later) (fun _ later => Rely process w later) w := by
  refine holds_look_then rfl fun now choice answer later relied _ _ further _ => ?_
  cases answer with
  | ok value => exact Holds.pure fun after last _ => (relied.trans further).trans last
  | error fault => exact Holds.throw fun after last _ => (relied.trans further).trans last

end Rules

end Remnic.SupportPassport.GrantContract
