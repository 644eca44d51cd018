import Remnic.Library.Transition

/-!
Calls that run side by side on a shared state. A call is a program that performs
one operation at a time; between any two of its operations the other calls may
move, a call may stop for good, and the surroundings may change the state.

A contract says what the moves of the others leave alone for each process. What
a program keeps is proved once, against every move the contract allows, and then
holds in every interleaving.
-/

namespace Remnic.Library.Interleaving

open Option

/-- What is left of a call: its outcome, or the operation it performs next. -/
inductive Prog (Op : Type) (Answer : Op → Type) (Error Value : Type) : Type where
  | done (outcome : Except Error Value)
  | perform (op : Op) (next : Answer op → Prog Op Answer Error Value)

namespace Prog

variable {Op : Type} {Answer : Op → Type} {Error Value Result : Type}

def bind : Prog Op Answer Error Value → (Value → Prog Op Answer Error Result) → Prog Op Answer Error Result
  | .done (.ok value), rest => rest value
  | .done (.error error), _ => .done (.error error)
  | .perform op next, rest => .perform op fun answer => (next answer).bind rest

def handle : Prog Op Answer Error Value → (Error → Prog Op Answer Error Value) → Prog Op Answer Error Value
  | .done (.ok value), _ => .done (.ok value)
  | .done (.error error), handler => handler error
  | .perform op next, handler => .perform op fun answer => (next answer).handle handler

/-- The outcome as a value, so that the caller decides what a failure means. -/
def attempt : Prog Op Answer Error Value → Prog Op Answer Error (Except Error Value)
  | .done outcome => .done (.ok outcome)
  | .perform op next => .perform op fun answer => (next answer).attempt

/-- The body, then the operation whatever the outcome of the body. -/
def ensuring : Prog Op Answer Error Value → Op → Prog Op Answer Error Value
  | .done outcome, last => .perform last fun _ => .done outcome
  | .perform op next, last => .perform op fun answer => (next answer).ensuring last

def ask (op : Op) : Prog Op Answer Error (Answer op) := .perform op fun answer => .done (.ok answer)

instance : Monad (Prog Op Answer Error) where
  pure value := .done (.ok value)
  bind := bind

instance : MonadExcept Error (Prog Op Answer Error) where
  throw error := .done (.error error)
  tryCatch := handle

end Prog

/-- The operations, given the process that performs them and what the surroundings choose. -/
structure Machine (Op : Type) (Answer : Op → Type) (Error Shared Choice Request Reply Change : Type) where
  perform : Nat → (op : Op) → Choice → Shared → Option (Answer op × Shared)
  start : Request → Prog Op Answer Error Reply
  begins : Nat → Request → Shared → Shared
  stops : Nat → Shared → Shared
  changes : Change → Shared → Shared

inductive Thread (Op : Type) (Answer : Op → Type) (Error Request Reply : Type) where
  | idle
  | live (request : Request) (left : Prog Op Answer Error Reply)
  | stopped (request : Request)

inductive Move (Choice Request Change : Type) where
  | call (process : Nat) (request : Request)
  | go (process : Nat) (choice : Choice)
  | stop (process : Nat)
  | change (change : Change)

structure Config (Op : Type) (Answer : Op → Type) (Error Shared Request Reply : Type) where
  shared : Shared
  threads : Nat → Thread Op Answer Error Request Reply

section Machines

variable {Op : Type} {Answer : Op → Type} {Error Shared Choice Request Reply Change : Type}

def Config.initial (shared : Shared) : Config Op Answer Error Shared Request Reply := ⟨shared, fun _ => .idle⟩

def Config.moved (c : Config Op Answer Error Shared Request Reply) (process : Nat)
    (thread : Thread Op Answer Error Request Reply) (shared : Shared) : Config Op Answer Error Shared Request Reply :=
  ⟨shared, Function.update c.threads process thread⟩

def Config.Returned (c : Config Op Answer Error Shared Request Reply) (process : Nat) (request : Request)
    (reply : Reply) : Prop :=
  c.threads process = .live request (.done (.ok reply))

namespace Machine

variable (machine : Machine Op Answer Error Shared Choice Request Reply Change)

def step (c : Config Op Answer Error Shared Request Reply) :
    Move Choice Request Change → Option (Config Op Answer Error Shared Request Reply)
  | .call process request =>
    match c.threads process with
    | .idle => some (c.moved process (.live request (machine.start request)) (machine.begins process request c.shared))
    | _ => none
  | .go process choice =>
    match c.threads process with
    | .live request (.perform op next) =>
      (machine.perform process op choice c.shared).map fun result =>
        c.moved process (.live request (next result.1)) result.2
    | _ => none
  | .stop process =>
    match c.threads process with
    | .live request (.perform _ _) => some (c.moved process (.stopped request) (machine.stops process c.shared))
    | _ => none
  | .change change => some ⟨machine.changes change c.shared, c.threads⟩

/-- One move, seen from the shared state. -/
inductive Touches : Shared → Shared → Prop where
  | perform {process : Nat} {op : Op} {choice : Choice} {answer : Answer op} {s after : Shared}
      (performed : machine.perform process op choice s = some (answer, after)) : Touches s after
  | begins (process : Nat) (request : Request) (s : Shared) : Touches s (machine.begins process request s)
  | stops (process : Nat) (s : Shared) : Touches s (machine.stops process s)
  | changes (change : Change) (s : Shared) : Touches s (machine.changes change s)

theorem touches_of_step {c final : Config Op Answer Error Shared Request Reply} {move : Move Choice Request Change}
    (stepped : machine.step c move = some final) : machine.Touches c.shared final.shared := by
  cases move with
  | call process request =>
    simp only [step] at stepped
    split at stepped
    · obtain rfl := some.inj stepped
      exact .begins process request c.shared
    · cases stepped
  | go process choice =>
    simp only [step] at stepped
    split at stepped
    · obtain ⟨result, performed, rfl⟩ := map_eq_some_iff.mp stepped
      exact .perform performed
    · cases stepped
  | stop process =>
    simp only [step] at stepped
    split at stepped
    · obtain rfl := some.inj stepped
      exact .stops process c.shared
    · cases stepped
  | change change =>
    obtain rfl := some.inj stepped
    exact .changes change c.shared

/-- Any interleaving of calls, operations, stops and changes. -/
def Runs (start final : Config Op Answer Error Shared Request Reply) : Prop :=
  Transition.Reaches machine.step (fun _ _ => True) start final

/-- What every move keeps between its two states, a run keeps between its ends. -/
theorem Runs.related {machine : Machine Op Answer Error Shared Choice Request Reply Change}
    {start final : Config Op Answer Error Shared Request Reply} {Grows : Shared → Shared → Prop} (refl : ∀ s, Grows s s)
    (trans : ∀ s middle later, Grows s middle → Grows middle later → Grows s later)
    (touched : ∀ s later, machine.Touches s later → Grows s later) (ran : machine.Runs start final) :
    Grows start.shared final.shared := by
  induction ran with
  | refl => exact refl _
  | next _ _ stepped ih => exact trans _ _ _ ih (touched _ _ (machine.touches_of_step stepped))

theorem runs_of_run {start final : Config Op Answer Error Shared Request Reply} (moves : List (Move Choice Request Change))
    (replayed : Transition.run machine.step moves start = some final) : machine.Runs start final := by
  apply Transition.reaches_of_run moves
  have same : Transition.checked machine.step (fun _ _ => True) = machine.step := by
    funext c move
    simp only [Transition.checked, if_true]
  rw [same]
  exact replayed

end Machine

/-- What the moves of the others keep for each process, and what holds between moves. A promise
about the surroundings holds of a whole run when it holds of the run's last state. -/
structure Contract (machine : Machine Op Answer Error Shared Choice Request Reply Change) where
  Invariant : Shared → Prop
  Rely : Nat → Shared → Shared → Prop
  Promised : Shared → Prop
  Fresh : Nat → Shared → Prop
  refl (process : Nat) (s : Shared) : Rely process s s
  trans {process : Nat} {s middle later : Shared} : Rely process s middle → Rely process middle later → Rely process s later
  promised_back {s later : Shared} : machine.Touches s later → Promised later → Promised s
  fresh_later {process : Nat} {s later : Shared} : Rely process s later → Fresh process s → Fresh process later
  begins {process : Nat} (request : Request) {s : Shared} : Invariant s →
    Invariant (machine.begins process request s) ∧ ∀ other, other ≠ process → Rely other s (machine.begins process request s)
  stops {process : Nat} {s : Shared} : Invariant s →
    Invariant (machine.stops process s) ∧ ∀ other, other ≠ process → Rely other s (machine.stops process s)
  changes (change : Change) {s : Shared} : Invariant s →
    Invariant (machine.changes change s) ∧ ∀ process, Rely process s (machine.changes change s)

namespace Contract

variable {machine : Machine Op Answer Error Shared Choice Request Reply Change} (contract : Contract machine)
variable {Value Result : Type}

/-- From the state on, in any interleaving: each operation keeps the invariant and what the others
rely on, and an outcome meets its condition for as long as the others move. -/
def Holds (process : Nat) : Prog Op Answer Error Value → (Value → Shared → Prop) → (Error → Shared → Prop) → Shared → Prop
  | .done (.ok value), Returns, _, s =>
    ∀ later, contract.Rely process s later → contract.Invariant later → Returns value later
  | .done (.error error), _, Throws, s =>
    ∀ later, contract.Rely process s later → contract.Invariant later → Throws error later
  | .perform op next, Returns, Throws, s =>
    ∀ now, contract.Rely process s now → contract.Invariant now → ∀ choice answer after,
      machine.perform process op choice now = some (answer, after) → contract.Promised after →
        contract.Invariant after ∧ (∀ other, other ≠ process → contract.Rely other now after) ∧
          Holds process (next answer) Returns Throws after

variable {contract} {process : Nat} {Returns Between : Value → Shared → Prop} {Throws : Error → Shared → Prop}
variable {s : Shared}

variable {Finally : Value → Shared → Prop} {Fails : Error → Shared → Prop} {prog : Prog Op Answer Error Value} {op : Op}

theorem Holds.later {later : Shared} (relied : contract.Rely process s later)
    (holds : contract.Holds process prog Returns Throws s) : contract.Holds process prog Returns Throws later := by
  cases prog with
  | done outcome =>
    cases outcome with
    | ok value => exact fun after further => holds after (contract.trans relied further)
    | error error => exact fun after further => holds after (contract.trans relied further)
  | perform op next => exact fun now further => holds now (contract.trans relied further)

theorem Holds.of_later
    (holds : ∀ later, contract.Rely process s later → contract.Invariant later →
      contract.Holds process prog Returns Throws later) :
    contract.Holds process prog Returns Throws s := by
  cases prog with
  | done outcome =>
    cases outcome with
    | ok value => exact fun later relied inv => holds later relied inv later (contract.refl _ _) inv
    | error error => exact fun later relied inv => holds later relied inv later (contract.refl _ _) inv
  | perform op next => exact fun now relied inv => holds now relied inv now (contract.refl _ _) inv

theorem Holds.pure {value : Value}
    (returns : ∀ later, contract.Rely process s later → contract.Invariant later → Returns value later) :
    contract.Holds process (Pure.pure value) Returns Throws s :=
  returns

theorem Holds.throw {error : Error}
    (throws : ∀ later, contract.Rely process s later → contract.Invariant later → Throws error later) :
    contract.Holds process (MonadExcept.throw error : Prog Op Answer Error Value) Returns Throws s :=
  throws

/-- A change of a program that leaves its operations is justified by its outcomes. -/
theorem Holds.through {Finally : Result → Shared → Prop} (body : contract.Holds process prog Between Throws s)
    (change : Prog Op Answer Error Value → Prog Op Answer Error Result)
    (performs : ∀ op next, change (.perform op next) = .perform op fun answer => change (next answer))
    (ends : ∀ outcome now, contract.Holds process (.done outcome) Between Throws now →
      contract.Holds process (change (.done outcome)) Finally Fails now) :
    contract.Holds process (change prog) Finally Fails s := by
  induction prog generalizing s with
  | done outcome => exact ends outcome s body
  | perform op next ih =>
    rw [performs]
    intro now relied inv choice answer after performed promised
    obtain ⟨kept, others, rest⟩ := body now relied inv choice answer after performed promised
    exact ⟨kept, others, ih answer rest⟩

section

variable (body : contract.Holds process prog Between Throws s)
include body

theorem Holds.bind {rest : Value → Prog Op Answer Error Result} {Finally : Result → Shared → Prop}
    (second : ∀ value later, contract.Invariant later → Between value later →
      contract.Holds process (rest value) Finally Fails later)
    (fails : ∀ error later, contract.Invariant later → Throws error later → Fails error later) :
    contract.Holds process (prog >>= rest) Finally Fails s := by
  refine body.through (· >>= rest) (fun _ _ => rfl) fun outcome now done => ?_
  cases outcome with
  | ok value => exact Holds.of_later fun later relied inv => second value later inv (done later relied inv)
  | error error => exact fun later relied inv => fails error later inv (done later relied inv)

theorem Holds.attempt {Finally : Except Error Value → Shared → Prop}
    (returns : ∀ value later, contract.Invariant later → Between value later → Finally (.ok value) later)
    (throws : ∀ error later, contract.Invariant later → Throws error later → Finally (.error error) later) :
    contract.Holds process prog.attempt Finally Fails s := by
  refine body.through Prog.attempt (fun _ _ => rfl) fun outcome now done => ?_
  cases outcome with
  | ok value => exact fun later relied inv => returns value later inv (done later relied inv)
  | error error => exact fun later relied inv => throws error later inv (done later relied inv)

theorem Holds.ensuring {last : Op}
    (ends : ∀ now choice answer after, contract.Invariant now → contract.Promised after →
      machine.perform process last choice now = some (answer, after) →
        contract.Invariant after ∧ (∀ other, other ≠ process → contract.Rely other now after) ∧
          (∀ value, Between value now → ∀ later, contract.Rely process after later → contract.Invariant later →
            Finally value later) ∧
          ∀ error, Throws error now → ∀ later, contract.Rely process after later → contract.Invariant later →
            Fails error later) : contract.Holds process (prog.ensuring last) Finally Fails s := by
  refine body.through (·.ensuring last) (fun _ _ => rfl) fun outcome start done => ?_
  intro now relied inv choice answer after performed promised
  obtain ⟨kept, others, values, errors⟩ := ends now choice answer after inv promised performed
  cases outcome with
  | ok value => exact ⟨kept, others, values value (done now relied inv)⟩
  | error error => exact ⟨kept, others, errors error (done now relied inv)⟩

theorem Holds.mono (returns : ∀ value later, contract.Invariant later → Between value later → Finally value later)
    (throws : ∀ error later, contract.Invariant later → Throws error later → Fails error later) :
    contract.Holds process prog Finally Fails s := by
  refine body.through id (fun _ _ => rfl) fun outcome now done => ?_
  cases outcome with
  | ok value => exact fun later relied inv => returns value later inv (done later relied inv)
  | error error => exact fun later relied inv => throws error later inv (done later relied inv)

/-- What follows a caught program follows its value and its error. -/
theorem Holds.attempt_bind {rest : Except Error Value → Prog Op Answer Error Result} {Finally : Result → Shared → Prop}
    (returns : ∀ value later, contract.Invariant later → Between value later →
      contract.Holds process (rest (.ok value)) Finally Fails later)
    (throws : ∀ error later, contract.Invariant later → Throws error later →
      contract.Holds process (rest (.error error)) Finally Fails later) :
    contract.Holds process (prog.attempt >>= rest) Finally Fails s := by
  have caught : contract.Holds process prog.attempt
      (fun outcome later => contract.Holds process (rest outcome) Finally Fails later) Fails s :=
    body.attempt returns throws
  exact caught.bind (fun _ _ _ next => next) fun _ _ _ failed => failed

end

theorem Holds.ask {Known : Answer op → Shared → Prop}
    (performs : ∀ now choice answer after, contract.Rely process s now → contract.Invariant now →
      contract.Promised after → machine.perform process op choice now = some (answer, after) →
        contract.Invariant after ∧ (∀ other, other ≠ process → contract.Rely other now after) ∧
          ∀ later, contract.Rely process after later → contract.Invariant later → Known answer later) :
    contract.Holds process (Prog.ask op) Known Throws s :=
  fun now relied inv choice answer after performed promised => performs now choice answer after relied inv promised performed

theorem Holds.look {Known : Answer op → Shared → Prop}
    (looks : ∀ now choice answer after, machine.perform process op choice now = some (answer, after) → after = now)
    (known : ∀ now choice answer, contract.Rely process s now → contract.Invariant now →
      machine.perform process op choice now = some (answer, now) →
        ∀ later, contract.Rely process now later → contract.Invariant later → Known answer later) :
    contract.Holds process (Prog.ask op) Known Throws s := by
  apply Holds.ask
  intro now choice answer after relied inv _ performed
  obtain rfl := looks now choice answer after performed
  exact ⟨inv, fun other _ => contract.refl other _, known _ choice answer relied inv performed⟩

variable (contract)

/-- Every call that is under way will keep the contract and end as its request asks. -/
def Safe (Meets : Nat → Request → Reply → Shared → Prop) (c : Config Op Answer Error Shared Request Reply) : Prop :=
  contract.Invariant c.shared ∧ ∀ process,
    match c.threads process with
    | .idle => contract.Fresh process c.shared
    | .live request left => contract.Holds process left (Meets process request) (fun _ _ => True) c.shared
    | .stopped _ => True

variable {contract} {Meets : Nat → Request → Reply → Shared → Prop}
variable {c start final : Config Op Answer Error Shared Request Reply}

theorem Safe.moved (safe : contract.Safe Meets c) {process : Nat} {thread : Thread Op Answer Error Request Reply}
    {shared : Shared} (inv : contract.Invariant shared)
    (others : ∀ other, other ≠ process → contract.Rely other c.shared shared)
    (own : match thread with
      | .idle => contract.Fresh process shared
      | .live request left => contract.Holds process left (Meets process request) (fun _ _ => True) shared
      | .stopped _ => True) : contract.Safe Meets (c.moved process thread shared) := by
  refine ⟨inv, fun other => ?_⟩
  by_cases same : other = process
  · subst same
    simpa only [Config.moved, Function.update_self] using own
  · have before := safe.2 other
    simp only [Config.moved, Function.update_of_ne same]
    cases found : c.threads other with
    | idle =>
      rw [found] at before
      exact contract.fresh_later (others other same) before
    | live request left =>
      rw [found] at before
      exact Holds.later (others other same) before
    | stopped request => trivial

section

variable (starts : ∀ process request s, contract.Invariant s → contract.Fresh process s → contract.Holds process (machine.start request) (Meets process request) (fun _ _ => True) (machine.begins process request s))
include starts

/-- The step rule: a move of any kind leaves every call safe. -/
theorem Safe.step (safe : contract.Safe Meets c) {move : Move Choice Request Change}
    (stepped : machine.step c move = some final) (promised : contract.Promised final.shared) : contract.Safe Meets final := by
  cases move with
  | call process request =>
    simp only [Machine.step] at stepped
    split at stepped
    · rename_i idle
      obtain rfl := some.inj stepped
      have fresh := safe.2 process
      rw [idle] at fresh
      obtain ⟨inv, others⟩ : contract.Invariant (machine.begins process request c.shared) ∧
          ∀ other, other ≠ process → contract.Rely other c.shared (machine.begins process request c.shared) :=
        contract.begins request safe.1
      exact safe.moved inv others (starts process request c.shared safe.1 fresh)
    · cases stepped
  | go process choice =>
    simp only [Machine.step] at stepped
    split at stepped
    · rename_i request op next live
      obtain ⟨result, performed, rfl⟩ := map_eq_some_iff.mp stepped
      have holds := safe.2 process
      rw [live] at holds
      obtain ⟨inv, others, rest⟩ :=
        holds c.shared (contract.refl _ _) safe.1 choice result.1 result.2 performed promised
      exact safe.moved inv others rest
    · cases stepped
  | stop process =>
    simp only [Machine.step] at stepped
    split at stepped
    · obtain rfl := some.inj stepped
      obtain ⟨inv, others⟩ : contract.Invariant (machine.stops process c.shared) ∧
          ∀ other, other ≠ process → contract.Rely other c.shared (machine.stops process c.shared) :=
        contract.stops safe.1
      exact safe.moved inv others trivial
    · cases stepped
  | change change =>
    obtain rfl := some.inj stepped
    obtain ⟨inv, all⟩ := contract.changes change safe.1
    refine ⟨inv, fun process => ?_⟩
    have before := safe.2 process
    cases found : c.threads process with
    | idle =>
      rw [found] at before
      exact contract.fresh_later (all process) before
    | live request left =>
      rw [found] at before
      exact Holds.later (all process) before
    | stopped request => trivial

/-- The run rule: calls that start safely are safe in every interleaving that kept its promise. -/
theorem Safe.runs (safe : contract.Safe Meets start) (ran : machine.Runs start final)
    (promised : contract.Promised final.shared) : contract.Safe Meets final := by
  induction ran with
  | refl => exact safe
  | next _ _ stepped ih =>
    exact (ih (contract.promised_back (machine.touches_of_step stepped) promised)).step starts stepped promised

end

theorem Safe.returned (safe : contract.Safe Meets c) {process : Nat} {request : Request} {reply : Reply}
    (returned : c.Returned process request reply) : Meets process request reply c.shared := by
  have holds := safe.2 process
  rw [returned] at holds
  exact holds c.shared (contract.refl _ _) safe.1

theorem Safe.fresh (safe : contract.Safe Meets c) {process : Nat} (idle : c.threads process = .idle) :
    contract.Fresh process c.shared := by
  have fresh := safe.2 process
  rw [idle] at fresh
  exact fresh

end Contract

end Machines

end Remnic.Library.Interleaving
