import Mathlib.Data.Option.Basic

/-!
Guarded step functions. A step that is not enabled gives nothing. A run may be
restricted to steps that meet a condition on the state before the step.
-/

namespace Remnic.Library.Transition

variable {State Action : Type}

def run (step : State → Action → Option State) (actions : List Action) (start : State) : Option State :=
  actions.foldlM step start

/-- Runs whose every step meets a condition on the state it starts from. -/
inductive Reaches (step : State → Action → Option State) (Meets : State → Action → Prop) : State → State → Prop where
  | refl (start : State) : Reaches step Meets start start
  | next {start middle final : State} {action : Action} :
      Reaches step Meets start middle → Meets middle action → step middle action = some final →
        Reaches step Meets start final

variable {step : State → Action → Option State} {Meets Weaker : State → Action → Prop}
variable {start middle final : State}

/-- An invariant of the first state that every step keeps holds of the last state. -/
theorem Reaches.invariant (Inv : State → Prop) (reached : Reaches step Meets start final) (initial : Inv start)
    (keeps : ∀ state action next, Inv state → Meets state action → step state action = some next → Inv next) :
    Inv final := by
  induction reached with
  | refl => exact initial
  | next _ meets stepped ih => exact keeps _ _ _ ih meets stepped

theorem Reaches.mono (weaken : ∀ state action, Meets state action → Weaker state action)
    (reached : Reaches step Meets start final) : Reaches step Weaker start final := by
  induction reached with
  | refl => exact .refl _
  | next _ meets stepped ih => exact .next ih (weaken _ _ meets) stepped

theorem Reaches.trans (first : Reaches step Meets start middle) (second : Reaches step Meets middle final) :
    Reaches step Meets start final := by
  induction second with
  | refl => exact first
  | next _ meets stepped ih => exact .next ih meets stepped

/-- A step that refuses what the condition excludes. -/
def checked (step : State → Action → Option State) (Meets : State → Action → Prop)
    [∀ state action, Decidable (Meets state action)] (state : State) (action : Action) : Option State :=
  if Meets state action then step state action else none

/-- A replay that checks the condition at each step is a run that meets it. -/
theorem reaches_of_run [∀ state action, Decidable (Meets state action)] (actions : List Action)
    (replayed : run (checked step Meets) actions start = some final) : Reaches step Meets start final := by
  induction actions generalizing start with
  | nil =>
    have same : start = final := by simpa [run] using replayed
    exact same ▸ .refl _
  | cons action actions ih =>
    rw [run, List.foldlM_cons] at replayed
    obtain ⟨middle, stepped, rest⟩ := Option.bind_eq_some_iff.mp replayed
    have meets : Meets start action := by
      by_contra fails
      simp [checked, fails] at stepped
    rw [checked, if_pos meets] at stepped
    exact (Reaches.next (.refl _) meets stepped).trans (ih rest)

section Replays

variable (Test : State → Prop) [DecidablePred Test] {Claim : State → Prop} {actions : List Action}

theorem exists_run (replayed : (run step actions start).any (fun state => decide (Test state)) = true)
    (claims : ∀ state, Test state → Claim state) : ∃ state, run step actions start = some state ∧ Claim state := by
  obtain ⟨state, ended, tested⟩ := (Option.any_eq_true _ _).mp replayed
  exact ⟨state, ended, claims state (of_decide_eq_true tested)⟩

/-- A checked replay that ends in a state with a decidable property. -/
theorem exists_reached [∀ state action, Decidable (Meets state action)] (actions : List Action)
    (replayed : (run (checked step Meets) actions start).any (fun state => decide (Test state)) = true)
    (claims : ∀ state, Reaches step Meets start state → Test state → Claim state) :
    ∃ state, Reaches step Meets start state ∧ Claim state := by
  obtain ⟨state, ended, tested⟩ := (Option.any_eq_true _ _).mp replayed
  exact ⟨state, reaches_of_run actions ended, claims state (reaches_of_run actions ended) (of_decide_eq_true tested)⟩

end Replays

end Remnic.Library.Transition
