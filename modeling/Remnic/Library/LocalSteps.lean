import Mathlib.Data.List.Nodup

/-!
A loop over keys whose round for one key leaves the view of every other key
alone. Whatever the order, each key ends as its own round left it, and a round
that fails stops the loop with the rounds before it kept.
-/

namespace Remnic.Library.LocalSteps

open List

variable {Key State Fault View : Type}

def runSteps (step : Key → State → Except Fault State) : List Key → State → State × Option Fault
  | [], state => (state, none)
  | key :: rest, state =>
    match step key state with
    | .error fault => (state, some fault)
    | .ok next => runSteps step rest next

variable {step : Key → State → Except Fault State}

variable {key : Key} {state : State} {rest : List Key}

theorem runSteps_cons_ok {next : State} (done : step key state = .ok next) :
    runSteps step (key :: rest) state = runSteps step rest next := by
  simp only [runSteps, done]

theorem runSteps_cons_error {fault : Fault} (failed : step key state = .error fault) :
    runSteps step (key :: rest) state = (state, some fault) := by
  simp only [runSteps, failed]

/-- The run rule: what every round keeps, the loop keeps, also when it stops early. -/
theorem runSteps_invariant {Holds : State → Prop} (keys : List Key)
    (keeps : ∀ key ∈ keys, ∀ state next, Holds state → step key state = .ok next → Holds next) (holds : Holds state) :
    Holds (runSteps step keys state).1 := by
  induction keys generalizing state with
  | nil => exact holds
  | cons key rest ih =>
    cases round : step key state with
    | error fault =>
      rw [runSteps_cons_error round]
      exact holds
    | ok next =>
      rw [runSteps_cons_ok round]
      exact ih (fun later member => keeps later (mem_cons_of_mem _ member))
        (keeps key mem_cons_self state next holds round)

section Views

variable {Name : Type} (name : Key → Name) (view : Name → State → View)

/-- A round changes no view but that of its own key's name, among the watched names. -/
def Local (Watched : Name → Prop) (step : Key → State → Except Fault State) : Prop :=
  ∀ key state next, step key state = .ok next →
    ∀ other, Watched other → other ≠ name key → view other next = view other state

variable {name view} {Watched : Name → Prop}

variable {state : State} {other : Name} {keys : List Key}

theorem untouched (confined : Local name view Watched step) (watched : Watched other) (absent : other ∉ keys.map name)
    (state : State) : view other (runSteps step keys state).1 = view other state := by
  have keeps : ∀ key ∈ keys, ∀ current next, view other current = view other state →
      step key current = .ok next → view other next = view other state := by
    intro key member current next same round
    have different : other ≠ name key := fun equal => absent (equal ▸ mem_map_of_mem member)
    rw [confined key current next round other watched different, same]
  exact runSteps_invariant keys keeps rfl

section

variable (confined : Local name view Watched step) (once : (keys.map name).Nodup)
include confined once

theorem kept_or_stepped (watched : Watched other) (state : State) :
    view other (runSteps step keys state).1 = view other state ∨
      ∃ key ∈ keys, name key = other ∧ ∃ before after, view other before = view other state ∧
        step key before = .ok after ∧ view other (runSteps step keys state).1 = view other after := by
  induction keys generalizing state with
  | nil => exact .inl rfl
  | cons key rest ih =>
    rw [map_cons, nodup_cons] at once
    cases round : step key state with
    | error fault =>
      rw [runSteps_cons_error round]
      exact .inl rfl
    | ok next =>
      rw [runSteps_cons_ok round]
      by_cases same : other = name key
      · refine .inr ⟨key, mem_cons_self, same.symm, state, next, rfl, round, ?_⟩
        exact untouched confined watched (same ▸ once.1) next
      · have frame := confined key state next round other watched same
        rcases ih once.2 next with kept | stepped
        · exact .inl (kept.trans frame)
        · obtain ⟨later, member, named, before, after, seen, own, last⟩ := stepped
          exact .inr ⟨later, mem_cons_of_mem _ member, named, before, after, seen.trans frame, own, last⟩

/-- A finished loop has run the round of each of its keys, on the first view of the key's name, and gone on from it. -/
theorem stepped {key : Key} (watched : Watched (name key)) (member : key ∈ keys)
    (finished : (runSteps step keys state).2 = none) :
    ∃ before after, view (name key) before = view (name key) state ∧ step key before = .ok after ∧
      view (name key) (runSteps step keys state).1 = view (name key) after ∧
      ∃ later, runSteps step keys state = runSteps step later after := by
  induction keys generalizing state with
  | nil => exact absurd member not_mem_nil
  | cons first rest ih =>
    rw [map_cons, nodup_cons] at once
    cases round : step first state with
    | error fault =>
      rw [runSteps_cons_error round] at finished
      cases finished
    | ok next =>
      rw [runSteps_cons_ok round] at finished ⊢
      rcases mem_cons.mp member with same | later
      · refine ⟨state, next, rfl, by rw [same, round], ?_, rest, rfl⟩
        exact untouched confined watched (same ▸ once.1) next
      · have different : name key ≠ name first := fun equal => once.1 (equal ▸ mem_map_of_mem later)
        obtain ⟨before, after, seen, own, last, tail⟩ := ih once.2 later finished
        exact ⟨before, after, seen.trans (confined first state next round _ watched different), own, last, tail⟩

/-- A loop reaches its end when each round succeeds on the first view of its name, whatever ran before. -/
theorem finishes {Holds : State → Prop} (watched : ∀ key ∈ keys, Watched (name key)) {start : State}
    (succeeds : ∀ key ∈ keys, ∀ state, Holds state → view (name key) state = view (name key) start →
      ∃ next, step key state = .ok next ∧ Holds next)
    (same : ∀ key ∈ keys, view (name key) state = view (name key) start) (holds : Holds state) : (runSteps step keys state).2 = none ∧ Holds (runSteps step keys state).1 := by
  induction keys generalizing state with
  | nil => exact ⟨rfl, holds⟩
  | cons key rest ih =>
    rw [map_cons, nodup_cons] at once
    obtain ⟨next, round, kept⟩ := succeeds key mem_cons_self state holds (same key mem_cons_self)
    rw [runSteps_cons_ok round]
    refine ih once.2 (fun later member => watched later (mem_cons_of_mem _ member))
      (fun later member => succeeds later (mem_cons_of_mem _ member)) ?_ kept
    intro later member
    have different : name later ≠ name key := fun equal => once.1 (equal ▸ mem_map_of_mem member)
    rw [confined key state next round _ (watched later (mem_cons_of_mem _ member)) different]
    exact same later (mem_cons_of_mem _ member)

end

end Views

end Remnic.Library.LocalSteps
