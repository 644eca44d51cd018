import Remnic.ContentHash.Index
import Remnic.Library.Transition

/-!
Processes that share one index file. Every await of a save, a load or a rebuild
ends a step; the calls that change an index in memory are single steps.
-/

namespace Remnic.ContentHash.Sharing

open Library.InsertionSet Library.Transition Text.CodeUnits IndexFile Index

/-- Where a process stands in the section it runs under the lock. -/
inductive Stage where
  | idle
  | reading (added removed : HashSet)
  | writing (added removed merged : HashSet)
  | settling (added removed merged : HashSet)
  | releasing
  | rebuilding
  deriving DecidableEq

/-- A plain `save` in flight: the deltas and the text it took before it paused. -/
structure Overwrite where
  added : HashSet
  removed : HashSet
  serialized : JsString
  written : Bool
  deriving DecidableEq

/-- A process: its index, its calls that wait for the lock, and the loads and
plain saves that await the file. -/
structure Process where
  index : ContentHashIndex
  waiting : Nat
  stage : Stage
  loads : List (Option JsString)
  saves : List Overwrite
  deriving DecidableEq

structure Publication where
  added : HashSet
  removed : HashSet
  deriving DecidableEq

structure System where
  disk : Option JsString
  lock : Option Nat
  processes : Nat → Process
  /-- The latest publication first. -/
  history : List Publication

def initial (start : Option JsString) : System where
  disk := start
  lock := none
  processes := fun _ => { index := fresh, waiting := 0, stage := .idle, loads := [], saves := [] }
  history := []

/-- The steps of `saveMergingWithDisk`. -/
inductive Move where
  | call
  | timeout
  | acquire
  | read
  | write
  | settle
  | fail
  | release
  deriving DecidableEq

inductive Action where
  | mutate (process : Nat) (mutation : Mutation)
  | reconcile (process : Nat) (move : Move)
  | load (process : Nat)
  | loadDone (process call : Nat)
  | save (process : Nat)
  | saveWrite (process call : Nat)
  | saveDone (process call : Nat)
  | saveFail (process call : Nat)
  | rebuild (process : Nat)
  | rebuildDone (process : Nat)
  deriving DecidableEq

def System.set (system : System) (process : Nat) (state : Process) : System :=
  { system with processes := Function.update system.processes process state }

def reconcileStep (system : System) (process : Nat) (state : Process) (move : Move) : Option System :=
  match state.stage, move with
  | _, .call =>
    if state.index.dirty then some (system.set process { state with waiting := state.waiting + 1 }) else some system
  | _, .timeout =>
    if 0 < state.waiting then some (system.set process { state with waiting := state.waiting - 1 }) else none
  | .idle, .acquire =>
    if 0 < state.waiting ∧ system.lock = none then
      some { system.set process { state with
          waiting := state.waiting - 1
          stage := .reading state.index.added state.index.removed } with
        lock := some process }
    else none
  | .reading added removed, .read =>
    some (system.set process { state with
      stage := .writing added removed (mergedHashes added removed system.disk) })
  | .writing added removed merged, .write =>
    some { system.set process { state with stage := .settling added removed merged } with
      disk := some (serializeHashIndex merged)
      history := ⟨added, removed⟩ :: system.history }
  | .settling added removed merged, .settle =>
    some (system.set process { state with
      index := Index.settle state.index added removed merged
      stage := .releasing })
  | .reading .., .fail | .writing .., .fail | .settling .., .fail =>
    some (system.set process { state with stage := .releasing })
  | .releasing, .release => some { system.set process { state with stage := .idle } with lock := none }
  | _, _ => none

def step (system : System) : Action → Option System
  | .mutate process mutation =>
    let state := system.processes process
    some (system.set process { state with index := Index.mutate state.index mutation })
  | .reconcile process move => reconcileStep system process (system.processes process) move
  | .load process =>
    let state := system.processes process
    some (system.set process { state with loads := system.disk :: state.loads })
  | .loadDone process call =>
    let state := system.processes process
    state.loads[call]?.map fun disk =>
      system.set process { state with index := loaded state.index disk, loads := state.loads.eraseIdx call }
  | .save process =>
    let state := system.processes process
    let overwrite : Overwrite :=
      ⟨state.index.added, state.index.removed, serializeHashIndex state.index.hashes, false⟩
    if state.index.dirty then some (system.set process { state with saves := overwrite :: state.saves })
    else some system
  | .saveWrite process call =>
    let state := system.processes process
    state.saves[call]?.map fun overwrite =>
      { system.set process { state with saves := state.saves.set call { overwrite with written := true } } with
        disk := some overwrite.serialized }
  | .saveDone process call =>
    let state := system.processes process
    (state.saves[call]?.filter (·.written)).map fun overwrite =>
      system.set process { state with
        index := consume state.index overwrite.added overwrite.removed
        saves := state.saves.eraseIdx call }
  | .saveFail process call =>
    let state := system.processes process
    state.saves[call]?.map fun _ => system.set process { state with saves := state.saves.eraseIdx call }
  | .rebuild process =>
    let state := system.processes process
    if state.stage = .idle ∧ system.lock = none then
      some { system.set process { state with stage := .rebuilding } with lock := some process }
    else none
  | .rebuildDone process =>
    let state := system.processes process
    if state.stage = .rebuilding then
      some { system.set process { state with stage := .idle } with lock := none }
    else none

def Action.process : Action → Nat
  | .mutate process _ | .reconcile process _ | .load process | .loadDone process _ | .save process
  | .saveWrite process _ | .saveDone process _ | .saveFail process _ | .rebuild process | .rebuildDone process => process

@[simp] theorem set_processes_self (system : System) (process : Nat) (state : Process) :
    (system.set process state).processes process = state := Function.update_self ..

theorem set_processes_other (system : System) {process other : Nat} (state : Process) (different : other ≠ process) :
    (system.set process state).processes other = system.processes other := Function.update_of_ne different ..

inductive Moved (system : System) (process : Nat) (state : Process) : Move → System → Prop where
  | clean : Moved system process state .call system
  | called : state.index.dirty = true →
      Moved system process state .call (system.set process { state with waiting := state.waiting + 1 })
  | timeout : Moved system process state .timeout (system.set process { state with waiting := state.waiting - 1 })
  | acquire : state.stage = .idle → system.lock = none →
      Moved system process state .acquire { system.set process { state with
          waiting := state.waiting - 1
          stage := .reading state.index.added state.index.removed } with
        lock := some process }
  | read (added removed : HashSet) : state.stage = .reading added removed →
      Moved system process state .read
        (system.set process { state with stage := .writing added removed (mergedHashes added removed system.disk) })
  | write (added removed merged : HashSet) : state.stage = .writing added removed merged →
      Moved system process state .write { system.set process { state with stage := .settling added removed merged } with
        disk := some (serializeHashIndex merged)
        history := ⟨added, removed⟩ :: system.history }
  | settle (added removed merged : HashSet) : state.stage = .settling added removed merged →
      Moved system process state .settle (system.set process { state with
        index := Index.settle state.index added removed merged
        stage := .releasing })
  | fail : state.stage ≠ .idle → Moved system process state .fail (system.set process { state with stage := .releasing })
  | release : state.stage = .releasing →
      Moved system process state .release { system.set process { state with stage := .idle } with lock := none }

theorem reconcileStep_moved {system next : System} {process : Nat} {state : Process} {move : Move}
    (stepped : reconcileStep system process state move = some next) : Moved system process state move next := by
  unfold reconcileStep at stepped
  split at stepped
  case h_1 =>
    split at stepped
    next dirty =>
      cases stepped
      exact .called dirty
    next =>
      cases stepped
      exact .clean
  case h_2 =>
    split at stepped
    · cases stepped
      exact .timeout
    · contradiction
  case h_3 idle =>
    split at stepped
    next free =>
      cases stepped
      exact .acquire idle free.2
    next => contradiction
  case h_4 added removed reading =>
    cases stepped
    exact .read added removed reading
  case h_5 added removed merged writing =>
    cases stepped
    exact .write added removed merged writing
  case h_6 added removed merged settling =>
    cases stepped
    exact .settle added removed merged settling
  case h_7 running | h_8 running | h_9 running =>
    cases stepped
    exact .fail (by simp [running])
  case h_10 releasing =>
    cases stepped
    exact .release releasing
  case h_11 => contradiction

end Remnic.ContentHash.Sharing
