import Remnic.CodingGraph.Heuristic

/-!
What `chooseBinding` keeps of the bindings of a name: the first one if it is of the file, else one
of the innermost level. Of the bindings of one import only the first counts.
-/

namespace Remnic.CodingGraph.ImportChoice

open Text.CodeUnits Heuristic List

/-- Where a binding stands for a call: nowhere, at the level of the file, or at a depth. -/
inductive Seat where
  | unseen | file
  | local (depth : Nat)
  deriving DecidableEq

def seatOf (ancestorChain : List JsString) (binding : ImportBinding) : Seat :=
  if binding.invisible then .unseen
  else
    match binding.enclosing with
    | none => .file
    | some level => (ancestorChain.idxOf? level).elim .unseen .local

abbrev Chosen := Option (ImportBinding × Nat)

def choose (ancestorChain : List JsString) (chosen : Chosen) (binding : ImportBinding) : Chosen :=
  match seatOf ancestorChain binding with
  | .unseen => chosen
  | .file => if chosen.isNone then some (binding, 0) else chosen
  | .local depth => if chosen.all (depth < ·.2) then some (binding, depth) else chosen

variable {ancestorChain : List JsString}

theorem chooseBinding_eq (candidates : List ImportBinding) :
    chooseBinding ancestorChain candidates = (candidates.foldl (choose ancestorChain) none).map Prod.fst := by
  unfold chooseBinding
  congr 2
  funext chosen binding
  unfold choose seatOf
  split
  · rfl
  · cases binding.enclosing with
    | none => rfl
    | some level =>
      dsimp only
      cases ancestorChain.idxOf? level <;> rfl

variable {depth : Nat} {binding : ImportBinding} {before : List ImportBinding} {chosen : Chosen}

theorem foldl_choose_stays {later : List ImportBinding}
    (outer : ∀ other ∈ later, ∀ otherDepth, seatOf ancestorChain other = .local otherDepth → depth ≤ otherDepth) :
    later.foldl (choose ancestorChain) (some (binding, depth)) = some (binding, depth) := by
  induction later with
  | nil => rfl
  | cons other later ih =>
    have stays : choose ancestorChain (some (binding, depth)) other = some (binding, depth) := by
      unfold choose
      cases seat : seatOf ancestorChain other with
      | unseen => rfl
      | file => rfl
      | «local» otherDepth =>
        have least := outer other mem_cons_self otherDepth seat
        exact if_neg (by simpa using least)
    rw [foldl_cons, stays]
    exact ih fun another member => outer another (mem_cons_of_mem other member)

/-- A choice among some bindings: none if none is seen, else the file's, or one of the innermost level. -/
def IsChoice (ancestorChain : List JsString) (candidates : List ImportBinding) : Chosen → Prop
  | none => ∀ binding ∈ candidates, seatOf ancestorChain binding = .unseen
  | some (binding, depth) => binding ∈ candidates ∧ (seatOf ancestorChain binding = .file ∧ depth = 0 ∨
      seatOf ancestorChain binding = .local depth ∧
        ∀ other ∈ candidates, ∀ otherDepth, seatOf ancestorChain other = .local otherDepth → depth ≤ otherDepth)

theorem IsChoice.keep {found : ImportBinding × Nat} (isChoice : IsChoice ancestorChain before (some found))
    (outer : ∀ depth, seatOf ancestorChain binding = .local depth → found.2 ≤ depth) :
    IsChoice ancestorChain (before ++ [binding]) (some found) := by
  obtain ⟨member, place⟩ := isChoice
  refine ⟨mem_append_left _ member, place.imp_right fun ⟨seated, least⟩ => ⟨seated, fun other otherIn depth seat => ?_⟩⟩
  rcases mem_append.mp otherIn with earlier | last
  · exact least other earlier depth seat
  · rw [mem_singleton.mp last] at seat
    exact outer depth seat

theorem IsChoice.take (isChoice : IsChoice ancestorChain before chosen) (seat : seatOf ancestorChain binding = .local depth)
    (inner : ∀ found ∈ chosen, depth < found.2) : IsChoice ancestorChain (before ++ [binding]) (some (binding, depth)) := by
  refine ⟨by simp, .inr ⟨seat, fun other otherIn otherDepth otherSeat => ?_⟩⟩
  rcases mem_append.mp otherIn with earlier | last
  · cases chosen with
    | none =>
      rw [isChoice other earlier] at otherSeat
      cases otherSeat
    | some found =>
      have less := inner found rfl
      rcases isChoice.2 with ⟨_, zero⟩ | ⟨_, least⟩
      · omega
      · have least := least other earlier otherDepth otherSeat
        omega
  · rw [mem_singleton.mp last, seat] at otherSeat
    exact (Seat.local.inj otherSeat).le

theorem isChoice_choose (isChoice : IsChoice ancestorChain before chosen) (binding : ImportBinding) :
    IsChoice ancestorChain (before ++ [binding]) (choose ancestorChain chosen binding) := by
  unfold choose
  cases seat : seatOf ancestorChain binding with
  | unseen =>
    cases chosen with
    | none =>
      intro other member
      rcases mem_append.mp member with earlier | last
      · exact isChoice other earlier
      · rwa [mem_singleton.mp last]
    | some found => exact isChoice.keep fun depth other => by rw [seat] at other; cases other
  | file =>
    cases chosen with
    | none => exact ⟨by simp, .inl ⟨seat, rfl⟩⟩
    | some found => exact isChoice.keep fun depth other => by rw [seat] at other; cases other
  | «local» depth =>
    dsimp only
    by_cases inner : chosen.all (depth < ·.2) = true
    · rw [if_pos inner]
      exact isChoice.take seat fun found held => by simpa [Option.mem_def.mp held] using inner
    · rw [if_neg inner]
      cases chosen with
      | none => exact absurd rfl inner
      | some found =>
        refine isChoice.keep fun otherDepth other => ?_
        rw [seat] at other
        rw [← Seat.local.inj other]
        simpa using inner

theorem isChoice_foldl (ancestorChain : List JsString) (candidates : List ImportBinding) :
    IsChoice ancestorChain candidates (candidates.foldl (choose ancestorChain) none) := by
  induction candidates using List.reverseRecOn with
  | nil => exact fun _ member => nomatch member
  | append_singleton before binding ih =>
    rw [foldl_append]
    exact isChoice_choose ih binding

theorem foldl_choose_same (binding : ImportBinding) {more : List ImportBinding}
    (same : ∀ other ∈ more, seatOf ancestorChain other = seatOf ancestorChain binding) (chosen : Chosen) :
    (binding :: more).foldl (choose ancestorChain) chosen = choose ancestorChain chosen binding := by
  have stays : ∀ other ∈ more, choose ancestorChain (choose ancestorChain chosen binding) other = choose ancestorChain chosen binding := by
    intro other member
    unfold choose
    rw [same other member]
    cases seatOf ancestorChain binding with
    | unseen => rfl
    | file => cases chosen <;> rfl
    | «local» depth =>
      cases chosen with
      | none => simp
      | some found => by_cases inner : depth < found.2 <;> simp [inner]
  rw [foldl_cons]
  clear same
  induction more with
  | nil => rfl
  | cons other more ih =>
    rw [foldl_cons, stays other mem_cons_self]
    exact ih fun another member => stays another (mem_cons_of_mem other member)

theorem foldl_choose_flatMap {Item : Type} {bindings : Item → List ImportBinding}
    (same : ∀ item, ∀ first ∈ bindings item, ∀ second ∈ bindings item, seatOf ancestorChain second = seatOf ancestorChain first)
    (items : List Item) (chosen : Chosen) : (items.flatMap bindings).foldl (choose ancestorChain) chosen =
      (items.filterMap fun item => (bindings item).head?).foldl (choose ancestorChain) chosen := by
  induction items generalizing chosen with
  | nil => rfl
  | cons item items ih =>
    rw [flatMap_cons, foldl_append, filterMap_cons, ih]
    cases given : bindings item with
    | nil => rfl
    | cons binding more =>
      have alike : ∀ other ∈ more, seatOf ancestorChain other = seatOf ancestorChain binding := fun other member =>
        same item binding (by simp [given]) other (by simp [given, member])
      rw [foldl_choose_same binding alike]
      rfl

end Remnic.CodingGraph.ImportChoice
