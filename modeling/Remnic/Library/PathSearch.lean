import Remnic.Library.Paths

/-!
Two searches of a network that is listed hop by hop. A depth-first search emits each trail
once; a breadth-first search finds each node at its distance.
-/

namespace Remnic.Library.PathSearch

open Paths List

variable {Node Hop Edge State Hit : Type} {net : Network Node Hop Edge} {hops : Node → List Hop}
  {start node : Node} {path : List Hop}

structure Lists (hops : Node → List Hop) (net : Network Node Hop Edge) : Prop where
  nodup : ∀ node, (hops node).Nodup
  mem_iff : ∀ {node hop}, hop ∈ hops node ↔ net.leaves node hop

theorem nodup_edges_append {taken : List Hop} {hop : Hop} (distinct : (taken.map net.edge).Nodup)
    (fresh : net.edge hop ∉ taken.map net.edge) : ((taken ++ [hop]).map net.edge).Nodup := by
  rw [map_append, map_singleton]
  exact Nodup.append distinct (nodup_singleton _) (by simpa using fresh)

section depthFirst

variable [DecidableEq Edge]

/-- The trails that go on from one that ends at a node, by at most some hops. -/
def trails (net : Network Node Hop Edge) (hops : Node → List Hop) : Nat → Node → List Hop → List (List Hop)
  | 0, _, _ => []
  | more + 1, node, taken => (hops node).flatMap fun hop =>
      if net.edge hop ∈ taken.map net.edge then []
      else (taken ++ [hop]) :: trails net hops more (net.target hop) (taken ++ [hop])

theorem mem_trails (listed : Lists hops net) {more : Nat} {taken : List Hop} (distinct : (taken.map net.edge).Nodup) :
    path ∈ trails net hops more node taken ↔ ∃ rest, rest ≠ [] ∧ path = taken ++ rest ∧ IsPath net node rest ∧
      rest.length ≤ more ∧ (path.map net.edge).Nodup := by
  induction more generalizing node taken with
  | zero =>
    constructor
    · exact fun member => absurd member not_mem_nil
    · rintro ⟨rest, some, _, _, short, _⟩
      exact absurd (length_eq_zero_iff.mp (Nat.le_zero.mp short)) some
  | succ more ih =>
    rw [trails, mem_flatMap]
    constructor
    · rintro ⟨hop, leaves, member⟩
      have valid := listed.mem_iff.mp leaves
      split at member
      · exact absurd member not_mem_nil
      next fresh =>
        have extended := nodup_edges_append distinct fresh
        rcases mem_cons.mp member with rfl | further
        · exact ⟨[hop], cons_ne_nil _ _, rfl, ⟨valid, trivial⟩, by simp, extended⟩
        · obtain ⟨rest, some, rfl, onward, short, trail⟩ := (ih extended).mp further
          exact ⟨hop :: rest, cons_ne_nil _ _, by simp, ⟨valid, onward⟩, Nat.succ_le_succ short, trail⟩
    · rintro ⟨rest, some, rfl, valid, short, trail⟩
      cases rest with
      | nil => exact absurd rfl some
      | cons hop rest =>
        have split : taken ++ hop :: rest = (taken ++ [hop]) ++ rest := by simp
        have fresh : net.edge hop ∉ taken.map net.edge := by
          rw [map_append, nodup_append] at trail
          exact fun before => trail.2.2 _ before _ mem_cons_self rfl
        refine ⟨hop, listed.mem_iff.mpr valid.1, ?_⟩
        rw [if_neg fresh, mem_cons]
        by_cases last : rest = []
        · exact .inl (by rw [last])
        · exact .inr ((ih (nodup_edges_append distinct fresh)).mpr
            ⟨rest, last, split, valid.2, Nat.le_of_succ_le_succ short, trail⟩)

theorem nodup_trails (listed : Lists hops net) (more : Nat) (node : Node) (taken : List Hop)
    (distinct : (taken.map net.edge).Nodup) : (trails net hops more node taken).Nodup := by
  induction more generalizing node taken with
  | zero => exact nodup_nil
  | succ more ih =>
    have starts : ∀ hop path, path ∈ (if net.edge hop ∈ taken.map net.edge then []
        else (taken ++ [hop]) :: trails net hops more (net.target hop) (taken ++ [hop])) → ∃ rest, path = taken ++ hop :: rest := by
      intro hop path member
      split at member
      · exact absurd member not_mem_nil
      next fresh =>
        rcases mem_cons.mp member with rfl | further
        · exact ⟨[], rfl⟩
        · obtain ⟨rest, _, rfl, _⟩ := (mem_trails listed (nodup_edges_append distinct fresh)).mp further
          exact ⟨rest, by simp⟩
    rw [trails, nodup_flatMap]
    refine ⟨fun hop _ => ?_, (listed.nodup node).imp fun {one two} different => ?_⟩
    · split
      · exact nodup_nil
      next fresh =>
        have extended := nodup_edges_append distinct fresh
        rw [nodup_cons]
        refine ⟨fun again => ?_, ih _ _ extended⟩
        obtain ⟨rest, some, same, _⟩ := (mem_trails listed extended).mp again
        exact some (append_right_eq_self.mp same.symm)
    · refine disjoint_left.mpr ?_
      intro path here there
      obtain ⟨first, rfl⟩ := starts one path here
      obtain ⟨second, same⟩ := starts two _ there
      exact different (List.cons.inj (append_cancel_left same)).1

/-- The search that emits each trail when it has taken its last hop, until it is stopped. -/
def depthFirst (net : Network Node Hop Edge) (hops : Node → List Hop) (stop : State → Bool) (emit : State → List Hop → State) :
    Nat → Node → List Hop → State → State
  | 0, _, _, state => state
  | more + 1, node, taken, state =>
      (hops node).foldl (fun state hop =>
        if stop state then state
        else if net.edge hop ∈ taken.map net.edge then state
        else
          let emitted := emit state (taken ++ [hop])
          if stop emitted then emitted
          else depthFirst net hops stop emit more (net.target hop) (taken ++ [hop]) emitted) state

theorem depthFirst_eq_foldl {stop : State → Bool} {emit : State → List Hop → State} (more : Nat) (node : Node) (taken : List Hop)
    (state : State) : depthFirst net hops stop emit more node taken state =
      (trails net hops more node taken).foldl (fun state path => if stop state then state else emit state path) state := by
  have stopped : ∀ (paths : List (List Hop)) state, stop state = true →
      paths.foldl (fun state path => if stop state then state else emit state path) state = state := by
    intro paths state isStopped
    induction paths with
    | nil => rfl
    | cons path paths ih => rw [foldl_cons, if_pos isStopped, ih]
  induction more generalizing node taken state with
  | zero => rfl
  | succ more ih =>
    rw [depthFirst, trails, foldl_flatMap]
    congr 1
    funext state hop
    by_cases isStopped : stop state = true
    · rw [if_pos isStopped, stopped _ _ isStopped]
    · rw [if_neg isStopped]
      split
      · rfl
      · dsimp only
        rw [foldl_cons, if_neg isStopped]
        split
        next now => rw [stopped _ _ now]
        next => rw [ih]

end depthFirst

section breadthFirst

structure Search (Node Hit : Type) where
  visited : List Node
  nextFrontier : List Node
  hits : List Hit

/-- A node that was not visited before is recorded, if its record is there. -/
def visit [DecidableEq Node] (record : Node → Nat → Option Hit) (depth : Nat) (search : Search Node Hit) (node : Node) : Search Node Hit :=
  if node ∈ search.visited then search
  else ⟨search.visited ++ [node], search.nextFrontier ++ [node], search.hits ++ (record node depth).toList⟩

def expand [DecidableEq Node] (net : Network Node Hop Edge) (hops : Node → List Hop) (record : Node → Nat → Option Hit) (depth : Nat)
    (search : Search Node Hit) : Search Node Hit :=
  search.nextFrontier.foldl (fun search node => (hops node).foldl (fun search hop => visit record depth search (net.target hop)) search)
    { search with nextFrontier := [] }

/-- The levels from a depth on, until there is no node left to go on from. -/
def breadthFirst [DecidableEq Node] (net : Network Node Hop Edge) (hops : Node → List Hop) (record : Node → Nat → Option Hit) :
    Nat → Nat → Search Node Hit → Search Node Hit
  | 0, _, search => search
  | more + 1, depth, search =>
      let expanded := expand net hops record depth search
      if expanded.nextFrontier = [] then expanded else breadthFirst net hops record more (depth + 1) expanded

variable {record : Node → Nat → Option Hit} {search : Search Node Hit} {depth : Nat}

theorem foldl_visit [DecidableEq Node] (record : Node → Nat → Option Hit) (depth : Nat) (nodes : List Node) (search : Search Node Hit) :
    ∃ new : List Node, new.Nodup ∧ (∀ node, node ∈ new ↔ node ∈ nodes ∧ node ∉ search.visited) ∧
      nodes.foldl (visit record depth) search =
        ⟨search.visited ++ new, search.nextFrontier ++ new, search.hits ++ new.filterMap (record · depth)⟩ := by
  induction nodes generalizing search with
  | nil => exact ⟨[], nodup_nil, by simp, by simp⟩
  | cons first nodes ih =>
    rw [foldl_cons]
    by_cases seen : first ∈ search.visited
    · obtain ⟨new, distinct, mem_new, result⟩ := ih search
      refine ⟨new, distinct, fun node => ?_, by rw [visit, if_pos seen, result]⟩
      rw [mem_new, mem_cons]
      constructor
      · exact fun ⟨member, unseen⟩ => ⟨.inr member, unseen⟩
      · rintro ⟨rfl | member, unseen⟩
        · exact absurd seen unseen
        · exact ⟨member, unseen⟩
    · obtain ⟨new, distinct, mem_new, result⟩ := ih (visit record depth search first)
      rw [visit, if_neg seen] at mem_new result
      refine ⟨first :: new, nodup_cons.mpr ⟨fun again => ?_, distinct⟩, fun node => ?_, ?_⟩
      · exact ((mem_new first).mp again).2 (mem_append_right _ (mem_singleton_self _))
      · rw [mem_cons, mem_new, mem_cons, mem_append, mem_singleton, not_or]
        constructor
        · rintro (rfl | ⟨member, unseen, _⟩)
          · exact ⟨.inl rfl, seen⟩
          · exact ⟨.inr member, unseen⟩
        · rintro ⟨rfl | member, unseen⟩
          · exact .inl rfl
          · by_cases same : node = first
            · exact .inl same
            · exact .inr ⟨member, unseen, same⟩
      · rw [visit, if_neg seen, result]
        cases recorded : record first depth <;> simp [recorded]

/-- What a search has found at a depth: each node as near as that, with its distance. -/
structure Explored (net : Network Node Hop Edge) (start : Node) (record : Node → Nat → Option Hit) (depth : Nat)
    (found : List (Node × Nat)) (search : Search Node Hit) : Prop where
  nodup : (found.map Prod.fst).Nodup
  mem_iff : ∀ {node length}, (node, length) ∈ found ↔ IsDistance net start node length ∧ length ≤ depth
  visited : search.visited = found.map Prod.fst
  frontier : ∀ {node}, node ∈ search.nextFrontier ↔ IsDistance net start node depth
  hits : search.hits = found.filterMap fun entry => record entry.1 entry.2

variable {found : List (Node × Nat)}

theorem Explored.mem_visited (explored : Explored net start record depth found search) :
    node ∈ search.visited ↔ ∃ length ≤ depth, IsDistance net start node length := by
  rw [explored.visited, mem_map]
  constructor
  · rintro ⟨⟨_, length⟩, member, rfl⟩
    obtain ⟨short, near⟩ := explored.mem_iff.mp member
    exact ⟨length, near, short⟩
  · rintro ⟨length, near, short⟩
    exact ⟨(node, length), explored.mem_iff.mpr ⟨short, near⟩, rfl⟩

theorem Explored.expand [DecidableEq Node] (listed : ∀ {node hop}, hop ∈ hops node ↔ net.leaves node hop)
    (explored : Explored net start record depth found search) :
    ∃ found, Explored net start record (depth + 1) found (expand net hops record (depth + 1) search) := by
  have flat : PathSearch.expand net hops record (depth + 1) search =
      (search.nextFrontier.flatMap fun node => (hops node).map net.target).foldl (visit record (depth + 1))
        { search with nextFrontier := [] } := by
    rw [PathSearch.expand, foldl_flatMap]
    simp only [foldl_map]
  obtain ⟨new, distinct, mem_new, result⟩ := foldl_visit record (depth + 1)
    (search.nextFrontier.flatMap fun node => (hops node).map net.target) { search with nextFrontier := [] }
  have next : ∀ node, node ∈ new ↔ IsDistance net start node (depth + 1) := by
    intro node
    rw [mem_new, isDistance_succ]
    simp only [mem_flatMap, mem_map, explored.frontier, explored.mem_visited, listed, not_exists, not_and]
  rw [flat, result]
  refine ⟨found ++ new.map fun node => (node, depth + 1), ?_, ?_, ?_, ?_, ?_⟩
  · rw [map_append, map_map]
    refine Nodup.append explored.nodup (by simpa [Function.comp_def] using distinct) ?_
    rw [← explored.visited, disjoint_left]
    intro node seen again
    have fresh : node ∈ new := by simpa [Function.comp_def] using again
    exact ((mem_new node).mp fresh).2 seen
  · intro node length
    rw [mem_append, explored.mem_iff, mem_map]
    constructor
    · rintro (⟨short, near⟩ | ⟨other, fresh, same⟩)
      · exact ⟨short, Nat.le_succ_of_le near⟩
      · cases same
        exact ⟨(next node).mp fresh, Nat.le_refl _⟩
    · rintro ⟨short, near⟩
      rcases Nat.lt_or_eq_of_le near with less | rfl
      · exact .inl ⟨short, Nat.le_of_lt_succ less⟩
      · exact .inr ⟨node, (next node).mpr short, rfl⟩
  · rw [explored.visited]
    simp [Function.comp_def]
  · intro node
    rw [nil_append, next]
  · rw [explored.hits, filterMap_append, filterMap_map]
    rfl

theorem Explored.finished (explored : Explored net start record depth found search) (empty : search.nextFrontier = []) {further : Nat}
    (farther : depth ≤ further) : Explored net start record further found search := by
  have none : ∀ {node length}, IsDistance net start node length → length < depth := by
    intro node length short
    by_contra far
    obtain ⟨between, near⟩ := exists_isDistance_of_le short (Nat.le_of_not_lt far)
    have member := explored.frontier.mpr near
    rw [empty] at member
    cases member
  refine ⟨explored.nodup, ?_, explored.visited, ?_, explored.hits⟩
  · intro node length
    rw [explored.mem_iff]
    exact ⟨fun ⟨short, near⟩ => ⟨short, Nat.le_trans near farther⟩, fun ⟨short, _⟩ => ⟨short, Nat.le_of_lt (none short)⟩⟩
  · intro node
    rw [empty]
    exact ⟨fun member => absurd member not_mem_nil, fun short => absurd (none short) (Nat.not_lt.mpr farther)⟩

theorem Explored.breadthFirst [DecidableEq Node] (listed : ∀ {node hop}, hop ∈ hops node ↔ net.leaves node hop) (more : Nat)
    (explored : Explored net start record depth found search) :
    ∃ found, Explored net start record (depth + more) found (breadthFirst net hops record more (depth + 1) search) := by
  induction more generalizing depth found search with
  | zero => exact ⟨found, explored⟩
  | succ more ih =>
    obtain ⟨wider, expanded⟩ := explored.expand listed
    rw [PathSearch.breadthFirst]
    split
    next empty => exact ⟨wider, expanded.finished empty (by omega)⟩
    next =>
      obtain ⟨widest, final⟩ := ih expanded
      exact ⟨widest, by rwa [Nat.add_right_comm] at final⟩

theorem explored_start (hits : List Hit) (recorded : hits = (record start 0).toList) :
    Explored net start record 0 [(start, 0)] ⟨[start], [start], hits⟩ := by
  refine ⟨nodup_singleton _, ?_, rfl, ?_, ?_⟩
  · intro node length
    rw [mem_singleton, Prod.mk.injEq]
    constructor
    · rintro ⟨rfl, rfl⟩
      exact ⟨isDistance_zero.mpr rfl, Nat.le_refl _⟩
    · rintro ⟨short, near⟩
      cases Nat.le_zero.mp near
      exact ⟨isDistance_zero.mp short, rfl⟩
  · intro node
    rw [mem_singleton, isDistance_zero]
  · rw [recorded]
    cases held : record start 0 <;> simp [held]

end breadthFirst

end Remnic.Library.PathSearch
