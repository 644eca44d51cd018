import Remnic.CodingGraph.StoredGraph
import Remnic.Library.AppendNew
import Remnic.Library.PathSearch

/-!
`traverse`, which finds each node at its shortest depth, and `traversePaths`, which
enumerates the paths that take no edge twice.
-/

namespace Remnic.CodingGraph.Traverse

open Text.CodeUnits Library Schema Resolve StoredGraph Library.Paths Library.PathSearch Library.AppendNew List

/-- The order in which the database gives the rows of a query. -/
structure Reader where
  order : List EdgeKey → List EdgeKey
  perm : ∀ rows, (order rows).Perm rows

inductive TraverseDirection where
  | outgoing | incoming | both
  deriving DecidableEq, Repr

/-- Bounds are numbers; one that is not an integer is none. -/
structure TraverseQuery where
  start : JsString
  direction : Option TraverseDirection
  edgeTypes : Option (List JsString)
  maxDepth : Option Int

structure TraversePathsQuery where
  start : JsString
  direction : Option TraverseDirection
  edgeTypes : Option (List JsString)
  maxHops : Option Int
  minHops : Option (Option Int)
  maxPaths : Option (Option Int)

inductive ReadFailure where
  | invalidQuery | unknownStart | ambiguousStart
  deriving DecidableEq, Repr

def defaultTraversePathsMax : Nat := 10000

def maxTraversePathsHops : Nat := 1000

def atLeast (least : Nat) (given : Option Int) : Option Nat :=
  given.bind fun value => if (least : Int) ≤ value then some value.toNat else none

def TraverseQuery.bound (query : TraverseQuery) : Option Nat :=
  if query.start = [] then none else atLeast 0 query.maxDepth

structure PathBounds where
  minHops : Nat
  maxHops : Nat
  maxPaths : Nat

def TraversePathsQuery.bounds (query : TraversePathsQuery) : Option PathBounds := do
  let maxHops ← atLeast 0 query.maxHops
  let minHops ← query.minHops.elim (some 1) (atLeast 1)
  let maxPaths ← query.maxPaths.elim (some defaultTraversePathsMax) (atLeast 0)
  if maxTraversePathsHops < maxHops ∨ query.start = [] then none else some ⟨minHops, maxHops, maxPaths⟩

def lowerHexDigit (c : CodeUnit) : Option Nat :=
  if 0x30 ≤ c.val ∧ c.val ≤ 0x39 then some (c.val - 0x30)
  else if 0x61 ≤ c.val ∧ c.val ≤ 0x66 then some (c.val - 0x57)
  else none

/-- A string of 64 lower-case hexadecimal digits is a node id. -/
def nodeIdOf (start : JsString) : Option NodeId :=
  if start.length = 64 then
    (start.mapM lowerHexDigit).map fun digits => BitVec.ofNat 256 (digits.foldl (fun number digit => 16 * number + digit) 0)
  else none

/-- A node id is looked up as an id only, anything else as a qualified name only. -/
def resolveStart (store : Store) (start : JsString) : Except ReadFailure NodeId :=
  let rows := match nodeIdOf start with
    | some id => store.nodes.keys.filter (· = id)
    | none => (named store start).map Prod.fst
  match rows with
  | [] => .error .unknownStart
  | [id] => .ok id
  | _ => .error .ambiguousStart

/-- An edge as it is taken, out of its source or back into it. -/
structure Hop where
  edge : EdgeKey
  neighbor : NodeId
  deriving DecidableEq, Repr

def follows (edgeTypes : List JsString) (key : EdgeKey) : Bool := edgeTypes = [] || key.type ∈ edgeTypes

def edgeRows (reader : Reader) (store : Store) (direction : TraverseDirection) (edgeTypes : List JsString) (id : NodeId) : List Hop :=
  let outRows := (reader.order (store.edges.keys.filter fun key => key.src = id && follows edgeTypes key)).map fun key => ⟨key, key.dst⟩
  let inRows := (reader.order (store.edges.keys.filter fun key => key.dst = id && follows edgeTypes key)).map fun key => ⟨key, key.src⟩
  (if direction = .outgoing ∨ direction = .both then outRows else []) ++
    (if direction = .incoming ∨ direction = .both then inRows else [])

/-- A self-loop that both queries give is one hop. -/
def neighborsOf (reader : Reader) (store : Store) (direction : TraverseDirection) (edgeTypes : List JsString) (id : NodeId) : List Hop :=
  (edgeRows reader store direction edgeTypes id).foldl (fun deduped hop =>
    if hop.edge ∈ deduped.map Hop.edge then deduped else deduped ++ [hop]) []

/-- The hops that a direction and types allow, edge by edge. -/
def hopsOf (store : Store) (direction : TraverseDirection) (edgeTypes : List JsString) : Network NodeId Hop EdgeKey where
  leaves id hop := store.edges.contains hop.edge ∧ follows edgeTypes hop.edge = true ∧
    ((direction ≠ .incoming ∧ hop.edge.src = id ∧ hop.neighbor = hop.edge.dst) ∨
      (direction ≠ .outgoing ∧ hop.edge.dst = id ∧ hop.neighbor = hop.edge.src))
  target := Hop.neighbor
  edge := Hop.edge

structure TraverseHit where
  node : NodeInfo
  depth : Nat
  deriving DecidableEq, Repr

def hitOf (store : Store) (id : NodeId) (depth : Nat) : Option TraverseHit := (nodeInfo store id).map fun node => ⟨node, depth⟩

def traverse (reader : Reader) (store : Store) (query : TraverseQuery) : Except ReadFailure (List TraverseHit) := do
  let maxDepth ← query.bound.elim (.error .invalidQuery) .ok
  let startId ← resolveStart store query.start
  let direction := query.direction.getD .outgoing
  let edgeTypes := query.edgeTypes.getD []
  match hitOf store startId 0 with
  | none => .error .unknownStart
  | some startHit =>
      .ok (breadthFirst (hopsOf store direction edgeTypes) (edgeRows reader store direction edgeTypes) (hitOf store) maxDepth 1
        ⟨[startId], [startId], [startHit]⟩).hits

structure TraversePathHit where
  node : NodeInfo
  length : Nat
  nodeIds : List NodeId
  edgeTypes : List JsString
  edgeEndpoints : List (NodeId × NodeId)
  deriving DecidableEq, Repr

/-- A path from a start as it is reported, if its last node is there. -/
def pathHit (store : Store) (startId : NodeId) (path : List Hop) : Option TraversePathHit :=
  (nodeInfo store ((path.map Hop.neighbor).getLastD startId)).map fun node =>
    ⟨node, path.length, startId :: path.map Hop.neighbor, path.map (·.edge.type), path.map fun hop => (hop.edge.src, hop.edge.dst)⟩

structure Enumeration where
  hits : List TraversePathHit
  truncated : Bool
  deriving DecidableEq, Repr

/-- Shorter paths are walked and not emitted; one path too many stops the walk. -/
def emit (store : Store) (startId : NodeId) (bounds : PathBounds) (enumeration : Enumeration) (path : List Hop) : Enumeration :=
  if bounds.minHops ≤ path.length then
    if bounds.maxPaths ≤ enumeration.hits.length then { enumeration with truncated := true }
    else { enumeration with hits := enumeration.hits ++ (pathHit store startId path).toList }
  else enumeration

def traversePaths (reader : Reader) (store : Store) (query : TraversePathsQuery) : Except ReadFailure Enumeration := do
  let bounds ← query.bounds.elim (.error .invalidQuery) .ok
  let startId ← resolveStart store query.start
  let direction := query.direction.getD .outgoing
  let edgeTypes := query.edgeTypes.getD []
  .ok (depthFirst (hopsOf store direction edgeTypes) (neighborsOf reader store direction edgeTypes) Enumeration.truncated
    (emit store startId bounds) bounds.maxHops startId [] ⟨[], false⟩)


section hops

variable {reader : Reader} {store : Store} {direction : TraverseDirection} {edgeTypes : List JsString} {id : NodeId}
  {hop : Hop}

theorem mem_edgeRows : hop ∈ edgeRows reader store direction edgeTypes id ↔ (hopsOf store direction edgeTypes).leaves id hop := by
  have rows : ∀ (end_ neighbor : EdgeKey → NodeId), hop ∈ (reader.order (store.edges.keys.filter fun key =>
      end_ key = id && follows edgeTypes key)).map (fun key => Hop.mk key (neighbor key)) ↔
        store.edges.contains hop.edge ∧ follows edgeTypes hop.edge = true ∧ end_ hop.edge = id ∧ hop.neighbor = neighbor hop.edge := by
    intro end_ neighbor
    rw [mem_map]
    simp only [(reader.perm _).mem_iff, mem_filter, OrderedMap.mem_keys_iff, Bool.and_eq_true, decide_eq_true_eq,
      OrderedMap.contains_iff]
    constructor
    · rintro ⟨key, ⟨held, here, followed⟩, rfl⟩
      exact ⟨held, followed, here, rfl⟩
    · rintro ⟨held, followed, here, away⟩
      exact ⟨hop.edge, ⟨held, here, followed⟩, by rw [← away]⟩
  have outgoing := rows EdgeKey.src EdgeKey.dst
  have incoming := rows EdgeKey.dst EdgeKey.src
  unfold edgeRows hopsOf
  rw [mem_append]
  cases direction <;> simp only [reduceCtorEq, or_false, or_true, false_or, if_true, if_false, not_mem_nil, outgoing, incoming,
    ne_eq, not_true_eq_false, not_false_eq_true, false_and, true_and]
  all_goals tauto

theorem joinsByEdge : JoinsByEdge (hopsOf store direction edgeTypes) := by
  rintro one hop ⟨_, _, first⟩ two step ⟨_, _, second⟩ same
  have same : hop.edge = step.edge := same
  show (one = two ∧ hop.neighbor = step.neighbor) ∨ (one = step.neighbor ∧ hop.neighbor = two)
  rw [same] at first
  rcases first with ⟨_, rfl, first⟩ | ⟨_, rfl, first⟩ <;> rcases second with ⟨_, rfl, second⟩ | ⟨_, rfl, second⟩
  · exact .inl ⟨rfl, first.trans second.symm⟩
  · exact .inr ⟨second.symm, first⟩
  · exact .inr ⟨second.symm, first⟩
  · exact .inl ⟨rfl, first.trans second.symm⟩

theorem hop_unique {other : Hop} (leaves : (hopsOf store direction edgeTypes).leaves id hop)
    (also : (hopsOf store direction edgeTypes).leaves id other) (same : hop.edge = other.edge) : hop = other := by
  have ends : hop.neighbor = other.neighbor := by
    rcases joinsByEdge id hop leaves id other also same with ⟨_, alike⟩ | ⟨back, forth⟩
    · exact alike
    · exact forth.trans back
  cases hop
  cases other
  cases same
  cases ends
  rfl

theorem foldl_dedupe (rows deduped : List Hop) :
    let result := rows.foldl (fun deduped hop => if hop.edge ∈ deduped.map Hop.edge then deduped else deduped ++ [hop]) deduped
    result.map Hop.edge = appendNew (deduped.map Hop.edge) (rows.map Hop.edge) ∧ ∀ hop ∈ result, hop ∈ deduped ∨ hop ∈ rows := by
  induction rows generalizing deduped with
  | nil => exact ⟨rfl, fun hop member => .inl member⟩
  | cons first rows ih =>
    intro result
    obtain ⟨edges, from_⟩ := ih (if first.edge ∈ deduped.map Hop.edge then deduped else deduped ++ [first])
    have pushed : (if first.edge ∈ deduped.map Hop.edge then deduped else deduped ++ [first]).map Hop.edge =
        if first.edge ∈ deduped.map Hop.edge then deduped.map Hop.edge else deduped.map Hop.edge ++ [first.edge] := by
      split
      · rfl
      · rw [map_append, map_singleton]
    rw [pushed, ← appendNew_cons] at edges
    refine ⟨edges, fun hop member => ?_⟩
    rcases from_ hop member with before | after
    · split at before
      · exact .inl before
      · rcases mem_append.mp before with before | new
        · exact .inl before
        · exact .inr (mem_singleton.mp new ▸ mem_cons_self)
    · exact .inr (mem_cons_of_mem _ after)

theorem lists_neighborsOf : Lists (neighborsOf reader store direction edgeTypes) (hopsOf store direction edgeTypes) := by
  have result := fun id => foldl_dedupe (edgeRows reader store direction edgeTypes id) []
  constructor
  · intro id
    refine Nodup.of_map Hop.edge ?_
    rw [neighborsOf, (result id).1]
    exact nodup_appendNew nodup_nil _
  · intro id hop
    have onlyRows : ∀ other ∈ neighborsOf reader store direction edgeTypes id, (hopsOf store direction edgeTypes).leaves id other := by
      intro other member
      exact mem_edgeRows.mp (((result id).2 other member).resolve_left not_mem_nil)
    constructor
    · exact onlyRows hop
    · intro leaves
      have edge : hop.edge ∈ (neighborsOf reader store direction edgeTypes id).map Hop.edge := by
        rw [neighborsOf, (result id).1, mem_appendNew]
        exact .inr (mem_map_of_mem (mem_edgeRows.mpr leaves))
      obtain ⟨other, member, same⟩ := mem_map.mp edge
      rwa [hop_unique leaves (onlyRows other member) same.symm]

end hops

end Remnic.CodingGraph.Traverse
