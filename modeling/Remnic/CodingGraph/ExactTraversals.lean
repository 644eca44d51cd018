import Remnic.CodingGraph.StoredRuns
import Remnic.CodingGraph.Traverse

/-!
Both traversals are exact. `traversePaths` reports each path within its bounds once,
`traverse` each node at its distance, and the distance is the least length of a path.
-/

namespace Remnic.CodingGraph.ExactTraversals

open Text.CodeUnits Library Schema Resolve Upsert StoredGraph StoredRuns Traverse Library.Paths Library.PathSearch List Option

section enumeration

variable {reader : Reader} {store : Store} {direction : TraverseDirection} {edgeTypes : List JsString} {startId : NodeId}
  {path : List Hop}

theorem getLastD_neighbors (store : Store) (direction : TraverseDirection) (edgeTypes : List JsString) (path : List Hop) (startId : NodeId) :
    (path.map Hop.neighbor).getLastD startId = endpoint (hopsOf store direction edgeTypes) startId path := by
  induction path generalizing startId with
  | nil => rfl
  | cons hop path ih => rw [map_cons, getLastD_cons, ih, endpoint, hopsOf]

theorem contains_endpoint (stored : ForeignKeys store) (present : store.nodes.contains startId = true)
    (valid : IsPath (hopsOf store direction edgeTypes) startId path) :
    store.nodes.contains (endpoint (hopsOf store direction edgeTypes) startId path) = true := by
  induction path generalizing startId with
  | nil => exact present
  | cons hop path ih =>
    obtain ⟨⟨held, _, ends⟩, rest⟩ := valid
    obtain ⟨row, held⟩ := (OrderedMap.contains_iff _ _).mp held
    obtain ⟨src, dst⟩ := stored.edgeEnds held
    refine ih ?_ rest
    show store.nodes.contains hop.neighbor = true
    rcases ends with ⟨_, _, there⟩ | ⟨_, _, there⟩
    · exact there ▸ dst
    · exact there ▸ src

theorem exists_pathHit (stored : ForeignKeys store) (present : store.nodes.contains startId = true)
    (valid : IsPath (hopsOf store direction edgeTypes) startId path) : ∃ hit, pathHit store startId path = some hit := by
  obtain ⟨node, found⟩ := stored.nodeInfo (contains_endpoint stored present valid)
  rw [pathHit, getLastD_neighbors store direction edgeTypes, found]
  exact ⟨_, rfl⟩

theorem foldl_emit {bounds : PathBounds} (paths : List (List Hop)) (hits : List TraversePathHit)
    (described : ∀ path ∈ paths, ∃ hit, pathHit store startId path = some hit) :
    paths.foldl (fun enumeration path => if enumeration.truncated then enumeration else emit store startId bounds enumeration path)
      ⟨hits, false⟩ = ⟨hits ++ ((paths.filter (bounds.minHops ≤ ·.length)).take (bounds.maxPaths - hits.length)).filterMap
        (pathHit store startId), decide (bounds.maxPaths - hits.length < (paths.filter (bounds.minHops ≤ ·.length)).length)⟩ := by
  have stopped : ∀ (paths : List (List Hop)) (hits : List TraversePathHit), paths.foldl (fun enumeration path =>
      if enumeration.truncated then enumeration else emit store startId bounds enumeration path) ⟨hits, true⟩ = ⟨hits, true⟩ := by
    intro paths hits
    induction paths with
    | nil => rfl
    | cons path paths ih => rw [foldl_cons, if_pos rfl, ih]
  induction paths generalizing hits with
  | nil => simp
  | cons path paths ih =>
    have later := fun other member => described other (mem_cons_of_mem path member)
    rw [foldl_cons, if_neg Bool.false_ne_true, emit]
    by_cases inRange : bounds.minHops ≤ path.length
    · rw [if_pos inRange, filter_cons, if_pos (decide_eq_true inRange)]
      by_cases full : bounds.maxPaths ≤ hits.length
      · rw [if_pos full, stopped, Nat.sub_eq_zero_of_le full, take_zero, filterMap_nil, append_nil]
        simp
      · obtain ⟨hit, found⟩ := described path mem_cons_self
        have room : bounds.maxPaths - hits.length = bounds.maxPaths - (hits.length + 1) + 1 := by omega
        rw [if_neg full, found, toList_some, ih (hits ++ [hit]) later, length_append, length_singleton, room,
          take_succ_cons, filterMap_cons_some found]
        simp
    · rw [if_neg inRange, filter_cons, if_neg (by simpa using inRange), ih hits later]

end enumeration


section exactness

variable {store : Store} {net : Network NodeId Hop EdgeKey} {startId : NodeId}

/-- Without truncation the hits are the paths within the bounds, and each of them is there once. -/
structure EachPathOnce (store : Store) (net : Network NodeId Hop EdgeKey) (startId : NodeId) (bounds : PathBounds)
    (enumeration : Enumeration) (found : List (List Hop)) : Prop where
  nodup : found.Nodup
  mem_iff : ∀ {path}, path ∈ found ↔ IsTrail net startId path ∧ bounds.minHops ≤ path.length ∧ path.length ≤ bounds.maxHops
  truncated : enumeration.truncated = true ↔ bounds.maxPaths < found.length
  hits : enumeration.truncated = false → enumeration.hits.map some = found.map (pathHit store startId) ∧ enumeration.hits.Nodup

/-- The hits are the nodes within a depth, each of them once and at its distance. -/
structure EachNodeOnce (store : Store) (net : Network NodeId Hop EdgeKey) (startId : NodeId) (maxDepth : Nat)
    (hits : List TraverseHit) : Prop where
  nodup : (hits.map (·.node.nodeId)).Nodup
  mem_iff : ∀ {hit}, hit ∈ hits ↔
    IsDistance net startId hit.node.nodeId hit.depth ∧ hit.depth ≤ maxDepth ∧ hitOf store hit.node.nodeId hit.depth = some hit

variable {one : List Hop} {bounds : PathBounds} {two : List Hop} {hit : TraversePathHit}

theorem hops_injective (neighbors : one.map Hop.neighbor = two.map Hop.neighbor)
    (types : one.map (·.edge.type) = two.map (·.edge.type))
    (ends : (one.map fun hop => (hop.edge.src, hop.edge.dst)) = two.map fun hop => (hop.edge.src, hop.edge.dst)) : one = two := by
  induction one generalizing two with
  | nil => exact (map_eq_nil_iff.mp neighbors.symm).symm
  | cons hop one ih =>
    cases two with
    | nil => cases neighbors
    | cons other two =>
      simp only [map_cons, List.cons.injEq, Prod.mk.injEq] at neighbors types ends
      obtain ⟨⟨src, dst, type⟩, neighbor⟩ := hop
      obtain ⟨⟨otherSrc, otherDst, otherType⟩, otherNeighbor⟩ := other
      obtain ⟨⟨rfl, rfl⟩, ends⟩ := ends
      obtain ⟨rfl, types⟩ := types
      obtain ⟨rfl, neighbors⟩ := neighbors
      rw [ih neighbors types ends]

theorem pathHit_injective (first : pathHit store startId one = some hit) (second : pathHit store startId two = some hit) :
    one = two := by
  obtain ⟨_, _, rfl⟩ := map_eq_some_iff.mp first
  obtain ⟨_, _, same⟩ := map_eq_some_iff.mp second
  simp only [TraversePathHit.mk.injEq, List.cons.injEq, true_and] at same
  exact hops_injective same.2.2.1.symm same.2.2.2.1.symm same.2.2.2.2.symm

theorem nodeId_of_pathHit (direction : TraverseDirection) (edgeTypes : List JsString) {path : List Hop}
    (described : pathHit store startId path = some hit) :
    hit.node.nodeId = endpoint (hopsOf store direction edgeTypes) startId path ∧ hit.length = path.length := by
  obtain ⟨node, found, rfl⟩ := map_eq_some_iff.mp described
  exact ⟨(nodeId_of_nodeInfo found).trans (getLastD_neighbors store direction edgeTypes path startId), rfl⟩

theorem eachPathOnce (reader : Reader) (stored : ForeignKeys store) (present : store.nodes.contains startId = true)
    (direction : TraverseDirection) (edgeTypes : List JsString) (bounds : PathBounds) (positive : 1 ≤ bounds.minHops) :
    ∃ found, EachPathOnce store (hopsOf store direction edgeTypes) startId bounds
      (depthFirst (hopsOf store direction edgeTypes) (neighborsOf reader store direction edgeTypes) Enumeration.truncated
        (emit store startId bounds) bounds.maxHops startId [] ⟨[], false⟩) found := by
  set net := hopsOf store direction edgeTypes
  set walked := trails net (neighborsOf reader store direction edgeTypes) bounds.maxHops startId []
  have listed : Lists (neighborsOf reader store direction edgeTypes) net := lists_neighborsOf
  have untaken : (([] : List Hop).map net.edge).Nodup := nodup_nil
  have mem_walked : ∀ {path}, path ∈ walked ↔ IsTrail net startId path ∧ 1 ≤ path.length ∧ path.length ≤ bounds.maxHops := by
    intro path
    rw [mem_trails listed untaken]
    constructor
    · rintro ⟨rest, some, rfl, valid, short, trail⟩
      exact ⟨⟨valid, trail⟩, length_pos_iff.mpr some, short⟩
    · rintro ⟨⟨valid, trail⟩, some, short⟩
      exact ⟨path, length_pos_iff.mp some, rfl, valid, short, trail⟩
  have described : ∀ path ∈ walked, ∃ hit, pathHit store startId path = some hit := by
    intro path member
    exact exists_pathHit stored present (mem_walked.mp member).1.1
  rw [depthFirst_eq_foldl, foldl_emit walked [] described]
  set found := walked.filter (bounds.minHops ≤ ·.length)
  have mem_found : ∀ {path}, path ∈ found ↔ IsTrail net startId path ∧ bounds.minHops ≤ path.length ∧ path.length ≤ bounds.maxHops := by
    intro path
    rw [mem_filter, mem_walked, decide_eq_true_eq]
    exact ⟨fun ⟨⟨trail, _, short⟩, long⟩ => ⟨trail, long, short⟩,
      fun ⟨trail, long, short⟩ => ⟨⟨trail, Nat.le_trans positive long, short⟩, long⟩⟩
  have once : found.Nodup := (nodup_trails listed _ _ _ untaken).filter _
  refine ⟨found, once, mem_found, by simp, fun whole => ?_⟩
  have fits : found.length ≤ bounds.maxPaths := by simpa using whole
  have hits : (found.filterMap (pathHit store startId)).map some = found.map (pathHit store startId) := by
    have all : ∀ path ∈ found, ∃ hit, pathHit store startId path = some hit :=
      fun path member => described path (mem_of_mem_filter member)
    clear_value found
    clear whole fits once mem_found
    induction found with
    | nil => rfl
    | cons path found ih =>
      obtain ⟨hit, known⟩ := all path mem_cons_self
      rw [filterMap_cons_some known, map_cons, map_cons, known, ih fun other member => all other (mem_cons_of_mem _ member)]
  have taken : found.take (bounds.maxPaths - ([] : List TraversePathHit).length) = found := take_of_length_le (by simpa using fits)
  rw [taken, nil_append]
  refine ⟨hits, once.filterMap fun one two hit first second => pathHit_injective first second⟩

theorem eachNodeOnce (reader : Reader) (direction : TraverseDirection) (edgeTypes : List JsString) (maxDepth : Nat) {startHit : TraverseHit}
    (recorded : hitOf store startId 0 = some startHit) :
    EachNodeOnce store (hopsOf store direction edgeTypes) startId maxDepth
      (breadthFirst (hopsOf store direction edgeTypes) (edgeRows reader store direction edgeTypes) (hitOf store) maxDepth 1
        ⟨[startId], [startId], [startHit]⟩).hits := by
  have start : Explored (hopsOf store direction edgeTypes) startId (hitOf store) 0 [(startId, 0)] ⟨[startId], [startId], [startHit]⟩ :=
    explored_start [startHit] (by rw [recorded, toList_some])
  have listed : ∀ {id hop}, hop ∈ edgeRows reader store direction edgeTypes id ↔ (hopsOf store direction edgeTypes).leaves id hop :=
    mem_edgeRows
  obtain ⟨found, explored⟩ := start.breadthFirst listed maxDepth
  rw [Nat.zero_add] at explored
  have known : ∀ {id length hit}, hitOf store id length = some hit → hit.node.nodeId = id ∧ hit.depth = length := by
    intro id length hit described
    obtain ⟨node, found, rfl⟩ := map_eq_some_iff.mp described
    exact ⟨nodeId_of_nodeInfo found, rfl⟩
  rw [explored.hits]
  constructor
  · have ids : ∀ (found : List (NodeId × Nat)), ((found.filterMap fun entry => hitOf store entry.1 entry.2).map (·.node.nodeId)).Sublist
        (found.map Prod.fst) := by
      intro found
      induction found with
      | nil => exact .slnil
      | cons entry found ih =>
        rw [filterMap_cons, map_cons]
        cases described : hitOf store entry.1 entry.2 with
        | none => exact ih.cons _
        | some hit =>
          rw [map_cons, (known described).1]
          exact ih.cons_cons _
    exact explored.nodup.sublist (ids found)
  · intro hit
    rw [mem_filterMap]
    constructor
    · rintro ⟨⟨id, length⟩, member, described⟩
      obtain ⟨rfl, rfl⟩ := known described
      obtain ⟨short, near⟩ := explored.mem_iff.mp member
      exact ⟨short, near, described⟩
    · rintro ⟨short, near, described⟩
      exact ⟨(hit.node.nodeId, hit.depth), explored.mem_iff.mpr ⟨short, near⟩, described⟩

theorem positive_minHops {paths : TraversePathsQuery} (accepted : paths.bounds = some bounds) : 1 ≤ bounds.minHops := by
  obtain ⟨maxHops, _, rest⟩ := bind_eq_some_iff.mp accepted
  obtain ⟨minHops, least, rest⟩ := bind_eq_some_iff.mp rest
  obtain ⟨maxPaths, _, rest⟩ := bind_eq_some_iff.mp rest
  have given : minHops = bounds.minHops := by
    split at rest
    · cases rest
    · cases rest
      rfl
  rw [← given]
  cases query : paths.minHops with
  | none =>
    rw [query] at least
    cases least
    exact Nat.le_refl 1
  | some value =>
    rw [query, elim_some, atLeast] at least
    obtain ⟨number, _, inside⟩ := bind_eq_some_iff.mp least
    split at inside
    · cases inside
      omega
    · cases inside

/-- A node is in the hits at a depth when that is the least length of a path to it. -/
def Agree (startId : NodeId) (bounds : PathBounds) (maxDepth : Nat) (enumeration : Enumeration) (hits : List TraverseHit) : Prop :=
  ∀ id ≠ startId, ∀ depth ≤ bounds.maxHops, (∃ hit ∈ hits, hit.node.nodeId = id ∧ hit.depth = depth) ↔
    depth ≤ maxDepth ∧ (∃ hit ∈ enumeration.hits, hit.node.nodeId = id ∧ hit.length = depth) ∧
      ∀ hit ∈ enumeration.hits, hit.node.nodeId = id → depth ≤ hit.length

theorem agree_of_exact (stored : ForeignKeys store) (present : store.nodes.contains startId = true)
    {direction : TraverseDirection} {edgeTypes : List JsString} {maxDepth : Nat} {enumeration : Enumeration}
    {found : List (List Hop)} {hits : List TraverseHit}
    (paths : EachPathOnce store (hopsOf store direction edgeTypes) startId bounds enumeration found)
    (depths : EachNodeOnce store (hopsOf store direction edgeTypes) startId maxDepth hits) (fromOne : bounds.minHops = 1)
    (whole : enumeration.truncated = false) : Agree startId bounds maxDepth enumeration hits := by
  set net := hopsOf store direction edgeTypes
  have described : ∀ hit, hit ∈ enumeration.hits ↔ ∃ path ∈ found, pathHit store startId path = some hit := by
    intro hit
    have same : some hit ∈ enumeration.hits.map some ↔ some hit ∈ found.map (pathHit store startId) := by rw [(paths.hits whole).1]
    simpa using same
  have trails : ∀ id length, (∃ hit ∈ enumeration.hits, hit.node.nodeId = id ∧ hit.length = length) ↔
      ∃ path, IsTrail net startId path ∧ endpoint net startId path = id ∧ path.length = length ∧ 1 ≤ length ∧ length ≤ bounds.maxHops := by
    intro id length
    constructor
    · rintro ⟨hit, member, rfl, rfl⟩
      obtain ⟨path, listed, reported⟩ := (described hit).mp member
      obtain ⟨trail, some, short⟩ := paths.mem_iff.mp listed
      obtain ⟨ends, long⟩ := nodeId_of_pathHit direction edgeTypes reported
      rw [fromOne] at some
      exact ⟨path, trail, ends.symm, long.symm, long ▸ some, long ▸ short⟩
    · rintro ⟨path, trail, rfl, rfl, some, short⟩
      obtain ⟨hit, reported⟩ := exists_pathHit stored present trail.1
      obtain ⟨ends, long⟩ := nodeId_of_pathHit direction edgeTypes reported
      exact ⟨hit, (described hit).mpr ⟨path, paths.mem_iff.mpr ⟨trail, fromOne ▸ some, short⟩, reported⟩, ends, long⟩
  -- A shortest path is a trail, so it is among those that are enumerated.
  have shortest : ∀ {id depth}, id ≠ startId → depth ≤ bounds.maxHops → IsDistance net startId id depth →
      ∃ hit ∈ enumeration.hits, hit.node.nodeId = id ∧ hit.length = depth := by
    intro id depth elsewhere inBounds short
    obtain ⟨path, valid, ends, long⟩ := short.1
    have trail : IsTrail net startId path := ⟨valid, nodup_of_shortest joinsByEdge valid (by rwa [ends, long])⟩
    have positive : 1 ≤ depth := by
      by_contra none
      cases Nat.lt_one_iff.mp (Nat.lt_of_not_le none)
      exact elsewhere (isDistance_zero.mp short)
    exact (trails id depth).mpr ⟨path, trail, ends, long, positive, inBounds⟩
  intro id elsewhere depth inBounds
  constructor
  · rintro ⟨hit, member, rfl, rfl⟩
    obtain ⟨short, near, _⟩ := depths.mem_iff.mp member
    refine ⟨near, shortest elsewhere inBounds short, fun other listed same => ?_⟩
    obtain ⟨path, trail, ends, long, _⟩ := (trails _ _).mp ⟨other, listed, same, rfl⟩
    by_contra less
    exact short.2 _ (Nat.lt_of_not_le less) ⟨path, trail.1, ends, long⟩
  · rintro ⟨near, reported, least⟩
    obtain ⟨path, trail, ends, long, _⟩ := (trails id depth).mp reported
    have short : IsDistance net startId id depth := by
      refine ⟨⟨path, trail.1, ends, long⟩, fun less shorter reached => ?_⟩
      obtain ⟨distance, most, nearer⟩ := exists_isDistance reached
      obtain ⟨other, listed, same, length⟩ := shortest elsewhere (by omega) nearer
      have further := least other listed same
      omega
    obtain ⟨node, found⟩ := stored.nodeInfo (contains_endpoint stored present trail.1)
    rw [ends] at found
    have known := nodeId_of_nodeInfo found
    refine ⟨⟨node, depth⟩, depths.mem_iff.mpr ⟨by rwa [known], near, ?_⟩, known, rfl⟩
    rw [hitOf, known, found, map_some]

end exactness

section results

variable {store : Store} {startId : NodeId}

theorem contains_of_resolveStart {start : JsString} (resolved : resolveStart store start = .ok startId) :
    store.nodes.contains startId = true := by
  have listed : startId ∈ store.nodes.keys := by
    unfold resolveStart at resolved
    dsimp only at resolved
    split at resolved
    · cases resolved
    next only =>
      cases resolved
      split at only
      · exact mem_of_mem_filter (only ▸ mem_singleton_self _)
      · obtain ⟨node, member, same⟩ := mem_map.mp (only ▸ mem_singleton_self startId)
        exact same ▸ mem_map_of_mem (mem_of_mem_filter member)
    · cases resolved
  exact (OrderedMap.contains_iff _ _).mpr ((OrderedMap.mem_keys_iff _ _).mp listed)

/-- Accepted queries of one start, direction and types are answered, each exactly, and their answers agree. -/
theorem traversals_are_exact (reader : Reader) (stored : ForeignKeys store) {paths : TraversePathsQuery} {bounds : PathBounds}
    {depths : TraverseQuery} {maxDepth : Nat} (pathsAccepted : paths.bounds = some bounds) (depthsAccepted : depths.bound = some maxDepth)
    (resolved : resolveStart store paths.start = .ok startId) (sameStart : depths.start = paths.start)
    (sameDirection : depths.direction = paths.direction) (sameTypes : depths.edgeTypes = paths.edgeTypes) :
    ∃ enumeration found hits, traversePaths reader store paths = .ok enumeration ∧ Traverse.traverse reader store depths = .ok hits ∧
      EachPathOnce store (hopsOf store (paths.direction.getD .outgoing) (paths.edgeTypes.getD [])) startId bounds enumeration found ∧
      EachNodeOnce store (hopsOf store (paths.direction.getD .outgoing) (paths.edgeTypes.getD [])) startId maxDepth hits ∧
      (bounds.minHops = 1 → enumeration.truncated = false → Agree startId bounds maxDepth enumeration hits) := by
  have present := contains_of_resolveStart resolved
  obtain ⟨node, joined⟩ := stored.nodeInfo present
  have recorded : hitOf store startId 0 = some ⟨node, 0⟩ := by rw [hitOf, joined, map_some]
  obtain ⟨found, eachPath⟩ := eachPathOnce reader stored present (paths.direction.getD .outgoing) (paths.edgeTypes.getD []) bounds
    (positive_minHops pathsAccepted)
  have eachNode := eachNodeOnce reader (paths.direction.getD .outgoing) (paths.edgeTypes.getD []) maxDepth recorded
  refine ⟨_, found, _, ?_, ?_, eachPath, eachNode, agree_of_exact stored present eachPath eachNode⟩
  · unfold traversePaths
    rw [pathsAccepted, resolved]
    rfl
  · unfold Traverse.traverse
    rw [depthsAccepted, sameStart, resolved, sameDirection, sameTypes]
    refine GuardedFold.bind_ok_iff.mpr ⟨maxDepth, rfl, GuardedFold.bind_ok_iff.mpr ⟨startId, rfl, ?_⟩⟩
    rw [recorded]

def sampleCall (type src dst : String) : EdgeIR := ⟨text src, text dst, text type, some 1, .heuristic, none, none, none, none⟩

/-- A function that calls itself, and two that call each other, one of them in two ways. -/
def sampleCycle : StoreFileIR :=
  { sampleFile "main.ts" ["main", "load", "save"] with
    edges := some [sampleCall "CALLS" "main" "main", sampleCall "CALLS" "main" "load", sampleCall "USES" "main" "load",
      sampleCall "CALLS" "load" "save", sampleCall "CALLS" "save" "load"] }

def sampleReader : Reader := ⟨id, fun _ => Perm.refl _⟩

def samplePaths : TraversePathsQuery := ⟨text "main", some .both, none, some 3, none, none⟩

theorem traversals_are_exact_cycle : ∃ (store : Store) (startId : NodeId) (enumeration : Enumeration) (found : List (List Hop))
    (hits : List TraverseHit), traversePaths sampleReader store samplePaths = .ok enumeration ∧
      EachPathOnce store (hopsOf store .both []) startId ⟨1, 3, 10000⟩ enumeration found ∧
      EachNodeOnce store (hopsOf store .both []) startId 3 hits ∧ hits.length = 3 := by
  have replayed : ((runUpsert sampleHost (applyCodingGraphSchema Store.blank) [sampleCycle] []).any fun store =>
      (resolveStart store (text "main")).toOption.isSome &&
        (Traverse.traverse sampleReader store ⟨text "main", some .both, none, some 3⟩).toOption.any (·.length = 3)) = true := by
    decide +kernel
  obtain ⟨store, ran, checks⟩ := (any_eq_true _ _).mp replayed
  rw [Bool.and_eq_true] at checks
  have stored : Stored sampleHost store := stored_runUpsert (stored_reopen stored_blank) ran
  cases resolved : resolveStart store (text "main") with
  | error failure =>
    rw [resolved] at checks
    cases checks.1
  | ok startId =>
    obtain ⟨enumeration, found, hits, paths, depths, eachPath, eachNode, _⟩ := traversals_are_exact sampleReader stored.toForeignKeys
      (show samplePaths.bounds = some ⟨1, 3, 10000⟩ from rfl)
      (show (TraverseQuery.mk (text "main") (some .both) none (some 3)).bound = some 3 from rfl) resolved rfl rfl rfl
    rw [depths] at checks
    exact ⟨store, startId, enumeration, found, hits, paths, eachPath, eachNode, of_decide_eq_true checks.2⟩

end results

end Remnic.CodingGraph.ExactTraversals
