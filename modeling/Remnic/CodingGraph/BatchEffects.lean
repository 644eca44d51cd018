import Remnic.CodingGraph.Batch
import Remnic.Library.GuardedFold

/-!
What the first pass of a batch does to one node as readers see it, every file's part being an
update of its own, and what goes with the nodes that are gone.
-/

namespace Remnic.CodingGraph.BatchEffects

open Text.CodeUnits Library Schema Resolve Upsert StoredRuns Batch List

variable {host : Host} {store next : Store} {id : NodeId} {ir : StoreFileIR} {pending : Pending}

def assertedView (host : Host) (id : NodeId) (ir : StoreFileIR) : Option NodeView :=
  ((symbolByNodeId host ir).lookup id).map fun sym => viewOf (nodeRow ir 0 sym) ir.path

def writeView (host : Host) (id : NodeId) (held : Option NodeView) (ir : StoreFileIR) : Option NodeView :=
  (assertedView host id ir).or held

def isPruned (host : Host) (store : Store) (ir : StoreFileIR) (id : NodeId) : Bool :=
  (nodeView store id).any (·.path = ir.path) && (assertedView host id ir).isNone

theorem path_of_assertedView {view : NodeView} (asserted : assertedView host id ir = some view) : view.path = ir.path := by
  obtain ⟨sym, _, rfl⟩ := Option.map_eq_some_iff.mp asserted
  rfl

theorem nodeId_of_assertedView {view : NodeView} (asserted : assertedView host id ir = some view) :
    ∃ sym ∈ ir.symbols, view.qualifiedName = sym.qualifiedName ∧ view.label = sym.kind ∧
      id = nodeIdFor host sym.qualifiedName ir.path sym.kind := by
  obtain ⟨sym, found, rfl⟩ := Option.map_eq_some_iff.mp asserted
  obtain ⟨member, derived⟩ := nodeId_of_symbolByNodeId found
  exact ⟨sym, member, rfl, rfl, derived⟩

section nodes

theorem tables_upsertNodes (existing : List (NodeId × NodeRow)) (ir : StoreFileIR) (fileId : Nat) (entries : List (NodeId × SymbolIR))
    (store : Store) : (entries.foldl (upsertNode existing ir fileId) store).files = store.files ∧
      (entries.foldl (upsertNode existing ir fileId) store).edges = store.edges ∧
      (entries.foldl (upsertNode existing ir fileId) store).nodeAttributes = store.nodeAttributes := by
  induction entries generalizing store with
  | nil => exact ⟨rfl, rfl, rfl⟩
  | cons entry entries ih =>
    obtain ⟨files, edges, attributes, _⟩ := tables_upsertNode existing ir fileId store entry
    obtain ⟨laterFiles, laterEdges, laterAttributes⟩ := ih (upsertNode existing ir fileId store entry)
    exact ⟨laterFiles.trans files, laterEdges.trans edges, laterAttributes.trans attributes⟩

theorem nodes_upsertNodes (store : Store) (existing : List (NodeId × NodeRow))
    (known : ∀ node ∈ existing, store.nodes.lookup node.1 = some node.2) (ir : StoreFileIR) (fileId : Nat) (symbols : OrderedMap NodeId SymbolIR) (id : NodeId) :
    (symbols.entries.foldl (upsertNode existing ir fileId) store).nodes.lookup id =
      ((symbols.lookup id).map (nodeRow ir fileId)).or (store.nodes.lookup id) := by
  set write := fun (nodes : OrderedMap NodeId NodeRow) (entry : NodeId × SymbolIR) =>
    if (entry.1, nodeRow ir fileId entry.2) ∈ existing then nodes else nodes.set entry.1 (nodeRow ir fileId entry.2) with writes
  have passes : ∀ (entries : List (NodeId × SymbolIR)) (store : Store),
      (entries.foldl (upsertNode existing ir fileId) store).nodes = entries.foldl write store.nodes := by
    intro entries
    induction entries with
    | nil => exact fun _ => rfl
    | cons entry entries ih =>
      intro store
      rw [foldl_cons, foldl_cons, ih]
      congr 1
      unfold upsertNode
      rw [writes]
      dsimp only
      split <;> rfl
  have rows : ∀ nodes (entry : NodeId × SymbolIR) id, (write nodes entry).lookup id =
      if id = entry.1 then (if (entry.1, nodeRow ir fileId entry.2) ∈ existing then nodes.lookup id else some (nodeRow ir fileId entry.2))
      else nodes.lookup id := by
    intro nodes entry id
    rw [writes]
    dsimp only
    split
    · rw [ite_self]
    · exact OrderedMap.lookup_set _ _ _ _
  rw [passes, OrderedMap.lookup_foldl_rows
    (fun id sym held => if (id, nodeRow ir fileId sym) ∈ existing then held else some (nodeRow ir fileId sym)) rows]
  cases symbols.lookup id with
  | none => rfl
  | some sym =>
    rw [Option.elim_some, Option.map_some, Option.some_or]
    split
    next there => exact known _ there
    next => rfl

theorem nodes_upsertFileNodes (host : Host) (store : Store) (ir : StoreFileIR) (id : NodeId) :
    (upsertFileNodes host store ir).1.nodes.lookup id =
      (((symbolByNodeId host ir).lookup id).map (nodeRow ir (upsertFile store ir).2)).or (store.nodes.lookup id) := by
  have written := nodes_upsertNodes (upsertFile store ir).1 ((upsertFile store ir).1.ownNodes (upsertFile store ir).2)
    (fun node member => (mem_ownNodes.mp member).1) ir (upsertFile store ir).2 (symbolByNodeId host ir) id
  rw [(tables_upsertFile store ir).1] at written
  exact written

theorem fileId_kept {path : JsString} {file : FileRow} (listed : store.files.lookup path = some file) (ir : StoreFileIR) :
    ∃ kept, (upsertFile store ir).1.files.lookup path = some kept ∧ kept.id = file.id := by
  by_cases own : path = ir.path
  · refine ⟨_, own ▸ lookup_upsertFile store ir, ?_⟩
    rcases upsertFile_id store ir with ⟨row, held, same, _⟩ | ⟨absent, _⟩
    · rw [own, held] at listed
      cases listed
      exact same
    · rw [own, absent] at listed
      cases listed
  · exact ⟨file, (lookup_upsertFile_of_ne own).trans listed, rfl⟩

theorem files_upsertFileNodes (host : Host) (store : Store) (ir : StoreFileIR) :
    (upsertFileNodes host store ir).1.files = (upsertFile store ir).1.files := (tables_upsertNodes _ ir _ _ _).1

theorem nodeView_upsertFileNodes (stored : Stored host store) (ir : StoreFileIR) (id : NodeId) :
    nodeView (upsertFileNodes host store ir).1 id = writeView host id (nodeView store id) ir := by
  have after := stored_upsertFileNodes stored ir
  have rows := nodes_upsertFileNodes host store ir id
  unfold writeView assertedView
  cases said : (symbolByNodeId host ir).lookup id with
  | some sym =>
    rw [said, Option.map_some, Option.some_or] at rows
    rw [Option.map_some, Option.some_or]
    refine (nodeView_eq_some_iff after).mpr ⟨_, ⟨(upsertFile store ir).2, ir.language, ir.contentHash⟩, rows, ?_, rfl, rfl⟩
    rw [files_upsertFileNodes]
    exact lookup_upsertFile store ir
  | none =>
    rw [said, Option.map_none, Option.none_or] at rows
    rw [Option.map_none, Option.none_or]
    cases held : store.nodes.lookup id with
    | none =>
      unfold nodeView
      rw [rows, held]
      rfl
    | some row =>
      obtain ⟨path, file, listed, same, seen⟩ := exists_nodeView stored held
      obtain ⟨kept, there, also⟩ := fileId_kept listed ir
      rw [seen]
      refine (nodeView_eq_some_iff after).mpr ⟨row, kept, rows.trans held, ?_, also.trans same, rfl⟩
      rw [files_upsertFileNodes]
      exact there

end nodes

section batch

variable {files : List StoreFileIR} {start : Store}

/-- A path whose node has an id, in the store or in a file of the batch. -/
def Placed (host : Host) (store : Store) (files : List StoreFileIR) (id : NodeId) (path : JsString) : Prop :=
  (∃ view, nodeView store id = some view ∧ view.path = path) ∨
    ∃ ir ∈ files, ∃ view, assertedView host id ir = some view ∧ view.path = path

def Separate (host : Host) (store : Store) (files : List StoreFileIR) : Prop :=
  ∀ id one other, Placed host store files id one → Placed host store files id other → one = other

theorem identity_of_placed (stored : Stored host store) {path : JsString} (placed : Placed host store files id path) :
    ∃ qualifiedName label, identityOf qualifiedName path label ∈ identities store files ∧
      id = host.sha256 (identityOf qualifiedName path label) := by
  rcases placed with ⟨view, seen, rfl⟩ | ⟨ir, member, view, asserted, rfl⟩
  · refine ⟨view.qualifiedName, view.label, mem_append_left _ ?_, nodeId_of_nodeView stored seen⟩
    obtain ⟨row, held, _⟩ := Option.bind_eq_some_iff.mp seen
    exact mem_filterMap.mpr ⟨(id, row), (OrderedMap.lookup_eq_some_iff _ _ _).mp held, by rw [seen]; rfl⟩
  · obtain ⟨sym, listed, _, _, derived⟩ := nodeId_of_assertedView asserted
    rw [path_of_assertedView asserted]
    exact ⟨sym.qualifiedName, sym.kind,
      mem_append_right _ (mem_flatMap.mpr ⟨ir, member, mem_map_of_mem listed⟩), derived⟩

theorem separate_of_collisionFree (stored : Stored host store) (free : CollisionFree host (identities store files)) :
    Separate host store files := by
  intro id one other first second
  obtain ⟨name, label, member, derived⟩ := identity_of_placed stored first
  obtain ⟨otherName, otherLabel, listed, also⟩ := identity_of_placed stored second
  exact (identityOf_inj (free _ member _ listed (derived.symm.trans also))).2.1

theorem Separate.of_placed (separate : Separate host store files)
    (placed : ∀ {id path}, Placed host start files id path → Placed host store files id path) : Separate host start files := by
  intro id one other first second
  exact separate id one other (placed first) (placed second)

theorem Placed.of_view (older : ∀ {view}, nodeView start id = some view → nodeView store id = some view) {path : JsString}
    (placed : Placed host start files id path) : Placed host store files id path := by
  rcases placed with ⟨view, seen, same⟩ | said
  · exact .inl ⟨view, older seen, same⟩
  · exact .inr said

theorem Placed.of_perm {reordered : List StoreFileIR} (same : files.Perm reordered) {path : JsString}
    (placed : Placed host store files id path) : Placed host store reordered id path := by
  rcases placed with seen | ⟨ir, member, said⟩
  · exact .inl seen
  · exact .inr ⟨ir, same.mem_iff.mp member, said⟩

theorem foldl_writeView (host : Host) (id : NodeId) (held : Option NodeView) (files : List StoreFileIR) :
    (∃ ir ∈ files, ∃ view, assertedView host id ir = some view ∧ files.foldl (writeView host id) held = some view) ∨
      ((∀ ir ∈ files, assertedView host id ir = none) ∧ files.foldl (writeView host id) held = held) := by
  induction files generalizing held with
  | nil => exact .inr ⟨fun _ member => absurd member not_mem_nil, rfl⟩
  | cons ir files ih =>
    rw [foldl_cons]
    rcases ih (writeView host id held ir) with ⟨later, member, view, asserted, same⟩ | ⟨silent, same⟩
    · exact .inl ⟨later, mem_cons_of_mem _ member, view, asserted, same⟩
    · cases said : assertedView host id ir with
      | some view =>
        refine .inl ⟨ir, mem_cons_self, view, said, same.trans ?_⟩
        rw [writeView, said, Option.some_or]
      | none =>
        refine .inr ⟨fun other member => ?_, same.trans ?_⟩
        · rcases mem_cons.mp member with rfl | later
          · exact said
          · exact silent other later
        · rw [writeView, said, Option.none_or]

structure Written (host : Host) (start : Store) (done : List StoreFileIR) (state : Store × List Pending) : Prop where
  stored : Stored host state.1
  views : ∀ id, nodeView state.1 id = done.foldl (writeView host id) (nodeView start id)
  edges : state.1.edges = start.edges
  attributes : state.1.nodeAttributes = start.nodeAttributes
  pending : state.2.map Pending.ir = done
  fileIds : ∀ file ∈ state.2, ∃ row, state.1.files.lookup file.ir.path = some row ∧ row.id = file.fileId
  pruned : ∀ file ∈ state.2, ∀ id, id ∈ file.prunedNodeIds ↔ isPruned host start file.ir id = true

theorem mem_prunedNodeIds (stored : Stored host store) (ir : StoreFileIR) (id : NodeId) :
    id ∈ (upsertFileNodes host store ir).2.prunedNodeIds ↔ isPruned host store ir id = true := by
  have after := stored_upsertFile stored ir
  have own : id ∈ ((upsertFile store ir).1.ownNodes (upsertFile store ir).2).map Prod.fst ↔
      (nodeView store id).any (·.path = ir.path) = true := by
    rw [mem_map, Option.any_eq_true]
    constructor
    · rintro ⟨⟨_, row⟩, member, rfl⟩
      obtain ⟨held, same⟩ := mem_ownNodes.mp member
      rw [(tables_upsertFile store ir).1] at held
      obtain ⟨path, file, listed, also, seen⟩ := exists_nodeView stored held
      obtain ⟨kept, there, known⟩ := fileId_kept listed ir
      exact ⟨_, seen, decide_eq_true ((fileId_upsertFile_iff stored there).mp (known.trans (also.trans same)))⟩
    · rintro ⟨view, seen, same⟩
      obtain ⟨row, file, held, listed, known, _⟩ := (nodeView_eq_some_iff stored).mp seen
      obtain ⟨kept, there, also⟩ := fileId_kept listed ir
      refine ⟨(id, row), mem_ownNodes.mpr ⟨by rw [(tables_upsertFile store ir).1, held], ?_⟩, rfl⟩
      rw [← known, ← also]
      exact (fileId_upsertFile_iff stored there).mpr (of_decide_eq_true same)
  show id ∈ (((upsertFile store ir).1.ownNodes (upsertFile store ir).2).map Prod.fst).filter _ ↔ _
  rw [mem_filter, own, isPruned, Bool.and_eq_true]
  refine and_congr_right fun _ => ?_
  unfold assertedView OrderedMap.contains
  cases (symbolByNodeId host ir).lookup id <;> simp

theorem isPruned_written (separate : Separate host start files) {done : List StoreFileIR} (listed : ∀ ir ∈ done, ir ∈ files)
    (fresh : ir.path ∉ done.map StoreFileIR.path)
    (views : ∀ id, nodeView store id = done.foldl (writeView host id) (nodeView start id)) (id : NodeId) :
    isPruned host store ir id = isPruned host start ir id := by
  unfold isPruned
  rw [views]
  rcases foldl_writeView host id (nodeView start id) done with ⟨other, known, view, said, same⟩ | ⟨_, same⟩
  · rw [same]
    have place : Placed host start files id other.path := .inr ⟨other, listed other known, view, said, path_of_assertedView said⟩
    have foreign : other.path ≠ ir.path := fun equal => fresh (equal ▸ mem_map_of_mem known)
    have never : (nodeView start id).any (·.path = ir.path) = false := by
      refine Bool.eq_false_iff.mpr fun held => ?_
      obtain ⟨seen, found, own⟩ := (Option.any_eq_true _ _).mp held
      exact foreign (separate id _ _ place (.inl ⟨seen, found, of_decide_eq_true own⟩))
    rw [never, Option.any_some, path_of_assertedView said, decide_eq_false foreign]
  · rw [same]

theorem written_upsertBatchNodes (stored : Stored host start) (separate : Separate host start files)
    (distinct : (files.map StoreFileIR.path).Nodup) : Written host start files (upsertBatchNodes host start files) := by
  refine upsertBatchNodes_tracks
    (fun done state => (done.map StoreFileIR.path).Nodup → (∀ ir ∈ done, ir ∈ files) → Written host start done state) ?_ ?_
    files distinct fun _ member => member
  · intro done state ir before once listed
    rw [map_append, nodup_append] at once
    obtain ⟨first, _, apart⟩ := once
    have fresh : ir.path ∉ done.map StoreFileIR.path := fun member => apart _ member _ (mem_singleton_self _) rfl
    have earlier : ∀ other ∈ done, other ∈ files := fun other member => listed other (mem_append_left _ member)
    have written := before first earlier
    constructor
    · exact stored_upsertFileNodes written.stored ir
    · intro id
      rw [foldl_append, ← written.views]
      exact nodeView_upsertFileNodes written.stored ir id
    · exact ((tables_upsertNodes _ ir _ _ _).2.1.trans (tables_upsertFile state.1 ir).2.1).trans written.edges
    · exact ((tables_upsertNodes _ ir _ _ _).2.2.trans (tables_upsertFile state.1 ir).2.2).trans written.attributes
    · rw [map_append, written.pending]
      rfl
    · intro file member
      rcases mem_append.mp member with old | new
      · obtain ⟨row, held, same⟩ := written.fileIds file old
        obtain ⟨kept, there, also⟩ := fileId_kept held ir
        exact ⟨kept, (congrArg (OrderedMap.lookup · file.ir.path) (files_upsertFileNodes host state.1 ir)).trans there, also.trans same⟩
      · rw [mem_singleton.mp new]
        exact ⟨_, (congrArg (OrderedMap.lookup · ir.path) (files_upsertFileNodes host state.1 ir)).trans (lookup_upsertFile state.1 ir), rfl⟩
    · intro file member id
      rcases mem_append.mp member with old | new
      · exact written.pruned file old id
      · rw [mem_singleton.mp new]
        refine (mem_prunedNodeIds written.stored ir id).trans ?_
        rw [isPruned_written separate earlier fresh written.views]
        rfl
  · intro _ _
    exact ⟨stored, fun _ => rfl, rfl, rfl, rfl, fun _ member => absurd member not_mem_nil, fun _ member => absurd member not_mem_nil⟩

end batch

section prune

variable {key : EdgeKey}

theorem nodeView_pruneFileNodes (store : Store) (pending : Pending) (id : NodeId) :
    nodeView (pruneFileNodes store pending) id = if id ∈ pending.prunedNodeIds then none else nodeView store id := by
  have nodes : (pruneFileNodes store pending).nodes.lookup id =
      (store.nodes.lookup id).filter fun _ => !decide (id ∈ pending.prunedNodeIds) := OrderedMap.lookup_keep _
  show ((pruneFileNodes store pending).nodes.lookup id).bind _ = _
  rw [nodes]
  by_cases stale : id ∈ pending.prunedNodeIds
  · rw [if_pos stale, decide_eq_true stale]
    cases store.nodes.lookup id <;> rfl
  · rw [if_neg stale, decide_eq_false stale]
    have all : (store.nodes.lookup id).filter (fun _ => !false) = store.nodes.lookup id := by cases store.nodes.lookup id <;> rfl
    rw [all]
    rfl

theorem gone_iff {ids : List NodeId} (present : store.nodes.contains id = true) :
    (store.nodes.lookup id).any (fun _ => decide (id ∈ ids)) = decide (id ∈ ids) := by
  obtain ⟨row, held⟩ := (OrderedMap.contains_iff _ _).mp present
  rw [held, Option.any_some]

theorem lookup_edges_pruneFileNodes (stored : Stored host store) (pending : Pending) (key : EdgeKey) :
    (pruneFileNodes store pending).edges.lookup key =
      if key.src ∈ pending.prunedNodeIds ∨ key.dst ∈ pending.prunedNodeIds then none else store.edges.lookup key := by
  refine (OrderedMap.lookup_keep _).trans ?_
  cases held : store.edges.lookup key with
  | none => rw [ite_self]; rfl
  | some row =>
    obtain ⟨src, dst⟩ := stored.edgeEnds held
    simp only [Option.filter, gone_iff src, gone_iff dst]
    by_cases first : key.src ∈ pending.prunedNodeIds <;> by_cases second : key.dst ∈ pending.prunedNodeIds <;> simp [first, second]

theorem lookup_attributes_pruneFileNodes (stored : Stored host store) (pending : Pending) (id : NodeId) :
    (pruneFileNodes store pending).nodeAttributes.lookup id =
      if id ∈ pending.prunedNodeIds then none else store.nodeAttributes.lookup id := by
  refine (OrderedMap.lookup_keep _).trans ?_
  cases held : store.nodeAttributes.lookup id with
  | none => rw [ite_self]; rfl
  | some attributes =>
    simp only [Option.filter, gone_iff (stored.attributeNode held)]
    by_cases stale : id ∈ pending.prunedNodeIds <;> simp [stale]

theorem nodeView_prune (pending : List Pending) (store : Store) (id : NodeId) : nodeView (pending.foldl pruneFileNodes store) id =
    if id ∈ pending.flatMap Pending.prunedNodeIds then none else nodeView store id := by
  induction pending generalizing store with
  | nil => rfl
  | cons first pending ih =>
    rw [foldl_cons, ih, nodeView_pruneFileNodes]
    by_cases here : id ∈ first.prunedNodeIds <;> simp [here]

theorem lookup_edges_prune (stored : Stored host store) (pending : List Pending) (key : EdgeKey) :
    (pending.foldl pruneFileNodes store).edges.lookup key =
      if key.src ∈ pending.flatMap Pending.prunedNodeIds ∨ key.dst ∈ pending.flatMap Pending.prunedNodeIds then none
      else store.edges.lookup key := by
  induction pending generalizing store with
  | nil => rfl
  | cons first pending ih =>
    have after : Stored host (pruneFileNodes store first) := stored_prune stored [first]
    rw [foldl_cons, ih after, lookup_edges_pruneFileNodes stored]
    by_cases src : key.src ∈ first.prunedNodeIds <;> by_cases dst : key.dst ∈ first.prunedNodeIds <;> simp [src, dst]

theorem lookup_attributes_prune (stored : Stored host store) (pending : List Pending) (id : NodeId) :
    (pending.foldl pruneFileNodes store).nodeAttributes.lookup id =
      if id ∈ pending.flatMap Pending.prunedNodeIds then none else store.nodeAttributes.lookup id := by
  induction pending generalizing store with
  | nil => rfl
  | cons first pending ih =>
    have after : Stored host (pruneFileNodes store first) := stored_prune stored [first]
    rw [foldl_cons, ih after, lookup_attributes_pruneFileNodes stored]
    by_cases here : id ∈ first.prunedNodeIds <;> simp [here]

theorem droppedDanglingEdges_pruneFileNodes {ids batchPrunedIds : List NodeId} (within : ∀ id ∈ pending.prunedNodeIds, id ∈ batchPrunedIds)
    (apart : ∀ id ∈ pending.prunedNodeIds, id ∉ ids) (store : Store) :
    droppedDanglingEdges (pruneFileNodes store pending) ids batchPrunedIds = droppedDanglingEdges store ids batchPrunedIds := by
  refine OrderedMap.countP_keep fun entry counted => ?_
  rw [Bool.and_eq_true] at counted
  obtain ⟨dst, src⟩ := counted
  have stays : ∀ id, id ∉ pending.prunedNodeIds → (store.nodes.lookup id).any (fun _ => decide (id ∈ pending.prunedNodeIds)) = false := by
    intro id kept
    cases store.nodes.lookup id with
    | none => rfl
    | some row => exact decide_eq_false kept
  dsimp only
  rw [stays _ fun stale => of_decide_eq_true src (within _ stale), stays _ fun stale => apart _ stale (of_decide_eq_true dst)]
  rfl

theorem snd_pruneBatchNodes {pending : List Pending} (apart : pending.Pairwise fun one other => ∀ id ∈ one.prunedNodeIds, id ∉ other.prunedNodeIds)
    (store : Store) : (pruneBatchNodes store pending).2 = pending.map fun file =>
      (file.ir.path, droppedDanglingEdges store file.prunedNodeIds (pending.flatMap Pending.prunedNodeIds)) := by
  have counts : ∀ (batchPrunedIds : List NodeId) (pending : List Pending) (state : Store × List (JsString × Nat)),
      (∀ file ∈ pending, ∀ id ∈ file.prunedNodeIds, id ∈ batchPrunedIds) →
      pending.Pairwise (fun one other => ∀ id ∈ one.prunedNodeIds, id ∉ other.prunedNodeIds) →
      (pending.foldl (fun state file =>
        (pruneFileNodes state.1 file, state.2 ++ [(file.ir.path, droppedDanglingEdges state.1 file.prunedNodeIds batchPrunedIds)]))
        state).2 = state.2 ++ pending.map fun file => (file.ir.path, droppedDanglingEdges state.1 file.prunedNodeIds batchPrunedIds) := by
    intro batchPrunedIds pending
    induction pending with
    | nil => exact fun state _ _ => (append_nil _).symm
    | cons first pending ih =>
      intro state within apart
      obtain ⟨here, later⟩ := pairwise_cons.mp apart
      rw [foldl_cons, ih _ (fun file member => within file (mem_cons_of_mem _ member)) later, map_cons, append_assoc]
      refine congrArg (state.2 ++ ·) (congrArg (List.cons _) (map_congr_left fun file member => ?_))
      rw [droppedDanglingEdges_pruneFileNodes (within first mem_cons_self) (here file member)]
  exact counts _ pending (store, []) (fun file member id stale => mem_flatMap.mpr ⟨file, member, stale⟩) apart

theorem files_prune (pending : List Pending) (store : Store) : (pending.foldl pruneFileNodes store).files = store.files := by
  induction pending generalizing store with
  | nil => rfl
  | cons first pending ih => exact ih _

end prune

end Remnic.CodingGraph.BatchEffects
