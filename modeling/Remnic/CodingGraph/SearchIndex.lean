import Remnic.CodingGraph.Upsert
import Remnic.Library.Transition

/-!
The full-text table and its mapping table hold the nodes of the graph and nothing else, as
long as no node goes with its file without being written again.
-/

namespace Remnic.CodingGraph.SearchIndex

open Text.CodeUnits Library Library.Transition Schema Resolve Upsert List

variable {host : Host} {store next : Store} {orphans : NodeId → Prop} {id : NodeId}

def ftsRows (store : Store) : OrderedMap Nat (JsString × JsString) := (store.nodesFts.map NodesFts.rows).getD OrderedMap.empty

def IsNode (store : Store) (id : NodeId) : Prop := ∃ row, store.nodes.lookup id = some row

/-- Each node has its own full-text row, with its searchable text, and its own mapping row, and there are no others. -/
structure Lockstep (store : Store) : Prop where
  usable : store.nodesFts.any NodesFts.contentlessDelete = true
  rows : ∀ ftsRowid found, (ftsRows store).lookup ftsRowid = some found ↔
    ∃ id row, store.nodes.lookup id = some row ∧ ftsRowidForNodeId id = ftsRowid ∧ (row.name, row.qualifiedName) = found
  index : ∀ ftsRowid id, store.ftsIndex.lookup ftsRowid = some id ↔ IsNode store id ∧ ftsRowidForNodeId id = ftsRowid

inductive Action where
  | upsertFileBatch (files : List StoreFileIR) (deletePaths : List JsString)
  | dropFiles (paths : List JsString)
  | reopen

/-- One call. A batch that throws changes nothing and is no step. -/
def step (host : Host) (store : Store) : Action → Option Store
  | .upsertFileBatch files deletePaths => runUpsert host store files deletePaths
  | .dropFiles paths => some (dropFiles store paths)
  | .reopen => some (applyCodingGraphSchema store)

def fresh : Store := applyCodingGraphSchema Store.blank

def fileIds (store : Store) (paths : List JsString) : List Nat :=
  paths.filterMap fun path => (store.files.lookup path).map FileRow.id

def batchIds (host : Host) (files : List StoreFileIR) : List NodeId :=
  files.flatMap fun ir => ir.symbols.map fun sym => nodeIdFor host sym.qualifiedName ir.path sym.kind

def Distinct (ids : List NodeId) : Prop := ∀ one ∈ ids, ∀ other ∈ ids, ftsRowidForNodeId one = ftsRowidForNodeId other → one = other

/-- A file that goes has no node that the same call does not write again, and the row ids are distinct. -/
def Kept (host : Host) (store : Store) : Action → Prop
  | .upsertFileBatch files deletePaths =>
      (∀ entry ∈ store.nodes.entries, entry.2.fileId ∈ fileIds store deletePaths → entry.1 ∈ batchIds host files) ∧
        Distinct (store.nodes.keys ++ batchIds host files)
  | .dropFiles paths => ∀ entry ∈ store.nodes.entries, entry.2.fileId ∉ fileIds store paths
  | .reopen => True

/-- The full-text rows are those of the nodes, and maybe some of nodes that went. -/
structure Mirrors (store : Store) (orphans : NodeId → Prop) : Prop where
  usable : store.nodesFts.any NodesFts.contentlessDelete = true
  rows : ∀ id row, store.nodes.lookup id = some row →
    (ftsRows store).lookup (ftsRowidForNodeId id) = some (row.name, row.qualifiedName)
  index : ∀ id, IsNode store id → store.ftsIndex.lookup (ftsRowidForNodeId id) = some id
  backed : ∀ ftsRowid found, (ftsRows store).lookup ftsRowid = some found →
    ∃ id, ftsRowidForNodeId id = ftsRowid ∧ (IsNode store id ∨ orphans id)
  mapped : ∀ ftsRowid id, store.ftsIndex.lookup ftsRowid = some id →
    ftsRowidForNodeId id = ftsRowid ∧ (IsNode store id ∨ orphans id)

theorem Mirrors.lockstep (mirrors : Mirrors store fun _ => False) : Lockstep store := by
  refine ⟨mirrors.usable, fun ftsRowid found => ⟨fun held => ?_, ?_⟩, fun ftsRowid id => ⟨fun held => ?_, ?_⟩⟩
  · obtain ⟨id, same, ⟨row, node⟩ | nothing⟩ := mirrors.backed ftsRowid found held
    · exact ⟨id, row, node, same, Option.some.inj ((mirrors.rows id row node).symm.trans (same ▸ held))⟩
    · exact nothing.elim
  · rintro ⟨id, row, node, rfl, rfl⟩
    exact mirrors.rows id row node
  · obtain ⟨same, node | nothing⟩ := mirrors.mapped ftsRowid id held
    · exact ⟨node, same⟩
    · exact nothing.elim
  · rintro ⟨node, rfl⟩
    exact mirrors.index id node

theorem Mirrors.weaken {others : NodeId → Prop} (mirrors : Mirrors store orphans)
    (weaken : ∀ id, orphans id → IsNode store id ∨ others id) : Mirrors store others := by
  have settle : ∀ id, IsNode store id ∨ orphans id → IsNode store id ∨ others id := by
    rintro id (node | orphan)
    · exact .inl node
    · exact weaken id orphan
  refine ⟨mirrors.usable, mirrors.rows, mirrors.index, fun ftsRowid found held => ?_, fun ftsRowid id held => ?_⟩
  · obtain ⟨id, same, known⟩ := mirrors.backed ftsRowid found held
    exact ⟨id, same, settle id known⟩
  · exact (mirrors.mapped ftsRowid id held).imp_right (settle id)

theorem mirrors_deleteNodes (mirrors : Mirrors store fun _ => False) (doomed : NodeId → NodeRow → Bool) :
    Mirrors (store.deleteNodes doomed) fun id => ∃ row, store.nodes.lookup id = some row ∧ doomed id row = true := by
  have still : ∀ id, IsNode store id →
      IsNode (store.deleteNodes doomed) id ∨ ∃ row, store.nodes.lookup id = some row ∧ doomed id row = true := by
    rintro id ⟨row, node⟩
    cases fate : doomed id row with
    | false => exact .inl ⟨row, lookup_nodes_deleteNodes.mpr ⟨node, fate⟩⟩
    | true => exact .inr ⟨row, node, fate⟩
  refine ⟨mirrors.usable, fun id row node => mirrors.rows id row (lookup_nodes_deleteNodes.mp node).1, fun id node => ?_,
    fun ftsRowid found held => ?_, fun ftsRowid id held => ?_⟩
  · obtain ⟨row, node⟩ := node
    exact mirrors.index id ⟨row, (lookup_nodes_deleteNodes.mp node).1⟩
  · obtain ⟨id, same, node | nothing⟩ := mirrors.backed ftsRowid found held
    · exact ⟨id, same, still id node⟩
    · exact nothing.elim
  · obtain ⟨same, node | nothing⟩ := mirrors.mapped ftsRowid id held
    · exact ⟨same, still id node⟩
    · exact nothing.elim

theorem Mirrors.congr (mirrors : Mirrors store orphans) (nodes : next.nodes = store.nodes) (fts : next.nodesFts = store.nodesFts)
    (index : next.ftsIndex = store.ftsIndex) : Mirrors next orphans := by
  cases store
  cases next
  cases nodes
  cases fts
  cases index
  exact ⟨mirrors.usable, mirrors.rows, mirrors.index, mirrors.backed, mirrors.mapped⟩

theorem mirrors_deleteFiles (mirrors : Mirrors store fun _ => False) (paths : List JsString) :
    Mirrors (store.deleteFiles paths) fun id => ∃ row, store.nodes.lookup id = some row ∧ row.fileId ∈ fileIds store paths := by
  have plain : Mirrors { store with files := store.files.eraseAll paths } fun _ => False := mirrors.congr rfl rfl rfl
  have gone := mirrors_deleteNodes plain fun _ row => decide (row.fileId ∈ fileIds store paths)
  simp only [decide_eq_true_eq] at gone
  exact gone

def Apart (ids : NodeId → Prop) : Prop := ∀ one other, ids one → ids other → ftsRowidForNodeId one = ftsRowidForNodeId other → one = other

/-- The nodes, and the ids whose rows were left behind, are among the given ids. -/
def Within (store : Store) (orphans ids : NodeId → Prop) : Prop := ∀ id, IsNode store id ∨ orphans id → ids id

theorem ftsRows_write (store : Store) (usable : store.nodesFts.any NodesFts.contentlessDelete = true) (change : NodesFts → NodesFts)
    (next : Store) (written : next.nodesFts = store.nodesFts.map change) :
    ∃ fts, store.nodesFts = some fts ∧ ftsRows store = fts.rows ∧ ftsRows next = (change fts).rows := by
  obtain ⟨fts, there, _⟩ := (Option.any_eq_true _ _).mp usable
  refine ⟨fts, there, ?_, ?_⟩
  · unfold ftsRows
    rw [there]
    rfl
  · unfold ftsRows
    rw [written, there]
    rfl

theorem lookup_indexRow (ftsIndex : OrderedMap Nat NodeId) (ftsRowid : Nat) (nodeId : NodeId) (other : Nat) :
    (indexRow ftsIndex ftsRowid nodeId).lookup other =
      if other = ftsRowid then some nodeId else (ftsIndex.lookup other).filter fun id => decide (id ≠ nodeId) := by
  rw [indexRow, OrderedMap.lookup_set, OrderedMap.lookup_keep]

section upsertNode

variable {existing : List (NodeId × NodeRow)} {ir : StoreFileIR} {fileId : Nat} {entry : NodeId × SymbolIR}

theorem lookup_upsertNode (other : NodeId) (different : other ≠ entry.1) :
    (upsertNode existing ir fileId store entry).nodes.lookup other = store.nodes.lookup other := by
  unfold upsertNode
  split
  · rfl
  · exact OrderedMap.lookup_set_of_ne _ _ _ _ different

theorem isNode_upsertNode (there : ∀ node ∈ existing, IsNode store node.1) : IsNode (upsertNode existing ir fileId store entry) entry.1 := by
  unfold upsertNode
  split
  next member => exact there _ member
  · exact ⟨_, OrderedMap.lookup_set_self _ _ _⟩

theorem IsNode.upsertNode (there : ∀ node ∈ existing, IsNode store node.1) (node : IsNode store id) :
    IsNode (upsertNode existing ir fileId store entry) id := by
  by_cases same : id = entry.1
  · exact same ▸ isNode_upsertNode there
  · obtain ⟨row, held⟩ := node
    exact ⟨row, (lookup_upsertNode id same).trans held⟩

theorem isNode_of_upsertNode (node : IsNode (upsertNode existing ir fileId store entry) id) : IsNode store id ∨ id = entry.1 := by
  by_cases same : id = entry.1
  · exact .inr same
  · obtain ⟨row, held⟩ := node
    exact .inl ⟨row, (lookup_upsertNode id same).symm.trans held⟩

variable {ids : NodeId → Prop}

theorem mirrors_upsertNode (mirrors : Mirrors store orphans) (within : Within store orphans ids) (apart : Apart ids)
    (known : ids entry.1) (there : ∀ node ∈ existing, IsNode store node.1) :
    Mirrors (upsertNode existing ir fileId store entry) fun id => orphans id ∧ id ≠ entry.1 := by
  by_cases member : (entry.1, nodeRow ir fileId entry.2) ∈ existing
  · rw [upsertNode, if_pos member]
    refine mirrors.weaken fun id orphan => ?_
    by_cases same : id = entry.1
    · exact .inl (same ▸ there _ member)
    · exact .inr ⟨orphan, same⟩
  have written : IsNode (upsertNode existing ir fileId store entry) entry.1 := isNode_upsertNode there
  have still : ∀ id, IsNode store id ∨ orphans id → id ≠ entry.1 →
      IsNode (upsertNode existing ir fileId store entry) id ∨ orphans id ∧ id ≠ entry.1 := fun id settled different =>
    settled.imp (·.upsertNode there) (⟨·, different⟩)
  have away : ∀ id, IsNode store id ∨ orphans id → id ≠ entry.1 → ftsRowidForNodeId id ≠ ftsRowidForNodeId entry.1 :=
    fun id settled different same => different (apart id entry.1 (within id settled) known same)
  obtain ⟨fts, held, before, after⟩ := ftsRows_write store mirrors.usable
    (fun fts => { fts with
      rows := (fts.rows.erase (ftsRowidForNodeId entry.1)).set (ftsRowidForNodeId entry.1) (entry.2.name, entry.2.qualifiedName) })
    (upsertNode existing ir fileId store entry) (by rw [upsertNode, if_neg member])
  have rows : ∀ ftsRowid, (ftsRows (upsertNode existing ir fileId store entry)).lookup ftsRowid =
      if ftsRowid = ftsRowidForNodeId entry.1 then some (entry.2.name, entry.2.qualifiedName)
      else (ftsRows store).lookup ftsRowid := by
    intro ftsRowid
    rw [after, before, OrderedMap.lookup_set]
    split_ifs with same
    · rfl
    · rw [OrderedMap.lookup_erase, if_neg same]
  have index : ∀ ftsRowid, (upsertNode existing ir fileId store entry).ftsIndex.lookup ftsRowid =
      if ftsRowid = ftsRowidForNodeId entry.1 then some entry.1
      else (store.ftsIndex.lookup ftsRowid).filter fun other => decide (other ≠ entry.1) := by
    intro ftsRowid
    rw [upsertNode, if_neg member]
    dsimp only
    rw [lookup_indexRow]
    split_ifs with same
    · rfl
    · rw [OrderedMap.lookup_erase, if_neg same]
  refine ⟨?_, fun id row node => ?_, fun id node => ?_, fun ftsRowid found held => ?_, fun ftsRowid id held => ?_⟩
  · have usable := mirrors.usable
    rw [held] at usable
    rw [upsertNode, if_neg member]
    dsimp only
    rw [held]
    exact usable
  · rw [rows]
    by_cases same : id = entry.1
    · subst same
      rw [upsertNode, if_neg member] at node
      rw [if_pos rfl, ← Option.some.inj ((OrderedMap.lookup_set_self _ _ _).symm.trans node)]
      rfl
    · rw [lookup_upsertNode id same] at node
      rw [if_neg (away id (.inl ⟨row, node⟩) same)]
      exact mirrors.rows id row node
  · rw [index]
    by_cases same : id = entry.1
    · rw [if_pos (same ▸ rfl), same]
    · have node := (isNode_of_upsertNode node).resolve_right same
      rw [if_neg (away id (.inl node) same), mirrors.index id node]
      simp [same]
  · rw [rows] at held
    split_ifs at held with same
    · exact ⟨entry.1, same.symm, .inl written⟩
    · obtain ⟨id, here, settled⟩ := mirrors.backed ftsRowid found held
      exact ⟨id, here, still id settled fun mine => same (here.symm.trans (mine ▸ rfl))⟩
  · rw [index] at held
    split_ifs at held with same
    · cases held
      exact ⟨same.symm, .inl written⟩
    · obtain ⟨held, different⟩ := Option.filter_eq_some_iff.mp held
      obtain ⟨here, settled⟩ := mirrors.mapped ftsRowid id held
      exact ⟨here, still id settled (of_decide_eq_true different)⟩

theorem within_upsertNode (within : Within store orphans ids) (known : ids entry.1) :
    Within (upsertNode existing ir fileId store entry) (fun id => orphans id ∧ id ≠ entry.1) ids := by
  rintro id (node | ⟨orphan, _⟩)
  · rcases isNode_of_upsertNode node with before | rfl
    · exact within id (.inl before)
    · exact known
  · exact within id (.inr orphan)

theorem mirrors_upsertNodes (apart : Apart ids) (existing : List (NodeId × NodeRow)) (ir : StoreFileIR) (fileId : Nat)
    (entries : List (NodeId × SymbolIR)) (known : ∀ entry ∈ entries, ids entry.1) (mirrors : Mirrors store orphans)
    (within : Within store orphans ids) (there : ∀ node ∈ existing, IsNode store node.1) :
    Mirrors (entries.foldl (upsertNode existing ir fileId) store) (fun id => orphans id ∧ id ∉ entries.map Prod.fst) ∧
      Within (entries.foldl (upsertNode existing ir fileId) store) (fun id => orphans id ∧ id ∉ entries.map Prod.fst) ids := by
  induction entries generalizing store orphans with
  | nil => exact ⟨mirrors.weaken fun id orphan => .inr ⟨orphan, not_mem_nil⟩, fun id settled => within id (settled.imp_right And.left)⟩
  | cons entry entries ih =>
    have first : ids entry.1 := known entry mem_cons_self
    obtain ⟨rest, inside⟩ := ih (fun later member => known later (mem_cons_of_mem _ member))
      (mirrors_upsertNode mirrors within apart first there) (within_upsertNode within first)
      fun node member => (there node member).upsertNode there
    have same : ∀ id, (orphans id ∧ id ≠ entry.1) ∧ id ∉ entries.map Prod.fst ↔
        orphans id ∧ id ∉ (entry :: entries).map Prod.fst := by
      intro id
      rw [map_cons, mem_cons, not_or, and_assoc]
    simp only [same] at rest inside
    exact ⟨rest, inside⟩

end upsertNode

theorem keys_symbolByNodeId (ir : StoreFileIR) :
    ∀ id, id ∈ (symbolByNodeId host ir).entries.map Prod.fst ↔
      id ∈ ir.symbols.map fun sym => nodeIdFor host sym.qualifiedName ir.path sym.kind := by
  intro id
  unfold symbolByNodeId
  suffices build : ∀ (symbols : List SymbolIR) (start : OrderedMap NodeId SymbolIR),
      id ∈ (symbols.foldl (fun map sym => map.set (nodeIdFor host sym.qualifiedName ir.path sym.kind) sym) start).keys ↔
        id ∈ start.keys ∨ id ∈ symbols.map fun sym => nodeIdFor host sym.qualifiedName ir.path sym.kind by
    rw [← OrderedMap.keys, build]
    simp [OrderedMap.keys]
  intro symbols
  induction symbols with
  | nil => simp
  | cons sym symbols ih =>
    intro start
    rw [foldl_cons, ih, OrderedMap.mem_keys_iff, map_cons, mem_cons]
    simp only [OrderedMap.mem_keys_iff, OrderedMap.lookup_set]
    by_cases same : id = nodeIdFor host sym.qualifiedName ir.path sym.kind <;> simp [same]

theorem upsertFile_fst (store : Store) (ir : StoreFileIR) :
    (upsertFile store ir).1.nodes = store.nodes ∧ (upsertFile store ir).1.nodesFts = store.nodesFts ∧
      (upsertFile store ir).1.ftsIndex = store.ftsIndex := by
  unfold upsertFile
  split <;> exact ⟨rfl, rfl, rfl⟩

variable {files : List StoreFileIR} {pending : List Pending} {ids : NodeId → Prop}

theorem Within.congr (within : Within store orphans ids) (nodes : next.nodes = store.nodes) : Within next orphans ids := by
  rintro id (⟨row, node⟩ | orphan)
  · exact within id (.inl ⟨row, nodes ▸ node⟩)
  · exact within id (.inr orphan)

/-- What holds in the first pass: the rows that were left behind are only those of nodes still to be written. -/
structure Progress (ids : NodeId → Prop) (state : Store × List Pending) (orphans : NodeId → Prop) : Prop where
  mirrors : Mirrors state.1 orphans
  within : Within state.1 orphans ids
  pruned : ∀ pending ∈ state.2, ∀ id ∈ pending.prunedNodeIds, ids id

theorem progress_upsertFileNodes (host : Host) (apart : Apart ids) {earlier : List Pending} (ir : StoreFileIR)
    (known : ∀ id ∈ ir.symbols.map fun sym => nodeIdFor host sym.qualifiedName ir.path sym.kind, ids id)
    (progress : Progress ids (store, earlier) orphans) :
    Progress ids ((upsertFileNodes host store ir).1, earlier ++ [(upsertFileNodes host store ir).2])
      fun id => orphans id ∧ id ∉ ir.symbols.map fun sym => nodeIdFor host sym.qualifiedName ir.path sym.kind := by
  obtain ⟨nodes, fts, index⟩ := upsertFile_fst store ir
  have within : Within (upsertFile store ir).1 orphans ids := progress.within.congr nodes
  have there : ∀ node ∈ (upsertFile store ir).1.ownNodes (upsertFile store ir).2, IsNode (upsertFile store ir).1 node.1 :=
    fun node member => ⟨node.2, (mem_ownNodes.mp member).1⟩
  obtain ⟨mirrors, inside⟩ := mirrors_upsertNodes apart _ ir (upsertFile store ir).2 (symbolByNodeId host ir).entries
    (fun entry member => known entry.1 ((keys_symbolByNodeId ir entry.1).mp (mem_map_of_mem member)))
    (progress.mirrors.congr nodes fts index) within there
  simp only [keys_symbolByNodeId] at mirrors inside
  refine ⟨mirrors, inside, fun pending member id pruned => ?_⟩
  rcases mem_append.mp member with before | last
  · exact progress.pruned pending before id pruned
  · rw [mem_singleton] at last
    subst last
    obtain ⟨node, listed, rfl⟩ := mem_map.mp (mem_filter.mp pruned).1
    exact within node.1 (.inl (there node listed))

theorem progress_upsertBatchNodes (host : Host) (apart : Apart ids) (known : ∀ id ∈ batchIds host files, ids id)
    (progress : Progress ids (store, []) orphans) :
    Progress ids (upsertBatchNodes host store files) fun id => orphans id ∧ id ∉ batchIds host files := by
  refine upsertBatchNodes_tracks (fun done state => (∀ id ∈ batchIds host done, ids id) →
    Progress ids state fun id => orphans id ∧ id ∉ batchIds host done) ?_ (fun _ => ?_) files known
  · intro done state ir before known
    have parts : batchIds host (done ++ [ir]) = batchIds host done ++
        ir.symbols.map fun sym => nodeIdFor host sym.qualifiedName ir.path sym.kind := flatMap_append.trans (by rw [flatMap_singleton]; rfl)
    rw [parts] at known ⊢
    have next := progress_upsertFileNodes host apart ir
      (fun id member => known id (mem_append_right _ member)) (before fun id member => known id (mem_append_left _ member))
    have same : ∀ id, ((orphans id ∧ id ∉ batchIds host done) ∧
        id ∉ ir.symbols.map fun sym => nodeIdFor host sym.qualifiedName ir.path sym.kind) ↔
          orphans id ∧ id ∉ batchIds host done ++
            ir.symbols.map fun sym => nodeIdFor host sym.qualifiedName ir.path sym.kind := by
      intro id
      rw [and_assoc, ← not_or, mem_append]
    simp only [same] at next
    exact next
  · exact ⟨progress.mirrors.weaken fun id orphan => .inr ⟨orphan, not_mem_nil⟩,
      fun id settled => progress.within id (settled.imp_right And.left), progress.pruned⟩

theorem mirrors_pruneFileNodes (apart : Apart ids) (mirrors : Mirrors store fun _ => False)
    (within : Within store (fun _ => False) ids) {pending : Pending} (pruned : ∀ id ∈ pending.prunedNodeIds, ids id) :
    Mirrors (pruneFileNodes store pending) fun _ => False := by
  have node : ∀ {id row}, (pruneFileNodes store pending).nodes.lookup id = some row ↔
      store.nodes.lookup id = some row ∧ id ∉ pending.prunedNodeIds := by
    intro id row
    show (store.deleteNodes fun id _ => decide (id ∈ pending.prunedNodeIds)).nodes.lookup id = some row ↔ _
    rw [lookup_nodes_deleteNodes, decide_eq_false_iff_not]
  have isNode : ∀ id, IsNode store id → id ∉ pending.prunedNodeIds → IsNode (pruneFileNodes store pending) id :=
    fun id ⟨row, held⟩ kept => ⟨row, node.mpr ⟨held, kept⟩⟩
  have away : ∀ id, IsNode store id → id ∉ pending.prunedNodeIds →
      ftsRowidForNodeId id ∉ pending.prunedNodeIds.map ftsRowidForNodeId := by
    intro id there kept member
    obtain ⟨other, listed, same⟩ := mem_map.mp member
    exact kept (apart other id (pruned other listed) (within id (.inl there)) same ▸ listed)
  obtain ⟨fts, held, before, after⟩ := ftsRows_write store mirrors.usable
    (fun fts => { fts with rows := fts.rows.eraseAll (pending.prunedNodeIds.map ftsRowidForNodeId) }) (pruneFileNodes store pending) rfl
  have rows : ∀ ftsRowid, (ftsRows (pruneFileNodes store pending)).lookup ftsRowid =
      if ftsRowid ∈ pending.prunedNodeIds.map ftsRowidForNodeId then none else (ftsRows store).lookup ftsRowid := by
    intro ftsRowid
    rw [after, before, OrderedMap.lookup_eraseAll]
  have index : ∀ ftsRowid, (pruneFileNodes store pending).ftsIndex.lookup ftsRowid =
      if ftsRowid ∈ pending.prunedNodeIds.map ftsRowidForNodeId then none else store.ftsIndex.lookup ftsRowid :=
    fun ftsRowid => OrderedMap.lookup_eraseAll _ _ _
  refine ⟨?_, fun id row held => ?_, fun id held => ?_, fun ftsRowid found held => ?_, fun ftsRowid id held => ?_⟩
  · have usable := mirrors.usable
    rw [held] at usable
    show (store.nodesFts.map _).any _ = true
    rw [held]
    exact usable
  · obtain ⟨there, kept⟩ := node.mp held
    rw [rows, if_neg (away id ⟨row, there⟩ kept)]
    exact mirrors.rows id row there
  · obtain ⟨row, held⟩ := held
    obtain ⟨there, kept⟩ := node.mp held
    rw [index, if_neg (away id ⟨row, there⟩ kept)]
    exact mirrors.index id ⟨row, there⟩
  · rw [rows] at held
    split_ifs at held with gone
    obtain ⟨id, same, there | nothing⟩ := mirrors.backed ftsRowid found held
    · exact ⟨id, same, .inl (isNode id there fun member => gone (same ▸ mem_map_of_mem member))⟩
    · exact nothing.elim
  · rw [index] at held
    split_ifs at held with gone
    obtain ⟨same, there | nothing⟩ := mirrors.mapped ftsRowid id held
    · exact ⟨same, .inl (isNode id there fun member => gone (same ▸ mem_map_of_mem member))⟩
    · exact nothing.elim

theorem mirrors_prune (apart : Apart ids) (pruned : ∀ file ∈ pending, ∀ id ∈ file.prunedNodeIds, ids id)
    (mirrors : Mirrors store fun _ => False) (within : Within store (fun _ => False) ids) :
    Mirrors (pending.foldl pruneFileNodes store) fun _ => False := by
  induction pending generalizing store with
  | nil => exact mirrors
  | cons first pending ih =>
    refine ih (fun file member => pruned file (mem_cons_of_mem _ member))
      (mirrors_pruneFileNodes apart mirrors within (pruned first mem_cons_self)) ?_
    rintro id (⟨row, node⟩ | nothing)
    · exact within id (.inl ⟨row, (lookup_nodes_deleteNodes.mp node).1⟩)
    · exact nothing.elim

/-- The nodes and the full-text tables of two stores are the same. -/
def SameNodes (store next : Store) : Prop :=
  next.nodes = store.nodes ∧ next.nodesFts = store.nodesFts ∧ next.ftsIndex = store.ftsIndex

theorem sameNodes_upsertFileEdges {pending : Pending} (run : upsertFileEdges store pending = some next) : SameNodes store next := by
  unfold upsertFileEdges at run
  split at run
  · cases run
    exact ⟨rfl, rfl, rfl⟩
  · split at run
    · cases run
      exact ⟨rfl, rfl, rfl⟩
    · cases run

theorem sameNodes_edges (run : pending.foldlM upsertFileEdges store = some next) : SameNodes store next := by
  induction pending generalizing store with
  | nil =>
    cases run
    exact ⟨rfl, rfl, rfl⟩
  | cons first pending ih =>
    rw [foldlM_cons] at run
    obtain ⟨middle, one, rest⟩ := Option.bind_eq_some_iff.mp run
    obtain ⟨nodes, fts, index⟩ := sameNodes_upsertFileEdges one
    obtain ⟨nodes', fts', index'⟩ := ih rest
    exact ⟨nodes'.trans nodes, fts'.trans fts, index'.trans index⟩

theorem sameNodes_attributes (store : Store) (pending : List Pending) : SameNodes store (pending.foldl upsertFileAttributes store) := by
  induction pending generalizing store with
  | nil => exact ⟨rfl, rfl, rfl⟩
  | cons first pending ih =>
    have one : SameNodes store (upsertFileAttributes store first) := by
      unfold upsertFileAttributes
      split <;> exact ⟨rfl, rfl, rfl⟩
    obtain ⟨nodes, fts, index⟩ := ih (upsertFileAttributes store first)
    exact ⟨nodes.trans one.1, fts.trans one.2.1, index.trans one.2.2⟩

theorem mem_keys_of_isNode (node : IsNode store id) : id ∈ store.nodes.keys := (OrderedMap.mem_keys_iff _ _).mpr node

theorem mirrors_runUpsert {deletePaths : List JsString} (mirrors : Mirrors store fun _ => False)
    (kept : Kept host store (.upsertFileBatch files deletePaths)) (run : runUpsert host store files deletePaths = some next) :
    Mirrors next fun _ => False := by
  obtain ⟨written, distinct⟩ := kept
  unfold runUpsert at run
  split at run
  · obtain ⟨edged, edges, last⟩ := Option.bind_eq_some_iff.mp run
    cases last
    have apart : Apart fun id => id ∈ store.nodes.keys ++ batchIds host files := fun one other mine yours =>
      distinct one mine other yours
    have known : ∀ id, IsNode store id → id ∈ store.nodes.keys ++ batchIds host files := fun id node =>
      mem_append_left _ (mem_keys_of_isNode node)
    have started : Progress (fun id => id ∈ store.nodes.keys ++ batchIds host files) (store.deleteFiles deletePaths, [])
        fun id => ∃ row, store.nodes.lookup id = some row ∧ row.fileId ∈ fileIds store deletePaths := by
      refine ⟨mirrors_deleteFiles mirrors deletePaths, ?_, fun _ member => absurd member not_mem_nil⟩
      rintro id (⟨row, node⟩ | ⟨row, node, _⟩)
      · exact known id ⟨row, (lookup_nodes_deleteNodes.mp node).1⟩
      · exact known id ⟨row, node⟩
    have progress := progress_upsertBatchNodes host apart (fun id member => mem_append_right _ member) started
    have nothing : ∀ id, ¬ ((∃ row, store.nodes.lookup id = some row ∧ row.fileId ∈ fileIds store deletePaths) ∧
        id ∉ batchIds host files) := by
      rintro id ⟨⟨row, node, gone⟩, missing⟩
      exact missing (written (id, row) ((OrderedMap.lookup_eq_some_iff _ _ _).mp node) gone)
    have clean : Mirrors (upsertBatchNodes host (store.deleteFiles deletePaths) files).1 fun _ => False :=
      progress.mirrors.weaken fun id orphan => absurd orphan (nothing id)
    have inside : Within (upsertBatchNodes host (store.deleteFiles deletePaths) files).1 (fun _ => False)
        fun id => id ∈ store.nodes.keys ++ batchIds host files := fun id settled =>
      progress.within id (settled.imp_right False.elim)
    have pruned := mirrors_prune apart progress.pruned clean inside
    obtain ⟨nodes, fts, index⟩ := sameNodes_edges edges
    obtain ⟨nodes', fts', index'⟩ := sameNodes_attributes edged (upsertBatchNodes host (store.deleteFiles deletePaths) files).2
    exact (pruned.congr nodes fts index).congr nodes' fts' index'
  · cases run

theorem mirrors_dropFiles {paths : List JsString} (mirrors : Mirrors store fun _ => False)
    (kept : Kept host store (.dropFiles paths)) : Mirrors (dropFiles store paths) fun _ => False := by
  refine (mirrors_deleteFiles mirrors paths).weaken ?_
  rintro id ⟨row, node, gone⟩
  exact absurd gone (kept (id, row) ((OrderedMap.lookup_eq_some_iff _ _ _).mp node))

theorem mirrors_reopen (mirrors : Mirrors store fun _ => False) : Mirrors (applyCodingGraphSchema store) fun _ => False := by
  unfold applyCodingGraphSchema createTables
  split
  · exact mirrors
  · rw [if_pos mirrors.usable]
    exact mirrors.congr rfl rfl rfl

theorem mirrors_fresh : Mirrors fresh fun _ => False :=
  ⟨rfl, fun _ _ node => (nomatch node), fun _ ⟨_, node⟩ => (nomatch node), fun _ _ held => (nomatch held), fun _ _ held => (nomatch held)⟩

/-- In every run whose steps all meet the condition, the full-text tables hold the nodes and nothing else. -/
theorem search_index_lockstep (reached : Reaches (step host) (Kept host) fresh store) : Lockstep store := by
  have mirrors : Mirrors store fun _ => False := by
    apply reached.invariant (fun store => Mirrors store fun _ => False) mirrors_fresh
    intro before action after mirrors kept stepped
    cases action with
    | upsertFileBatch files deletePaths => exact mirrors_runUpsert mirrors kept stepped
    | dropFiles paths =>
      cases stepped
      exact mirrors_dropFiles mirrors kept
    | reopen =>
      cases stepped
      exact mirrors_reopen mirrors
  exact mirrors.lockstep

instance (ids : List NodeId) : Decidable (Distinct ids) :=
  decidable_of_iff
    ((ids.all fun one => ids.all fun other => decide (ftsRowidForNodeId one = ftsRowidForNodeId other → one = other)) = true)
    (by simp only [Distinct, all_eq_true, decide_eq_true_eq])

instance (host : Host) (store : Store) (action : Action) : Decidable (Kept host store action) := by
  cases action <;> unfold Kept <;> infer_instance

/-- A file is written, written again without one of its symbols, and moved within a batch that deletes and writes it. -/
def rewritten : List Action :=
  [.upsertFileBatch [sampleFile "a.ts" ["load", "save"], sampleFile "b.ts" ["main"]] [],
    .upsertFileBatch [sampleFile "a.ts" ["load"]] [], .reopen, .upsertFileBatch [sampleFile "b.ts" ["main", "run"]] [text "b.ts"]]

theorem search_index_lockstep_rewritten : ∃ store : Store,
    Reaches (step sampleHost) (Kept sampleHost) fresh store ∧ store.nodes.keys.length = 3 ∧ Lockstep store := by
  refine exists_reached (fun store => store.nodes.keys.length = 3) rewritten (by decide +kernel) ?_
  intro store reached three
  exact ⟨three, search_index_lockstep reached⟩

theorem dropped_file_stays_searchable : ∃ store : Store,
    Reaches (step sampleHost) (fun _ _ => True) fresh store ∧ ¬ Lockstep store := by
  refine exists_reached (fun store => store.nodes.entries = [] ∧ store.ftsIndex.entries ≠ [])
    [.upsertFileBatch [sampleFile "a.ts" ["load"]] [], .dropFiles [text "a.ts"]] (by decide +kernel) ?_
  intro store _ ⟨empty, filled⟩ lockstep
  obtain ⟨⟨ftsRowid, id⟩, member⟩ := exists_mem_of_ne_nil _ filled
  obtain ⟨⟨row, node⟩, _⟩ := (lockstep.index ftsRowid id).mp ((OrderedMap.lookup_eq_some_iff _ _ _).mpr member)
  have listed := (OrderedMap.lookup_eq_some_iff _ _ _).mp node
  rw [empty] at listed
  cases listed

end Remnic.CodingGraph.SearchIndex
