import Remnic.CodingGraph.EdgeCalls
import Remnic.CodingGraph.StoredGraph
import Remnic.Library.Transition

/-!
What every sequence of calls keeps: the references between the tables, one id for each file,
and node ids that are derived from the name, the file and the label of the node.
-/

namespace Remnic.CodingGraph.StoredRuns

open Text.CodeUnits Library Library.Transition Schema Resolve Upsert EdgeCalls StoredGraph List Option OrderedMap

variable {host : Host} {store next : Store}

structure Stored (host : Host) (store : Store) : Prop extends ForeignKeys store where
  fileIds : ∀ {one other first second}, store.files.lookup one = some first → store.files.lookup other = some second →
    first.id = second.id → one = other
  nextFileId : ∀ {path file}, store.files.lookup path = some file → file.id < store.nextFileId
  nodeIds : ∀ {id row path file}, store.nodes.lookup id = some row → store.files.lookup path = some file →
    file.id = row.fileId → id = nodeIdFor host row.qualifiedName path row.label

inductive Action where
  | upsertFileBatch (files : List StoreFileIR) (deletePaths : List JsString)
  | upsertEdges (edges : List EdgeIR)
  | reconcileLspEdges (filePath : JsString) (asserted : List AssertedEdge)
  | dropFiles (paths : List JsString)
  | reopen

/-- One call. A batch that throws changes nothing and is no step. -/
def step (host : Host) (store : Store) : Action → Option Store
  | .upsertFileBatch files deletePaths => runUpsert host store files deletePaths
  | .upsertEdges edges => runUpsertEdges store edges
  | .reconcileLspEdges filePath asserted => some (reconcileLspEdges store filePath asserted)
  | .dropFiles paths => some (dropFiles store paths)
  | .reopen => some (applyCodingGraphSchema store)

section deletes

variable {id : NodeId} {attributes : NodeAttributes} {paths : List JsString}

theorem contains_deleteNodes {doomed : NodeId → NodeRow → Bool} (present : store.nodes.contains id = true)
    (spared : (store.nodes.lookup id).any (doomed id) = false) : (store.deleteNodes doomed).nodes.contains id = true := by
  obtain ⟨row, held⟩ := (contains_iff _ _).mp present
  rw [held, any_some] at spared
  exact (contains_iff _ _).mpr ⟨row, lookup_nodes_deleteNodes.mpr ⟨held, spared⟩⟩

theorem lookup_attributes_deleteNodes {doomed : NodeId → NodeRow → Bool} :
    (store.deleteNodes doomed).nodeAttributes.lookup id = some attributes ↔
      store.nodeAttributes.lookup id = some attributes ∧ (store.nodes.lookup id).any (doomed id) = false := by
  rw [Store.deleteNodes, lookup_keep_eq_some, Bool.not_eq_true']

theorem ends_deleteNodes (store : Store)
    (edgeEnds : ∀ {key row}, store.edges.lookup key = some row → store.nodes.contains key.src ∧ store.nodes.contains key.dst)
    (doomed : NodeId → NodeRow → Bool) {key : EdgeKey} {row : EdgeRow} (held : (store.deleteNodes doomed).edges.lookup key = some row) :
    (store.deleteNodes doomed).nodes.contains key.src ∧ (store.deleteNodes doomed).nodes.contains key.dst := by
  obtain ⟨held, src, dst⟩ := lookup_edges_deleteNodes.mp held
  obtain ⟨there, also⟩ := edgeEnds held
  exact ⟨contains_deleteNodes there src, contains_deleteNodes also dst⟩

theorem attributed_deleteNodes (store : Store)
    (attributeNode : ∀ {id attributes}, store.nodeAttributes.lookup id = some attributes → store.nodes.contains id)
    (doomed : NodeId → NodeRow → Bool) (held : (store.deleteNodes doomed).nodeAttributes.lookup id = some attributes) :
    (store.deleteNodes doomed).nodes.contains id := by
  obtain ⟨held, spared⟩ := lookup_attributes_deleteNodes.mp held
  exact contains_deleteNodes (attributeNode held) spared

theorem stored_deleteNodes (stored : Stored host store) (doomed : NodeId → NodeRow → Bool) : Stored host (store.deleteNodes doomed) where
  edgeEnds := ends_deleteNodes store stored.edgeEnds doomed
  nodeFile held := stored.nodeFile (lookup_nodes_deleteNodes.mp held).1
  attributeNode := attributed_deleteNodes store stored.attributeNode doomed
  fileIds := stored.fileIds
  nextFileId := stored.nextFileId
  nodeIds held := stored.nodeIds (lookup_nodes_deleteNodes.mp held).1

theorem lookup_files_deleteFiles {path : JsString} {file : FileRow} :
    (store.deleteFiles paths).files.lookup path = some file ↔ store.files.lookup path = some file ∧ path ∉ paths := by
  show (store.files.eraseAll paths).lookup path = some file ↔ _
  rw [lookup_eraseAll]
  by_cases gone : path ∈ paths <;> simp [gone]

theorem lookup_nodes_deleteFiles (stored : Stored host store) {row : NodeRow} :
    (store.deleteFiles paths).nodes.lookup id = some row ↔ store.nodes.lookup id = some row ∧
      ∃ path file, store.files.lookup path = some file ∧ file.id = row.fileId ∧ path ∉ paths := by
  refine lookup_nodes_deleteNodes.trans ⟨fun ⟨held, spared⟩ => ⟨held, ?_⟩, fun ⟨held, path, file, listed, same, kept⟩ => ⟨held, ?_⟩⟩
  · obtain ⟨path, file, listed, same⟩ := stored.nodeFile held
    refine ⟨path, file, listed, same, fun gone => of_decide_eq_false spared ?_⟩
    exact mem_filterMap.mpr ⟨path, gone, by rw [listed, map_some, same]⟩
  · refine decide_eq_false fun member => ?_
    obtain ⟨other, gone, found⟩ := mem_filterMap.mp member
    obtain ⟨row', other_listed, other_same⟩ := map_eq_some_iff.mp found
    exact kept (stored.fileIds listed other_listed (same.trans other_same.symm) ▸ gone)

theorem stored_deleteFiles (stored : Stored host store) (paths : List JsString) : Stored host (store.deleteFiles paths) where
  edgeEnds := ends_deleteNodes { store with files := store.files.eraseAll paths } stored.edgeEnds _
  nodeFile held := by
    obtain ⟨_, path, file, listed, same, kept⟩ := (lookup_nodes_deleteFiles stored).mp held
    exact ⟨path, file, lookup_files_deleteFiles.mpr ⟨listed, kept⟩, same⟩
  attributeNode := attributed_deleteNodes { store with files := store.files.eraseAll paths } stored.attributeNode _
  fileIds one other := stored.fileIds (lookup_files_deleteFiles.mp one).1 (lookup_files_deleteFiles.mp other).1
  nextFileId held := stored.nextFileId (lookup_files_deleteFiles.mp held).1
  nodeIds held listed := stored.nodeIds ((lookup_nodes_deleteFiles stored).mp held).1 (lookup_files_deleteFiles.mp listed).1

end deletes

section nodes

variable {ir : StoreFileIR}

theorem lookup_upsertFile (store : Store) (ir : StoreFileIR) :
    (upsertFile store ir).1.files.lookup ir.path = some ⟨(upsertFile store ir).2, ir.language, ir.contentHash⟩ := by
  unfold upsertFile
  split <;> exact lookup_set_self _ _ _

variable {id : NodeId} {path : JsString} {file : FileRow}

theorem lookup_upsertFile_of_ne (different : path ≠ ir.path) :
    (upsertFile store ir).1.files.lookup path = store.files.lookup path := by
  unfold upsertFile
  split <;> exact lookup_set_of_ne _ _ _ _ different

theorem upsertFile_id (store : Store) (ir : StoreFileIR) :
    (∃ row, store.files.lookup ir.path = some row ∧ (upsertFile store ir).2 = row.id ∧ (upsertFile store ir).1.nextFileId = store.nextFileId) ∨
      (store.files.lookup ir.path = none ∧ (upsertFile store ir).2 = store.nextFileId ∧
        (upsertFile store ir).1.nextFileId = store.nextFileId + 1) := by
  unfold upsertFile
  cases held : store.files.lookup ir.path with
  | some row => exact .inl ⟨row, rfl, rfl, rfl⟩
  | none => exact .inr ⟨rfl, rfl, rfl⟩

theorem tables_upsertFile (store : Store) (ir : StoreFileIR) : (upsertFile store ir).1.nodes = store.nodes ∧
    (upsertFile store ir).1.edges = store.edges ∧ (upsertFile store ir).1.nodeAttributes = store.nodeAttributes := by
  unfold upsertFile
  split <;> exact ⟨rfl, rfl, rfl⟩

theorem fileId_upsertFile_iff (stored : Stored host store) (listed : (upsertFile store ir).1.files.lookup path = some file) :
    file.id = (upsertFile store ir).2 ↔ path = ir.path := by
  by_cases same : path = ir.path
  · rw [same, lookup_upsertFile] at listed
    cases listed
    exact iff_of_true rfl same
  · rw [lookup_upsertFile_of_ne same] at listed
    refine iff_of_false (fun equal => ?_) same
    rcases upsertFile_id store ir with ⟨row, held, id, _⟩ | ⟨_, id, _⟩
    · exact same (stored.fileIds listed held (equal.trans id))
    · exact absurd (stored.nextFileId listed) (by omega)

theorem file_of_upsertFile (stored : Stored host store) {row : NodeRow} (held : store.nodes.lookup id = some row)
    (listed : (upsertFile store ir).1.files.lookup path = some file) (same : file.id = row.fileId) :
    ∃ file, store.files.lookup path = some file ∧ file.id = row.fileId := by
  by_cases own : path = ir.path
  · obtain ⟨other, before, there, known⟩ := stored.nodeFile held
    have written : file.id = (upsertFile store ir).2 := (fileId_upsertFile_iff stored listed).mpr own
    rcases upsertFile_id store ir with ⟨row', found, id, _⟩ | ⟨_, id, _⟩
    · exact ⟨row', own ▸ found, by omega⟩
    · have old := stored.nextFileId there
      omega
  · rw [lookup_upsertFile_of_ne own] at listed
    exact ⟨file, listed, same⟩

theorem stored_upsertFile (stored : Stored host store) (ir : StoreFileIR) : Stored host (upsertFile store ir).1 := by
  obtain ⟨nodes, edges, attributes⟩ := tables_upsertFile store ir
  have older : ∀ {path file}, (upsertFile store ir).1.files.lookup path = some file → path ≠ ir.path → store.files.lookup path = some file :=
    fun listed different => lookup_upsertFile_of_ne different ▸ listed
  constructor
  · constructor
    · rw [nodes, edges]
      exact stored.edgeEnds
    · intro id row held
      rw [nodes] at held
      obtain ⟨path, file, listed, same⟩ := stored.nodeFile held
      by_cases own : path = ir.path
      · rcases upsertFile_id store ir with ⟨before, found, id, _⟩ | ⟨absent, _⟩
        · refine ⟨ir.path, _, lookup_upsertFile store ir, ?_⟩
          rw [own, found] at listed
          cases listed
          exact id.trans same
        · rw [own, absent] at listed
          cases listed
      · exact ⟨path, file, (lookup_upsertFile_of_ne own).trans listed, same⟩
    · rw [nodes, attributes]
      exact stored.attributeNode
  · intro one other first second oneListed otherListed same
    have iff := fileId_upsertFile_iff stored oneListed
    have alsoIff := fileId_upsertFile_iff stored otherListed
    by_cases own : one = ir.path
    · rw [own, alsoIff.mp (same ▸ iff.mpr own)]
    · by_cases otherOwn : other = ir.path
      · exact absurd (iff.mp (same ▸ alsoIff.mpr otherOwn)) own
      · exact stored.fileIds (older oneListed own) (older otherListed otherOwn) same
  · intro path file listed
    by_cases own : path = ir.path
    · have id := (fileId_upsertFile_iff stored listed).mpr own
      rcases upsertFile_id store ir with ⟨row, held, same, next⟩ | ⟨_, same, next⟩
      · have bound := stored.nextFileId held
        omega
      · omega
    · have bound := stored.nextFileId (older listed own)
      rcases upsertFile_id store ir with ⟨_, _, _, next⟩ | ⟨_, _, next⟩ <;> omega
  · intro id row path file held listed same
    rw [nodes] at held
    obtain ⟨before, there, known⟩ := file_of_upsertFile stored held listed same
    exact stored.nodeIds held there known

theorem nodeId_of_symbolByNodeId {sym : SymbolIR} (found : (symbolByNodeId host ir).lookup id = some sym) :
    sym ∈ ir.symbols ∧ id = nodeIdFor host sym.qualifiedName ir.path sym.kind := by
  have build : ∀ (symbols : List SymbolIR) (start : OrderedMap NodeId SymbolIR),
      (symbols.foldl (fun symbols sym => symbols.set (nodeIdFor host sym.qualifiedName ir.path sym.kind) sym) start).lookup id = some sym →
        start.lookup id = some sym ∨ sym ∈ symbols ∧ id = nodeIdFor host sym.qualifiedName ir.path sym.kind := by
    intro symbols
    induction symbols with
    | nil => exact fun start found => .inl found
    | cons first symbols ih =>
      intro start found
      rcases ih _ found with before | ⟨member, same⟩
      · rw [lookup_set] at before
        split at before
        next here =>
          cases before
          exact .inr ⟨mem_cons_self, here⟩
        next => exact .inl before
      · exact .inr ⟨mem_cons_of_mem _ member, same⟩
  exact (build ir.symbols OrderedMap.empty found).resolve_left (by simp)

theorem tables_upsertNode (existing : List (NodeId × NodeRow)) (ir : StoreFileIR) (fileId : Nat) (store : Store) (entry : NodeId × SymbolIR) :
    (upsertNode existing ir fileId store entry).files = store.files ∧ (upsertNode existing ir fileId store entry).edges = store.edges ∧
      (upsertNode existing ir fileId store entry).nodeAttributes = store.nodeAttributes ∧
      (upsertNode existing ir fileId store entry).nextFileId = store.nextFileId := by
  unfold upsertNode
  split <;> exact ⟨rfl, rfl, rfl, rfl⟩

theorem stored_upsertNode (stored : Stored host store) {existing : List (NodeId × NodeRow)} {fileId : Nat}
    {entry : NodeId × SymbolIR} (listed : store.files.lookup ir.path = some file) (same : file.id = fileId)
    (derived : entry.1 = nodeIdFor host entry.2.qualifiedName ir.path entry.2.kind) :
    Stored host (upsertNode existing ir fileId store entry) := by
  obtain ⟨files, edges, attributes, next⟩ := tables_upsertNode existing ir fileId store entry
  have rows : ∀ {id row}, (upsertNode existing ir fileId store entry).nodes.lookup id = some row →
      store.nodes.lookup id = some row ∨ (id = entry.1 ∧ row = nodeRow ir fileId entry.2) := by
    intro id row held
    unfold upsertNode at held
    split at held
    · exact .inl held
    · dsimp only at held
      rw [lookup_set] at held
      split at held
      next here =>
        cases held
        exact .inr ⟨here, rfl⟩
      next => exact .inl held
  have grown : ∀ {id}, store.nodes.contains id = true → (upsertNode existing ir fileId store entry).nodes.contains id = true := by
    intro id present
    unfold upsertNode
    split
    · exact present
    · rw [contains_iff] at present ⊢
      dsimp only
      rw [lookup_set]
      split
      · exact ⟨_, rfl⟩
      · exact present
  constructor
  · constructor
    · intro key row held
      rw [edges] at held
      exact (stored.edgeEnds held).imp grown grown
    · intro id row held
      rw [files]
      rcases rows held with before | ⟨_, rfl⟩
      · exact stored.nodeFile before
      · exact ⟨ir.path, file, listed, same⟩
    · intro id row held
      rw [attributes] at held
      exact grown (stored.attributeNode held)
  · rw [files]
    exact stored.fileIds
  · rw [files, next]
    exact stored.nextFileId
  · intro id row path other held there known
    rw [files] at there
    rcases rows held with before | ⟨rfl, rfl⟩
    · exact stored.nodeIds before there known
    · rw [stored.fileIds there listed (known.trans same.symm)]
      exact derived

theorem stored_upsertFileNodes (stored : Stored host store) (ir : StoreFileIR) : Stored host (upsertFileNodes host store ir).1 := by
  have written : ∀ existing (entries : List (NodeId × SymbolIR)) (store : Store) (file : FileRow) (fileId : Nat),
      (∀ entry ∈ entries, entry.1 = nodeIdFor host entry.2.qualifiedName ir.path entry.2.kind) → Stored host store →
        store.files.lookup ir.path = some file → file.id = fileId → Stored host (entries.foldl (upsertNode existing ir fileId) store) := by
    intro existing entries
    induction entries with
    | nil => exact fun _ _ _ _ stored _ _ => stored
    | cons entry entries ih =>
      intro store file fileId derived stored listed same
      refine ih _ file fileId (fun later member => derived later (mem_cons_of_mem _ member))
        (stored_upsertNode stored listed same (derived entry mem_cons_self)) ?_ same
      rw [(tables_upsertNode existing ir fileId store entry).1, listed]
  refine written _ _ _ _ _ (fun entry member => ?_) (stored_upsertFile stored ir) (lookup_upsertFile store ir) rfl
  exact (nodeId_of_symbolByNodeId ((lookup_eq_some_iff _ _ _).mpr member)).2

theorem stored_upsertBatchNodes (stored : Stored host store) (files : List StoreFileIR) :
    Stored host (upsertBatchNodes host store files).1 :=
  upsertBatchNodes_tracks (fun _ state => Stored host state.1) (fun _ _ ir before => stored_upsertFileNodes before ir) stored files

theorem stored_prune (stored : Stored host store) (pending : List Pending) : Stored host (pending.foldl pruneFileNodes store) := by
  induction pending generalizing store with
  | nil => exact stored
  | cons first pending ih =>
    have pruned := stored_deleteNodes stored fun id _ => decide (id ∈ first.prunedNodeIds)
    exact ih { pruned with }

end nodes

section edges

variable {edge : EdgeIR} {node : NodeId × NodeRow} {fileId : Nat} {key : EdgeKey} {qualifiedName : JsString}
  {edges : List EdgeIR} {id : NodeId} {pending : Pending}

theorem contains_of_mem_ownNodes (member : node ∈ store.ownNodes fileId) : store.nodes.contains node.1 = true :=
  (contains_iff _ _).mpr ⟨node.2, (mem_ownNodes.mp member).1⟩

theorem contains_of_mem_named (member : node ∈ named store qualifiedName) : store.nodes.contains node.1 = true :=
  (contains_iff _ _).mpr ⟨node.2, (lookup_eq_some_iff _ _ _).mpr (mem_of_mem_filter member)⟩

theorem contains_of_ownSymbol (found : ownSymbol store fileId qualifiedName = some id) : store.nodes.contains id = true := by
  obtain ⟨node, alone, rfl⟩ := map_eq_some_iff.mp found
  exact contains_of_mem_ownNodes (mem_of_mem_filter (mem_of_single alone))

theorem contains_of_resolveNodeId {inBatch : JsString → Option NodeId}
    (known : ∀ id, inBatch qualifiedName = some id → store.nodes.contains id = true)
    (found : resolveNodeId store inBatch qualifiedName = some id) : store.nodes.contains id = true := by
  rcases or_eq_some_iff.mp found with own | ⟨_, only⟩
  · exact known id own
  · obtain ⟨node, alone, rfl⟩ := map_eq_some_iff.mp only
    exact contains_of_mem_named (mem_of_single alone)

/-- The destination, by the path hint if the edge has one. -/
def resolveDst (store : Store) (fileId : Nat) (edge : EdgeIR) : Option NodeId :=
  match edge.dstPathHint.filter (· ≠ []) with
  | some hint => resolveNodeIdWithPathHint store edge.dstQualifiedName hint edge.dstImporterLanguage
  | none => resolveNodeId store (ownSymbol store fileId) edge.dstQualifiedName

theorem resolveEdge_eq (store : Store) (fileId : Nat) (edge : EdgeIR) : resolveEdge store fileId edge =
    (ownSymbol store fileId edge.srcQualifiedName).bind fun src => (resolveDst store fileId edge).map fun dst => ⟨src, dst, edge.type⟩ := by
  unfold resolveEdge resolveDst
  cases ownSymbol store fileId edge.srcQualifiedName with
  | none => rfl
  | some src =>
    cases edge.dstPathHint with
    | none => exact map_eq_bind.symm
    | some hint =>
      by_cases empty : hint = []
      · simp only [empty, ne_eq, not_true_eq_false, if_false, Option.filter, decide_false, Bool.false_eq_true]
        exact map_eq_bind.symm
      · simp only [empty, ne_eq, not_false_eq_true, if_true, Option.filter, decide_true]
        exact map_eq_bind.symm

theorem contains_of_resolveEdge (resolved : resolveEdge store fileId edge = some key) :
    store.nodes.contains key.src = true ∧ store.nodes.contains key.dst = true := by
  rw [resolveEdge_eq] at resolved
  obtain ⟨src, own, rest⟩ := bind_eq_some_iff.mp resolved
  obtain ⟨dst, found, rfl⟩ := map_eq_some_iff.mp rest
  refine ⟨contains_of_ownSymbol own, ?_⟩
  unfold resolveDst at found
  split at found
  · obtain ⟨node, alone, rfl⟩ := map_eq_some_iff.mp found
    exact contains_of_mem_named (mem_of_mem_filter (mem_of_single alone))
  · exact contains_of_resolveNodeId (fun _ => contains_of_ownSymbol) found

theorem resolved_of_assertedEdges (asserted : (assertedEdges store fileId edges).lookup key = some edge) :
    edge ∈ edges ∧ resolveEdge store fileId edge = some key := by
  refine GuardedFold.foldl_tracks _ (fun done asserted => asserted.lookup key = some edge → edge ∈ done ∧ resolveEdge store fileId edge = some key)
    ?_ edges [] OrderedMap.empty (by simp) asserted
  intro done asserted next before held
  have earlier (found : asserted.lookup key = some edge) : edge ∈ done ++ [next] ∧ resolveEdge store fileId edge = some key :=
    (before found).imp_left (mem_append_left _)
  split at held
  next other resolved =>
    split at held
    · exact earlier held
    · rw [lookup_set] at held
      split at held
      next here =>
        cases held
        exact ⟨mem_append_right _ (mem_singleton_self _), here ▸ resolved⟩
      next => exact earlier held
  next => exact earlier held

theorem lookup_upsertFileEdges {row : EdgeRow}
    (held : ((assertedEdges store pending.fileId edges).entries.foldl (upsertFileEdge store.edges (scopeOf pending.ir))
      (store.edges.keep fun key row => !(isOwn store pending.fileId key.src && !(assertedEdges store pending.fileId edges).contains key &&
        (scopeOf pending.ir).all (row.provenance ∈ ·)))).lookup key = some row) :
    (∃ row, store.edges.lookup key = some row) ∨ ∃ edge, (assertedEdges store pending.fileId edges).lookup key = some edge := by
  by_cases asserted : ∃ edge, (assertedEdges store pending.fileId edges).lookup key = some edge
  · exact .inr asserted
  · have untouched : ∀ (entries : List (EdgeKey × EdgeIR)) (rows : OrderedMap EdgeKey EdgeRow), key ∉ entries.map Prod.fst →
        (entries.foldl (upsertFileEdge store.edges (scopeOf pending.ir)) rows).lookup key = rows.lookup key := by
      intro entries
      induction entries with
      | nil => exact fun _ _ => rfl
      | cons entry entries ih =>
        intro rows absent
        rw [map_cons, mem_cons, not_or] at absent
        rw [foldl_cons, ih _ absent.2]
        unfold upsertFileEdge
        split
        · split
          · rfl
          · exact lookup_set_of_ne _ _ _ _ absent.1
        · exact lookup_set_of_ne _ _ _ _ absent.1
    rw [untouched _ _ fun listed => asserted ((mem_keys_iff _ _).mp listed)] at held
    exact .inl ⟨row, (lookup_keep_eq_some.mp held).1⟩

section

variable (stored : Stored host store)
include stored

theorem Stored.withEdges {edges : OrderedMap EdgeKey EdgeRow}
    (ends : ∀ {key row}, edges.lookup key = some row → store.nodes.contains key.src ∧ store.nodes.contains key.dst) :
    Stored host { store with edges := edges } :=
  { stored with edgeEnds := ends }

theorem stored_upsertFileEdges (run : upsertFileEdges store pending = some next) : Stored host next := by
  unfold upsertFileEdges at run
  split at run
  · cases run
    exact stored
  next edges _ =>
    split at run
    · cases run
      refine stored.withEdges fun held => ?_
      rcases lookup_upsertFileEdges held with ⟨row, before⟩ | ⟨edge, asserted⟩
      · exact stored.edgeEnds before
      · exact contains_of_resolveEdge (resolved_of_assertedEdges asserted).2
    · cases run

theorem stored_edges {pending : List Pending} (run : pending.foldlM upsertFileEdges store = some next) :
    Stored host next := by
  induction pending generalizing store with
  | nil =>
    cases run
    exact stored
  | cons first pending ih =>
    rw [foldlM_cons] at run
    obtain ⟨middle, one, rest⟩ := bind_eq_some_iff.mp run
    exact ih (stored_upsertFileEdges stored one) rest

theorem stored_upsertFileAttributes (pending : Pending) : Stored host (upsertFileAttributes store pending) := by
  unfold upsertFileAttributes
  split
  · exact stored
  · refine { stored with attributeNode := fun {id attributes} held => ?_ }
    have rows : ∀ (change : NodeRow → NodeAttributes → NodeAttributes) (own : List (NodeId × NodeRow))
        (attributes : OrderedMap NodeId NodeAttributes), (∀ node ∈ own, store.nodes.contains node.1 = true) →
          (∀ {id given}, attributes.lookup id = some given → store.nodes.contains id = true) →
            ∀ {id given}, (setAttributes attributes own change).lookup id = some given → store.nodes.contains id = true := by
      intro change own
      induction own with
      | nil => exact fun _ _ known => known
      | cons node own ih =>
        intro attributes present known id given held
        refine ih _ (fun later member => present later (mem_cons_of_mem _ member)) ?_ held
        intro other found before
        rw [lookup_set] at before
        split at before
        next here => exact here ▸ present node mem_cons_self
        next => exact known before
    exact rows _ _ _ (fun node member => contains_of_mem_ownNodes member) stored.attributeNode held

theorem stored_attributes (pending : List Pending) : Stored host (pending.foldl upsertFileAttributes store) := by
  induction pending generalizing store with
  | nil => exact stored
  | cons first pending ih => exact ih (stored_upsertFileAttributes stored first)

theorem stored_runUpsert {files : List StoreFileIR} {deletePaths : List JsString}
    (run : runUpsert host store files deletePaths = some next) : Stored host next := by
  unfold runUpsert at run
  split at run
  · obtain ⟨edged, edges, last⟩ := bind_eq_some_iff.mp run
    cases last
    exact stored_attributes (stored_edges (stored_prune (stored_upsertBatchNodes (stored_deleteFiles stored deletePaths) files) _) edges) _
  · cases run

end

end edges

section runs

theorem contains_of_resolveEnd {nodeId : Option NodeId} {qualifiedName : JsString} {id : NodeId}
    (found : resolveEnd store nodeId qualifiedName = some id) : store.nodes.contains id = true := by
  unfold resolveEnd at found
  split at found
  · unfold resolveByNodeId at found
    split at found
    next known =>
      cases found
      obtain ⟨row, held, _⟩ := (any_eq_true _ _).mp known
      exact (contains_iff _ _).mpr ⟨row, held⟩
    next => cases found
  · exact contains_of_resolveNodeId (fun _ own => by cases own) found

theorem stored_runUpsertEdges (stored : Stored host store) {edges : List EdgeIR} (run : runUpsertEdges store edges = some next) :
    Stored host next := by
  unfold runUpsertEdges at run
  split at run
  · cases run
    refine stored.withEdges ?_
    have build : ∀ (edges : List EdgeIR) (rows : OrderedMap EdgeKey EdgeRow),
        (∀ {key row}, rows.lookup key = some row → store.nodes.contains key.src ∧ store.nodes.contains key.dst) →
          ∀ {key row}, (edges.foldl (persistEdge store) rows).lookup key = some row →
            store.nodes.contains key.src ∧ store.nodes.contains key.dst := by
      intro edges
      induction edges with
      | nil => exact fun _ known => known
      | cons edge edges ih =>
        intro rows known key row held
        refine ih _ ?_ held
        intro key row before
        unfold persistEdge at before
        split at before
        next resolvedKey resolved =>
          rw [lookup_set] at before
          split at before
          next here =>
            obtain ⟨src, first, rest⟩ := bind_eq_some_iff.mp resolved
            obtain ⟨dst, second, rest⟩ := bind_eq_some_iff.mp rest
            cases rest
            exact here ▸ ⟨contains_of_resolveEnd first, contains_of_resolveEnd second⟩
          next => exact known before
        next => exact known before
    exact fun {key row} held => build edges store.edges stored.edgeEnds held
  · cases run

theorem stored_reconcile (stored : Stored host store) (filePath : JsString) (asserted : List AssertedEdge) :
    Stored host (reconcileLspEdges store filePath asserted) := by
  unfold reconcileLspEdges
  split
  · exact stored
  · exact stored.withEdges fun held => stored.edgeEnds (lookup_keep_eq_some.mp held).1

theorem stored_reopen (stored : Stored host store) : Stored host (applyCodingGraphSchema store) := by
  unfold applyCodingGraphSchema createTables
  split
  · exact stored
  · split <;> exact { stored with }

theorem stored_blank : Stored host Store.blank where
  edgeEnds held := nomatch held
  nodeFile held := nomatch held
  attributeNode held := nomatch held
  fileIds held := nomatch held
  nextFileId held := nomatch held
  nodeIds held := nomatch held

/-- Every sequence of calls on a new database keeps the references. -/
theorem stored_of_reaches (reached : Reaches (step host) (fun _ _ => True) (applyCodingGraphSchema Store.blank) store) :
    Stored host store := by
  apply reached.invariant (Stored host) (stored_reopen stored_blank)
  intro before action after stored _ stepped
  cases action with
  | upsertFileBatch files deletePaths => exact stored_runUpsert stored stepped
  | upsertEdges edges => exact stored_runUpsertEdges stored stepped
  | reconcileLspEdges filePath asserted =>
    cases stepped
    exact stored_reconcile stored filePath asserted
  | dropFiles paths =>
    cases stepped
    exact stored_deleteFiles stored paths
  | reopen =>
    cases stepped
    exact stored_reopen stored

end runs

end Remnic.CodingGraph.StoredRuns
