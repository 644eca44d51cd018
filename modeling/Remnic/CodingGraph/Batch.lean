import Remnic.CodingGraph.StoredRuns
import Remnic.Text.Decimal

/-!
`upsertFileBatch` with the dropped edges that it reports for each file, and the stored graph as
readers see it: nodes are joined with the paths of their files, whose row ids are not shown.
-/

namespace Remnic.CodingGraph.Batch

open Text.CodeUnits Text.JsonText Text.Decimal Library Schema Resolve Upsert StoredRuns List Option

variable {host : Host} {store : Store}

/-- The edges into a file's stale nodes that come from nodes which stay. -/
def droppedDanglingEdges (store : Store) (prunedNodeIds batchPrunedIds : List NodeId) : Nat :=
  store.edges.entries.countP fun edge => decide (edge.1.dst ∈ prunedNodeIds) && decide (edge.1.src ∉ batchPrunedIds)

/-- The stale nodes of each file go, and the edges that are lost with them are counted first. -/
def pruneBatchNodes (store : Store) (pending : List Pending) : Store × List (JsString × Nat) :=
  let batchPrunedIds := pending.flatMap Pending.prunedNodeIds
  pending.foldl (fun state file =>
    (pruneFileNodes state.1 file, state.2 ++ [(file.ir.path, droppedDanglingEdges state.1 file.prunedNodeIds batchPrunedIds)]))
    (store, [])

/-- The transaction, with the count of each file. -/
def upsertFileBatch (host : Host) (store : Store) (files : List StoreFileIR) (deletePaths : List JsString) :
    Option (Store × List (JsString × Nat)) :=
  if (files.map StoreFileIR.path).Nodup ∧ files.all isValidFile then do
    let (store, pending) := upsertBatchNodes host (store.deleteFiles deletePaths) files
    let (store, dropped) := pruneBatchNodes store pending
    let store ← pending.foldlM upsertFileEdges store
    some (pending.foldl upsertFileAttributes store, dropped)
  else none

structure NodeView where
  label : JsString
  name : JsString
  qualifiedName : JsString
  path : JsString
  spanStart : Int
  spanEnd : Int
  lang : JsString
  deriving DecidableEq, Repr

def viewOf (row : NodeRow) (path : JsString) : NodeView :=
  ⟨row.label, row.name, row.qualifiedName, path, row.spanStart, row.spanEnd, row.lang⟩

def nodeView (store : Store) (id : NodeId) : Option NodeView := do
  let row ← store.nodes.lookup id
  let path ← Store.filePath store row.fileId
  some (viewOf row path)

structure SameGraph (one other : Store) : Prop where
  nodes : ∀ id, nodeView one id = nodeView other id
  edges : ∀ key, one.edges.lookup key = other.edges.lookup key
  attributes : ∀ id, one.nodeAttributes.lookup id = other.nodeAttributes.lookup id

def identityOf (qualifiedName filePath label : JsString) : JsString :=
  hashedField "filePath" filePath ++ hashedField "label" label ++ hashedField "qualifiedName" qualifiedName

/-- The texts that are hashed for the nodes of a store and the symbols of a batch. -/
def identities (store : Store) (files : List StoreFileIR) : List JsString :=
  (store.nodes.entries.filterMap fun node => (nodeView store node.1).map fun view => identityOf view.qualifiedName view.path view.label) ++
    files.flatMap fun ir => ir.symbols.map fun sym => identityOf sym.qualifiedName ir.path sym.kind

def CollisionFree (host : Host) (texts : List JsString) : Prop :=
  ∀ one ∈ texts, ∀ other ∈ texts, host.sha256 one = host.sha256 other → one = other

instance (texts : List JsString) : Decidable (CollisionFree host texts) := by
  unfold CollisionFree
  infer_instance

theorem fst_pruneBatchNodes (store : Store) (pending : List Pending) :
    (pruneBatchNodes store pending).1 = pending.foldl pruneFileNodes store := by
  have pruned : ∀ (batchPrunedIds : List NodeId) (pending : List Pending) (state : Store × List (JsString × Nat)),
      (pending.foldl (fun state file =>
        (pruneFileNodes state.1 file, state.2 ++ [(file.ir.path, droppedDanglingEdges state.1 file.prunedNodeIds batchPrunedIds)]))
        state).1 = pending.foldl pruneFileNodes state.1 := by
    intro batchPrunedIds pending
    induction pending with
    | nil => exact fun _ => rfl
    | cons first pending ih => exact fun state => ih _
  exact pruned _ pending (store, [])

section identities

theorem digits_inj {one other : Nat} {rest tail : JsString}
    (same : decimal one ++ (text ":" ++ rest) = decimal other ++ (text ":" ++ tail)) : one = other ∧ rest = tail := by
  have read : ∀ (value : Nat) (rest : JsString), (decimal value ++ (text ":" ++ rest)).takeWhile isDigit = decimal value := by
    intro value rest
    rw [takeWhile_append_of_pos fun c member => isDigit_of_mem_decimal member, show text ":" ++ rest = unit 0x3A :: rest from rfl,
      takeWhile_cons_of_neg (by decide), append_nil]
  have digits : decimal one = decimal other := by rw [← read one rest, same, read]
  rw [digits] at same
  refine ⟨?_, append_cancel_left (append_cancel_left same)⟩
  rw [← readDecimal_decimal one, digits, readDecimal_decimal]

theorem hashedField_inj {key : String} {one other rest tail : JsString}
    (same : hashedField key one ++ rest = hashedField key other ++ tail) : one = other ∧ rest = tail := by
  unfold hashedField at same
  simp only [append_assoc] at same
  have lengths := digits_inj (append_cancel_left (append_cancel_left (append_cancel_left (append_cancel_left same))))
  obtain ⟨values, ends⟩ := append_inj lengths.2 lengths.1
  exact ⟨values, append_cancel_left ends⟩

theorem identityOf_inj {qualifiedName filePath label otherName otherPath otherLabel : JsString}
    (same : identityOf qualifiedName filePath label = identityOf otherName otherPath otherLabel) :
    qualifiedName = otherName ∧ filePath = otherPath ∧ label = otherLabel := by
  unfold identityOf at same
  rw [append_assoc, append_assoc] at same
  obtain ⟨paths, rest⟩ := hashedField_inj same
  obtain ⟨labels, last⟩ := hashedField_inj rest
  rw [← append_nil (hashedField _ qualifiedName), ← append_nil (hashedField _ otherName)] at last
  exact ⟨(hashedField_inj last).1, paths, labels⟩

end identities

section views

theorem filePath_eq_some_iff (stored : Stored host store) {fileId : Nat} {path : JsString} :
    Store.filePath store fileId = some path ↔ ∃ file, store.files.lookup path = some file ∧ file.id = fileId := by
  unfold Store.filePath
  constructor
  · intro found
    obtain ⟨entry, located, rfl⟩ := map_eq_some_iff.mp found
    have same : entry.2.id = fileId := by simpa using find?_some located
    exact ⟨entry.2, (OrderedMap.lookup_eq_some_iff _ _ _).mpr (mem_of_find?_eq_some located), same⟩
  · rintro ⟨file, listed, same⟩
    have hit : (store.files.entries.find? fun file => file.2.id = fileId).isSome := by
      rw [find?_isSome]
      exact ⟨(path, file), (OrderedMap.lookup_eq_some_iff _ _ _).mp listed, decide_eq_true same⟩
    obtain ⟨entry, located⟩ := isSome_iff_exists.mp hit
    have also : entry.2.id = fileId := by simpa using find?_some located
    rw [located, map_some]
    exact congrArg some (stored.fileIds ((OrderedMap.lookup_eq_some_iff _ _ _).mpr (mem_of_find?_eq_some located)) listed
      (also.trans same.symm))

theorem nodeView_eq_some_iff (stored : Stored host store) {id : NodeId} {view : NodeView} : nodeView store id = some view ↔
    ∃ row file, store.nodes.lookup id = some row ∧ store.files.lookup view.path = some file ∧ file.id = row.fileId ∧
      viewOf row view.path = view := by
  unfold nodeView
  constructor
  · intro found
    obtain ⟨row, held, rest⟩ := bind_eq_some_iff.mp found
    obtain ⟨path, located, same⟩ := bind_eq_some_iff.mp rest
    cases same
    obtain ⟨file, listed, id⟩ := (filePath_eq_some_iff stored).mp located
    exact ⟨row, file, held, listed, id, rfl⟩
  · rintro ⟨row, file, held, listed, id, same⟩
    refine bind_eq_some_iff.mpr ⟨row, held, bind_eq_some_iff.mpr ⟨view.path, ?_, congrArg some same⟩⟩
    exact (filePath_eq_some_iff stored).mpr ⟨file, listed, id⟩

theorem exists_nodeView (stored : Stored host store) {id : NodeId} {row : NodeRow} (held : store.nodes.lookup id = some row) :
    ∃ path file, store.files.lookup path = some file ∧ file.id = row.fileId ∧ nodeView store id = some (viewOf row path) := by
  obtain ⟨path, file, listed, same⟩ := stored.nodeFile held
  exact ⟨path, file, listed, same, (nodeView_eq_some_iff stored).mpr ⟨row, file, held, listed, same, rfl⟩⟩

theorem nodeId_of_nodeView (stored : Stored host store) {id : NodeId} {view : NodeView} (seen : nodeView store id = some view) :
    id = nodeIdFor host view.qualifiedName view.path view.label := by
  obtain ⟨row, file, held, listed, same, shown⟩ := (nodeView_eq_some_iff stored).mp seen
  rw [← shown]
  exact stored.nodeIds held listed same

theorem nodeView_congr {next : Store} (nodes : next.nodes = store.nodes) (files : next.files = store.files) (id : NodeId) :
    nodeView next id = nodeView store id := by
  unfold nodeView Store.filePath
  rw [nodes, files]

end views

end Remnic.CodingGraph.Batch
