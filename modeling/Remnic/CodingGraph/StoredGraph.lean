import Remnic.CodingGraph.Resolve

/-!
The references that the schema enforces between the tables.
-/

namespace Remnic.CodingGraph.StoredGraph

open Text.CodeUnits Library Schema Resolve

/-- The ends of an edge and the node of its attributes are nodes, and the file of a node is there. -/
structure ForeignKeys (store : Store) : Prop where
  edgeEnds : ∀ {key row}, store.edges.lookup key = some row → store.nodes.contains key.src ∧ store.nodes.contains key.dst
  nodeFile : ∀ {id row}, store.nodes.lookup id = some row → ∃ path file, store.files.lookup path = some file ∧ file.id = row.fileId
  attributeNode : ∀ {id attributes}, store.nodeAttributes.lookup id = some attributes → store.nodes.contains id

structure NodeInfo where
  nodeId : NodeId
  qualifiedName : JsString
  name : JsString
  label : JsString
  filePath : JsString
  deriving DecidableEq, Repr

def nodeInfo (store : Store) (id : NodeId) : Option NodeInfo := do
  let row ← store.nodes.lookup id
  let filePath ← Store.filePath store row.fileId
  some ⟨id, row.qualifiedName, row.name, row.label, filePath⟩

theorem nodeId_of_nodeInfo {store : Store} {id : NodeId} {info : NodeInfo} (found : nodeInfo store id = some info) :
    info.nodeId = id := by
  obtain ⟨_, _, rest⟩ := Option.bind_eq_some_iff.mp found
  obtain ⟨_, _, rest⟩ := Option.bind_eq_some_iff.mp rest
  cases rest
  rfl

theorem ForeignKeys.nodeInfo {store : Store} (stored : ForeignKeys store) {id : NodeId} (present : store.nodes.contains id = true) :
    ∃ info, nodeInfo store id = some info := by
  obtain ⟨row, held⟩ := (OrderedMap.contains_iff _ _).mp present
  obtain ⟨path, file, listed, same⟩ := stored.nodeFile held
  have joined : (store.files.entries.find? fun file => file.2.id = row.fileId).isSome = true := by
    rw [List.find?_isSome]
    exact ⟨(path, file), (OrderedMap.lookup_eq_some_iff _ _ _).mp listed, decide_eq_true same⟩
  obtain ⟨entry, found⟩ := Option.isSome_iff_exists.mp joined
  refine ⟨⟨id, row.qualifiedName, row.name, row.label, entry.1⟩, ?_⟩
  rw [StoredGraph.nodeInfo, held]
  show (Store.filePath store row.fileId).bind _ = _
  rw [Store.filePath, found]
  rfl

end Remnic.CodingGraph.StoredGraph
