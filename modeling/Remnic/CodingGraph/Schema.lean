import Remnic.Library.Table
import Remnic.Text.CodeUnits

/-!
The tables of the coding graph, the deletes that cascade through them, and the schema that
is applied whenever the store is opened.
-/

namespace Remnic.CodingGraph.Schema

open Text.CodeUnits Library Bool

/-- A node id is a digest of 64 hexadecimal digits, here the number they write. -/
abbrev NodeId := BitVec 256

instance lawfulBEq_nodeId : LawfulBEq NodeId := inferInstance

/-- The leading 16 digits, masked to a positive 64-bit integer. -/
def ftsRowidForNodeId (nodeId : NodeId) : Nat := nodeId.toNat / 2 ^ 192 % 2 ^ 63

inductive EdgeProvenance where
  | heuristic | lsp | trace | semantic
  deriving DecidableEq, Repr

structure FileRow where
  id : Nat
  lang : JsString
  contentHash : JsString
  deriving DecidableEq, Repr

structure NodeRow where
  label : JsString
  name : JsString
  qualifiedName : JsString
  fileId : Nat
  spanStart : Int
  spanEnd : Int
  lang : JsString
  deriving DecidableEq, Repr

structure EdgeKey where
  src : NodeId
  dst : NodeId
  type : JsString
  deriving DecidableEq, Repr

structure EdgeRow where
  confidence : Rat
  provenance : EdgeProvenance
  deriving DecidableEq

structure NodeAttributes where
  isExported : Bool
  isRouteHandler : Bool
  deriving DecidableEq, Repr

/-- The full-text table: the searchable name and qualified name of each row. -/
structure NodesFts where
  contentlessDelete : Bool
  rows : OrderedMap Nat (JsString × JsString)

/-- The tables; files are kept by path, and their ids are never used again. -/
structure Store where
  schemaVersion : Option Nat
  nextFileId : Nat
  files : OrderedMap JsString FileRow
  nodes : OrderedMap NodeId NodeRow
  edges : OrderedMap EdgeKey EdgeRow
  nodeAttributes : OrderedMap NodeId NodeAttributes
  nodesFts : Option NodesFts
  ftsIndex : OrderedMap Nat NodeId

def Store.blank : Store :=
  ⟨none, 1, OrderedMap.empty, OrderedMap.empty, OrderedMap.empty, OrderedMap.empty, none, OrderedMap.empty⟩

/-- Delete nodes; their edges and attributes go with them. -/
def Store.deleteNodes (store : Store) (doomed : NodeId → NodeRow → Bool) : Store :=
  let gone := fun id => (store.nodes.lookup id).any (doomed id)
  { store with
    nodes := store.nodes.keep fun id row => !doomed id row
    edges := store.edges.keep fun key _ => !gone key.src && !gone key.dst
    nodeAttributes := store.nodeAttributes.keep fun id _ => !gone id }

/-- Delete files by path; their nodes go with them. -/
def Store.deleteFiles (store : Store) (paths : List JsString) : Store :=
  let fileIds := paths.filterMap fun path => (store.files.lookup path).map FileRow.id
  { store with files := store.files.eraseAll paths }.deleteNodes fun _ row => decide (row.fileId ∈ fileIds)

/-- The mapping row of a node: an earlier row of the node or of the row id is replaced. -/
def indexRow (ftsIndex : OrderedMap Nat NodeId) (rowid : Nat) (nodeId : NodeId) : OrderedMap Nat NodeId :=
  (ftsIndex.keep fun _ other => other ≠ nodeId).set rowid nodeId

def codingGraphSchemaVersion : Nat := 1

/-- A full-text table of the old form is made again and filled from the nodes. -/
def createTables (store : Store) : Store :=
  if store.nodesFts.any NodesFts.contentlessDelete then store
  else
    { store with
      nodesFts := some ⟨true, store.nodes.entries.foldl
        (fun rows node => rows.set (ftsRowidForNodeId node.1) (node.2.name, node.2.qualifiedName)) OrderedMap.empty⟩
      ftsIndex := store.nodes.entries.foldl (fun index node => indexRow index (ftsRowidForNodeId node.1) node.1) store.ftsIndex }

/-- A database of a newer version is left alone. -/
def applyCodingGraphSchema (store : Store) : Store :=
  if store.schemaVersion.any (codingGraphSchemaVersion < ·) then store
  else { createTables store with schemaVersion := some codingGraphSchemaVersion }

def Store.ownNodes (store : Store) (fileId : Nat) : List (NodeId × NodeRow) :=
  store.nodes.entries.filter fun node => node.2.fileId = fileId

variable {id : NodeId} {store : Store} {row : NodeRow} {doomed : NodeId → NodeRow → Bool}

theorem lookup_nodes_deleteNodes :
    (store.deleteNodes doomed).nodes.lookup id = some row ↔ store.nodes.lookup id = some row ∧ doomed id row = false := by
  rw [Store.deleteNodes, OrderedMap.lookup_keep_eq_some, not_eq_true']

theorem lookup_edges_deleteNodes {key : EdgeKey} {row : EdgeRow} :
    (store.deleteNodes doomed).edges.lookup key = some row ↔ store.edges.lookup key = some row ∧
      (store.nodes.lookup key.src).any (doomed key.src) = false ∧ (store.nodes.lookup key.dst).any (doomed key.dst) = false := by
  rw [Store.deleteNodes, OrderedMap.lookup_keep_eq_some, and_eq_true, not_eq_true', not_eq_true']

theorem mem_ownNodes {fileId : Nat} : (id, row) ∈ store.ownNodes fileId ↔ store.nodes.lookup id = some row ∧ row.fileId = fileId := by
  rw [Store.ownNodes, List.mem_filter, OrderedMap.lookup_eq_some_iff, decide_eq_true_eq]

end Remnic.CodingGraph.Schema
