import Remnic.CodingGraph.Upsert

/-!
The calls that write edges without files: `upsertEdges`, of the trace, language server and
semantic layers, and `reconcileLspEdges`, which retires what the language server does not
derive any more.
-/

namespace Remnic.CodingGraph.EdgeCalls

open Text.CodeUnits Library Schema Resolve Upsert

/-- An end node, by the id that the caller gives, else by its qualified name. -/
def resolveEnd (store : Store) (nodeId : Option NodeId) (qualifiedName : JsString) : Option NodeId :=
  match nodeId with
  | some id => resolveByNodeId store id qualifiedName
  | none => resolveNodeId store (fun _ => none) qualifiedName

def resolveEnds (store : Store) (edge : EdgeIR) : Option EdgeKey := do
  let src ← resolveEnd store edge.srcNodeId edge.srcQualifiedName
  let dst ← resolveEnd store edge.dstNodeId edge.dstQualifiedName
  some ⟨src, dst, edge.type⟩

/-- An edge whose ends do not resolve is skipped. -/
def persistEdge (store : Store) (edges : OrderedMap EdgeKey EdgeRow) (edge : EdgeIR) : OrderedMap EdgeKey EdgeRow :=
  match resolveEnds store edge with
  | some key => edges.set key (edgeRow edge)
  | none => edges

def runUpsertEdges (store : Store) (edges : List EdgeIR) : Option Store :=
  if edges.all isValidEdge then some { store with edges := edges.foldl (persistEdge store) store.edges } else none

structure AssertedEdge where
  srcQualifiedName : JsString
  dstQualifiedName : JsString
  type : JsString
  deriving DecidableEq, Repr

/-- The keys that the language server asserts for a file. -/
def assertedKeys (store : Store) (fileId : Nat) (asserted : List AssertedEdge) : List EdgeKey :=
  asserted.filterMap fun edge => do
    let src ← ownSymbol store fileId edge.srcQualifiedName
    let dst ← resolveNodeId store (fun _ => none) edge.dstQualifiedName
    some ⟨src, dst, edge.type⟩

/-- Whether a row of the file is the language server's and not asserted any more. -/
def isRetired (store : Store) (fileId : Nat) (asserted : List AssertedEdge) (key : EdgeKey) (row : EdgeRow) : Bool :=
  isOwn store fileId key.src && row.provenance = .lsp && key ∉ assertedKeys store fileId asserted

def reconcileLspEdges (store : Store) (filePath : JsString) (asserted : List AssertedEdge) : Store :=
  match store.files.lookup filePath with
  | none => store
  | some file => { store with edges := store.edges.keep fun key row => !isRetired store file.id asserted key row }

end Remnic.CodingGraph.EdgeCalls
