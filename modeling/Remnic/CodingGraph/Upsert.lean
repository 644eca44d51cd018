import Remnic.CodingGraph.Resolve
import Remnic.Library.GuardedFold

/-!
`upsertFileBatch`: one transaction that deletes paths, writes the nodes of every file, prunes
the nodes that are gone, and writes edges and attributes. The counters of its result are
left out.
-/

namespace Remnic.CodingGraph.Upsert

open Text.CodeUnits Library Schema Resolve

structure Host where
  sha256 : JsString → NodeId

structure SymbolIR where
  name : JsString
  qualifiedName : JsString
  kind : JsString
  startByte : Int
  endByte : Int
  deriving DecidableEq, Repr

/-- An edge between qualified names. A confidence that is not finite is none. -/
structure EdgeIR where
  srcQualifiedName : JsString
  dstQualifiedName : JsString
  type : JsString
  confidence : Option Rat
  provenance : EdgeProvenance
  srcNodeId : Option NodeId
  dstNodeId : Option NodeId
  dstPathHint : Option JsString
  dstImporterLanguage : Option JsString
  deriving DecidableEq

/-- A parsed file; exports by name, routes by the qualified name of their handler. -/
structure StoreFileIR where
  path : JsString
  language : JsString
  contentHash : JsString
  symbols : List SymbolIR
  edges : Option (List EdgeIR)
  assertedEdgeProvenances : Option (List EdgeProvenance)
  exports : Option (List JsString)
  routes : Option (List JsString)
  deriving DecidableEq

/-- What the first pass leaves to the later ones. -/
structure Pending where
  ir : StoreFileIR
  fileId : Nat
  prunedNodeIds : List NodeId

def hashedField (key : String) (value : JsString) : JsString :=
  text (toString key.length) ++ text ":" ++ text key ++ text ":" ++ text (toString value.length) ++ text ":" ++ value ++ text ":"

def nodeIdFor (host : Host) (qualifiedName filePath label : JsString) : NodeId :=
  host.sha256 (hashedField "filePath" filePath ++ hashedField "label" label ++ hashedField "qualifiedName" qualifiedName)

def isAsciiLetter (c : CodeUnit) : Bool := (0x41 ≤ c.val && c.val ≤ 0x5A) || (0x61 ≤ c.val && c.val ≤ 0x7A)

def hasDriveRoot : JsString → Bool
  | letter :: colon :: separator :: _ => isAsciiLetter letter && colon = unit 0x3A && (separator = slash || separator = backslash)
  | _ => false

def isCanonicalFilePath (filePath : JsString) : Bool :=
  filePath ≠ [] && backslash ∉ filePath && !startsWith filePath [slash] && !hasDriveRoot filePath &&
    (split slash filePath).all fun segment => segment ≠ text "." && segment ≠ text ".."

def isValidSymbolSpan (sym : SymbolIR) : Bool := 0 ≤ sym.startByte && sym.startByte ≤ sym.endByte

def isValidFile (ir : StoreFileIR) : Bool :=
  isCanonicalFilePath ir.path && ir.symbols.all isValidSymbolSpan && (ir.exports.getD []).all (· ≠ []) &&
    (ir.routes.getD []).all (· ≠ [])

def upsertFile (store : Store) (ir : StoreFileIR) : Store × Nat :=
  match store.files.lookup ir.path with
  | some row => ({ store with files := store.files.set ir.path ⟨row.id, ir.language, ir.contentHash⟩ }, row.id)
  | none =>
      ({ store with
          files := store.files.set ir.path ⟨store.nextFileId, ir.language, ir.contentHash⟩
          nextFileId := store.nextFileId + 1 }, store.nextFileId)

def nodeRow (ir : StoreFileIR) (fileId : Nat) (sym : SymbolIR) : NodeRow :=
  ⟨sym.kind, sym.name, sym.qualifiedName, fileId, sym.startByte, sym.endByte, ir.language⟩

/-- The symbols of the file by node id; the last of those with one id counts. -/
def symbolByNodeId (host : Host) (ir : StoreFileIR) : OrderedMap NodeId SymbolIR :=
  ir.symbols.foldl (fun symbols sym => symbols.set (nodeIdFor host sym.qualifiedName ir.path sym.kind) sym) OrderedMap.empty

/-- A node that is not there in this form already is written, and its full-text row with it. -/
def upsertNode (existing : List (NodeId × NodeRow)) (ir : StoreFileIR) (fileId : Nat) (store : Store)
    (entry : NodeId × SymbolIR) : Store :=
  if (entry.1, nodeRow ir fileId entry.2) ∈ existing then store
  else
    let ftsRowid := ftsRowidForNodeId entry.1
    { store with
      nodes := store.nodes.set entry.1 (nodeRow ir fileId entry.2)
      nodesFts := store.nodesFts.map fun fts =>
        { fts with rows := (fts.rows.erase ftsRowid).set ftsRowid (entry.2.name, entry.2.qualifiedName) }
      ftsIndex := indexRow (store.ftsIndex.erase ftsRowid) ftsRowid entry.1 }

def upsertFileNodes (host : Host) (store : Store) (ir : StoreFileIR) : Store × Pending :=
  let (store, fileId) := upsertFile store ir
  let symbols := symbolByNodeId host ir
  let existing := store.ownNodes fileId
  (symbols.entries.foldl (upsertNode existing ir fileId) store,
    ⟨ir, fileId, (existing.map Prod.fst).filter fun id => !symbols.contains id⟩)

def upsertBatchNodes (host : Host) (store : Store) (files : List StoreFileIR) : Store × List Pending :=
  files.foldl (fun state ir =>
    let (store, pending) := upsertFileNodes host state.1 ir
    (store, state.2 ++ [pending])) (store, [])

theorem upsertBatchNodes_tracks {host : Host} {store : Store} (Tracks : List StoreFileIR → Store × List Pending → Prop)
    (round : ∀ done state ir, Tracks done state → Tracks (done ++ [ir])
      ((upsertFileNodes host state.1 ir).1, state.2 ++ [(upsertFileNodes host state.1 ir).2]))
    (begun : Tracks [] (store, [])) (files : List StoreFileIR) : Tracks files (upsertBatchNodes host store files) :=
  GuardedFold.foldl_tracks _ Tracks round files [] (store, []) begun

def pruneFileNodes (store : Store) (pending : Pending) : Store :=
  let ftsRowids := pending.prunedNodeIds.map ftsRowidForNodeId
  { store.deleteNodes fun id _ => decide (id ∈ pending.prunedNodeIds) with
    nodesFts := store.nodesFts.map fun fts => { fts with rows := fts.rows.eraseAll ftsRowids }
    ftsIndex := store.ftsIndex.eraseAll ftsRowids }

/-- The file's node with a qualified name, if no other node of the file has it. -/
def ownSymbol (store : Store) (fileId : Nat) (qualifiedName : JsString) : Option NodeId :=
  (single ((store.ownNodes fileId).filter fun node => node.2.qualifiedName = qualifiedName)).map Prod.fst

def resolveEdge (store : Store) (fileId : Nat) (edge : EdgeIR) : Option EdgeKey := do
  let src ← ownSymbol store fileId edge.srcQualifiedName
  let dst ← match edge.dstPathHint with
    | some hint =>
        if hint ≠ [] then resolveNodeIdWithPathHint store edge.dstQualifiedName hint edge.dstImporterLanguage
        else resolveNodeId store (ownSymbol store fileId) edge.dstQualifiedName
    | none => resolveNodeId store (ownSymbol store fileId) edge.dstQualifiedName
  some ⟨src, dst, edge.type⟩

def isValidEdge (edge : EdgeIR) : Bool := edge.confidence.any fun confidence => decide (0 ≤ confidence ∧ confidence ≤ 1)

def edgeRow (edge : EdgeIR) : EdgeRow := ⟨edge.confidence.getD 0, edge.provenance⟩

/-- The edges of the file that resolve, by key; the first of those with one key counts. -/
def assertedEdges (store : Store) (fileId : Nat) (edges : List EdgeIR) : OrderedMap EdgeKey EdgeIR :=
  edges.foldl (fun asserted edge =>
    match resolveEdge store fileId edge with
    | some key => if asserted.contains key then asserted else asserted.set key edge
    | none => asserted) OrderedMap.empty

/-- An empty scope is none. -/
def scopeOf (ir : StoreFileIR) : Option (List EdgeProvenance) := ir.assertedEdgeProvenances.filter (· ≠ [])

/-- Whether a row is not the assertion's to change. -/
def isProtected (scope : Option (List EdgeProvenance)) (prior : EdgeRow) (edge : EdgeIR) : Bool :=
  scope.any fun provenances => prior.provenance ∉ provenances || (prior.provenance = .lsp && edge.provenance = .heuristic)

def upsertFileEdge (prior : OrderedMap EdgeKey EdgeRow) (scope : Option (List EdgeProvenance))
    (edges : OrderedMap EdgeKey EdgeRow) (entry : EdgeKey × EdgeIR) : OrderedMap EdgeKey EdgeRow :=
  match prior.lookup entry.1 with
  | some row => if row = edgeRow entry.2 ∨ isProtected scope row entry.2 then edges else edges.set entry.1 (edgeRow entry.2)
  | none => edges.set entry.1 (edgeRow entry.2)

def isOwn (store : Store) (fileId : Nat) (id : NodeId) : Bool := (store.nodes.lookup id).any (·.fileId = fileId)

/-- A file without edges keeps its own; else those it does not assert any more are stale, within its scope. -/
def upsertFileEdges (store : Store) (pending : Pending) : Option Store :=
  match pending.ir.edges with
  | none => some store
  | some edges =>
      if edges.all isValidEdge then
        let asserted := assertedEdges store pending.fileId edges
        let scope := scopeOf pending.ir
        let fresh := store.edges.keep fun key row =>
          !(isOwn store pending.fileId key.src && !asserted.contains key && scope.all (row.provenance ∈ ·))
        some { store with edges := asserted.entries.foldl (upsertFileEdge store.edges scope) fresh }
      else none

def setAttributes (attributes : OrderedMap NodeId NodeAttributes) (own : List (NodeId × NodeRow))
    (change : NodeRow → NodeAttributes → NodeAttributes) : OrderedMap NodeId NodeAttributes :=
  own.foldl (fun attributes node =>
    attributes.set node.1 (change node.2 ((attributes.lookup node.1).getD ⟨false, false⟩))) attributes

/-- Each flag is rebuilt when its field is there, and left alone when it is not. -/
def upsertFileAttributes (store : Store) (pending : Pending) : Store :=
  if pending.ir.exports = none ∧ pending.ir.routes = none then store
  else
    { store with
      nodeAttributes := setAttributes store.nodeAttributes (store.ownNodes pending.fileId) fun node attributes =>
        { isExported := (pending.ir.exports.map (decide <| node.name ∈ ·)).getD attributes.isExported
          isRouteHandler := (pending.ir.routes.map (decide <| node.qualifiedName ∈ ·)).getD attributes.isRouteHandler } }

/-- The transaction. What is not valid throws, and nothing changes. -/
def runUpsert (host : Host) (store : Store) (files : List StoreFileIR) (deletePaths : List JsString) : Option Store :=
  if (files.map StoreFileIR.path).Nodup ∧ files.all isValidFile then do
    let (store, pending) := upsertBatchNodes host (store.deleteFiles deletePaths) files
    let store ← pending.foldlM upsertFileEdges (pending.foldl pruneFileNodes store)
    some (pending.foldl upsertFileAttributes store)
  else none

def dropFiles (store : Store) (paths : List JsString) : Store := store.deleteFiles paths

def sampleHost : Host where
  sha256 value := BitVec.ofNat 256 ((value.foldl (fun digest c => (digest * 65599 + c.val) % 2 ^ 63) 7) * 2 ^ 192)

def sampleFile (path : String) (symbols : List String) : StoreFileIR where
  path := text path
  language := text "typescript"
  contentHash := text "hash"
  symbols := symbols.map fun name => ⟨text name, text name, text "function", 0, 10⟩
  edges := none
  assertedEdgeProvenances := none
  exports := none
  routes := none

end Remnic.CodingGraph.Upsert
