import Remnic.CodingGraph.Upsert
import Remnic.Reconcile.Census

/-!
`deriveHeuristicEdges`: the calls of a parsed file become edges, by the scopes of the file and
by its relative imports. The counters of its result are left out.
-/

namespace Remnic.CodingGraph.Heuristic

open Text.CodeUnits Library Schema Upsert Reconcile.Census

structure ImportBindingIR where
  exported : JsString
  localName : JsString
  deriving DecidableEq, Repr

structure ImportIR where
  moduleName : JsString
  importedNames : List JsString
  bindings : Option (List ImportBindingIR)
  startByte : Int
  endByte : Int
  deriving DecidableEq, Repr

structure CallSiteIR where
  calleeNameCandidates : List JsString
  memberAccess : Bool
  startByte : Int
  endByte : Int
  deriving DecidableEq, Repr

/-- What the parser emits for a file; exports by name, routes by the qualified name of their handler. -/
structure FileIR where
  path : JsString
  language : JsString
  contentHash : JsString
  symbols : List SymbolIR
  imports : List ImportIR
  exports : List JsString
  callSites : List CallSiteIR
  routes : List JsString
  deriving DecidableEq, Repr

def explicitReceiverLanguages : List JsString := ["typescript", "tsx", "javascript", "python", "php"].map text

def heuristicConfidenceSameFile : Rat := 9 / 10

def heuristicConfidenceImportBound : Rat := 4 / 5

def symbolSize (sym : SymbolIR) : Int := sym.endByte - sym.startByte

def encloses (sym : SymbolIR) (startByte endByte : Int) : Bool := sym.startByte ≤ startByte && endByte ≤ sym.endByte

/-- The first of the smallest symbols. -/
def smallest (symbols : List SymbolIR) : Option SymbolIR :=
  symbols.foldl (fun best sym => if best.all (symbolSize sym < symbolSize ·) then some sym else best) none

def enclosingSymbol (symbols : List SymbolIR) (startByte endByte : Int) : Option SymbolIR :=
  smallest (symbols.filter (encloses · startByte endByte))

/-- The innermost symbol around another one. Symbols of one span are not inside each other. -/
def parentSymbol (symbols : List SymbolIR) (sym : SymbolIR) : Option SymbolIR :=
  smallest (symbols.filter fun other => encloses other sym.startByte sym.endByte &&
    !(other.startByte = sym.startByte && other.endByte = sym.endByte))

/-- Of symbols with one qualified name the last counts. -/
def lastNamed (symbols : List SymbolIR) (qualifiedName : JsString) : Option SymbolIR :=
  (symbols.filter (·.qualifiedName = qualifiedName)).getLast?

/-- The parent's qualified name; empty at the level of the file. -/
def parentOf (symbols : List SymbolIR) (qualifiedName : JsString) : JsString :=
  (((lastNamed symbols qualifiedName).bind (parentSymbol symbols)).map SymbolIR.qualifiedName).getD []

def kindOf (symbols : List SymbolIR) (qualifiedName : JsString) : Option JsString :=
  (lastNamed symbols qualifiedName).map SymbolIR.kind

def isClassLike (kind : JsString) : Bool := kind = text "class" || kind = text "interface" || kind = text "enum"

def scopeByName (symbols : List SymbolIR) (level name : JsString) : List SymbolIR :=
  symbols.filter fun sym => parentOf symbols sym.qualifiedName = level && sym.name = name

/-- The levels around a symbol, inner ones first; none when the names go round and the walk never ends. -/
def levelsAround (symbols : List SymbolIR) : Nat → JsString → Option (List JsString)
  | 0, _ => none
  | steps + 1, cursor =>
      if cursor = [] then some []
      else (levelsAround symbols steps (parentOf symbols cursor)).map (parentOf symbols cursor :: ·)

/-- `posix.dirname` of a path that is not absolute. -/
def dirname (path : JsString) : JsString :=
  let stem := (path.rdropWhile (· = slash)).rdropWhile (· ≠ slash)
  if stem = [] then [dot] else stem.dropLast

/-- A path from the file's directory; in Python each dot after the first goes one level up. -/
def relativeSpecifier (language moduleName : JsString) : Option JsString :=
  if startsWith moduleName (text "./") || startsWith moduleName (text "../") then some moduleName
  else if language = text "python" && startsWith moduleName (text ".") then
    let dots := (moduleName.takeWhile (· = dot)).length
    let rest := (moduleName.drop dots).map fun c => if c = dot then slash else c
    let specifier := (List.replicate (dots - 1) (text "../")).flatten ++ rest
    some (if specifier = [] then text "." else specifier)
  else none

def moduleExtensions : List JsString :=
  [".ts", ".js", ".tsx", ".jsx", ".cts", ".cjs", ".ctsx", ".cjsx", ".mts", ".mjs", ".mtsx", ".mjsx"].map text

def stripExtension (path : JsString) : JsString :=
  match moduleExtensions.find? (·.isSuffixOf path) with
  | some extension => path.take (path.length - extension.length)
  | none => path

/-- The path that an import names in the repository, without its extension. -/
def pathHintOf (ir : FileIR) (imp : ImportIR) : Option JsString := do
  let specifier ← relativeSpecifier ir.language imp.moduleName
  let joined := posixNormalize (dirname ir.path ++ [slash] ++ specifier)
  let hint := stripExtension (joined.rdropWhile (· = slash))
  if startsWith hint (text "../") then none else some hint

structure ImportBinding where
  exported : JsString
  hint : JsString
  enclosing : Option JsString
  invisible : Bool
  deriving DecidableEq, Repr

/-- The names that an import binds. In the body of a class it binds none that a bare call sees. -/
def bindingsOf (ir : FileIR) (imp : ImportIR) : List (JsString × ImportBinding) :=
  match pathHintOf ir imp with
  | none => []
  | some hint =>
      let bindings := imp.bindings.getD (imp.importedNames.map fun name => ⟨name, name⟩)
      let enclosing := enclosingSymbol ir.symbols imp.startByte imp.endByte
      let visible := !((enclosing.bind fun sym => kindOf ir.symbols sym.qualifiedName).any isClassLike)
      bindings.map fun binding =>
        (binding.localName, ⟨binding.exported, hint, if visible then enclosing.map SymbolIR.qualifiedName else none, !visible⟩)

def importBindings (ir : FileIR) (candidate : JsString) : List ImportBinding :=
  ((ir.imports.flatMap (bindingsOf ir)).filter (·.1 = candidate)).map Prod.snd

/-- A binding of the file counts as if it were at the innermost level, after the first such one. -/
def chooseBinding (ancestorChain : List JsString) (candidates : List ImportBinding) : Option ImportBinding :=
  (candidates.foldl (fun (chosen : Option (ImportBinding × Nat)) binding =>
    if binding.invisible then chosen
    else
      match binding.enclosing with
      | none => if chosen.isNone then some (binding, 0) else chosen
      | some level =>
          match ancestorChain.idxOf? level with
          | some depth => if chosen.all (depth < ·.2) then some (binding, depth) else chosen
          | none => chosen) none).map Prod.fst

structure Target where
  dstQualifiedName : JsString
  dstPathHint : Option JsString
  confidence : Rat
  deriving DecidableEq

/-- The innermost level with the name decides; a name that is there twice goes nowhere. -/
def resolveCandidate (ir : FileIR) (scopeLevels ancestorChain : List JsString) (candidate : JsString) : Option Target :=
  match (scopeLevels.map fun level => scopeByName ir.symbols level candidate).find? (· ≠ []) with
  | some [sym] => some ⟨sym.qualifiedName, none, heuristicConfidenceSameFile⟩
  | some _ => none
  | none =>
      (chooseBinding ancestorChain (importBindings ir candidate)).map fun binding =>
        ⟨binding.exported, some binding.hint, heuristicConfidenceImportBound⟩

def edgeOf (ir : FileIR) (src : SymbolIR) (target : Target) : EdgeIR where
  srcQualifiedName := src.qualifiedName
  dstQualifiedName := target.dstQualifiedName
  type := text "CALLS"
  confidence := some target.confidence
  provenance := .heuristic
  srcNodeId := none
  dstNodeId := none
  dstPathHint := target.dstPathHint
  dstImporterLanguage := target.dstPathHint.map fun _ => ir.language

/-- The edge of a call, if it has one; none at all when the walk of its scopes never ends. -/
def edgeOfCall (ir : FileIR) (site : CallSiteIR) : Option (Option EdgeIR) :=
  if site.memberAccess then some none
  else
    match enclosingSymbol ir.symbols site.startByte site.endByte with
    | none => some none
    | some src => do
        let levels ← levelsAround ir.symbols (ir.symbols.length + 1) src.qualifiedName
        let isScope := fun level => !(ir.language ∈ explicitReceiverLanguages && level ≠ [] && (kindOf ir.symbols level).any isClassLike)
        let scopeLevels := src.qualifiedName :: levels.filter isScope
        let ancestorChain := src.qualifiedName :: levels.filter (· ≠ [])
        some ((site.calleeNameCandidates.findSome? (resolveCandidate ir scopeLevels ancestorChain)).map (edgeOf ir src))

def edgeIdentity (edge : EdgeIR) : JsString :=
  edge.srcQualifiedName ++ [unit 0] ++ edge.dstQualifiedName ++ [unit 0] ++ edge.dstPathHint.getD []

def dedupeEdges (edges : List EdgeIR) : List EdgeIR :=
  edges.foldl (fun kept edge => if edgeIdentity edge ∈ kept.map edgeIdentity then kept else kept ++ [edge]) []

def deriveFile (ir : FileIR) : Option StoreFileIR := do
  let edges ← ir.callSites.mapM (edgeOfCall ir)
  some {
    path := ir.path
    language := ir.language
    contentHash := ir.contentHash
    symbols := ir.symbols
    edges := some (dedupeEdges edges.reduceOption)
    assertedEdgeProvenances := none
    exports := some ir.exports
    routes := some ir.routes }

/-- Each file by itself; none when it never returns. -/
def deriveHeuristicEdges (batch : List FileIR) : Option (List StoreFileIR) := batch.mapM deriveFile

def heuristicProvenanceScope : List EdgeProvenance := [.heuristic]

def withHeuristicScope (ir : StoreFileIR) : StoreFileIR := { ir with assertedEdgeProvenances := some heuristicProvenanceScope }

theorem deriveFile_keeps {ir : FileIR} {file : StoreFileIR} (derived : deriveFile ir = some file) :
    file.path = ir.path ∧ file.contentHash = ir.contentHash ∧ file.symbols = ir.symbols := by
  obtain ⟨edges, _, same⟩ := Option.bind_eq_some_iff.mp derived
  cases same
  exact ⟨rfl, rfl, rfl⟩

end Remnic.CodingGraph.Heuristic
