import Remnic.CodingGraph.Schema

/-!
How an edge finds its end nodes by their qualified names. A name that more than one node has
finds none.
-/

namespace Remnic.CodingGraph.Resolve

open Text.CodeUnits Library Schema

def single {Item : Type} : List Item → Option Item
  | [only] => some only
  | _ => none

theorem mem_of_single {Item : Type} {items : List Item} {item : Item} (alone : single items = some item) : item ∈ items := by
  match items with
  | [only] => exact Option.some.inj alone ▸ List.mem_singleton_self only
  | [] => cases alone
  | _ :: _ :: _ => cases alone

/-- The extension after a hint, of the file itself or of the index of the directory. -/
def hintedExtension (rest : JsString) : Option JsString :=
  let ext :=
    if startsWith rest (text ".") then rest.drop 1
    else if startsWith rest (text "/index.") then rest.drop 7
    else if startsWith rest (text "/__init__.") then rest.drop 10
    else []
  if ext ≠ [] ∧ dot ∉ ext ∧ slash ∉ ext then some ext else none

/-- The extensions that a module resolver accepts for an importer of a language. -/
def langFamilyExtensions (importerLanguage : JsString) : Option (List JsString) :=
  if importerLanguage ∈ ["typescript", "tsx", "javascript"].map text then
    some (["ts", "tsx", "js", "jsx", "mjs", "cjs", "mts", "cts"].map text)
  else if importerLanguage = text "python" then some (["py", "pyi"].map text)
  else if importerLanguage = text "ruby" then some [text "rb"]
  else if importerLanguage = text "go" then some [text "go"]
  else if importerLanguage = text "rust" then some [text "rs"]
  else if importerLanguage = text "php" then some [text "php"]
  else if importerLanguage = text "java" then some [text "java"]
  else if importerLanguage = text "csharp" then some [text "cs"]
  else if importerLanguage ∈ ["c", "cpp"].map text then
    some (["cc", "cpp", "cxx", "c", "hh", "hpp", "hxx", "h"].map text)
  else if importerLanguage = text "kotlin" then some [text "kt"]
  else if importerLanguage = text "swift" then some [text "swift"]
  else if importerLanguage = text "bash" then some (["sh", "bash"].map text)
  else none

/-- Whether a file path meets a hint. A bare hint has no extension for a family to allow. -/
def meetsHint (path pathHint : JsString) (importerLanguage : Option JsString) : Bool :=
  let allowedExts := importerLanguage.bind langFamilyExtensions
  if path = pathHint then allowedExts.isNone
  else startsWith path pathHint && (hintedExtension (path.drop pathHint.length)).any fun ext => allowedExts.all (ext ∈ ·)

def Store.filePath (store : Store) (fileId : Nat) : Option JsString :=
  (store.files.entries.find? fun file => file.2.id = fileId).map Prod.fst

def named (store : Store) (qualifiedName : JsString) : List (NodeId × NodeRow) :=
  store.nodes.entries.filter fun node => node.2.qualifiedName = qualifiedName

/-- The file's own node first, then the only node of the store with the name. -/
def resolveNodeId (store : Store) (inBatch : JsString → Option NodeId) (qualifiedName : JsString) : Option NodeId :=
  (inBatch qualifiedName).or ((single (named store qualifiedName)).map Prod.fst)

def resolveNodeIdWithPathHint (store : Store) (qualifiedName pathHint : JsString) (importerLanguage : Option JsString) :
    Option NodeId :=
  (single ((named store qualifiedName).filter fun node =>
    (Store.filePath store node.2.fileId).any (meetsHint · pathHint importerLanguage))).map Prod.fst

/-- A node id that the caller gives counts only with the qualified name of its row. -/
def resolveByNodeId (store : Store) (nodeId : NodeId) (qualifiedName : JsString) : Option NodeId :=
  if (store.nodes.lookup nodeId).any (·.qualifiedName = qualifiedName) then some nodeId else none

end Remnic.CodingGraph.Resolve
