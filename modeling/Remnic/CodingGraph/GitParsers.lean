import Remnic.CodingGraph.GitFormat

/-!
The parsers of what git prints: `parseNameStatus`, `parseHunks` and `parseLogFiles`.
-/

namespace Remnic.CodingGraph.GitParsers

open Text.CodeUnits Text.Decimal Text.JsonText GitFormat

structure NameStatusEntry where
  status : JsString
  path : JsString
  oldPath : Option JsString
  deriving DecidableEq, Repr

/-- What is before the first occurrence of a unit, and what is after it. -/
def cutAt (c : CodeUnit) (value : JsString) : Option (JsString × JsString) :=
  if c ∈ value then some (value.takeWhile (· ≠ c), (value.dropWhile (· ≠ c)).tail) else none

def parseNameStatusLine (line : JsString) : Option NameStatusEntry :=
  match cutAt tab line with
  | none => none
  | some (status, rest) =>
      match if startsWith status (text "R") || startsWith status (text "C") then cutAt tab rest else none with
      | some (oldPath, newPath) => if oldPath ≠ [] ∧ newPath ≠ [] then some ⟨status, newPath, some oldPath⟩ else none
      | none => if rest ≠ [] then some ⟨status, rest, none⟩ else none

def parseNameStatus (stdout : JsString) : List NameStatusEntry := (split newline stdout).filterMap parseNameStatusLine

/-- The new lines of a hunk, from a start to an end that is not of it. -/
structure DiffHunk where
  path : JsString
  startLine : Nat
  endLine : Nat
  deriving DecidableEq, Repr

/-- `/\+(\d+)(?:,(\d+))?/`: the first match, with nothing for a group that is not there. -/
def matchNewRange : JsString → Option (JsString × JsString)
  | [] => none
  | c :: rest =>
      if c = unit 0x2B ∧ rest.takeWhile isDigit ≠ [] then
        some (rest.takeWhile isDigit,
          match rest.dropWhile isDigit with
          | comma :: more => if comma = unit 0x2C then more.takeWhile isDigit else []
          | [] => [])
      else matchNewRange rest

/-- The path of a line that is taken for the new side of a file. -/
def headerPath (line : JsString) : Option JsString :=
  if startsWith line (text "+++ /dev/null") then none
  else
    let raw := line.drop 4
    some (if startsWith raw (text "b/") then raw.drop 2 else raw)

structure HunkState where
  currentPath : Option JsString
  out : List DiffHunk

/-- A deletion counts as one line. -/
def rangeAt (path startStr countStr : JsString) : DiffHunk :=
  let count := if countStr = [] then 1 else readDecimal countStr
  ⟨path, readDecimal startStr, readDecimal startStr + max count 1⟩

def parseHunkLine (state : HunkState) (line : JsString) : HunkState :=
  if startsWith line (text "+++ ") then { state with currentPath := headerPath line }
  else if startsWith line (text "@@ ") then
    match matchNewRange line, state.currentPath with
    | some (startStr, countStr), some path =>
        if path = [] then state else { state with out := state.out ++ [rangeAt path startStr countStr] }
    | _, _ => state
  else state

def parseHunks (stdout : JsString) : List DiffHunk := ((split newline stdout).foldl parseHunkLine ⟨none, []⟩).out

structure LogFilesEntry where
  sha : JsString
  files : List JsString
  deriving DecidableEq, Repr

structure LogState where
  out : List LogFilesEntry
  currentSha : Option JsString
  currentFiles : List JsString

def flush (state : LogState) : List LogFilesEntry :=
  match state.currentSha with
  | some sha => state.out ++ [⟨sha, state.currentFiles⟩]
  | none => state.out

def parseLogLine (state : LogState) (line : JsString) : LogState :=
  if isSha line then ⟨flush state, some line, []⟩
  else if line ≠ [] ∧ state.currentSha.isSome ∧ line ∉ state.currentFiles then
    { state with currentFiles := state.currentFiles ++ [line] }
  else state

def parseLogFiles (stdout : JsString) : List LogFilesEntry := flush ((split newline stdout).foldl parseLogLine ⟨[], none, []⟩)

end Remnic.CodingGraph.GitParsers
