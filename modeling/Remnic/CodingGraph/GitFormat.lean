import Remnic.Text.Decimal
import Remnic.Text.Lines
import Remnic.Text.Utf8

/-!
What git prints for `diff --name-status`, `diff --unified=0` and `log --format=%H --name-only`.
A name is bytes; one with bytes that are not plain is printed in double quotes, with escapes.
-/

namespace Remnic.CodingGraph.GitFormat

open Text.CodeUnits Text.Decimal Text.JsonText Text.Lines Text.Utf8

structure Name where
  bytes : List Byte
  nonempty : bytes ≠ []
  noNul : ∀ byte ∈ bytes, byte.val ≠ 0

/-- The path as the rest of the program knows it. -/
def Name.path (name : Name) : JsString := decode name.bytes

/-- Control characters, the double quote, the backslash, and whatever is not ASCII. -/
def needsQuote (byte : Byte) : Bool := byte.val < 0x20 || byte.val = 0x22 || byte.val = 0x5C || 0x7F ≤ byte.val

def doubleQuote : CodeUnit := unit 0x22

def tab : CodeUnit := unit 0x09

/-- The letter that stands for a byte after a backslash, for those that have one. -/
def escapeLetter (byte : Byte) : Option CodeUnit :=
  match byte.val with
  | 0x07 => some (unit 0x61)
  | 0x08 => some (unit 0x62)
  | 0x09 => some (unit 0x74)
  | 0x0A => some (unit 0x6E)
  | 0x0B => some (unit 0x76)
  | 0x0C => some (unit 0x66)
  | 0x0D => some (unit 0x72)
  | 0x22 => some doubleQuote
  | 0x5C => some backslash
  | _ => none

def octal (byte : Byte) : JsString := [unit (0x30 + byte.val / 64), unit (0x30 + byte.val / 8 % 8), unit (0x30 + byte.val % 8)]

def escapeByte (byte : Byte) : JsString :=
  if needsQuote byte then
    match escapeLetter byte with
    | some letter => [backslash, letter]
    | none => backslash :: octal byte
  else [unit byte.val]

def Name.isPlain (name : Name) : Bool := !name.bytes.any needsQuote

/-- A name after a lead, quoted if it is not plain. -/
def quote (lead : JsString) (name : Name) : JsString :=
  if name.isPlain then lead ++ name.bytes.map fun byte => unit byte.val
  else doubleQuote :: lead ++ name.bytes.flatMap escapeByte ++ [doubleQuote]

inductive Change where
  | added | modified | deleted | typeChanged | unmerged
  deriving DecidableEq, Repr

def Change.letter : Change → JsString
  | .added => text "A"
  | .modified => text "M"
  | .deleted => text "D"
  | .typeChanged => text "T"
  | .unmerged => text "U"

/-- A line of `--name-status`: a change, or a rename or copy with its similarity in percent. -/
inductive NameStatus where
  | changed (change : Change) (path : Name)
  | moved (copied : Bool) (score : Nat) (oldPath newPath : Name)

def NameStatus.status : NameStatus → JsString
  | .changed change _ => change.letter
  | .moved copied score _ _ =>
      text (if copied then "C" else "R") ++
        [unit (0x30 + score / 100 % 10), unit (0x30 + score / 10 % 10), unit (0x30 + score % 10)]

def NameStatus.line (entry : NameStatus) : JsString :=
  match entry with
  | .changed _ path => entry.status ++ tab :: quote [] path
  | .moved _ _ oldPath newPath => entry.status ++ tab :: quote [] oldPath ++ tab :: quote [] newPath

def printNameStatus (entries : List NameStatus) : JsString := unlines (entries.map NameStatus.line)

/-- A hunk without context: where it stands, the lines that go, and the lines that come. -/
structure Hunk where
  oldStart : Nat
  newStart : Nat
  heading : Line
  removed : List Line
  added : List Line
  oldUnended : Bool
  newUnended : Bool

/-- A count of one is left out. -/
def printRange (start count : Nat) : JsString := decimal start ++ if count = 1 then [] else unit 0x2C :: decimal count

def Hunk.header (hunk : Hunk) : JsString :=
  text "@@ -" ++ printRange hunk.oldStart hunk.removed.length ++ text " +" ++ printRange hunk.newStart hunk.added.length ++
    text " @@" ++ if hunk.heading.val = [] then [] else space :: hunk.heading.val

def unendedMark (unended : Bool) : List JsString := if unended then [text "\\ No newline at end of file"] else []

def addedLine (line : Line) : JsString := unit 0x2B :: line.val

def removedLine (line : Line) : JsString := unit 0x2D :: line.val

def Hunk.lines (hunk : Hunk) : List JsString :=
  hunk.header :: (hunk.removed.map removedLine ++ unendedMark hunk.oldUnended ++ hunk.added.map addedLine ++ unendedMark hunk.newUnended)

/-- The lines between the first one of a file and its hunks. -/
inductive ExtendedHeader where
  | oldMode (mode : Nat)
  | newMode (mode : Nat)
  | newFileMode (mode : Nat)
  | deletedFileMode (mode : Nat)
  | copyFrom (name : Name)
  | copyTo (name : Name)
  | renameFrom (name : Name)
  | renameTo (name : Name)
  | similarityIndex (percent : Nat)
  | dissimilarityIndex (percent : Nat)
  | index (hashes : Line)

def ExtendedHeader.line : ExtendedHeader → JsString
  | .oldMode mode => text "old mode " ++ decimal mode
  | .newMode mode => text "new mode " ++ decimal mode
  | .newFileMode mode => text "new file mode " ++ decimal mode
  | .deletedFileMode mode => text "deleted file mode " ++ decimal mode
  | .copyFrom name => text "copy from " ++ quote [] name
  | .copyTo name => text "copy to " ++ quote [] name
  | .renameFrom name => text "rename from " ++ quote [] name
  | .renameTo name => text "rename to " ++ quote [] name
  | .similarityIndex percent => text "similarity index " ++ decimal percent ++ text "%"
  | .dissimilarityIndex percent => text "dissimilarity index " ++ decimal percent ++ text "%"
  | .index hashes => text "index " ++ hashes.val

/-- A side of a file, with a tab after it when there is a space in it. -/
def label (lead : String) (name : Name) : JsString :=
  let quoted := quote (text lead) name
  if space ∈ quoted then quoted ++ [tab] else quoted

def devNull : JsString := text "/dev/null"

/-- The change of a file: its removal, a change that git calls binary, or hunks. -/
inductive FilePatch where
  | deleted (path : Name) (extended : List ExtendedHeader) (removed : List Line) (unended : Bool)
  | binary (oldPath newPath : Name) (extended : List ExtendedHeader)
  | patched (oldPath newPath : Name) (created : Bool) (extended : List ExtendedHeader) (hunks : List Hunk)

def gitLine (oldPath newPath : Name) : JsString := text "diff --git " ++ quote (text "a/") oldPath ++ space :: quote (text "b/") newPath

def newSideLine (newPath : Name) : JsString := text "+++ " ++ label "b/" newPath

def FilePatch.lines : FilePatch → List JsString
  | .deleted path extended removed unended =>
      gitLine path path :: extended.map ExtendedHeader.line ++
        if removed = [] then []
        else [text "--- " ++ label "a/" path, text "+++ " ++ devNull] ++ Hunk.lines ⟨1, 0, ⟨[], List.not_mem_nil⟩, removed, [], unended, false⟩
  | .binary oldPath newPath extended =>
      gitLine oldPath newPath :: extended.map ExtendedHeader.line ++
        [text "Binary files " ++ quote (text "a/") oldPath ++ text " and " ++ quote (text "b/") newPath ++ text " differ"]
  | .patched oldPath newPath created extended hunks =>
      gitLine oldPath newPath :: extended.map ExtendedHeader.line ++
        if hunks = [] then []
        else [text "--- " ++ (if created then devNull else label "a/" oldPath), newSideLine newPath] ++ hunks.flatMap Hunk.lines

def printPatch (files : List FilePatch) : JsString := unlines (files.flatMap FilePatch.lines)

def isShaUnit (c : CodeUnit) : Bool := isDigit c || (0x61 ≤ c.val && c.val ≤ 0x66)

/-- `/^[0-9a-f]{40}$/` -/
def isSha (line : JsString) : Bool := line.length = 40 && line.all isShaUnit

structure Commit where
  sha : { sha : JsString // isSha sha = true }
  files : List Name
  distinct : (files.map Name.bytes).Nodup

def Commit.lines (commit : Commit) : List JsString :=
  commit.sha.val :: if commit.files = [] then [] else [] :: commit.files.map (quote [])

/-- The commits, with blank lines between them or without. -/
def printLog (separated : Bool) (commits : List Commit) : JsString :=
  unlines (commits.flatMap fun commit => commit.lines ++ if separated then [[]] else [])

end Remnic.CodingGraph.GitFormat
