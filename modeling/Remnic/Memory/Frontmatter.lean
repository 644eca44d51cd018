import Remnic.Text.JsonText

/-!
The header of a memory record: `parseFrontmatter`, as far as its fields and its content, and
`locateEntityRefLine`, which finds a field in the text itself.
-/

namespace Remnic.Memory.Frontmatter

open Text.CodeUnits Text.JsonText

def carriageReturn : CodeUnit := unit 0x0D

/-- `\r?\n` in front: what follows it. -/
def afterBreak : JsString → Option JsString
  | [] => none
  | c :: rest =>
      if c = newline then some rest
      else if c = carriageReturn ∧ rest.head? = some newline then some rest.tail
      else none

def dashes : JsString := text "---"

/-- `---\r?\n` in front. -/
def afterOpening (value : JsString) : Option JsString := if startsWith value dashes then afterBreak (value.drop 3) else none

/-- `---(?:\r?\n|$)` in front. -/
def afterDashes (value : JsString) : Option JsString :=
  if startsWith value dashes then if value.drop 3 = [] then some [] else afterBreak (value.drop 3) else none

/-- `\r?\n---(?:\r?\n|$)` in front. -/
def afterClose (value : JsString) : Option JsString := (afterBreak value).bind afterDashes

/-- What is before the first closing delimiter, and the text from it on. -/
def splitClose : JsString → Option (JsString × JsString)
  | [] => none
  | c :: rest =>
      if (afterClose (c :: rest)).isSome then some ([], c :: rest)
      else (splitClose rest).map fun parts => (c :: parts.1, parts.2)

def beforeColon (line : JsString) : JsString := line.takeWhile (· ≠ colon)

def afterColon (line : JsString) : JsString := (line.dropWhile (· ≠ colon)).tail

/-- A key without a value, which may be followed by the items of a sequence. -/
def opensSequence (line : JsString) : Bool := colon ∈ line && trim (afterColon line) = []

def isLineEnd (c : CodeUnit) : Bool := c = newline || c = carriageReturn || c.val = 0x2028 || c.val = 0x2029

/-- Each occurrence of two units, from the left, becomes one unit. -/
def replacePairs (first second replacement : CodeUnit) : JsString → JsString
  | one :: other :: rest =>
      if one = first ∧ other = second then replacement :: replacePairs first second replacement rest
      else one :: replacePairs first second replacement (other :: rest)
  | short => short

def apostrophe : CodeUnit := unit 0x27

def isQuotedBy (mark : CodeUnit) (item : JsString) : Bool := item.head? = some mark && endsWith item mark && 2 ≤ item.length

def unquoteItem (item : JsString) : JsString :=
  if isQuotedBy quotation item then
    replacePairs backslash backslash backslash (replacePairs backslash quotation quotation item.tail.dropLast)
  else if isQuotedBy apostrophe item then replacePairs apostrophe apostrophe apostrophe item.tail.dropLast
  else item

/-- `/^(\s+)- (.*)$/` with more indentation than the key. -/
def itemOf (baseIndent : Nat) (line : JsString) : Option JsString :=
  let rest := line.dropWhile isWhiteSpace
  if baseIndent < (line.takeWhile isWhiteSpace).length ∧ startsWith rest (text "- ") = true ∧ (rest.drop 2).any isLineEnd = false then
    some (unquoteItem (trim (rest.drop 2)))
  else none

def takeItems (baseIndent : Nat) : List JsString → List JsString
  | [] => []
  | line :: rest =>
      match itemOf baseIndent line with
      | some item => item :: takeItems baseIndent rest
      | none => []

def quoteItem (item : JsString) : JsString :=
  quotation :: (item.flatMap fun c => if c = backslash ∨ c = quotation then [backslash, c] else [c]) ++ [quotation]

def collapsedLine (line : JsString) (items : List JsString) : JsString :=
  beforeColon line ++ text ": [" ++ (text ", ").intercalate (items.map quoteItem) ++ text "]"

/-- The lines with block sequences on the line of their key; so many lines are left out first. -/
def collapseFrom : Nat → List JsString → List JsString
  | _, [] => []
  | skipped + 1, _ :: rest => collapseFrom skipped rest
  | 0, line :: rest =>
      let items := if opensSequence line then takeItems (line.takeWhile isWhiteSpace).length rest else []
      if items = [] then line :: collapseFrom 0 rest else collapsedLine line items :: collapseFrom items.length rest

def fieldOfLine (line : JsString) : Option (JsString × JsString) :=
  if colon ∈ line then some (trim (beforeColon line), trim (afterColon line)) else none

/-- The fields of a header in the order of their lines, and the text below it. -/
structure Parsed where
  fields : List (JsString × JsString)
  content : JsString
  deriving DecidableEq

def fieldsOf (block : JsString) : List (JsString × JsString) := (collapseFrom 0 (split newline block)).filterMap fieldOfLine

def parseFrontmatter (raw : JsString) : Option Parsed := do
  let rest ← afterOpening raw
  let (block, close) ← splitClose rest
  let content ← afterClose close
  some ⟨fieldsOf block, trim content⟩

/-- Of the lines with one key the last counts. -/
def Parsed.field (parsed : Parsed) (key : JsString) : Option JsString :=
  (parsed.fields.reverse.find? (·.1 = key)).map Prod.snd

def entityRefKey : JsString := text "entityRef"

/-- `fm.entityRef || undefined` -/
def Parsed.entityRef (parsed : Parsed) : Option JsString := (parsed.field entityRefKey).filter (· ≠ [])

/-- `/^\s*entityRef\s*:/` -/
def isEntityRefLine (line : JsString) : Bool :=
  let rest := line.dropWhile isWhiteSpace
  startsWith rest entityRefKey && ((rest.drop entityRefKey.length).dropWhile isWhiteSpace).head? = some colon

structure Location where
  opening : JsString
  before : List JsString
  line : JsString
  after : List JsString
  value : JsString
  close : JsString

/-- The last item with a property, and what is around it. -/
def splitLast {Item : Type} (test : Item → Bool) : List Item → Option (List Item × Item × List Item)
  | [] => none
  | item :: rest =>
      match splitLast test rest with
      | some (before, found, after) => some (item :: before, found, after)
      | none => if test item then some ([], item, rest) else none

def withoutReturn (value : JsString) : JsString := if endsWith value carriageReturn then value.dropLast else value

def locateEntityRefLine (content : JsString) : Option Location := do
  let rest ← afterOpening content
  let (block, close) ← splitClose rest
  let (before, line, after) ← splitLast isEntityRefLine (split newline block)
  let value := trim (withoutReturn (afterColon line))
  if value = [] then none else some ⟨content.take (content.length - rest.length), before, line, after, value, close⟩

def readEntityRefFromFrontmatter (content : JsString) : Option JsString := (locateEntityRefLine content).map Location.value

/-- The line with another value, indented and ended as before. -/
def entityRefLine (line value : JsString) : JsString :=
  line.takeWhile isWhiteSpace ++ text "entityRef: " ++ value ++ if endsWith line carriageReturn then [carriageReturn] else []

def Location.withEntityRef (location : Location) (value : JsString) : JsString :=
  location.opening ++ [newline].intercalate (location.before ++ entityRefLine location.line value :: location.after) ++ location.close

end Remnic.Memory.Frontmatter
