import Remnic.Text.Decimal
import Remnic.Text.JsonPrint

/-!
`encodeLspFrame` and `LspFrameDecoder`. The chunks are byte strings; what `JSON.parse` says of a text
that it rejects is not known.
-/

namespace Remnic.Lsp.Framing

open Text.CodeUnits Text.Decimal Text.JsonText Text.JsonPrint Text.Utf8 Text.Utf8Encode

/-- A JSON value that has a frame: a buffer has fewer than 2^53 bytes. -/
structure LspMessage where
  message : Message
  fits : (encode (stringify message.val)).length < 2 ^ 53

def carriage : CodeUnit := unit 0x0D

def crlf : JsString := [carriage, newline]

def encodeLspFrame (value : LspMessage) : JsString :=
  let body := stringify value.message.val
  let byteLength := (encode body).length
  text "Content-Length: " ++ decimal byteLength ++ crlf ++ crlf ++ body

inductive FrameDecodeErrorKind where
  | malformedHeader
  | jsonParseError
  deriving DecidableEq, Repr

structure FrameDecodeError where
  kind : FrameDecodeErrorKind
  detail : JsString

inductive FrameDecodeResult where
  | ok (messages : List Json)
  | failed (error : FrameDecodeError)

def headerSeparator : List Byte := [byte 0x0D, byte 0x0A, byte 0x0D, byte 0x0A]

def headerSeparatorLength : Nat := headerSeparator.length

def firstSeparator : List Byte → Option Nat
  | [] => none
  | first :: rest => if headerSeparator.isPrefixOf (first :: rest) then some 0 else (firstSeparator rest).map (· + 1)

/-- `buffer.indexOf` of the separator, from an offset on. -/
def indexOfSeparator (buffer : List Byte) (start : Nat) : Option Nat := (firstSeparator (buffer.drop start)).map (· + start)

/-- `split("\r\n")`. -/
def splitCrlf : JsString → List JsString
  | [] => [[]]
  | [c] => [[c]]
  | c :: d :: rest =>
      if c = carriage ∧ d = newline then [] :: splitCrlf rest
      else
        match splitCrlf (d :: rest) with
        | [] => [[c]]
        | line :: lines => (c :: line) :: lines

/-- The digits of a line `Content-Length: <digits>`, in any case. -/
def contentLengthDigits (line : JsString) : Option JsString :=
  let name := text "content-length:"
  let value := (line.drop name.length).dropWhile isWhiteSpace
  let digits := value.takeWhile isDigit
  if asciiLower (line.take name.length) = name ∧ digits ≠ [] ∧ (value.dropWhile isDigit).all isWhiteSpace = true then some digits else none

/-- Whether `Number` of some digits is finite: the largest ones are rounded up to infinity. -/
def isFinite (value : Nat) : Bool := decide (value < 2 ^ 1024 - 2 ^ 970)

def parseContentLength (headerBlock : JsString) : Option Nat :=
  ((splitCrlf headerBlock).findSome? contentLengthDigits).bind fun digits =>
    if isFinite (readDecimal digits) then some (readDecimal digits) else none

structure LspFrameDecoder where
  buffer : List Byte
  scanOffset : Nat

def fresh : LspFrameDecoder := ⟨[], 0⟩

/-- What one pass of the loop finds at the front of the buffer. -/
inductive Extraction where
  | waiting (scanOffset : Nat)
  | failed (error : FrameDecodeError)
  | frame (parsed : Json) (bodyEnd : Nat)

section decoder

variable (errorMessage : JsString → JsString)

def extract (buffer : List Byte) (scanOffset : Nat) : Extraction :=
  match indexOfSeparator buffer scanOffset with
  | none => .waiting (buffer.length - (headerSeparatorLength - 1))
  | some sepIdx =>
      let headerBlock := decode (buffer.take sepIdx)
      match parseContentLength headerBlock with
      | none => .failed ⟨.malformedHeader, text "header block has no valid Content-Length: " ++ jsonStringify headerBlock⟩
      | some contentLength =>
          let bodyStart := sepIdx + headerSeparatorLength
          let bodyEnd := bodyStart + contentLength
          if buffer.length < bodyEnd then .waiting (sepIdx - (headerSeparatorLength - 1))
          else
            let body := decode ((buffer.drop bodyStart).take contentLength)
            match parse body with
            | none => .failed ⟨.jsonParseError, text "body is not valid JSON: " ++ errorMessage body⟩
            | some parsed => .frame parsed bodyEnd

theorem bodyEnd_bounds {buffer : List Byte} {scanOffset bodyEnd : Nat} {parsed : Json}
    (found : extract errorMessage buffer scanOffset = .frame parsed bodyEnd) : 0 < bodyEnd ∧ bodyEnd ≤ buffer.length := by
  unfold extract at found
  split at found
  · cases found
  · dsimp only at found
    split at found
    · cases found
    · split_ifs at found with short
      split at found
      · cases found
      · cases found
        have four : headerSeparatorLength = 4 := rfl
        omega

/-- The loop of `feed`. -/
def drain (buffer : List Byte) (scanOffset : Nat) (messages : List Json) : LspFrameDecoder × FrameDecodeResult :=
  match _found : extract errorMessage buffer scanOffset with
  | .waiting scanOffset => (⟨buffer, scanOffset⟩, .ok messages)
  | .failed error => (⟨buffer, scanOffset⟩, .failed error)
  | .frame parsed bodyEnd => drain (buffer.drop bodyEnd) 0 (messages ++ [parsed])
termination_by buffer.length
decreasing_by
  have bounds := bodyEnd_bounds errorMessage _found
  rw [List.length_drop]
  omega

def feed (decoder : LspFrameDecoder) (chunk : List Byte) : LspFrameDecoder × FrameDecodeResult :=
  drain errorMessage (decoder.buffer ++ chunk) decoder.scanOffset []

def hasResidual (decoder : LspFrameDecoder) : Bool := decide (0 < decoder.buffer.length)

/-- Chunks are fed until one of them reports an error: the decoder, the messages delivered, and the error. -/
def receive (decoder : LspFrameDecoder) : List (List Byte) → LspFrameDecoder × List Json × Option FrameDecodeError
  | [] => (decoder, [], none)
  | chunk :: chunks =>
      match feed errorMessage decoder chunk with
      | (next, .ok messages) =>
          let rest := receive next chunks
          (rest.1, messages ++ rest.2.1, rest.2.2)
      | (next, .failed error) => (next, [], some error)

end decoder

end Remnic.Lsp.Framing
