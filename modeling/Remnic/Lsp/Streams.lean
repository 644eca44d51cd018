import Remnic.Lsp.Chunks

/-!
What a stream of frames delivers. An error drops the messages before it in the same chunk, so a
stream that is broken after a frame depends on the cuts; every other one does not.
-/

namespace Remnic.Lsp.Streams

open Text.CodeUnits Text.Decimal Text.JsonText Text.JsonPrint Text.Utf8 Text.Utf8Encode Framing Chunks
open List hiding extract

variable {errorMessage : JsString → JsString} {bytes stream rest : List Byte} {message : Json} {messages : List Json}
  {place bodyEnd : Nat}

def IsFrame (bytes : List Byte) (message : Json) : Prop :=
  ∃ header body, bytes = header ++ headerSeparator ++ body ∧ firstSeparator bytes = some header.length ∧
    parseContentLength (decode header) = some body.length ∧ parse (decode body) = some message

/-- A header without a length, or a complete body that is no message. -/
def IsBroken (bytes : List Byte) : Prop :=
  ∃ header rest, bytes = header ++ headerSeparator ++ rest ∧ firstSeparator bytes = some header.length ∧
    (parseContentLength (decode header) = none ∨
      ∃ length ≤ rest.length, parseContentLength (decode header) = some length ∧ parse (decode (rest.take length)) = none)

def BreaksLate (stream : List Byte) : Prop :=
  ∃ frames broken, frames ≠ [] ∧ (∀ frame ∈ frames, ∃ message, IsFrame frame message) ∧ IsBroken broken ∧ stream = frames.flatten ++ broken

/-- Two ways to cut a stream deliver the same messages, and both report an error or none does. -/
def IsIndependent (errorMessage : JsString → JsString) (stream : List Byte) : Prop :=
  ∀ chunks others : List (List Byte), chunks.flatten = stream → others.flatten = stream →
    (receive errorMessage fresh chunks).2.1 = (receive errorMessage fresh others).2.1 ∧
      (receive errorMessage fresh chunks).2.2.isSome = (receive errorMessage fresh others).2.2.isSome

/-- The frames of some messages deliver them, however they are cut. -/
def IsDecoded (errorMessage : JsString → JsString) (messages : List LspMessage) : Prop :=
  ∀ chunks : List (List Byte), chunks.flatten = messages.flatMap (fun value => encode (encodeLspFrame value)) →
    (receive errorMessage fresh chunks).2 = (messages.map fun value => value.message.val, none) ∧
      hasResidual (receive errorMessage fresh chunks).1 = false

section frames

theorem drop_header (header rest : List Byte) : (header ++ headerSeparator ++ rest).drop (header.length + headerSeparatorLength) = rest :=
  drop_left' (by rw [length_append]; rfl)

theorem take_header (header rest : List Byte) :
    (header ++ headerSeparator ++ rest).take (header.length + headerSeparatorLength) = header ++ headerSeparator :=
  take_left' (by rw [length_append]; rfl)

theorem parts_of_firstSeparator (found : firstSeparator bytes = some place) :
    bytes = bytes.take place ++ headerSeparator ++ bytes.drop (place + headerSeparatorLength) ∧ (bytes.take place).length = place := by
  obtain ⟨bound, here⟩ := firstSeparator_bounds found
  obtain ⟨after, parts⟩ := isPrefixOf_iff_prefix.mp here
  have rest : bytes.drop (place + headerSeparatorLength) = after := by
    rw [← drop_drop, ← parts]
    exact drop_left
  refine ⟨?_, length_take_of_le (by omega)⟩
  rw [rest, append_assoc, parts, take_append_drop]

theorem firstSeparator_take (found : firstSeparator bytes = some place) {length : Nat} (long : place + headerSeparatorLength ≤ length) :
    firstSeparator (bytes.take length) = some place := by
  obtain ⟨bound, here⟩ := firstSeparator_bounds found
  cases front : firstSeparator (bytes.take length) with
  | some other =>
    have whole := firstSeparator_append front (bytes.drop length)
    rw [take_append_drop, found] at whole
    exact whole.symm
  | none =>
    have absent := not_prefix_of_firstSeparator (bytes.take length) place (by simp [front])
    have inside : headerSeparator.isPrefixOf ((bytes.take length).drop place) = true := by
      rw [ isPrefixOf_iff_prefix] at here ⊢
      rw [drop_take]
      refine prefix_of_prefix_length_le here ( take_prefix _ _) ?_
      rw [length_take, length_drop]
      show headerSeparatorLength ≤ _
      omega
    rw [absent] at inside
    cases inside

theorem extract_of_isFrame (errorMessage : JsString → JsString) (frame : IsFrame bytes message) (rest : List Byte) :
    extract errorMessage (bytes ++ rest) 0 = .frame message bytes.length := by
  obtain ⟨header, body, rfl, found, length, parsed⟩ := frame
  have here : extract errorMessage (header ++ headerSeparator ++ body) 0 = .frame message (header ++ headerSeparator ++ body).length := by
    unfold extract
    rw [indexOfSeparator_zero, found]
    have total : (header ++ headerSeparator ++ body).length = header.length + headerSeparatorLength + body.length := by
      rw [length_append, length_append]
      rfl
    have front : (header ++ headerSeparator ++ body).take header.length = header := by
      rw [append_assoc, take_left]
    simp only [front, length, drop_header, total, Nat.lt_irrefl, if_false, take_length, parsed]
  refine (extract_append fun offset waits => ?_).trans here
  rw [here] at waits
  cases waits

theorem isFrame_of_extract (found : extract errorMessage stream 0 = .frame message bodyEnd) : IsFrame (stream.take bodyEnd) message := by
  have bounds := bodyEnd_bounds errorMessage found
  unfold extract at found
  rw [indexOfSeparator_zero] at found
  cases separator : firstSeparator stream with
  | none =>
    rw [separator] at found
    cases found
  | some place =>
    rw [separator] at found
    dsimp only at found
    obtain ⟨parts, header⟩ := parts_of_firstSeparator separator
    cases length : parseContentLength (decode (stream.take place)) with
    | none =>
      rw [length] at found
      cases found
    | some contentLength =>
      rw [length] at found
      dsimp only at found
      split_ifs at found with short
      split at found
      · cases found
      · next parsed read =>
        cases found
        refine ⟨stream.take place, (stream.drop (place + headerSeparatorLength)).take contentLength, ?_, ?_, ?_, read⟩
        · rw [take_add, ← take_header, header, ← parts]
        · rw [header]
          exact firstSeparator_take separator (by omega)
        · rw [length, length_take_of_le (by rw [length_drop]; omega)]

theorem isBroken_iff (errorMessage : JsString → JsString) : IsBroken bytes ↔ ∃ error, extract errorMessage bytes 0 = .failed error := by
  constructor
  · rintro ⟨header, rest, parts, found, broken⟩
    have front : bytes.take header.length = header := by
      rw [parts, append_assoc, take_left]
    have back : bytes.drop (header.length + headerSeparatorLength) = rest := by
      rw [parts, drop_header]
    have total : bytes.length = header.length + headerSeparatorLength + rest.length := by
      rw [parts, length_append, length_append]
      rfl
    unfold extract
    rw [indexOfSeparator_zero, found]
    simp only [front, back]
    rcases broken with none | ⟨length, inside, given, unread⟩
    · simp only [none]
      exact ⟨_, rfl⟩
    · simp only [given, unread]
      rw [if_neg (by omega)]
      exact ⟨_, rfl⟩
  · rintro ⟨error, failed⟩
    unfold extract at failed
    rw [indexOfSeparator_zero] at failed
    cases separator : firstSeparator bytes with
    | none =>
      rw [separator] at failed
      cases failed
    | some place =>
      rw [separator] at failed
      obtain ⟨parts, header⟩ := parts_of_firstSeparator separator
      refine ⟨bytes.take place, bytes.drop (place + headerSeparatorLength), parts, by rw [header, separator], ?_⟩
      dsimp only at failed
      cases length : parseContentLength (decode (bytes.take place)) with
      | none => exact .inl rfl
      | some contentLength =>
        rw [length] at failed
        dsimp only at failed
        split_ifs at failed with short
        split at failed
        · next unread => exact .inr ⟨contentLength, by rw [length_drop]; omega, rfl, unread⟩
        · cases failed

theorem breaksLate_iff (errorMessage : JsString → JsString) :
    BreaksLate stream ↔ ∃ message messages rest error, Holds errorMessage stream (message :: messages) rest (some error) := by
  constructor
  · rintro ⟨frames, broken, nonempty, framed, isBroken, rfl⟩
    obtain ⟨error, failed⟩ := (isBroken_iff errorMessage).mp isBroken
    have all : ∀ frames : List (List Byte), (∀ frame ∈ frames, ∃ message, IsFrame frame message) →
        ∃ messages, messages.length = frames.length ∧ Holds errorMessage (frames.flatten ++ broken) messages broken (some error) := by
      intro frames framed
      induction frames with
      | nil => exact ⟨[], rfl, .failed failed⟩
      | cons frame frames ih =>
        obtain ⟨message, isFrame⟩ := framed frame mem_cons_self
        obtain ⟨messages, count, holds⟩ := ih fun other member => framed other (mem_cons_of_mem _ member)
        refine ⟨message :: messages, by simp [count], ?_⟩
        rw [flatten_cons, append_assoc]
        refine .frame (extract_of_isFrame errorMessage isFrame _) ?_
        rw [drop_left]
        exact holds
    obtain ⟨messages, count, holds⟩ := all frames framed
    cases messages with
    | nil => exact absurd (length_eq_zero_iff.mp count.symm) nonempty
    | cons message messages => exact ⟨message, messages, broken, error, holds⟩
  · rintro ⟨message, messages, rest, error, holds⟩
    have all : ∀ {stream messages rest outcome}, Holds errorMessage stream messages rest outcome → outcome.isSome = true →
        ∃ frames : List (List Byte), frames.length = messages.length ∧ (∀ frame ∈ frames, ∃ message, IsFrame frame message) ∧ IsBroken rest ∧
          stream = frames.flatten ++ rest := by
      intro stream messages rest outcome holds ended
      induction holds with
      | waiting _ => cases ended
      | failed failed => exact ⟨[], rfl, by simp, (isBroken_iff errorMessage).mpr ⟨_, failed⟩, rfl⟩
      | @frame stream rest message bodyEnd messages outcome found _ ih =>
        obtain ⟨frames, count, framed, broken, parts⟩ := ih ended
        refine ⟨stream.take bodyEnd :: frames, by simp [count], ?_, broken, ?_⟩
        · intro frame member
          rcases mem_cons.mp member with rfl | member
          · exact ⟨message, isFrame_of_extract found⟩
          · exact framed frame member
        · rw [flatten_cons, append_assoc, ← parts, take_append_drop]
    obtain ⟨frames, count, framed, broken, parts⟩ := all holds rfl
    exact ⟨frames, rest, fun none => by simp [none] at count, framed, broken, parts⟩

end frames

section encoding

variable {value : JsString} (length : Nat)

theorem encode_ascii_append (ascii : ∀ c ∈ value, c.val < 0x80) (rest : JsString) :
    encode (value ++ rest) = value.map (fun c => byte c.val) ++ encode rest := by
  induction value with
  | nil => rfl
  | cons c value ih =>
    have small := ascii c mem_cons_self
    have high : isHighSurrogate c = false := by
      unfold isHighSurrogate
      rw [Bool.and_eq_false_iff, decide_eq_false_iff_not]
      exact .inl (by omega)
    have low : isLowSurrogate c = false := by
      unfold isLowSurrogate
      rw [Bool.and_eq_false_iff, decide_eq_false_iff_not]
      exact .inl (by omega)
    have own : alone c = c := by
      unfold alone
      rw [high, low]
      rfl
    rw [cons_append, encode_cons high, own, encodePoint, if_pos small, ih fun other member => ascii other (mem_cons_of_mem _ member)]
    rfl

theorem decode_ascii_bytes (ascii : ∀ c ∈ value, c.val < 0x80) : decode (value.map fun c => byte c.val) = value := by
  have small (c : CodeUnit) (member : c ∈ value) : (byte c.val).val = c.val := val_byte (by have := ascii c member; omega)
  rw [decode_ascii, map_map]
  · refine (map_congr_left fun c member => ?_).trans (map_id _)
    rw [Function.comp_apply, small c member]
    exact Remnic.Text.Utf8Encode.unit_val c
  · intro bytes member
    obtain ⟨c, inside, rfl⟩ := mem_map.mp member
    rw [small c inside]
    exact ascii c inside

theorem firstSeparator_after {front : List Byte} (free : byte 0x0D ∉ front) (rest : List Byte) :
    firstSeparator (front ++ headerSeparator ++ rest) = some front.length := by
  induction front with
  | nil => rfl
  | cons first front ih =>
    rw [mem_cons, not_or] at free
    have apart : headerSeparator.isPrefixOf (first :: (front ++ headerSeparator ++ rest)) = false := by
      unfold headerSeparator
      rw [isPrefixOf_cons_cons, Bool.and_eq_false_iff]
      exact .inl (beq_eq_false_iff_ne.mpr free.1)
    rw [cons_append, cons_append, firstSeparator, apart, if_neg Bool.false_ne_true, ih free.2]
    rfl

theorem splitCrlf_of_not_mem (free : carriage ∉ value) : splitCrlf value = [value] := by
  fun_induction splitCrlf value with
  | case1 => rfl
  | case2 c => rfl
  | case3 c d rest both ih => exact absurd (both.1 ▸ mem_cons_self) free
  | case4 c d rest apart none ih =>
    have split := ih fun member => free (mem_cons_of_mem _ member)
    rw [none] at split
    cases split
  | case5 c d rest apart line lines more ih =>
    have split := ih fun member => free (mem_cons_of_mem _ member)
    rw [more] at split
    cases split
    rfl

def header (length : Nat) : JsString := text "Content-Length: " ++ decimal length

theorem header_units : ∀ c ∈ header length, c.val < 0x80 ∧ c ≠ carriage := by
  intro c member
  rcases mem_append.mp member with name | digits
  · have all : (text "Content-Length: ").all (fun c => decide (c.val < 0x80 ∧ c ≠ carriage)) = true := rfl
    exact of_decide_eq_true (all_eq_true.mp all c name)
  · have digit := isDigit_of_mem_decimal digits
    simp only [isDigit, Bool.and_eq_true, decide_eq_true_eq] at digit
    refine ⟨by omega, ?_⟩
    rintro rfl
    revert digit
    decide

theorem contentLengthDigits_header : contentLengthDigits (header length) = some (decimal length) := by
  obtain ⟨first, digits, shape⟩ := exists_cons_of_ne_nil (decimal_ne_nil length)
  have all : ∀ c ∈ decimal length, isDigit c = true := fun c member => isDigit_of_mem_decimal member
  have solid : isWhiteSpace first = false := by
    have digit := all first (shape ▸ mem_cons_self)
    simp only [isDigit, Bool.and_eq_true, decide_eq_true_eq] at digit
    unfold isWhiteSpace
    simp only [Bool.or_eq_false_iff, Bool.and_eq_false_iff, decide_eq_false_iff_not]
    omega
  have name : asciiLower ((header length).take (text "content-length:").length) = text "content-length:" := rfl
  have value : ((header length).drop (text "content-length:").length).dropWhile isWhiteSpace = decimal length := by
    have spaced : (header length).drop (text "content-length:").length = space :: decimal length := rfl
    have blank : isWhiteSpace space = true := rfl
    rw [spaced, dropWhile_cons, blank, shape, dropWhile_cons, solid]
    rfl
  have taken : (decimal length).takeWhile isDigit = decimal length := takeWhile_eq_self_iff.mpr all
  have dropped : (decimal length).dropWhile isDigit = [] := dropWhile_eq_nil_iff.mpr all
  unfold contentLengthDigits
  simp only [value, taken, dropped]
  rw [if_pos ⟨name, decimal_ne_nil length, rfl⟩]

theorem parseContentLength_header {length : Nat} (fits : length < 2 ^ 53) : parseContentLength (header length) = some length := by
  unfold parseContentLength
  rw [splitCrlf_of_not_mem fun member => (header_units length _ member).2 rfl, findSome?_cons, contentLengthDigits_header]
  have finite : isFinite length = true := decide_eq_true (fits.trans (by decide +kernel))
  simp only [Option.bind_some, readDecimal_decimal, finite, if_true]

theorem isFrame_encode (value : LspMessage) : IsFrame (encode (encodeLspFrame value)) value.message.val := by
  let body := encode (stringify value.message.val)
  have units := header_units body.length
  have parts : encode (encodeLspFrame value) = (header body.length).map (fun c => byte c.val) ++ headerSeparator ++ body := by
    have ascii : ∀ c ∈ header body.length ++ crlf ++ crlf, c.val < 0x80 := by
      intro c member
      rw [append_assoc] at member
      rcases mem_append.mp member with name | ends
      · exact (units c name).1
      · have all : (crlf ++ crlf).all (fun c => decide (c.val < 0x80)) = true := rfl
        exact of_decide_eq_true (all_eq_true.mp all c ends)
    refine (encode_ascii_append ascii (stringify value.message.val)).trans ?_
    rw [map_append, map_append, append_assoc (List.map _ (header body.length))]
    rfl
  refine ⟨(header body.length).map fun c => byte c.val, body, parts, ?_, ?_, ?_⟩
  · rw [parts]
    refine firstSeparator_after (fun member => ?_) body
    obtain ⟨c, inside, same⟩ := mem_map.mp member
    obtain ⟨small, apart⟩ := units c inside
    have equal := congrArg Fin.val same
    rw [val_byte (by omega), val_byte (by decide)] at equal
    exact apart (eq_unit equal)
  · rw [decode_ascii_bytes fun c member => (units c member).1]
    exact parseContentLength_header value.fits
  · rw [decode_encode_stringify]
    exact parse_stringify value.message

end encoding

theorem holds_encoded (errorMessage : JsString → JsString) (values : List LspMessage) :
    Holds errorMessage (values.flatMap fun value => encode (encodeLspFrame value)) (values.map fun value => value.message.val) [] none := by
  induction values with
  | nil => exact .waiting (show extract errorMessage [] 0 = .waiting 0 from rfl)
  | cons value values ih =>
    refine .frame (extract_of_isFrame errorMessage (isFrame_encode value) _) ?_
    rw [flatMap_cons, drop_left]
    exact ih

theorem not_isIndependent {error : FrameDecodeError} (holds : Holds errorMessage stream (message :: messages) rest (some error)) :
    ¬ IsIndependent errorMessage stream := by
  intro independent
  obtain ⟨next, whole⟩ := drain_gives holds (clean_zero _) []
  cases holds with
  | @frame _ _ _ bodyEnd _ _ found _ =>
    have frame := isFrame_of_extract found
    have first : Holds errorMessage (stream.take bodyEnd) [message] [] none := by
      have front := extract_of_isFrame errorMessage frame []
      rw [append_nil] at front
      refine .frame front ?_
      rw [drop_length]
      exact .waiting (show extract errorMessage [] 0 = .waiting 0 from rfl)
    obtain ⟨after, cut, _⟩ := drain_gives first (clean_zero _) []
    have same := (independent [stream] [stream.take bodyEnd, stream.drop bodyEnd] (append_nil _)
      (by rw [flatten_cons, flatten_cons, flatten_nil, append_nil, take_append_drop])).1
    simp only [receive, feed, fresh, nil_append, whole, cut] at same
    cases same

/-- A stream is decoded alike, however it is cut, unless it is broken after a frame; and what was encoded is decoded. -/
theorem decoding (errorMessage : JsString → JsString) :
    (∀ stream, IsIndependent errorMessage stream ↔ ¬ BreaksLate stream) ∧ ∀ messages, IsDecoded errorMessage messages := by
  have waits : ∃ next, extract errorMessage [] 0 = .waiting next := ⟨0, rfl⟩
  have delivers {stream rest : List Byte} {messages : List Json} {outcome : Option FrameDecodeError}
      (holds : Holds errorMessage stream messages rest outcome) {chunks : List (List Byte)} (whole : chunks.flatten = stream) :
      Delivers rest messages outcome (receive errorMessage fresh chunks) :=
    receive_delivers chunks (clean_zero []) waits (by rw [nil_append, whole]; exact holds)
  refine ⟨fun stream => ?_, fun messages chunks whole => ?_⟩
  · rw [breaksLate_iff errorMessage]
    constructor
    · rintro independent ⟨message, messages, rest, error, holds⟩
      exact not_isIndependent holds independent
    · intro sound chunks others whole same
      obtain ⟨messages, rest, outcome, holds⟩ := exists_holds errorMessage stream
      have first := delivers holds whole
      have second := delivers holds same
      cases outcome with
      | none =>
        rw [first.2, second.2]
        exact ⟨rfl, rfl⟩
      | some error =>
        cases messages with
        | nil =>
          rw [prefix_nil.mp first.1, prefix_nil.mp second.1, first.2, second.2]
          exact ⟨rfl, rfl⟩
        | cons message messages => exact absurd ⟨message, messages, rest, error, holds⟩ sound
  · obtain ⟨empty, delivered⟩ := delivers (holds_encoded errorMessage messages) whole
    refine ⟨delivered, ?_⟩
    unfold hasResidual
    rw [empty]
    rfl

def sampleMessage : LspMessage := ⟨⟨.null, rfl⟩, by decide⟩

def sampleBroken : List Byte := encode (text "X" ++ crlf ++ crlf)

theorem error_drops_messages : ¬ IsIndependent (fun _ => []) (encode (encodeLspFrame sampleMessage) ++ sampleBroken) := by
  obtain ⟨error, failed⟩ : ∃ error, extract (fun _ => []) sampleBroken 0 = .failed error := ⟨_, rfl⟩
  have rest : Holds (fun _ => []) ((encode (encodeLspFrame sampleMessage) ++ sampleBroken).drop (encode (encodeLspFrame sampleMessage)).length) []
      sampleBroken (some error) := by
    rw [drop_left]
    exact .failed failed
  exact not_isIndependent (.frame (extract_of_isFrame _ (isFrame_encode sampleMessage) _) rest)

end Remnic.Lsp.Streams
