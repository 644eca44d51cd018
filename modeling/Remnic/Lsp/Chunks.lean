import Remnic.Lsp.Framing

/-!
A stream of frames, however it is cut into chunks. What a stream holds is a list of messages and then
a rest, which waits for more bytes or is broken; a decoder that has waited goes on where it stopped.
-/

namespace Remnic.Lsp.Chunks

open Text.CodeUnits Text.Decimal Text.JsonText Text.JsonPrint Text.Utf8 Text.Utf8Encode Framing
open List hiding extract

variable {errorMessage : JsString → JsString} {buffer more stream rest : List Byte} {offset place bodyEnd : Nat}
variable {message : Json} {messages later : List Json} {error : FrameDecodeError} {outcome : Option FrameDecodeError}

section separators

theorem firstSeparator_bounds (found : firstSeparator buffer = some place) :
    place + headerSeparatorLength ≤ buffer.length ∧ headerSeparator.isPrefixOf (buffer.drop place) = true := by
  induction buffer generalizing place with
  | nil => cases found
  | cons first rest ih =>
    unfold firstSeparator at found
    split_ifs at found with here
    · cases found
      exact ⟨(Nat.zero_add _).le.trans ( isPrefixOf_iff_prefix.mp here).length_le, here⟩
    · obtain ⟨before, later, rfl⟩ := Option.map_eq_some_iff.mp found
      obtain ⟨bound, here⟩ := ih later
      exact ⟨by rw [length_cons]; omega, here⟩

/-- The separator stands nowhere before an offset. -/
def Clean (buffer : List Byte) (offset : Nat) : Prop :=
  ∀ i < offset, i + headerSeparatorLength ≤ buffer.length ∧ headerSeparator.isPrefixOf (buffer.drop i) = false

theorem clean_zero (buffer : List Byte) : Clean buffer 0 := fun _ before => absurd before (Nat.not_lt_zero _)

theorem not_prefix_append {front : List Byte} (long : headerSeparatorLength ≤ front.length) (absent : headerSeparator.isPrefixOf front = false) :
    headerSeparator.isPrefixOf (front ++ more) = false := by
  refine Bool.eq_false_iff.mpr fun found => Bool.eq_false_iff.mp absent ?_
  rw [ isPrefixOf_iff_prefix] at found ⊢
  exact prefix_of_prefix_length_le found (prefix_append _ _) long

theorem Clean.append (clean : Clean buffer offset) (more : List Byte) : Clean (buffer ++ more) offset := by
  intro i before
  obtain ⟨bound, absent⟩ := clean i before
  refine ⟨by rw [length_append]; omega, ?_⟩
  rw [drop_append_of_le_length (by omega)]
  exact not_prefix_append (by rw [length_drop]; omega) absent

theorem firstSeparator_of_clean (clean : Clean buffer offset) : firstSeparator buffer = (firstSeparator (buffer.drop offset)).map (· + offset) := by
  induction offset generalizing buffer with
  | zero => simp
  | succ offset ih =>
    obtain ⟨bound, absent⟩ := clean 0 (Nat.succ_pos _)
    cases buffer with
    | nil => rfl
    | cons first rest =>
      have after : Clean rest offset := by
        intro i before
        obtain ⟨bound, absent⟩ := clean (i + 1) (Nat.succ_lt_succ before)
        exact ⟨by rw [length_cons] at bound; omega, absent⟩
      rw [drop_zero] at absent
      rw [firstSeparator, absent, if_neg Bool.false_ne_true, ih after, drop_succ_cons, Option.map_map]
      rfl

theorem not_prefix_of_firstSeparator (buffer : List Byte) (offset : Nat) (before : ∀ found ∈ firstSeparator buffer, offset < found) :
    headerSeparator.isPrefixOf (buffer.drop offset) = false := by
  induction buffer generalizing offset with
  | nil =>
    rw [drop_nil]
    rfl
  | cons first rest ih =>
    unfold firstSeparator at before
    split_ifs at before with here
    · exact absurd (before 0 rfl) (Nat.not_lt_zero _)
    · cases offset with
      | zero => exact Bool.eq_false_iff.mpr here
      | succ offset =>
        refine ih offset fun found member => Nat.lt_of_succ_lt_succ (before (found + 1) ?_)
        rw [Option.mem_def.mp member]
        rfl

theorem clean_before (limit : offset + headerSeparatorLength ≤ buffer.length + 1) (before : ∀ found ∈ firstSeparator buffer, offset ≤ found) :
    Clean buffer offset := by
  intro i less
  refine ⟨by omega, not_prefix_of_firstSeparator buffer i fun found member => ?_⟩
  exact Nat.lt_of_lt_of_le less (before found member)

theorem firstSeparator_append (found : firstSeparator buffer = some place) (more : List Byte) : firstSeparator (buffer ++ more) = some place := by
  obtain ⟨bound, here⟩ := firstSeparator_bounds found
  have clean : Clean buffer place := clean_before (by omega) fun other member => by
    rw [found] at member
    exact (Option.some_inj.mp member).le
  have split := firstSeparator_of_clean (clean.append more)
  rw [drop_append_of_le_length (by omega)] at split
  rw [split]
  have long : headerSeparator.isPrefixOf (buffer.drop place ++ more) = true :=
    isPrefixOf_iff_prefix.mpr (( isPrefixOf_iff_prefix.mp here).trans (prefix_append _ _))
  cases front : buffer.drop place ++ more with
  | nil =>
    rw [front] at long
    cases long
  | cons first rest =>
    rw [front] at long
    rw [firstSeparator, if_pos long, Option.map_some, Nat.zero_add]

end separators

section extraction

theorem extract_of_clean (clean : Clean buffer offset) : extract errorMessage buffer offset = extract errorMessage buffer 0 := by
  have same : indexOfSeparator buffer offset = indexOfSeparator buffer 0 := by
    unfold indexOfSeparator
    rw [← firstSeparator_of_clean clean, drop_zero]
    simp
  unfold extract
  rw [same]

theorem indexOfSeparator_zero (buffer : List Byte) : indexOfSeparator buffer 0 = firstSeparator buffer := by
  simp [indexOfSeparator]

theorem clean_of_waiting (waits : extract errorMessage buffer 0 = .waiting offset) : Clean buffer offset := by
  have four : headerSeparatorLength = 4 := rfl
  unfold extract at waits
  rw [indexOfSeparator_zero] at waits
  cases found : firstSeparator buffer with
  | none =>
    rw [found] at waits
    cases waits
    by_cases long : headerSeparatorLength ≤ buffer.length
    · exact clean_before (by omega) (by simp [found])
    · have none : buffer.length - (headerSeparatorLength - 1) = 0 := by omega
      rw [none]
      exact clean_zero buffer
  | some place =>
    rw [found] at waits
    dsimp only at waits
    obtain ⟨bound, _⟩ := firstSeparator_bounds found
    split at waits
    · cases waits
    · split_ifs at waits with short
      · cases waits
        refine clean_before (by omega) fun other member => ?_
        rw [found] at member
        cases member
        omega
      · split at waits <;> cases waits

theorem extract_append (found : ∀ scanOffset, extract errorMessage buffer 0 ≠ .waiting scanOffset) :
    extract errorMessage (buffer ++ more) 0 = extract errorMessage buffer 0 := by
  unfold extract at found ⊢
  rw [indexOfSeparator_zero, indexOfSeparator_zero] at *
  cases separator : firstSeparator buffer with
  | none =>
    rw [separator] at found
    exact absurd rfl (found _)
  | some place =>
    rw [separator] at found
    obtain ⟨bound, _⟩ := firstSeparator_bounds separator
    have header : (buffer ++ more).take place = buffer.take place := take_append_of_le_length (by omega)
    rw [firstSeparator_append separator more]
    dsimp only at found ⊢
    rw [header]
    cases length : parseContentLength (decode (buffer.take place)) with
    | none => rfl
    | some contentLength =>
      rw [length] at found
      dsimp only at found ⊢
      by_cases short : buffer.length < place + headerSeparatorLength + contentLength
      · rw [if_pos short] at found
        exact absurd rfl (found _)
      · have body : ((buffer ++ more).drop (place + headerSeparatorLength)).take contentLength =
            (buffer.drop (place + headerSeparatorLength)).take contentLength := by
          rw [drop_append_of_le_length bound, take_append_of_le_length (by rw [length_drop]; omega)]
        rw [if_neg short, if_neg (by rw [length_append]; omega), body]

end extraction

/-- The messages at the front of a stream, what is left of it, and whether that is broken. -/
inductive Holds (errorMessage : JsString → JsString) : List Byte → List Json → List Byte → Option FrameDecodeError → Prop where
  | waiting {stream : List Byte} {offset : Nat} : extract errorMessage stream 0 = .waiting offset → Holds errorMessage stream [] stream none
  | failed {stream : List Byte} {error : FrameDecodeError} : extract errorMessage stream 0 = .failed error → Holds errorMessage stream [] stream (some error)
  | frame {stream rest : List Byte} {message : Json} {bodyEnd : Nat} {messages : List Json} {outcome : Option FrameDecodeError} :
      extract errorMessage stream 0 = .frame message bodyEnd →
      Holds errorMessage (stream.drop bodyEnd) messages rest outcome → Holds errorMessage stream (message :: messages) rest outcome

section streams

theorem exists_holds (errorMessage : JsString → JsString) (stream : List Byte) :
    ∃ messages rest outcome, Holds errorMessage stream messages rest outcome := by
  cases found : extract errorMessage stream 0 with
  | waiting offset => exact ⟨[], stream, none, .waiting found⟩
  | failed error => exact ⟨[], stream, some error, .failed found⟩
  | frame message bodyEnd =>
    have bounds := bodyEnd_bounds errorMessage found
    obtain ⟨messages, rest, outcome, holds⟩ := exists_holds errorMessage (stream.drop bodyEnd)
    exact ⟨message :: messages, rest, outcome, .frame found holds⟩
termination_by stream.length
decreasing_by
  rw [length_drop]
  omega

theorem Holds.append (holds : Holds errorMessage stream messages rest none) (after : Holds errorMessage (rest ++ more) later buffer outcome) :
    Holds errorMessage (stream ++ more) (messages ++ later) buffer outcome := by
  generalize none : (none : Option FrameDecodeError) = ended at holds
  induction holds with
  | waiting waits => exact after
  | failed fails => cases none
  | frame found holds ih =>
    have bounds := bodyEnd_bounds errorMessage found
    refine .frame ((extract_append fun offset waits => ?_).trans found) ?_
    · rw [found] at waits
      cases waits
    · rw [drop_append_of_le_length bounds.2]
      exact ih after none

theorem Holds.append_failed (holds : Holds errorMessage stream messages rest (some error)) (more : List Byte) :
    Holds errorMessage (stream ++ more) messages (rest ++ more) (some error) := by
  generalize broken : some error = ended at holds
  induction holds with
  | waiting waits => cases broken
  | failed fails =>
    cases broken
    refine .failed ((extract_append fun offset waits => ?_).trans fails)
    rw [fails] at waits
    cases waits
  | frame found holds ih =>
    have bounds := bodyEnd_bounds errorMessage found
    refine .frame ((extract_append fun offset waits => ?_).trans found) ?_
    · rw [found] at waits
      cases waits
    · rw [drop_append_of_le_length bounds.2]
      exact ih broken

theorem Holds.rest_waits (holds : Holds errorMessage stream messages rest none) : ∃ offset, extract errorMessage rest 0 = .waiting offset := by
  generalize none : (none : Option FrameDecodeError) = ended at holds
  induction holds with
  | waiting waits => exact ⟨_, waits⟩
  | failed fails => cases none
  | frame found holds ih => exact ih none

theorem Holds.of_waiting (holds : Holds errorMessage stream messages rest outcome) (waits : extract errorMessage stream 0 = .waiting offset) :
    messages = [] ∧ rest = stream ∧ outcome = none := by
  cases holds with
  | waiting _ => exact ⟨rfl, rfl, rfl⟩
  | failed fails =>
    rw [waits] at fails
    cases fails
  | frame found _ =>
    rw [waits] at found
    cases found

theorem Holds.unique {otherMessages : List Json} {otherRest : List Byte} {otherOutcome : Option FrameDecodeError}
    (holds : Holds errorMessage stream messages rest outcome) (other : Holds errorMessage stream otherMessages otherRest otherOutcome) :
    messages = otherMessages ∧ rest = otherRest ∧ outcome = otherOutcome := by
  induction holds generalizing otherMessages with
  | waiting waits =>
    obtain ⟨rfl, rfl, rfl⟩ := other.of_waiting waits
    exact ⟨rfl, rfl, rfl⟩
  | failed fails =>
    cases other with
    | waiting waits =>
      rw [fails] at waits
      cases waits
    | failed again =>
      rw [fails] at again
      cases again
      exact ⟨rfl, rfl, rfl⟩
    | frame found _ =>
      rw [fails] at found
      cases found
  | frame found holds ih =>
    cases other with
    | waiting waits =>
      rw [found] at waits
      cases waits
    | failed fails =>
      rw [found] at fails
      cases fails
    | frame again other =>
      rw [found] at again
      cases again
      obtain ⟨rfl, rfl, rfl⟩ := ih other
      exact ⟨rfl, rfl, rfl⟩

def Gives (rest : List Byte) (messages : List Json) (outcome : Option FrameDecodeError) (result : LspFrameDecoder × FrameDecodeResult) : Prop :=
  match outcome with
  | none => ∃ next, result = (⟨rest, next⟩, .ok messages) ∧ Clean rest next
  | some error => ∃ next, result = (next, .failed error)

theorem drain_gives (holds : Holds errorMessage buffer messages rest outcome) (clean : Clean buffer offset) (before : List Json) :
    Gives rest (before ++ messages) outcome (drain errorMessage buffer offset before) := by
  induction holds generalizing offset before with
  | @waiting stream next waits =>
    have found := (extract_of_clean clean).trans waits
    refine ⟨next, ?_, clean_of_waiting waits⟩
    rw [drain, append_nil]
    split <;> simp_all
  | @failed stream error fails =>
    have found := (extract_of_clean clean).trans fails
    refine ⟨⟨stream, offset⟩, ?_⟩
    rw [drain]
    split <;> simp_all
  | @frame stream rest message bodyEnd messages outcome front holds ih =>
    have found := (extract_of_clean clean).trans front
    have step : drain errorMessage stream offset before = drain errorMessage (stream.drop bodyEnd) 0 (before ++ [message]) := by
      rw [drain]
      split <;> simp_all
    have drained := ih (clean_zero _) (before ++ [message])
    rw [step]
    rwa [append_assoc] at drained

/-- What the chunks of a stream deliver: its messages, or some of them before its error. -/
def Delivers (rest : List Byte) (messages : List Json) (outcome : Option FrameDecodeError)
    (result : LspFrameDecoder × List Json × Option FrameDecodeError) : Prop :=
  match outcome with
  | none => result.1.buffer = rest ∧ result.2 = (messages, none)
  | some error => result.2.1 <+: messages ∧ result.2.2 = some error

theorem receive_delivers (chunks : List (List Byte)) (clean : Clean buffer offset)
    (waits : ∃ next, extract errorMessage buffer 0 = .waiting next) (holds : Holds errorMessage (buffer ++ chunks.flatten) messages rest outcome) :
    Delivers rest messages outcome (receive errorMessage ⟨buffer, offset⟩ chunks) := by
  induction chunks generalizing buffer offset messages with
  | nil =>
    obtain ⟨next, waits⟩ := waits
    rw [flatten_nil, append_nil] at holds
    obtain ⟨rfl, rfl, rfl⟩ := holds.of_waiting waits
    exact ⟨rfl, rfl⟩
  | cons chunk chunks ih =>
    obtain ⟨first, left, ending, front⟩ := exists_holds errorMessage (buffer ++ chunk)
    have drained := drain_gives front (clean.append chunk) []
    rw [flatten_cons, ← append_assoc] at holds
    unfold receive feed
    cases ending with
    | none =>
      obtain ⟨next, drained, clean⟩ := drained
      obtain ⟨after, final, ended, back⟩ := exists_holds errorMessage (left ++ chunks.flatten)
      obtain ⟨rfl, rfl, rfl⟩ := holds.unique (front.append back)
      have rested := ih clean front.rest_waits back
      simp only [drained, nil_append]
      cases outcome with
      | none =>
        obtain ⟨same, delivered⟩ := rested
        refine ⟨same, ?_⟩
        rw [delivered]
      | some error =>
        obtain ⟨part, failed⟩ := rested
        exact ⟨(prefix_append_right_inj _).mpr part, failed⟩
    | some error =>
      obtain ⟨next, drained⟩ := drained
      obtain ⟨rfl, rfl, rfl⟩ := holds.unique (front.append_failed _)
      simp only [drained]
      exact ⟨ nil_prefix, rfl⟩

end streams

end Remnic.Lsp.Chunks
