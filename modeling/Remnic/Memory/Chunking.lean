import Mathlib.Data.List.Infix
import Mathlib.Data.Rat.Defs
import Remnic.Text.Lines

/-!
Long memories are split at the ends of sentences, into chunks that overlap.
-/

namespace Remnic.Memory.Chunking

open Text.CodeUnits Text.Trim List

def unicodeTerminators : JsString := text "。．！？؟۔।॥｡…"

def cjkNoSpaceTerminators : JsString := text "。．！？｡"

def closingPunctuation : JsString := text "\"'”’»」』）］】〉》)]\x7d"

def digits : JsString := text "0123456789０１２３４５６７８９"

/-- `includes` of a unit that may lie beyond the text, where it is the empty string. -/
def includesUnit (units : JsString) (c : Option CodeUnit) : Bool := c.all units.contains

def isSentenceTerminator (c : CodeUnit) : Bool := (text ".!?").contains c || unicodeTerminators.contains c

def isClosing (c : CodeUnit) : Bool := closingPunctuation.contains c

def isCjk (c : CodeUnit) : Bool :=
  (0x3000 ≤ c.val && c.val ≤ 0x9FFF) || (0xF900 ≤ c.val && c.val ≤ 0xFAFF) || (0xAC00 ≤ c.val && c.val ≤ 0xD7AF)

/-- How many units after a terminator still belong to its sentence. -/
def sentenceEnd (rest : JsString) : Nat :=
  (rest.takeWhile isSentenceTerminator).length + ((rest.dropWhile isSentenceTerminator).takeWhile isClosing).length

/-- A sentence ends at a terminator, given the unit before it and the text after it. -/
def isBoundary (before : Option CodeUnit) (c : CodeUnit) (rest : JsString) : Bool :=
  let isFullwidthDecimal := c = unit 0xFF0E && includesUnit digits before &&
    includesUnit digits (rest.dropWhile isSentenceTerminator).head?
  let hasUnicodeTerminator := (c :: rest.takeWhile isSentenceTerminator).any unicodeTerminators.contains
  !isFullwidthDecimal && (hasUnicodeTerminator || (rest.drop (sentenceEnd rest)).head?.all isWhiteSpace)

def pushSentence (sentence : JsString) (sentences : List JsString) : List JsString :=
  if 0 < (trim sentence).length then trim sentence :: sentences else sentences

/-- The scan, from the sentence it is in, the unit before the rest of the text, and that rest. -/
def scanSentences (sentence : JsString) (before : Option CodeUnit) : JsString → List JsString
  | [] => pushSentence sentence []
  | c :: rest =>
    if isSentenceTerminator c then
      let ended := sentence ++ c :: rest.take (sentenceEnd rest)
      let after := rest.drop (sentenceEnd rest)
      if isBoundary before c rest then
        pushSentence ended (scanSentences [] (ended ++ after.takeWhile isWhiteSpace).getLast? (after.dropWhile isWhiteSpace))
      else scanSentences ended ended.getLast? after
    else scanSentences (sentence ++ [c]) (some c) rest
termination_by rest => rest.length
decreasing_by
  · have shorter := (dropWhile_suffix (l := rest.drop (sentenceEnd rest)) isWhiteSpace).length_le
    rw [length_drop] at shorter
    rw [length_cons]
    omega
  · rw [length_cons, length_drop]
    omega
  · exact Nat.lt_succ_self _

def splitSentencesFallback (content : JsString) : List JsString := scanSentences [] none content

/-- The segmenter is the one of the runtime, if it has one. -/
def splitSentences (segmenter : Option (JsString → List JsString)) (content : JsString) : List JsString :=
  let terminates (part : JsString) : Bool := part.any unicodeTerminators.contains
  match segmenter with
  | none => splitSentencesFallback content
  | some segment =>
    let segments := ((segment content).map trim).filter fun part => 0 < part.length
    if !content.any isWhiteSpace && terminates content && 1 < segments.length && segments.dropLast.all terminates then segments
    else splitSentencesFallback content

def endsWithoutSpace (value : JsString) : Bool :=
  let ending := value.reverse.dropWhile isClosing
  if includesUnit cjkNoSpaceTerminators ending.head? then ending[1]?.any isCjk
  else ending.head? = some (unit 0x2026) && ending[1]?.any isCjk

/-- The sentences of a chunk carry no separators of their own. -/
def joinSentences (sentences : List JsString) : JsString :=
  sentences.foldl (fun result sentence =>
    (if 0 < result.length then result ++ (if endsWithoutSpace result then [] else text " ") else result) ++ sentence) []

structure ChunkingConfig where
  targetTokens : ℚ
  minTokens : ℚ
  overlapSentences : Int

structure Chunk where
  content : JsString
  index : Nat
  tokenCount : Nat

structure ChunkResult where
  chunked : Bool
  chunks : List Chunk

section Chunks

variable (estimateTokenCount : JsString → Nat) (config : ChunkingConfig)

/-- The sentences that the next chunk begins with. -/
def overlapOf (sentences : List JsString) : List JsString :=
  let overlapCount := min config.overlapSentences sentences.length
  if overlapCount ≤ 0 then [] else sentences.drop (sentences.length - overlapCount.toNat)

/-- The loop over the sentences, from the chunk that it fills. -/
def chunkSentences (chunkIndex : Nat) (currentChunkSentences : List JsString) (currentTokens : Nat) :
    List JsString → List Chunk
  | [] => []
  | sentence :: rest =>
    let current := currentChunkSentences ++ [sentence]
    let tokens := currentTokens + estimateTokenCount sentence
    if config.targetTokens ≤ tokens || rest.isEmpty then
      let kept := overlapOf config current
      ⟨joinSentences current, chunkIndex, estimateTokenCount (joinSentences current)⟩ ::
        chunkSentences (chunkIndex + 1) kept (kept.map estimateTokenCount).sum rest
    else chunkSentences chunkIndex current tokens rest

def chunkContent (segmenter : Option (JsString → List JsString)) (content : JsString) : ChunkResult :=
  let totalTokens := estimateTokenCount content
  let sentences := splitSentences segmenter content
  if totalTokens < config.minTokens || sentences.length ≤ 1 then ⟨false, [⟨content, 0, totalTokens⟩]⟩
  else
    let chunks := chunkSentences estimateTokenCount config 0 [] 0 sentences
    ⟨1 < chunks.length, chunks⟩

end Chunks

/-- A text is a list of sentences in their order, with blanks before, between and after them. -/
inductive Spread : JsString → List JsString → Prop where
  | blank {value : JsString} : Blank value → Spread value []
  | sentence {front rest : JsString} {sentences : List JsString} (sentence : JsString) :
      Blank front → Spread rest sentences → Spread (front ++ sentence ++ rest) (sentence :: sentences)

/-- The sentences that each run adds to the run before it. -/
def newSentences (overlap : Nat) (previous : List JsString) : List (List JsString) → List JsString
  | [] => []
  | run :: runs => run.drop (min overlap previous.length) ++ newSentences overlap run runs

/-- A run begins with the last sentences of the one before it, and adds some. -/
def Continues (overlap : Nat) (previous run : List JsString) : Prop :=
  ∃ added, added ≠ [] ∧ run = previous.drop (previous.length - min overlap previous.length) ++ added

structure Covers (overlap : Nat) (sentences : List JsString) (runs : List (List JsString)) : Prop where
  consecutive : ∀ run ∈ runs, run <:+: sentences
  continued : runs.IsChain (Continues overlap)
  whole : newSentences overlap [] runs = sentences

theorem Spread.blank_append {front value : JsString} {sentences : List JsString} (blank : Blank front)
    (spread : Spread value sentences) : Spread (front ++ value) sentences := by
  have both {first second : JsString} (one : Blank first) (other : Blank second) : Blank (first ++ second) := by
    intro c member
    exact (mem_append.mp member).elim (one c) (other c)
  cases spread with
  | blank rest => exact .blank (both blank rest)
  | sentence sentence before rest =>
    rw [← append_assoc, ← append_assoc]
    exact .sentence sentence (both blank before) rest

theorem spread_pushSentence {value : JsString} {sentences : List JsString} (sentence : JsString)
    (spread : Spread value sentences) : Spread (sentence ++ value) (pushSentence sentence sentences) := by
  obtain ⟨front, back, parts, before, after⟩ := exists_blanks sentence
  unfold pushSentence
  split
  next =>
    rw [parts, append_assoc, ← parts]
    exact .sentence _ before (spread.blank_append after)
  next empty =>
    have nothing : trim sentence = [] := length_eq_zero_iff.mp (Nat.eq_zero_of_not_pos empty)
    rw [nothing, append_nil] at parts
    rw [parts, append_assoc]
    exact (spread.blank_append after).blank_append before

theorem spread_scanSentences (sentence : JsString) (before : Option CodeUnit) (rest : JsString) :
    Spread (sentence ++ rest) (scanSentences sentence before rest) := by
  induction sentence, before, rest using scanSentences.induct with
  | case1 sentence before =>
    rw [scanSentences]
    exact spread_pushSentence sentence (.blank nofun)
  | case2 sentence before c rest terminates ended after boundary ih =>
    rw [scanSentences, if_pos terminates]
    dsimp only
    rw [if_pos boundary]
    have parts : sentence ++ c :: rest = ended ++ (after.takeWhile isWhiteSpace ++ after.dropWhile isWhiteSpace) := by
      rw [takeWhile_append_dropWhile, append_assoc, cons_append, take_append_drop]
    rw [parts]
    refine spread_pushSentence ended (Spread.blank_append ?_ ih)
    exact fun unit member => mem_takeWhile_imp member
  | case3 sentence before c rest terminates ended after inside ih =>
    rw [scanSentences, if_pos terminates]
    dsimp only
    rw [if_neg inside]
    have parts : sentence ++ c :: rest = ended ++ after := by
      rw [append_assoc, cons_append, take_append_drop]
    exact parts ▸ ih
  | case4 sentence before c rest within ih =>
    rw [scanSentences, if_neg within]
    rw [append_assoc] at ih
    exact ih

section Runs

variable {estimateTokenCount : JsString → Nat} {config : ChunkingConfig}

theorem overlapOf_eq (sentences : List JsString) : overlapOf config sentences =
    sentences.drop (sentences.length - min config.overlapSentences.toNat sentences.length) := by
  unfold overlapOf
  dsimp only
  split
  next none =>
    have nothing : min config.overlapSentences.toNat sentences.length = 0 := by omega
    rw [nothing, Nat.sub_zero, drop_length]
  next => congr 2; omega

/-- The chunks of the sentences that are left, given the sentences that the first of them has already. -/
theorem runs_of_chunkSentences {sentences : List JsString} (left : sentences ≠ []) (chunkIndex tokens : Nat)
    (before : List JsString) {current : List JsString} (carried : current <:+ before) :
    ∃ added runs, added ≠ [] ∧
      (chunkSentences estimateTokenCount config chunkIndex current tokens sentences).map (·.content) =
        ((current ++ added) :: runs).map joinSentences ∧
      (∀ run ∈ (current ++ added) :: runs, run <:+: before ++ sentences) ∧
      ((current ++ added) :: runs).IsChain (Continues config.overlapSentences.toNat) ∧
      added ++ newSentences config.overlapSentences.toNat (current ++ added) runs = sentences := by
  induction sentences generalizing chunkIndex tokens before current with
  | nil => exact absurd rfl left
  | cons sentence rest ih =>
    have grown : current ++ [sentence] <:+ before ++ [sentence] := (suffix_append_inj_of_length_eq rfl).mpr ⟨carried, rfl⟩
    have whole : before ++ sentence :: rest = before ++ [sentence] ++ rest := by simp
    have inside : current ++ [sentence] <:+: before ++ sentence :: rest := by
      rw [whole]
      exact grown.isInfix.trans (prefix_append _ _).isInfix
    rw [chunkSentences]
    dsimp only
    split
    next ends =>
      by_cases last : rest = []
      · subst last
        refine ⟨[sentence], [], cons_ne_nil _ _, rfl, ?_, .singleton _, rfl⟩
        intro run member
        rw [mem_singleton.mp member]
        exact inside
      · have kept : overlapOf config (current ++ [sentence]) <:+ before ++ [sentence] := by
          rw [overlapOf_eq]
          exact (drop_suffix _ _).trans grown
        obtain ⟨added, runs, some, chunks, within, chain, news⟩ := ih last (chunkIndex + 1) _ (before ++ [sentence]) kept
        refine ⟨[sentence], (overlapOf config (current ++ [sentence]) ++ added) :: runs, cons_ne_nil _ _, ?_, ?_, ?_, ?_⟩
        · rw [map_cons, chunks, map_cons]
          rfl
        · intro run member
          rcases mem_cons.mp member with first | later
          · rw [first]
            exact inside
          · rw [whole]
            exact within run later
        · exact .cons_cons ⟨added, some, by rw [overlapOf_eq]⟩ chain
        · have carries : (overlapOf config (current ++ [sentence])).length =
              min config.overlapSentences.toNat (current ++ [sentence]).length := by
            rw [overlapOf_eq, length_drop]
            omega
          rw [newSentences, ← carries, drop_left, news]
          rfl
    next inner =>
      by_cases last : rest = []
      · simp [last] at inner
      · obtain ⟨added, runs, _, chunks, within, chain, news⟩ := ih last chunkIndex _ (before ++ [sentence]) grown
        rw [append_assoc, singleton_append] at chunks within chain news
        refine ⟨sentence :: added, runs, cons_ne_nil _ _, chunks, ?_, chain, ?_⟩
        · rw [whole]
          exact within
        · rw [cons_append, news]

end Runs

theorem splitSentences_spaced {segmenter : Option (JsString → List JsString)} {content : JsString}
    (spaced : content.any isWhiteSpace = true) : splitSentences segmenter content = splitSentencesFallback content := by
  unfold splitSentences
  cases segmenter with
  | none => rfl
  | some segment => simp [spaced]

def sampleConfig : ChunkingConfig := ⟨3, 1, 1⟩

end Remnic.Memory.Chunking
