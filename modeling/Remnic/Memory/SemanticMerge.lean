import Mathlib.Data.Rat.Floor
import Remnic.Library.GuardedFold
import Remnic.Memory.AttributeSuffix

/-!
The decision whether a new fact is merged into a memory that is close to it. The lookup, the judge and the
resolver belong to the caller; the resolver's answers may depend on the calls before.
-/

namespace Remnic.Memory.SemanticMerge

open List Library.GuardedFold Text.CodeUnits AttributeSuffix

inductive JsNumber where
  | finite (value : ℚ)
  | infinity
  | negInfinity
  | nan

/-- `value >= bound` for a finite value. -/
def atLeast (value : ℚ) : JsNumber → Bool
  | .finite bound => bound ≤ value
  | .negInfinity => true
  | .infinity | .nan => false

def below (value : ℚ) : JsNumber → Bool
  | .finite bound => value < bound
  | .infinity => true
  | .negInfinity | .nan => false

/-- `number * CANDIDATE_OVERFETCH_FACTOR`. -/
def overfetched : JsNumber → JsNumber
  | .finite value => .finite (4 * value)
  | other => other

/-- `slice(0, count)` for a positive count. -/
def sliceTo {Item : Type} (items : List Item) : JsNumber → List Item
  | .finite value => items.take ⌊value⌋.toNat
  | _ => items

structure SemanticMergeConfig where
  enabled : Bool
  minSimilarity : JsNumber
  maxCandidates : JsNumber
  categories : List JsString

/-- A hit: a field is `none` if it has another type, or is no finite number. -/
structure SemanticDedupHit where
  id : Option JsString
  score : Option ℚ
  sourceConnector : Option JsString

structure CandidateMeta where
  content : JsString
  category : JsString
  status : Option JsString

structure MergeCandidate extends CandidateMeta where
  memoryId : JsString
  similarity : ℚ

structure MergeJudgeRawVerdict where
  decision : JsString
  targetId : Option JsString
  mergedContent : Option JsString

inductive MergeCreateReason where
  | disabled
  | noCandidates
  | judgeCreate
  | judgeContradicts
  | judgeInvalid
  | judgeError
  | backendUnavailable
  deriving DecidableEq

inductive MergeDecision where
  | create (reason : MergeCreateReason)
  | merge (targetId mergedContent targetContent : JsString)
  deriving DecidableEq

structure DecideSemanticMergeOptions (Fault : Type) where
  content : JsString
  category : JsString
  lookup : JsString → JsNumber → Except Fault (Option (List (Option SemanticDedupHit)))
  judge : JsString → JsString → List MergeCandidate → Except Fault (Option MergeJudgeRawVerdict)
  config : SemanticMergeConfig
  dedupThreshold : JsNumber
  resolveCandidate : List JsString → JsString → Except Fault (Option CandidateMeta)
  sourceConnector : Option JsString

def normalizeConnectorScope (value : Option JsString) : Option JsString :=
  (value.map trim).filter fun trimmed => 0 < trimmed.length

def isActiveMemoryStatus (status : Option JsString) : Bool := status.all fun status => status = text "active"

inductive MergeRefusal where
  | empty
  | oversized
  | unsafeText

def checkMergedContent (patterns : List InjectionPattern) (mergedContent : Option JsString)
    (incomingContent targetContent : JsString) : Except (MergeRefusal × Nat) JsString :=
  let limit := 4 * (incomingContent.length + targetContent.length)
  match mergedContent with
  | none => .error (.empty, limit)
  | some merged =>
    if trim merged = [] then .error (.empty, limit)
    else if !(sanitizeMemoryContent patterns merged).clean then .error (.unsafeText, limit)
    else if limit < merged.length then .error (.oversized, limit)
    else .ok merged

/-- Whether a candidate does not come after another one. -/
def compareMergeCandidates (a b : MergeCandidate) : Bool :=
  if a.similarity ≠ b.similarity then b.similarity < a.similarity else a.memoryId ≤ b.memoryId

section Decide

variable {Fault : Type} (patterns : List InjectionPattern) (options : DecideSemanticMergeOptions Fault)

/-- The hit's identifier and score, if the resolver is asked about it. -/
def neighbour : Option SemanticDedupHit → Option (JsString × ℚ)
  | some ⟨some id, some score, sourceConnector⟩ =>
    if 0 < (trim id).length && (atLeast score options.config.minSimilarity && below score options.dedupThreshold) &&
      normalizeConnectorScope sourceConnector = normalizeConnectorScope options.sourceConnector then some (id, score)
    else none
  | _ => none

def candidateOf (hit : JsString × ℚ) : Option CandidateMeta → Option MergeCandidate
  | none => none
  | some found =>
    if found.category = options.category && isActiveMemoryStatus found.status then some ⟨found, hit.1, hit.2⟩ else none

/-- The loop over the hits; the resolver has been asked about some identifiers already. -/
def gather (asked : List JsString) : List (Option SemanticDedupHit) → Except Fault (List MergeCandidate)
  | [] => .ok []
  | hit :: hits =>
    match neighbour options hit with
    | none => gather asked hits
    | some near => do
      let found ← options.resolveCandidate asked near.1
      let others ← gather (asked ++ [near.1]) hits
      return (candidateOf options near found).toList ++ others

/-- What comes before the loop: the reason to create at once, or the hits. -/
def lookUp : Except MergeCreateReason (List (Option SemanticDedupHit)) :=
  if !options.config.enabled then .error .disabled
  else if !below 0 options.config.maxCandidates then .error .disabled
  else if !options.config.categories.contains options.category then .error .disabled
  else if trim options.content = [] then .error .noCandidates
  else
    match options.lookup (trim options.content) (overfetched options.config.maxCandidates) with
    | .error _ => .error .backendUnavailable
    | .ok none => .error .noCandidates
    | .ok (some hits) => if hits.isEmpty then .error .noCandidates else .ok hits

def limited (candidates : List MergeCandidate) : List MergeCandidate :=
  sliceTo (candidates.insertionSort fun a b => compareMergeCandidates a b = true) options.config.maxCandidates

def judged (shown : List MergeCandidate) : MergeDecision :=
  match options.judge (trim options.content) options.category shown with
  | .error _ => .create .judgeError
  | .ok none => .create .judgeInvalid
  | .ok (some verdict) =>
    if verdict.decision = text "create" then .create .judgeCreate
    else if verdict.decision = text "contradicts" then .create .judgeContradicts
    else
      match verdict.targetId.bind fun targetId => shown.find? fun candidate => candidate.memoryId = targetId with
      | none => .create .judgeInvalid
      | some target =>
        match checkMergedContent patterns verdict.mergedContent (trim options.content) target.content with
        | .error _ => .create .judgeInvalid
        | .ok content => .merge target.memoryId content target.content

def decideSemanticMerge : Except Fault MergeDecision :=
  match lookUp options with
  | .error reason => .ok (.create reason)
  | .ok hits => do
    let candidates ← gather options [] hits
    if candidates.isEmpty then return .create .noCandidates
    else return judged patterns options (limited options candidates)

/-- A hit of the same scope in the band, whose memory the resolver has found active and of the category. -/
structure Eligible (hits : List (Option SemanticDedupHit)) (candidate : MergeCandidate) : Prop where
  hit : ∃ sourceConnector, some ⟨some candidate.memoryId, some candidate.similarity, sourceConnector⟩ ∈ hits ∧
    normalizeConnectorScope sourceConnector = normalizeConnectorScope options.sourceConnector
  inBand : atLeast candidate.similarity options.config.minSimilarity = true ∧
    below candidate.similarity options.dedupThreshold = true
  resolved : ∃ asked, options.resolveCandidate asked candidate.memoryId = .ok (some candidate.toCandidateMeta)
  category : candidate.category = options.category
  active : isActiveMemoryStatus candidate.status = true

/-- The call returns, and merges only into an eligible candidate that the judge was shown. -/
def FailsClosed : Prop :=
  ∃ decision, decideSemanticMerge patterns options = .ok decision ∧
    ∀ targetId mergedContent targetContent, decision = .merge targetId mergedContent targetContent →
      ∃ hits candidates, lookUp options = .ok hits ∧ gather options [] hits = .ok candidates ∧
        ∃ candidate ∈ limited options candidates, Eligible options hits candidate ∧
          candidate.memoryId = targetId ∧ candidate.content = targetContent

/-- The resolver answers each of some calls, made after some others. -/
def Answers (asked : List JsString) : List JsString → Prop
  | [] => True
  | id :: ids => (∃ found, options.resolveCandidate asked id = .ok found) ∧ Answers (asked ++ [id]) ids

/-- The identifiers that the resolver is asked about, unless it throws. -/
def resolverCalls : List JsString :=
  match lookUp options with
  | .error _ => []
  | .ok hits => (hits.filterMap (neighbour options)).map Prod.fst

variable {patterns} {options} {hits : List (Option SemanticDedupHit)} {candidates shown : List MergeCandidate}
  {asked : List JsString}

variable {hit : Option SemanticDedupHit} {near : JsString × ℚ}

theorem gather_cons_ok_iff (known : neighbour options hit = some near) :
    gather options asked (hit :: hits) = .ok candidates ↔
      ∃ found, options.resolveCandidate asked near.1 = .ok found ∧
        ∃ others, gather options (asked ++ [near.1]) hits = .ok others ∧
          (candidateOf options near found).toList ++ others = candidates := by
  simp only [gather, known, bind_ok_iff]
  simp [Pure.pure, Except.pure]

theorem gather_ok_iff : (∃ candidates, gather options asked hits = .ok candidates) ↔
    Answers options asked ((hits.filterMap (neighbour options)).map Prod.fst) := by
  induction hits generalizing asked with
  | nil => simp [gather, Answers]
  | cons hit hits ih =>
    cases known : neighbour options hit with
    | none => simpa only [gather, known, filterMap_cons_none known] using ih
    | some near =>
      rw [filterMap_cons_some known, map_cons, Answers, ← ih]
      simp only [gather_cons_ok_iff known]
      constructor
      · rintro ⟨_, found, answer, others, rest, _⟩
        exact ⟨⟨found, answer⟩, others, rest⟩
      · rintro ⟨⟨found, answer⟩, others, rest⟩
        exact ⟨_, found, answer, others, rest, rfl⟩

theorem eligible_of_neighbour {found : Option CandidateMeta}
    {candidate : MergeCandidate} (known : neighbour options hit = some near)
    (answer : options.resolveCandidate asked near.1 = .ok found) (offered : candidateOf options near found = some candidate) :
    Eligible options (hit :: hits) candidate := by
  unfold neighbour at known
  split at known
  next id score sourceConnector =>
    split_ifs at known with passes
    cases known
    simp only [Bool.and_eq_true, decide_eq_true_eq] at passes
    cases found with
    | none => cases offered
    | some found =>
      rw [candidateOf] at offered
      split_ifs at offered with active
      cases offered
      simp only [Bool.and_eq_true, decide_eq_true_eq] at active
      exact ⟨⟨sourceConnector, mem_cons_self, passes.2⟩, passes.1.2, ⟨asked, answer⟩, active.1, active.2⟩
  next => cases known

theorem eligible_gather (gathered : gather options asked hits = .ok candidates) :
    ∀ candidate ∈ candidates, Eligible options hits candidate := by
  induction hits generalizing asked candidates with
  | nil =>
    cases gathered
    nofun
  | cons hit hits ih =>
    have later : ∀ candidate, Eligible options hits candidate → Eligible options (hit :: hits) candidate := by
      intro candidate eligible
      obtain ⟨sourceConnector, member, scope⟩ := eligible.hit
      exact { eligible with hit := ⟨sourceConnector, mem_cons_of_mem _ member, scope⟩ }
    cases known : neighbour options hit with
    | none =>
      rw [gather, known] at gathered
      exact fun candidate member => later candidate (ih gathered candidate member)
    | some near =>
      obtain ⟨found, answer, others, rest, rfl⟩ := (gather_cons_ok_iff known).mp gathered
      intro candidate member
      rcases mem_append.mp member with first | other
      · exact eligible_of_neighbour known answer (Option.mem_toList.mp first)
      · exact later candidate (ih rest candidate other)

theorem judged_merge {targetId mergedContent targetContent : JsString}
    (merges : judged patterns options shown = .merge targetId mergedContent targetContent) :
    ∃ candidate ∈ shown, candidate.memoryId = targetId ∧ candidate.content = targetContent := by
  unfold judged at merges
  split at merges
  · cases merges
  · cases merges
  · split_ifs at merges
    split at merges
    · cases merges
    next target found =>
      split at merges
      · cases merges
      · obtain ⟨_, _, found⟩ := Option.bind_eq_some_iff.mp found
        cases merges
        exact ⟨target, mem_of_find?_eq_some found, rfl, rfl⟩

theorem limited_subset (candidates : List MergeCandidate) : limited options candidates ⊆ candidates := by
  have sorted := (perm_insertionSort (fun a b => compareMergeCandidates a b = true) candidates).subset
  unfold limited sliceTo
  split
  · exact Subset.trans (take_subset _ _) sorted
  · exact sorted

theorem fails_closed_iff : FailsClosed patterns options ↔ Answers options [] (resolverCalls options) := by
  unfold FailsClosed decideSemanticMerge resolverCalls
  cases found : lookUp options with
  | error reason => exact iff_of_true ⟨_, rfl, nofun⟩ trivial
  | ok hits =>
    simp only [← gather_ok_iff]
    constructor
    · rintro ⟨decision, decided, _⟩
      obtain ⟨candidates, gathered, _⟩ := bind_ok_iff.mp decided
      exact ⟨candidates, gathered⟩
    · rintro ⟨candidates, gathered⟩
      rw [gathered]
      by_cases none : candidates.isEmpty = true
      · exact ⟨_, if_pos none, nofun⟩
      · refine ⟨_, if_neg none, fun targetId mergedContent targetContent merges => ?_⟩
        obtain ⟨candidate, member, same⟩ := judged_merge merges
        exact ⟨hits, candidates, rfl, gathered, candidate, member,
          eligible_gather gathered candidate (limited_subset candidates member), same⟩

end Decide

def sampleOptions (resolveCandidate : List JsString → JsString → Except Unit (Option CandidateMeta)) :
    DecideSemanticMergeOptions Unit where
  content := text "Tea at four."
  category := text "fact"
  lookup _ _ := .ok (some [some ⟨some (text "m1"), some (17 / 20), none⟩])
  judge _ _ _ := .ok (some ⟨text "merge", some (text "m1"), some (text "Tea at four or five.")⟩)
  config := ⟨true, .finite (4 / 5), .finite 3, [text "fact"]⟩
  dedupThreshold := .finite (23 / 25)
  resolveCandidate := resolveCandidate
  sourceConnector := none

/-- A resolver that throws makes the decision throw. -/
theorem throwing_resolver_escapes : decideSemanticMerge [] (sampleOptions fun _ _ => .error ()) = .error () ∧
    ¬ FailsClosed [] (sampleOptions fun _ _ => .error ()) := by
  have thrown : decideSemanticMerge [] (sampleOptions fun _ _ => .error ()) = .error () := by decide +kernel
  refine ⟨thrown, ?_⟩
  rintro ⟨decision, decided, _⟩
  rw [thrown] at decided
  cases decided

example : decideSemanticMerge [] (sampleOptions fun _ _ => .ok (some ⟨text "Tea at five.", text "fact", none⟩)) =
    .ok (.merge (text "m1") (text "Tea at four or five.") (text "Tea at five.")) := by
  decide +kernel

end Remnic.Memory.SemanticMerge
