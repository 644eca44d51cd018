import Remnic.Reconcile.Manifest

/-!
What the collapse of one namespace does: which facts each hash matches, and
which entries leave the plan for which hash.
-/

namespace Remnic.Reconcile.Collapse
open Remnic.Text.CodeUnits Remnic.Library Remnic.Library.GuardedFold
open List hiding isEmpty_iff
open Remnic.Reconcile.Census Remnic.Reconcile.Plan Remnic.Reconcile.PlanResult Remnic.Reconcile.Manifest

variable {path : JsString} {files : List ActiveFactManifestFile} {fact : ActiveFactManifestFile}
  (manifest : Option ReconcileManifest) (oppositeFiles : OrderedMap JsString ReconcileManifestFile) (hash : JsString)
  (oppositeByPath : OrderedMap JsString ActiveFactManifestFile)

theorem activeFact_path {file : ReconcileManifestFile} (active : activeFact file = some fact) :
    fact.path = file.path ∧ fact.sha256 = file.sha256 ∧ file.memory = some fact.memory := by
  unfold activeFact at active
  cases held : file.memory with
  | none => simp [held] at active
  | some memory =>
    simp only [held] at active
    split_ifs at active
    cases active
    exact ⟨rfl, rfl, rfl⟩

/-- Every fact of the index is an active fact among the manifest's files, under its own path. -/
theorem activeFactByPath_lookup {manifest : Option ReconcileManifest}
    (found : (activeFactByPath manifest).lookup path = some fact) :
    fact.path = path ∧ ∃ file ∈ manifestFiles manifest, activeFact file = some fact := by
  refine foldl_tracks _ (fun done (result : OrderedMap JsString ActiveFactManifestFile) =>
    ∀ path fact, result.lookup path = some fact → fact.path = path ∧ ∃ file ∈ done, activeFact file = some fact) ?_
      (manifestFiles manifest) [] OrderedMap.empty (by simp) path fact found
  intro done result file known path fact held
  cases active : activeFact file with
  | none =>
    simp only [active] at held
    obtain ⟨place, earlier, member, same⟩ := known path fact held
    exact ⟨place, earlier, mem_append_left _ member, same⟩
  | some current =>
    simp only [active, OrderedMap.lookup_set] at held
    split_ifs at held with here
    · cases held
      exact ⟨(activeFact_path active).1.trans here.symm, file, by simp, active⟩
    · obtain ⟨place, earlier, member, same⟩ := known path fact held
      exact ⟨place, earlier, mem_append_left _ member, same⟩

theorem filesByPath_contains (path : JsString) :
    (filesByPath manifest).contains path = true ↔ path ∈ (manifestFiles manifest).map ReconcileManifestFile.path := by
  have tracked := foldl_tracks
    (fun (result : OrderedMap JsString ReconcileManifestFile) file => result.set file.path file)
    (fun done result => ∀ path, result.contains path = true ↔ path ∈ done.map ReconcileManifestFile.path)
    (by
      intro done result file known path
      simp only [OrderedMap.contains] at known ⊢
      rw [OrderedMap.lookup_set, map_append, mem_append, ← known]
      by_cases here : path = file.path
      · simp [here]
      · simp [here])
    (manifestFiles manifest) [] .empty (by simp [OrderedMap.contains])
  exact tracked path

theorem mem_bucketByHash (byPath : OrderedMap JsString ActiveFactManifestFile) (hash : JsString)
    (file : ActiveFactManifestFile) :
    file ∈ ((bucketByHash byPath).lookup hash).getD [] ↔
      (∃ path, byPath.lookup path = some file) ∧ hash ∈ memoryIdentityHashes file.memory := by
  have inner : ∀ (current : ActiveFactManifestFile) (buckets : HashBuckets) (hash : JsString),
      file ∈ ((bucketRound buckets current).lookup hash).getD [] ↔
        file ∈ (buckets.lookup hash).getD [] ∨ file = current ∧ hash ∈ memoryIdentityHashes current.memory := by
    intro current buckets hash
    have tracked := foldl_tracks
      (fun (buckets : HashBuckets) hash => buckets.set hash (((buckets.lookup hash).getD []) ++ [current]))
      (fun done result => ∀ hash, file ∈ (result.lookup hash).getD [] ↔
        file ∈ (buckets.lookup hash).getD [] ∨ file = current ∧ hash ∈ done)
      (by
        intro done result added known hash
        rw [OrderedMap.lookup_set]
        by_cases here : hash = added
        · simp only [here, if_true, Option.getD_some, mem_append, mem_singleton, known added, or_true,
            and_true]
          tauto
        · simp only [here, if_false, known hash, mem_append, mem_singleton, or_false])
      (memoryIdentityHashes current.memory) [] buckets (by simp)
    exact tracked hash
  have outer := foldl_tracks bucketRound
    (fun done result => ∀ hash, file ∈ (result.lookup hash).getD [] ↔
      file ∈ done ∧ hash ∈ memoryIdentityHashes file.memory)
    (by
      intro done result current known hash
      rw [inner, known, mem_append, mem_singleton]
      constructor
      · rintro (⟨member, carried⟩ | ⟨rfl, carried⟩)
        · exact ⟨Or.inl member, carried⟩
        · exact ⟨Or.inr rfl, carried⟩
      · rintro ⟨member | rfl, carried⟩
        · exact Or.inl ⟨member, carried⟩
        · exact Or.inr ⟨rfl, carried⟩)
    (byPath.entries.map Prod.snd) [] .empty (by simp)
  rw [bucketByHash, outer hash, nil_append, OrderedMap.mem_values_iff]

/-- The canonical path so far: one of the paths, and below every path that is not empty. -/
def LeastPath (files : List ActiveFactManifestFile) (canonical : Option JsString) : Prop :=
  (∀ path, canonical = some path → path ∈ files.map ActiveFactManifestFile.path) ∧
    ∀ file ∈ files, file.path ≠ [] → ∃ path, canonical = some path ∧ path ≤ file.path

private theorem leastPath_snoc {canonical next : Option JsString} {file : ActiveFactManifestFile}
    (known : LeastPath files canonical) (listed : ∀ path, next = some path → canonical = some path ∨ path = file.path)
    (lower : ∀ path, canonical = some path → ∃ below, next = some below ∧ below ≤ path)
    (least : file.path ≠ [] → ∃ path, next = some path ∧ path ≤ file.path) : LeastPath (files ++ [file]) next := by
  constructor
  · intro path same
    rw [map_append]
    rcases listed path same with old | rfl
    · exact mem_append_left _ (known.1 path old)
    · simp
  · intro earlier member named
    rcases mem_append.mp member with member | member
    · obtain ⟨path, same, before⟩ := known.2 earlier member named
      obtain ⟨below, found, order⟩ := lower path same
      exact ⟨below, found, order.trans before⟩
    · rw [mem_singleton.mp member] at named ⊢
      exact least named

private theorem resolveRound_leastPath (files : List ActiveFactManifestFile) (canonical : Option JsString)
    (file : ActiveFactManifestFile) (known : LeastPath files canonical) :
    LeastPath (files ++ [file]) (resolveRound (asciiLower hash) canonical ⟨file.path, hash⟩) := by
  unfold resolveRound
  by_cases empty : file.path = []
  · rw [if_pos (Or.inr empty)]
    exact leastPath_snoc known (fun _ same => Or.inl same) (fun path same => ⟨path, same, le_rfl⟩)
      (fun named => absurd empty named)
  · rw [if_neg (by simp [empty])]
    cases canonical with
    | none =>
      exact leastPath_snoc known (fun path same => Or.inr (Option.some.inj same).symm) (by simp)
        (fun _ => ⟨file.path, rfl, le_rfl⟩)
    | some held =>
      dsimp only
      split_ifs with lower
      · refine leastPath_snoc known (fun path same => Or.inr (Option.some.inj same).symm) ?_
          (fun _ => ⟨file.path, rfl, le_rfl⟩)
        intro path same
        cases same
        exact ⟨file.path, rfl, lower.le⟩
      · exact leastPath_snoc known (fun _ same => Or.inl same) (fun path same => ⟨path, same, le_rfl⟩)
          (fun _ => ⟨held, rfl, not_lt.mp lower⟩)

private theorem resolve_leastPath (files : List ActiveFactManifestFile) :
    LeastPath files ((contentHashRows files hash).foldl (resolveRound (asciiLower hash)) none) := by
  rw [contentHashRows, foldl_map]
  exact foldl_tracks _ LeastPath (resolveRound_leastPath hash) files [] none (by simp [LeastPath])

theorem resolvePathByHash_eq_some {hash : JsString} (resolved : resolvePathByHash hash (contentHashRows files hash) = some path) :
    isSha256Hex (asciiLower hash) = true ∧ path ∈ files.map ActiveFactManifestFile.path ∧
      ∀ file ∈ files, file.path ≠ [] → path ≤ file.path := by
  unfold resolvePathByHash at resolved
  split_ifs at resolved with digest
  have least := resolve_leastPath hash files
  rw [resolved] at least
  refine ⟨digest, least.1 path rfl, ?_⟩
  intro file member named
  obtain ⟨found, same, before⟩ := least.2 file member named
  cases same
  exact before

theorem resolvePathByHash_resolves {hash : JsString} (digest : isSha256Hex (asciiLower hash) = true)
    {file : ActiveFactManifestFile} (member : file ∈ files) (named : file.path ≠ []) :
    ∃ path, resolvePathByHash hash (contentHashRows files hash) = some path := by
  obtain ⟨path, same, _⟩ := (resolve_leastPath hash files).2 file member named
  exact ⟨path, by rw [resolvePathByHash, if_pos digest, same]⟩

theorem mem_hashCandidates (hash : JsString) (file : ActiveFactManifestFile) :
    file ∈ hashCandidates (bucketByHash (activeFactByPath manifest)) oppositeFiles oppositeByPath hash ↔
      (activeFactByPath manifest).lookup file.path = some file ∧ hash ∈ memoryIdentityHashes file.memory ∧
        (oppositeFiles.lookup file.path = none ∨
          ∃ opposite, oppositeByPath.lookup file.path = some opposite ∧
            hash ∈ memoryIdentityHashes opposite.memory) := by
  have byPath : (∃ path, (activeFactByPath manifest).lookup path = some file) ↔
      (activeFactByPath manifest).lookup file.path = some file := by
    constructor
    · rintro ⟨path, found⟩
      rw [(activeFactByPath_lookup found).1]
      exact found
    · exact fun found => ⟨file.path, found⟩
  rw [hashCandidates, mem_filter, mem_bucketByHash, byPath, and_assoc]
  simp only [Bool.or_eq_true, Option.isNone_iff_eq_none, Option.any_eq_true, contains_iff_mem]

structure Indexed (maps : CollapseMaps) : Prop where
  localFact : ∀ hash path, maps.localPath hash = some path → ∃ fact, maps.localByPath.lookup path = some fact
  peerFact : ∀ hash path, maps.peerPath hash = some path → ∃ fact, maps.peerByPath.lookup path = some fact

private theorem resolved_fact (hash path : JsString)
    (resolved : resolvePathByHash hash (contentHashRows
      (hashCandidates (bucketByHash (activeFactByPath manifest)) oppositeFiles oppositeByPath hash) hash) = some path) :
    ∃ fact, (activeFactByPath manifest).lookup path = some fact := by
  obtain ⟨_, listed, _⟩ := resolvePathByHash_eq_some resolved
  obtain ⟨fact, member, rfl⟩ := mem_map.mp listed
  exact ⟨fact, ((mem_hashCandidates _ _ _ _ _).mp member).1⟩

theorem collapseMaps_indexed (localManifest peerManifest : Option ReconcileManifest)
    (prior : List ReconcileSemanticAgreement) : Indexed (collapseMaps localManifest peerManifest prior) :=
  ⟨resolved_fact localManifest _ _, resolved_fact peerManifest _ _⟩

/-- The pair of canonical paths of a hash, where the two sides keep it under different paths. -/
def pairKey (maps : CollapseMaps) (hash : JsString) : Option JsString :=
  match maps.localPath hash, maps.peerPath hash with
  | some localPath, some peerPath => if localPath ≠ peerPath then some (pathPair localPath peerPath) else none
  | _, _ => none

/-- The first hash of the loop with its pair of canonical paths. -/
def OpensPair (maps : CollapseMaps) (hashes : List JsString) (hash : JsString) : Prop :=
  (pairKey maps hash).isSome = true ∧
    hashes.find? (fun other => pairKey maps other = pairKey maps hash) = some hash

instance (maps : CollapseMaps) (hashes : List JsString) (hash : JsString) : Decidable (OpensPair maps hashes hash) :=
  inferInstanceAs (Decidable (_ ∧ _))

/-- The branches that act on a pair: an authoritative entry, or nothing unsafe. -/
def ActsOnPair (maps : CollapseMaps) (entries : List ReconcilePlanEntry) (hash : JsString) : Prop :=
  entries.any (maps.isAuthoritative hash) = true ∨ entries.any (maps.isUnsafe hash) = false

instance (maps : CollapseMaps) (entries : List ReconcilePlanEntry) (hash : JsString) :
    Decidable (ActsOnPair maps entries hash) := inferInstanceAs (Decidable (_ ∨ _))

def PairRemoves (maps : CollapseMaps) (entries : List ReconcilePlanEntry) (hash : JsString)
    (entry : ReconcilePlanEntry) : Prop :=
  entry ∈ entries ∧ ActsOnPair maps entries hash ∧ maps.isRemovable hash entry = true ∧
    maps.isAuthoritative hash entry = false

/-- A same-side entry beside the canonical path of its hash. -/
def SameSideRemoves (maps : CollapseMaps) (entries : List ReconcilePlanEntry) (hash : JsString)
    (entry : ReconcilePlanEntry) : Prop :=
  entry ∈ entries ∧ maps.isSameSide hash entry = true ∧
    ∃ canonicalPath, (maps.localPath hash).or (maps.peerPath hash) = some canonicalPath ∧ entry.path ≠ canonicalPath ∧
      ((maps.localPath hash).isSome = true ∧ maps.localPath hash = maps.peerPath hash ∨
        2 ≤ (entries.filter (maps.isSameSide hash)).length)

theorem sameSide_reason {maps : CollapseMaps} {hash : JsString} {entry : ReconcilePlanEntry}
    (sameSide : maps.isSameSide hash entry = true) : entry.reason = .localOnly ∨ entry.reason = .peerOnly := by
  unfold CollapseMaps.isSameSide at sameSide
  split_ifs at sameSide with here there
  · rw [Bool.and_eq_true, decide_eq_true_eq] at here
    exact Or.inl here.2
  · rw [Bool.and_eq_true, decide_eq_true_eq] at there
    exact Or.inr there.2

structure PassTracks (maps : CollapseMaps) (entries : List ReconcilePlanEntry) (nameSpace : JsString)
    (done : List JsString) (pass : CollapsePass) : Prop where
  processed : ∀ pair, pair ∈ pass.processedPathPairs ↔ ∃ hash ∈ done, pairKey maps hash = some pair
  removed : ∀ entry, entry ∈ pass.removed ↔ ∃ hash ∈ done,
    OpensPair maps done hash ∧ PairRemoves maps entries hash entry ∨
      pairKey maps hash = none ∧ SameSideRemoves maps entries hash entry
  replaced : ∀ entry ∈ pass.replacements, entry.nameSpace = nameSpace ∧ entry.action = .identical ∧
    entry.semanticAgreement.isSome = true

section Pass

variable {maps : CollapseMaps} {entries : List ReconcilePlanEntry} {nameSpace : JsString} {done : List JsString}
  {pass : CollapsePass}

variable (hash : JsString) (entry : ReconcilePlanEntry)

private theorem opensPair_snoc (other : JsString) :
    (other ∈ done ++ [hash] ∧ OpensPair maps (done ++ [hash]) other) ↔
      (other ∈ done ∧ OpensPair maps done other) ∨
        (other = hash ∧ (pairKey maps hash).isSome = true ∧
          ∀ earlier ∈ done, pairKey maps earlier ≠ pairKey maps hash) := by
  unfold OpensPair
  rw [List.find?_append]
  cases found : done.find? (fun earlier => pairKey maps earlier = pairKey maps other) with
  | some first =>
    have member := mem_of_find?_eq_some found
    have sameKey : pairKey maps first = pairKey maps other := by simpa using List.find?_some found
    simp only [Option.some_or, Option.some.injEq]
    constructor
    · rintro ⟨_, keyed, rfl⟩
      exact Or.inl ⟨member, keyed, rfl⟩
    · rintro (⟨listed, keyed, rfl⟩ | ⟨rfl, _, fresh⟩)
      · exact ⟨mem_append_left _ member, keyed, rfl⟩
      · exact absurd sameKey (fresh first member)
  | none =>
    rw [List.find?_eq_none] at found
    simp only [decide_eq_true_eq] at found
    constructor
    · rintro ⟨listed, keyed, here⟩
      rcases mem_append.mp listed with earlier | last
      · exact absurd rfl (found other earlier)
      · have same := mem_singleton.mp last
        subst same
        exact Or.inr ⟨rfl, keyed, found⟩
    · rintro (⟨earlier, _, impossible⟩ | ⟨rfl, keyed, _⟩)
      · cases impossible
      · exact ⟨by simp, keyed, by simp⟩

private theorem filter_authoritative :
    entries.filter (maps.isAuthoritative hash) = [] ↔ entries.any (maps.isAuthoritative hash) = false := by
  rw [filter_eq_nil_iff, any_eq_false]

private theorem mem_pairRemoved (authoritative : entries.any (maps.isAuthoritative hash) = true) :
    entry ∈ entries.filter (fun entry => maps.isRemovable hash entry &&
        !(entries.filter (maps.isAuthoritative hash)).contains entry) ↔ PairRemoves maps entries hash entry := by
  simp only [mem_filter, Bool.and_eq_true, Bool.not_eq_true', ← Bool.not_eq_true, contains_iff_mem,
    PairRemoves, ActsOnPair, authoritative, true_or, true_and]
  tauto

private theorem mem_plainRemoved (plain : entries.any (maps.isAuthoritative hash) = false)
    (safe : entries.any (maps.isUnsafe hash) = false) :
    entry ∈ entries.filter (maps.isRemovable hash) ↔ PairRemoves maps entries hash entry := by
  rw [mem_filter, PairRemoves, ActsOnPair]
  constructor
  · rintro ⟨member, removable⟩
    exact ⟨member, Or.inr safe, removable, by simpa using any_eq_false.mp plain entry member⟩
  · rintro ⟨member, _, removable, _⟩
    exact ⟨member, removable⟩

variable (nameSpace entries) in
private theorem collapsePair_round (indexed : Indexed maps) {hash localPath peerPath : JsString}
    (atLocal : maps.localPath hash = some localPath) (atPeer : maps.peerPath hash = some peerPath)
    (fresh : pathPair localPath peerPath ∉ pass.processedPathPairs) :
    ∃ removed replaced, collapsePair nameSpace maps entries pass hash localPath peerPath =
        ⟨pass.removed ++ removed, pass.replacements ++ replaced, pathPair localPath peerPath :: pass.processedPathPairs⟩ ∧
      (∀ entry, entry ∈ removed ↔ PairRemoves maps entries hash entry) ∧
      ∀ entry ∈ replaced, entry.nameSpace = nameSpace ∧ entry.action = .identical ∧
        entry.semanticAgreement.isSome = true := by
  obtain ⟨localFile, localHeld⟩ := indexed.localFact hash localPath atLocal
  obtain ⟨peerFile, peerHeld⟩ := indexed.peerFact hash peerPath atPeer
  have unseen : pass.processedPathPairs.contains (pathPair localPath peerPath) = false := by
    simpa using fresh
  unfold collapsePair
  simp only [unseen, Bool.false_eq_true, if_false, localHeld, peerHeld]
  rcases Bool.eq_false_or_eq_true (entries.any (maps.isAuthoritative hash)) with authoritative | plain
  · have nonempty : entries.filter (maps.isAuthoritative hash) ≠ [] := by
      rw [Ne, filter_authoritative, authoritative]
      decide
    rw [if_pos nonempty]
    exact ⟨_, [], by rw [append_nil], fun entry => mem_pairRemoved hash entry authoritative, by simp⟩
  · rw [if_neg (not_not.mpr ((filter_authoritative hash).mpr plain))]
    rcases Bool.eq_false_or_eq_true (entries.any (maps.isUnsafe hash)) with unsafeEntry | safe
    · rw [if_pos unsafeEntry]
      refine ⟨[], [], by rw [append_nil, append_nil], fun entry => ?_, by simp⟩
      simp [PairRemoves, ActsOnPair, plain, unsafeEntry]
    · rw [if_neg (by simp [safe])]
      refine ⟨_, _, rfl, fun entry => mem_plainRemoved hash entry plain safe, ?_⟩
      intro entry member
      rw [mem_singleton.mp member]
      exact ⟨rfl, rfl, rfl⟩

variable (maps entries pass) in
private theorem collapseSameSide_round :
    ∃ removed, collapseSameSide maps entries pass hash = { pass with removed := pass.removed ++ removed } ∧
      ∀ entry, entry ∈ removed ↔ SameSideRemoves maps entries hash entry := by
  unfold collapseSameSide SameSideRemoves
  have shared : ((maps.localPath hash).isSome && decide (maps.localPath hash = maps.peerPath hash)) = true ↔
      (maps.localPath hash).isSome = true ∧ maps.localPath hash = maps.peerPath hash := by simp
  cases canonical : (maps.localPath hash).or (maps.peerPath hash) with
  | none =>
    simp only [canonical]
    exact ⟨[], by rw [append_nil], by simp⟩
  | some canonicalPath =>
    simp only [canonical]
    split_ifs with few
    · refine ⟨[], by rw [append_nil], fun entry => ?_⟩
      simp only [not_mem_nil, false_iff]
      rintro ⟨member, sameSide, _, _, _, enough⟩
      have listed : entry ∈ entries.filter (maps.isSameSide hash) := mem_filter.mpr ⟨member, sameSide⟩
      have positive := length_pos_of_mem listed
      rw [Bool.or_eq_true, Bool.and_eq_true, decide_eq_true_eq, decide_eq_true_eq] at few
      rcases few with none | ⟨apart, few⟩
      · omega
      · rcases enough with held | many
        · rw [shared.mpr held] at apart
          cases apart
        · omega
    · refine ⟨_, rfl, fun entry => ?_⟩
      rw [mem_filter, mem_filter, decide_eq_true_eq]
      rw [Bool.or_eq_true, Bool.and_eq_true, decide_eq_true_eq, decide_eq_true_eq, not_or, not_and, not_lt] at few
      constructor
      · rintro ⟨⟨member, sameSide⟩, apart⟩
        refine ⟨member, sameSide, canonicalPath, rfl, apart, ?_⟩
        rw [← shared]
        cases known : (maps.localPath hash).isSome && decide (maps.localPath hash = maps.peerPath hash) with
        | true => exact Or.inl rfl
        | false => exact Or.inr (few.2 (by rw [known]; rfl))
      · rintro ⟨member, sameSide, path, same, apart, _⟩
        cases same
        exact ⟨⟨member, sameSide⟩, apart⟩

private theorem mem_done_pair {hash : JsString} (known : PassTracks maps entries nameSpace done pass) {pair : JsString}
    (keyed : pairKey maps hash = some pair) :
    pair ∈ pass.processedPathPairs ↔ ¬ ∀ earlier ∈ done, pairKey maps earlier ≠ pairKey maps hash := by
  rw [known.processed, keyed]
  push Not
  rfl

/-- A round that removes the entries of its own hash keeps the collections in step. -/
private theorem passTracks_snoc {hash : JsString} {next : CollapsePass}
    (known : PassTracks maps entries nameSpace done pass)
    (processed : ∀ pair, pair ∈ next.processedPathPairs ↔
      pair ∈ pass.processedPathPairs ∨ pairKey maps hash = some pair)
    (removed : ∀ entry, entry ∈ next.removed ↔ entry ∈ pass.removed ∨
      ((pairKey maps hash).isSome = true ∧ ∀ earlier ∈ done, pairKey maps earlier ≠ pairKey maps hash) ∧
        PairRemoves maps entries hash entry ∨
      pairKey maps hash = none ∧ SameSideRemoves maps entries hash entry)
    (replaced : ∀ entry ∈ next.replacements, entry.nameSpace = nameSpace ∧ entry.action = .identical ∧
      entry.semanticAgreement.isSome = true) :
    PassTracks maps entries nameSpace (done ++ [hash]) next := by
  refine ⟨fun pair => ?_, fun entry => ?_, replaced⟩
  · simp only [processed, known.processed, mem_append, mem_singleton, or_and_right, exists_or,
      exists_eq_left]
  · rw [removed, known.removed]
    constructor
    · rintro (⟨other, member, ⟨opens, removes⟩ | sameSide⟩ | ⟨fresh, removes⟩ | sameSide)
      · obtain ⟨listed, later⟩ := (opensPair_snoc hash other).mpr (Or.inl ⟨member, opens⟩)
        exact ⟨other, listed, Or.inl ⟨later, removes⟩⟩
      · exact ⟨other, mem_append_left _ member, Or.inr sameSide⟩
      · obtain ⟨listed, later⟩ := (opensPair_snoc hash hash).mpr (Or.inr ⟨rfl, fresh⟩)
        exact ⟨hash, listed, Or.inl ⟨later, removes⟩⟩
      · exact ⟨hash, by simp, Or.inr sameSide⟩
    · rintro ⟨other, listed, ⟨later, removes⟩ | sameSide⟩
      · rcases (opensPair_snoc hash other).mp ⟨listed, later⟩ with ⟨member, opens⟩ | ⟨rfl, fresh⟩
        · exact Or.inl ⟨other, member, Or.inl ⟨opens, removes⟩⟩
        · exact Or.inr (Or.inl ⟨fresh, removes⟩)
      · rcases mem_append.mp listed with member | last
        · exact Or.inl ⟨other, member, Or.inr sameSide⟩
        · rw [mem_singleton.mp last] at sameSide
          exact Or.inr (Or.inr sameSide)

theorem collapseRound_tracks (indexed : Indexed maps) (hash : JsString)
    (known : PassTracks maps entries nameSpace done pass) :
    PassTracks maps entries nameSpace (done ++ [hash]) (collapseRound nameSpace maps entries pass hash) := by
  cases keyed : pairKey maps hash with
  | none =>
    have branch : collapseRound nameSpace maps entries pass hash = collapseSameSide maps entries pass hash := by
      unfold pairKey at keyed
      unfold collapseRound
      cases atLocal : maps.localPath hash with
      | none => rfl
      | some localPath =>
        cases atPeer : maps.peerPath hash with
        | none => rfl
        | some peerPath =>
          simp only [atLocal, atPeer] at keyed ⊢
          split_ifs at keyed ⊢ with apart
          rfl
    obtain ⟨removed, same, members⟩ := collapseSameSide_round maps entries pass hash
    rw [branch, same]
    refine passTracks_snoc known (fun pair => by simp [keyed]) (fun entry => ?_) known.replaced
    simp [members, keyed]
  | some pair =>
    obtain ⟨localPath, peerPath, atLocal, atPeer, apart, rfl⟩ : ∃ localPath peerPath,
        maps.localPath hash = some localPath ∧ maps.peerPath hash = some peerPath ∧ localPath ≠ peerPath ∧
          pair = pathPair localPath peerPath := by
      unfold pairKey at keyed
      split at keyed
      · split_ifs at keyed with apart
        exact ⟨_, _, by assumption, by assumption, apart, (Option.some.inj keyed).symm⟩
      · cases keyed
    have branch : collapseRound nameSpace maps entries pass hash =
        collapsePair nameSpace maps entries pass hash localPath peerPath := by
      simp only [collapseRound, atLocal, atPeer, ne_eq, apart, not_false_eq_true, if_true]
    have keyedSome : (pairKey maps hash).isSome = true := by rw [keyed, Option.isSome_some]
    have keyedNone : ¬ pairKey maps hash = none := by rw [keyed]; exact Option.some_ne_none _
    rw [branch]
    by_cases seen : pathPair localPath peerPath ∈ pass.processedPathPairs
    · have unchanged : collapsePair nameSpace maps entries pass hash localPath peerPath = pass := by
        simp [collapsePair, seen]
      rw [unchanged]
      have stale := (mem_done_pair known keyed).mp seen
      refine passTracks_snoc known (fun other => ?_) (fun entry => ?_) known.replaced
      · rw [keyed, Option.some.injEq]
        exact ⟨Or.inl, fun held => held.elim id (fun same => same ▸ seen)⟩
      · simp only [stale, false_and, and_false, keyedNone, or_false]
    · obtain ⟨removed, replaced, same, members, placed⟩ :=
        collapsePair_round entries nameSpace indexed atLocal atPeer seen
      rw [same]
      have fresh := And.intro keyedSome (not_not.mp (mt (mem_done_pair known keyed).mpr seen))
      refine passTracks_snoc known (fun other => ?_) (fun entry => ?_) ?_
      · rw [keyed, Option.some.injEq, mem_cons, or_comm, eq_comm]
      · rw [mem_append, members, and_iff_right fresh]
        simp only [keyedNone, false_and, or_false]
      · intro entry member
        rcases mem_append.mp member with old | new
        · exact known.replaced entry old
        · exact placed entry new

end Pass

theorem collapsePass_tracks {maps : CollapseMaps} (indexed : Indexed maps) (entries : List ReconcilePlanEntry)
    (nameSpace : JsString) :
    PassTracks maps entries nameSpace maps.hashes (collapsePass nameSpace maps entries) := by
  have start : PassTracks maps entries nameSpace [] ⟨[], [], []⟩ := ⟨by simp, by simp, by simp⟩
  exact foldl_tracks _ (PassTracks maps entries nameSpace)
    (fun done pass hash known => collapseRound_tracks indexed hash known) maps.hashes [] ⟨[], [], []⟩ start

theorem groupByNamespace_lookup (entries : List ReconcilePlanEntry) (nameSpace : JsString) :
    ((groupByNamespace entries).lookup nameSpace).getD [] = ofNamespace nameSpace entries := by
  have tracked := foldl_tracks
    (fun (groups : EntriesByNamespace) entry =>
      groups.set entry.nameSpace (((groups.lookup entry.nameSpace).getD []) ++ [entry]))
    (fun done groups => ∀ nameSpace, (groups.lookup nameSpace).getD [] = ofNamespace nameSpace done)
    (by
      intro done groups entry known nameSpace
      rw [OrderedMap.lookup_set, ofNamespace, filter_append]
      by_cases here : nameSpace = entry.nameSpace
      · subst here
        rw [if_pos rfl, Option.getD_some, known, ofNamespace]
        simp
      · rw [if_neg here, known, ofNamespace, filter_cons_of_neg (by simpa using Ne.symm here)]
        simp)
    entries [] .empty (by simp [ofNamespace])
  exact tracked nameSpace

def Grouped (groups : EntriesByNamespace) : Prop :=
  ∀ nameSpace, ∀ entry ∈ (groups.lookup nameSpace).getD [], entry.nameSpace = nameSpace

theorem ofNamespace_flat (groups : EntriesByNamespace) (grouped : Grouped groups) (nameSpace : JsString) :
    ofNamespace nameSpace (groups.entries.flatMap Prod.snd) = (groups.lookup nameSpace).getD [] := by
  obtain ⟨rows, distinct⟩ := groups
  have own : ∀ row ∈ rows, ∀ entry ∈ row.2, entry.nameSpace = row.1 := by
    intro row member entry listed
    apply grouped row.1 entry
    rw [(OrderedMap.lookup_eq_some_iff ⟨rows, distinct⟩ row.1 row.2).mpr member]
    exact listed
  clear grouped
  induction rows with
  | nil => rfl
  | cons row rows ih =>
    have parts := nodup_cons.mp distinct
    rw [flatMap_cons, ofNamespace, filter_append]
    have rest := ih parts.2 (fun later member => own later (mem_cons_of_mem _ member))
    by_cases here : row.1 = nameSpace
    · have kept : row.2.filter (fun entry => entry.nameSpace = nameSpace) = row.2 :=
        filter_eq_self.mpr (fun entry listed => by simpa [here] using own row (by simp) entry listed)
      have gone : (OrderedMap.mk rows parts.2).lookup nameSpace = none := by
        rw [OrderedMap.lookup_eq_none_iff, ← here]
        exact parts.1
      rw [ofNamespace, gone] at rest
      rw [kept, rest]
      simp [OrderedMap.lookup, here]
    · have kept : row.2.filter (fun entry => entry.nameSpace = nameSpace) = [] :=
        filter_eq_nil_iff.mpr (fun entry listed => by simpa [own row (by simp) entry listed] using here)
      rw [ofNamespace] at rest
      rw [kept, rest]
      simp [OrderedMap.lookup, here]

private theorem nodup_eraseDups (names : List JsString) : names.eraseDups.Nodup := by
  induction size : names.length using Nat.strong_induction_on generalizing names with
  | _ length ih =>
    cases names with
    | nil => simp
    | cons name names =>
      rw [eraseDups_cons, nodup_cons, mem_eraseDups]
      refine ⟨by simp, ih _ ?_ _ rfl⟩
      rw [← size]
      exact Nat.lt_succ_of_le (length_filter_le _ _)

/-- The entries a namespace is left with: sorted anew only where something changed. -/
def collapsedEntries (pass : CollapsePass) (entries : List ReconcilePlanEntry) : List ReconcilePlanEntry :=
  if pass.changed then pass.apply entries else entries

theorem collapsedEntries_perm {pass : CollapsePass} {entries : List ReconcilePlanEntry} :
    (collapsedEntries pass entries).Perm
      (entries.filter (fun entry => !pass.removed.contains entry) ++ pass.replacements) := by
  unfold collapsedEntries
  split_ifs with changed
  · exact perm_insertionSort EntryLe _
  · simp only [CollapsePass.changed, Bool.or_eq_true, Bool.not_eq_true', not_or, Bool.not_eq_false,
      List.isEmpty_iff] at changed
    simp [changed.1, changed.2]

section Namespaces

variable (localManifests peerManifests : OrderedMap JsString ReconcileManifest)
  (prior : OrderedMap JsString (List ReconcileSemanticAgreement)) (plan : ReconcilePlan)

def namespacePass (nameSpace : JsString) : CollapsePass :=
  collapsePass nameSpace (namespaceMaps localManifests peerManifests prior nameSpace)
    (ofNamespace nameSpace plan.entries)

private theorem namespacePass_bare (nameSpace : JsString)
    (absent : nameSpace ∉ (localManifests.keys ++ peerManifests.keys).eraseDups) :
    namespacePass localManifests peerManifests prior plan nameSpace = ⟨[], [], []⟩ := by
  rw [mem_eraseDups, mem_append, not_or, ← OrderedMap.lookup_eq_none_iff,
    ← OrderedMap.lookup_eq_none_iff] at absent
  rw [namespacePass, namespaceMaps, absent.1, absent.2]
  rfl

/-- The groups after the namespaces seen so far, and whether one of them changed. -/
private structure NamespacesTrack (done : List JsString) (pass : NamespacePass) : Prop where
  groups : ∀ nameSpace, (pass.entriesByNamespace.lookup nameSpace).getD [] =
    if nameSpace ∈ done then
      collapsedEntries (namespacePass localManifests peerManifests prior plan nameSpace)
        (ofNamespace nameSpace plan.entries)
    else ofNamespace nameSpace plan.entries
  unchanged : pass.changed = false → ∀ nameSpace ∈ done,
    (namespacePass localManifests peerManifests prior plan nameSpace).changed = false

private theorem namespaceRound_tracks (done : List JsString) (pass : NamespacePass) (nameSpace : JsString)
    (fresh : nameSpace ∉ done) (known : NamespacesTrack localManifests peerManifests prior plan done pass) :
    NamespacesTrack localManifests peerManifests prior plan (done ++ [nameSpace])
      (namespaceRound localManifests peerManifests prior pass nameSpace) := by
  have current : (pass.entriesByNamespace.lookup nameSpace).getD [] = ofNamespace nameSpace plan.entries := by
    rw [known.groups, if_neg fresh]
  have here : collapsePass nameSpace (namespaceMaps localManifests peerManifests prior nameSpace)
      (ofNamespace nameSpace plan.entries) = namespacePass localManifests peerManifests prior plan nameSpace := rfl
  unfold namespaceRound
  simp only [current, here]
  split_ifs with changed
  · refine ⟨fun other => ?_, fun impossible => by cases impossible⟩
    rw [OrderedMap.lookup_set]
    by_cases same : other = nameSpace
    · subst same
      rw [if_pos rfl, if_pos (by simp), Option.getD_some, collapsedEntries, if_pos changed]
    · rw [if_neg same, known.groups]
      simp only [mem_append, mem_singleton, same, or_false]
  · rw [Bool.not_eq_true] at changed
    refine ⟨fun other => ?_, fun still other listed => ?_⟩
    · rw [known.groups]
      by_cases same : other = nameSpace
      · subst same
        rw [if_neg fresh, if_pos (by simp), collapsedEntries, if_neg (by simp [changed])]
      · simp only [mem_append, mem_singleton, same, or_false]
    · rcases mem_append.mp listed with old | new
      · exact known.unchanged still other old
      · rw [mem_singleton.mp new]
        exact changed

private theorem collapsedEntries_nameSpace (nameSpace : JsString) :
    ∀ entry ∈ collapsedEntries (namespacePass localManifests peerManifests prior plan nameSpace)
      (ofNamespace nameSpace plan.entries), entry.nameSpace = nameSpace := by
  intro entry member
  have tracked := collapsePass_tracks (collapseMaps_indexed (localManifests.lookup nameSpace)
    (peerManifests.lookup nameSpace) ((prior.lookup nameSpace).getD [])) (ofNamespace nameSpace plan.entries) nameSpace
  rw [collapsedEntries_perm.mem_iff, mem_append] at member
  rcases member with kept | replaced
  · have listed := (mem_filter.mp kept).1
    simpa [ofNamespace] using (mem_filter.mp listed).2
  · exact (tracked.replaced entry replaced).1

/-- The collapse acts on each namespace alone: its entries lose the removed ones and gain the replacements. -/
theorem collapse_ofNamespace (nameSpace : JsString) :
    (ofNamespace nameSpace (collapseActiveFactDuplicates localManifests peerManifests prior plan).entries).Perm
      ((ofNamespace nameSpace plan.entries).filter (fun entry =>
          !(namespacePass localManifests peerManifests prior plan nameSpace).removed.contains entry) ++
        (namespacePass localManifests peerManifests prior plan nameSpace).replacements) := by
  refine List.Perm.trans ?_ collapsedEntries_perm
  have run := foldl_tracks (namespaceRound localManifests peerManifests prior)
    (fun done pass => done.Nodup → NamespacesTrack localManifests peerManifests prior plan done pass)
    (by
      intro done pass current known distinct
      have parts := nodup_append.mp distinct
      refine namespaceRound_tracks _ _ _ _ _ _ _ ?_ (known parts.1)
      exact fun member => parts.2.2 current member current (by simp) rfl)
    (localManifests.keys ++ peerManifests.keys).eraseDups [] ⟨groupByNamespace plan.entries, false⟩
    (fun _ => ⟨fun other => by simp [groupByNamespace_lookup], by simp⟩)
  rw [nil_append] at run
  have tracked := run (nodup_eraseDups _)
  have settled : ∀ other, ((List.foldl (namespaceRound localManifests peerManifests prior)
      ⟨groupByNamespace plan.entries, false⟩
      (localManifests.keys ++ peerManifests.keys).eraseDups).entriesByNamespace.lookup other).getD [] =
        collapsedEntries (namespacePass localManifests peerManifests prior plan other)
          (ofNamespace other plan.entries) := by
    intro other
    rw [tracked.groups]
    split_ifs with listed
    · rfl
    · rw [namespacePass_bare localManifests peerManifests prior plan other listed]
      rfl
  unfold collapseActiveFactDuplicates
  dsimp only
  split_ifs with changed
  · have same := settled nameSpace
    rw [tracked.groups] at same
    rw [← same]
    split_ifs with listed
    · rw [collapsedEntries, if_neg (by simp [tracked.unchanged (by simpa using changed) nameSpace listed])]
    · exact List.Perm.refl _
  · rw [← settled nameSpace, ← ofNamespace_flat]
    · exact (perm_insertionSort EntryLe _).filter _
    · intro other entry member
      rw [settled] at member
      exact collapsedEntries_nameSpace localManifests peerManifests prior plan other entry member

end Namespaces

end Remnic.Reconcile.Collapse
