import Remnic.Reconcile.Plan
import Remnic.Text.Utf8Encode

/-!
The converge cursor: what a finished run remembers as agreed with one peer, and the file it is in.
Two pairs of a peer and a namespace share that file although the planner tells their namespaces apart.
-/

namespace Remnic.Reconcile.Cursor
open Text.CodeUnits Text.Utf8 Text.Utf8Encode Library Reconcile.Census Reconcile.Plan

structure ConvergeCursorFileState where
  path : JsString
  sha256 : Sha256
deriving DecidableEq

/-- The digest both sides hold once an entry is carried out. -/
def digestAfterReconcile (entry : ReconcilePlanEntry) : Option Sha256 :=
  match entry.action with
  | .push => entry.localSha256
  | .pull => entry.peerSha256
  | .conflict =>
    match entry.resolution with
    | some .localWins => entry.localSha256
    | some .peerWins => entry.peerSha256
    | _ => none
  | .suppress => none
  | .identical =>
    match entry.localSha256, entry.peerSha256 with
    | some localSha256, some peerSha256 => if localSha256 ≠ peerSha256 then none else some localSha256
    | some localSha256, none => some localSha256
    | none, peerSha256 => peerSha256

/-- The two collections the derivation fills, in arrival order. -/
structure CursorPass where
  baseFiles : List ConvergeCursorFileState
  semanticAgreements : OrderedMap JsString ReconcileSemanticAgreement

def cursorRound (nameSpace : JsString) (pass : CursorPass) (entry : ReconcilePlanEntry) : CursorPass :=
  if entry.nameSpace ≠ nameSpace then pass
  else
    match entry.semanticAgreement with
    | some agreement =>
      { pass with semanticAgreements := pass.semanticAgreements.set (semanticAgreementKey agreement) agreement }
    | none =>
      match digestAfterReconcile entry with
      | some sha256 => { pass with baseFiles := pass.baseFiles ++ [⟨entry.path, sha256⟩] }
      | none => pass

structure CursorBase where
  baseFiles : List ConvergeCursorFileState
  semanticAgreements : List ReconcileSemanticAgreement

def priorAgreementMap (prior : List ReconcileSemanticAgreement) :
    OrderedMap JsString ReconcileSemanticAgreement :=
  prior.foldl (fun agreements agreement => agreements.set (semanticAgreementKey agreement) agreement) .empty

def agreementLe (tables : UnicodeTables) (a b : ReconcileSemanticAgreement) : Bool :=
  if tables.localeLe a.localFile.path b.localFile.path && tables.localeLe b.localFile.path a.localFile.path then
    tables.localeLe a.peerFile.path b.peerFile.path
  else tables.localeLe a.localFile.path b.localFile.path

def deriveConvergeCursorBase (tables : UnicodeTables) (entries : List ReconcilePlanEntry) (nameSpace : JsString)
    (priorSemanticAgreements : List ReconcileSemanticAgreement) : CursorBase :=
  let pass := entries.foldl (cursorRound nameSpace) ⟨[], priorAgreementMap priorSemanticAgreements⟩
  ⟨pass.baseFiles.insertionSort (fun a b => tables.localeLe a.path b.path = true),
    (pass.semanticAgreements.entries.map Prod.snd).insertionSort (fun a b => agreementLe tables a b = true)⟩

private theorem mem_cursorFold (nameSpace : JsString) (entries : List ReconcilePlanEntry) (pass : CursorPass)
    (file : ConvergeCursorFileState) :
    file ∈ (entries.foldl (cursorRound nameSpace) pass).baseFiles ↔ file ∈ pass.baseFiles ∨
      ∃ entry ∈ entries, entry.nameSpace = nameSpace ∧ entry.semanticAgreement = none ∧
        digestAfterReconcile entry = some file.sha256 ∧ entry.path = file.path := by
  induction entries generalizing pass with
  | nil => simp
  | cons entry entries ih =>
    rw [List.foldl_cons, ih]
    simp only [List.mem_cons, exists_eq_or_imp, ← or_assoc]
    apply or_congr_left
    unfold cursorRound
    by_cases other : entry.nameSpace ≠ nameSpace
    · simp [other]
    · rw [if_neg other]
      rw [not_not] at other
      cases agreement : entry.semanticAgreement with
      | some agreement => simp
      | none =>
        cases digest : digestAfterReconcile entry with
        | none => simp
        | some sha256 =>
          obtain ⟨path, held⟩ := file
          simp only [List.mem_append, List.mem_singleton, ConvergeCursorFileState.mk.injEq, other, true_and,
            Option.some.injEq]
          tauto

theorem mem_baseFiles (tables : UnicodeTables) (entries : List ReconcilePlanEntry) (nameSpace : JsString)
    (prior : List ReconcileSemanticAgreement) (file : ConvergeCursorFileState) :
    file ∈ (deriveConvergeCursorBase tables entries nameSpace prior).baseFiles ↔
      ∃ entry ∈ entries, entry.nameSpace = nameSpace ∧ entry.semanticAgreement = none ∧
        digestAfterReconcile entry = some file.sha256 ∧ entry.path = file.path := by
  rw [deriveConvergeCursorBase, (List.perm_insertionSort _ _).mem_iff, mem_cursorFold]
  simp

def ConvergeCursorFileState.raw (file : ConvergeCursorFileState) : ReconcileFileState :=
  ⟨some file.path, some file.sha256.val, .absent⟩

/-- A parsed URL without credentials, search and hash: its path, and how it prints with another one. -/
structure PeerUrl where
  pathname : JsString
  toText : JsString → JsString

structure CursorHost where
  tables : UnicodeTables
  /-- `new URL`; nothing where it throws. -/
  parseUrl : JsString → Option PeerUrl
  /-- The hexadecimal digest. -/
  sha256 : List Byte → JsString
  /-- `path.resolve`. -/
  resolve : JsString → JsString

structure PeerNamespace where
  peerUrl : JsString
  nameSpace : JsString

def stripTrailingSlashes (value : JsString) : JsString := value.rdropWhile (· = slash)

def normalizeConvergePeerUrl (host : CursorHost) (peerUrl : JsString) : JsString :=
  let trimmed := trim peerUrl
  match host.parseUrl trimmed with
  | some url =>
    let printed := url.toText (stripTrailingSlashes url.pathname)
    if endsWith printed slash then printed.dropLast else printed
  | none => stripTrailingSlashes trimmed

def normalizedNs (host : CursorHost) (nameSpace : JsString) : JsString := host.tables.toLowerCase (trim nameSpace)

def hashInput (host : CursorHost) (pair : PeerNamespace) : List Byte :=
  encode (normalizeConvergePeerUrl host pair.peerUrl ++ unit 0 :: normalizedNs host pair.nameSpace)

def hashPeerNamespace (host : CursorHost) (pair : PeerNamespace) : JsString := (host.sha256 (hashInput host pair)).take 16

/-- The file that a plan reads the base from, and that a run writes. -/
def defaultConvergeCursorPath (host : CursorHost) (memoryDir : JsString) (pair : PeerNamespace) : JsString :=
  let root := host.resolve memoryDir
  (if endsWith root slash then root else root ++ [slash]) ++ text ".remnic/state/converge-cursors/" ++
    (hashPeerNamespace host pair ++ text ".json")

def identity (host : CursorHost) (pair : PeerNamespace) : JsString := normalizeNamespaceIdentity host.tables pair.nameSpace

/-- The URL and the namespace of a pair, as UTF-8 keeps them. -/
def hashedParts (host : CursorHost) (pair : PeerNamespace) : JsString × JsString :=
  (wellFormed (normalizeConvergePeerUrl host pair.peerUrl), wellFormed (normalizedNs host pair.nameSpace))

/-- The second URL ends with a NUL and a text that the first namespace starts with, before a NUL of its own. -/
def Shifted (one other : JsString × JsString) : Prop :=
  ∃ middle, other.1 = one.1 ++ unit 0 :: middle ∧ one.2 = middle ++ unit 0 :: other.2

/-- Both parts are the same but for what lower-casing takes away, or one URL takes in the front of a namespace. -/
def SharesCursor (host : CursorHost) (one other : PeerNamespace) : Prop :=
  hashedParts host one = hashedParts host other ∨ Shifted (hashedParts host one) (hashedParts host other) ∨
    Shifted (hashedParts host other) (hashedParts host one)

theorem append_cons_eq_iff (one other : JsString × JsString) : one.1 ++ unit 0 :: one.2 = other.1 ++ unit 0 :: other.2 ↔
    one = other ∨ Shifted one other ∨ Shifted other one := by
  obtain ⟨url, rest⟩ := one
  obtain ⟨other, left⟩ := other
  simp only [Shifted, Prod.mk.injEq]
  rw [List.append_eq_append_iff]
  constructor
  · rintro (⟨_ | ⟨first, middle⟩, longer, tail⟩ | ⟨_ | ⟨first, middle⟩, longer, tail⟩) <;> simp_all
  · rintro (⟨rfl, rfl⟩ | ⟨middle, rfl, rfl⟩ | ⟨middle, rfl, rfl⟩) <;> simp

theorem hashInput_eq_iff (host : CursorHost) (one other : PeerNamespace) :
    hashInput host one = hashInput host other ↔ SharesCursor host one other := by
  have separator : (isHighSurrogate (unit 0) || isLowSurrogate (unit 0)) = false := by decide
  rw [hashInput, hashInput, encode_eq_iff, wellFormed_append_cons separator, wellFormed_append_cons separator]
  exact append_cons_eq_iff (hashedParts host one) (hashedParts host other)

/-- The planner's namespaces have files of their own exactly when nothing that is hashed is the same. -/
theorem cursor_isolated_iff (host : CursorHost) (memoryDir : JsString) (one other : PeerNamespace)
    (distinct : hashPeerNamespace host one = hashPeerNamespace host other → hashInput host one = hashInput host other) :
    (identity host one ≠ identity host other →
        defaultConvergeCursorPath host memoryDir one ≠ defaultConvergeCursorPath host memoryDir other) ↔
      identity host one = identity host other ∨ ¬ SharesCursor host one other := by
  have files : defaultConvergeCursorPath host memoryDir one = defaultConvergeCursorPath host memoryDir other ↔
      SharesCursor host one other := by
    rw [← hashInput_eq_iff]
    unfold defaultConvergeCursorPath
    dsimp only
    rw [List.append_cancel_left_eq, List.append_cancel_right_eq]
    exact ⟨distinct, fun same => by rw [hashPeerNamespace, same, hashPeerNamespace]⟩
  rw [imp_iff_not_or, not_not, Ne, files]

def sampleHost : CursorHost where
  tables := { plainTables with toLowerCase := asciiLower }
  parseUrl _ := none
  sha256 bytes := if bytes = encode (text "peer.example" ++ unit 0 :: text "team") then
    text "c23b51331f8e98f3b4b35d370fb0f822b770debe99e6ee433952de2c28a07d52"
    else text "5d81c469d9a8985151474e7043639c3bb346faec8781f78ad018268524b4bd1b"
  resolve := id

theorem cursor_isolated_iff_sample : (identity sampleHost ⟨text "peer.example", text "team"⟩ ≠
      identity sampleHost ⟨text "peer.example/", text "Notes"⟩ →
        defaultConvergeCursorPath sampleHost (text "/m") ⟨text "peer.example", text "team"⟩ ≠
          defaultConvergeCursorPath sampleHost (text "/m") ⟨text "peer.example/", text "Notes"⟩) ↔
      identity sampleHost ⟨text "peer.example", text "team"⟩ = identity sampleHost ⟨text "peer.example/", text "Notes"⟩ ∨
        ¬ SharesCursor sampleHost ⟨text "peer.example", text "team"⟩ ⟨text "peer.example/", text "Notes"⟩ :=
  cursor_isolated_iff sampleHost _ _ _ fun same => absurd same (by decide +kernel)

theorem case_shares_cursor : ∃ one other : PeerNamespace, identity sampleHost one ≠ identity sampleHost other ∧
    defaultConvergeCursorPath sampleHost (text "/m") one = defaultConvergeCursorPath sampleHost (text "/m") other :=
  ⟨⟨text "peer.example", text "Team"⟩, ⟨text "peer.example", text "team"⟩, by decide +kernel, by decide +kernel⟩

end Remnic.Reconcile.Cursor
