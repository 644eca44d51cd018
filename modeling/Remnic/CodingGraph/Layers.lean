import Remnic.CodingGraph.EdgeCalls
import Remnic.Library.Transition

/-!
All layers share one row for each edge. What a layer asserts stays until the same layer
retracts it, as long as the language server retires no row that another layer asserts too.
-/

namespace Remnic.CodingGraph.Layers

open Text.CodeUnits Library Library.Transition Schema Resolve Upsert EdgeCalls List Option OrderedMap

variable {host : Host} {store next : Store} {key : EdgeKey}

structure Assertion where
  layer : EdgeProvenance
  key : EdgeKey
  deriving DecidableEq

/-- The store, and beside it what the layers assert and have not retracted between nodes that stayed. -/
structure World where
  store : Store
  assertions : List Assertion

inductive Action where
  | reingest (files : List StoreFileIR) (deletePaths : List JsString)
  | upsertEdges (edges : List EdgeIR)
  | reconcileLspEdges (filePath : JsString) (asserted : List AssertedEdge)
  | dropFiles (paths : List JsString)

/-- A file as it is ingested with the heuristic scope: it asserts its heuristic edges. -/
def heuristicFile (ir : StoreFileIR) : StoreFileIR :=
  { ir with
    edges := some ((ir.edges.getD []).map fun edge => { edge with provenance := .heuristic })
    assertedEdgeProvenances := some [.heuristic] }

/-- The store with its nodes written and pruned, and what is left to do for each file. -/
def prepared (host : Host) (store : Store) (files : List StoreFileIR) (deletePaths : List JsString) : Store × List Pending :=
  let (written, pending) := upsertBatchNodes host (store.deleteFiles deletePaths) files
  (pending.foldl pruneFileNodes written, pending)

/-- What is still asserted between nodes that no delete has taken away. -/
def staying (store : Store) (assertions : List Assertion) : List Assertion :=
  assertions.filter fun assertion => store.nodes.contains assertion.key.src && store.nodes.contains assertion.key.dst

/-- A file retracts its heuristic edges and asserts those it has. -/
def reassert (store : Store) (assertions : List Assertion) (pending : Pending) : List Assertion :=
  let asserted := assertedEdges store pending.fileId (pending.ir.edges.getD [])
  (assertions.filter fun assertion => !(assertion.layer = .heuristic && isOwn store pending.fileId assertion.key.src)) ++
    asserted.keys.map fun key => ⟨.heuristic, key⟩

/-- The edges of a call that resolve are asserted by their layers. -/
def assertEdges (store : Store) (assertions : List Assertion) (edges : List EdgeIR) : List Assertion :=
  assertions ++ edges.filterMap fun edge => (resolveEnds store edge).map fun key => ⟨edge.provenance, key⟩

/-- The language server retracts the edges of a file that it does not assert any more. -/
def retractLsp (store : Store) (assertions : List Assertion) (filePath : JsString) (asserted : List AssertedEdge) :
    List Assertion :=
  match store.files.lookup filePath with
  | none => assertions
  | some file => assertions.filter fun assertion =>
      !(assertion.layer = .lsp && isOwn store file.id assertion.key.src && assertion.key ∉ assertedKeys store file.id asserted)

/-- One call, with what it asserts and retracts. Heuristic edges come with their files only. -/
def step (host : Host) (world : World) : Action → Option World
  | .reingest files deletePaths => do
      let files := files.map heuristicFile
      let store ← runUpsert host world.store files deletePaths
      let (base, pending) := prepared host world.store files deletePaths
      let stayed := staying base (staying (world.store.deleteFiles deletePaths) world.assertions)
      some ⟨store, pending.foldl (reassert base) stayed⟩
  | .upsertEdges edges =>
      if edges.all (·.provenance ≠ .heuristic) then do
        let store ← runUpsertEdges world.store edges
        some ⟨store, assertEdges world.store world.assertions edges⟩
      else none
  | .reconcileLspEdges filePath asserted =>
      some ⟨reconcileLspEdges world.store filePath asserted, retractLsp world.store world.assertions filePath asserted⟩
  | .dropFiles paths =>
      let store := dropFiles world.store paths
      some ⟨store, staying store world.assertions⟩

def initial : World := ⟨applyCodingGraphSchema Store.blank, []⟩

/-- What a layer asserts is in the store, and what the language server asserts is not held as heuristic. -/
def KeepsLayers (world : World) : Prop :=
  ∀ assertion ∈ world.assertions, ∃ row, world.store.edges.lookup assertion.key = some row ∧
    (assertion.layer = .lsp → row.provenance ≠ .heuristic)

/-- The language server retires no row that another layer asserts. -/
def Unshared (world : World) : Action → Prop
  | .reconcileLspEdges filePath asserted =>
      ∀ file ∈ world.store.files.lookup filePath, ∀ assertion ∈ world.assertions, assertion.layer ≠ .lsp →
        ∀ row ∈ world.store.edges.lookup assertion.key, isRetired world.store file.id asserted assertion.key row = false
  | _ => True

/-- Each assertion has its row, and only the heuristic layer's may be heuristic. -/
def Backed (edges : OrderedMap EdgeKey EdgeRow) (assertions : List Assertion) : Prop :=
  ∀ assertion ∈ assertions, ∃ row, edges.lookup assertion.key = some row ∧
    (assertion.layer ≠ .heuristic → row.provenance ≠ .heuristic)

section deletes

variable {assertions : List Assertion}

theorem node_of_contains {id : NodeId} (contained : store.nodes.contains id = true) : ∃ row, store.nodes.lookup id = some row :=
  (contains_iff _ _).mp contained

theorem mem_staying {assertion : Assertion} : assertion ∈ staying store assertions ↔ assertion ∈ assertions ∧
    store.nodes.contains assertion.key.src = true ∧ store.nodes.contains assertion.key.dst = true := by
  rw [staying, mem_filter, Bool.and_eq_true]

theorem lookup_edges_of_staying {doomed : NodeId → NodeRow → Bool} {row : EdgeRow} (held : store.edges.lookup key = some row)
    (src : (store.deleteNodes doomed).nodes.contains key.src = true) (dst : (store.deleteNodes doomed).nodes.contains key.dst = true) :
    (store.deleteNodes doomed).edges.lookup key = some row := by
  have kept : ∀ id, (store.deleteNodes doomed).nodes.contains id = true → (store.nodes.lookup id).any (doomed id) = false := by
    intro id contained
    obtain ⟨node, found⟩ := node_of_contains contained
    obtain ⟨there, fate⟩ := lookup_nodes_deleteNodes.mp found
    rw [there, any_some, fate]
  exact lookup_edges_deleteNodes.mpr ⟨held, kept _ src, kept _ dst⟩

theorem backed_dropFiles (backed : Backed store.edges assertions) (paths : List JsString) :
    Backed (store.deleteFiles paths).edges (staying (store.deleteFiles paths) assertions) := by
  intro assertion member
  obtain ⟨member, src, dst⟩ := mem_staying.mp member
  obtain ⟨row, held, strong⟩ := backed assertion member
  have plain : { store with files := store.files.eraseAll paths }.edges.lookup assertion.key = some row := held
  exact ⟨row, lookup_edges_of_staying plain src dst, strong⟩

theorem contains_of_pruneFileNodes {pending : Pending} {id : NodeId} (contained : (pruneFileNodes store pending).nodes.contains id = true) :
    store.nodes.contains id = true := by
  obtain ⟨node, found⟩ := node_of_contains contained
  exact (contains_iff _ _).mpr ⟨node, (lookup_nodes_deleteNodes.mp found).1⟩

theorem contains_of_prune {pending : List Pending} {id : NodeId}
    (contained : (pending.foldl pruneFileNodes store).nodes.contains id = true) : store.nodes.contains id = true := by
  induction pending generalizing store with
  | nil => exact contained
  | cons first pending ih => exact contains_of_pruneFileNodes (ih contained)

theorem lookup_edges_of_prune {pending : List Pending} {row : EdgeRow} (held : store.edges.lookup key = some row)
    (src : (pending.foldl pruneFileNodes store).nodes.contains key.src = true)
    (dst : (pending.foldl pruneFileNodes store).nodes.contains key.dst = true) :
    (pending.foldl pruneFileNodes store).edges.lookup key = some row := by
  induction pending generalizing store with
  | nil => exact held
  | cons first pending ih =>
    have still : ∀ id, ((first :: pending).foldl pruneFileNodes store).nodes.contains id = true →
        (pruneFileNodes store first).nodes.contains id = true := fun id contained => contains_of_prune contained
    have there : (pruneFileNodes store first).edges.lookup key = some row :=
      lookup_edges_of_staying held (still _ src) (still _ dst)
    exact ih there src dst

theorem edges_upsertBatchNodes (host : Host) (store : Store) (files : List StoreFileIR) :
    (upsertBatchNodes host store files).1.edges = store.edges := by
  have node : ∀ existing ir fileId (entries : List (NodeId × SymbolIR)) (store : Store),
      (entries.foldl (upsertNode existing ir fileId) store).edges = store.edges := by
    intro existing ir fileId entries
    induction entries with
    | nil => exact fun _ => rfl
    | cons entry entries ih =>
      intro store
      rw [foldl_cons, ih]
      unfold upsertNode
      split <;> rfl
  have file : ∀ (store : Store) ir, (upsertFileNodes host store ir).1.edges = store.edges := by
    intro store ir
    have written : (upsertFile store ir).1.edges = store.edges := by
      unfold upsertFile
      split <;> rfl
    exact (node _ ir _ _ _).trans written
  exact upsertBatchNodes_tracks (fun _ state => state.1.edges = store.edges) (fun _ state ir before =>
    (file state.1 ir).trans before) rfl files

theorem backed_prepared (backed : Backed store.edges assertions) (files : List StoreFileIR) (deletePaths : List JsString) :
    Backed (prepared host store files deletePaths).1.edges
      (staying (prepared host store files deletePaths).1 (staying (store.deleteFiles deletePaths) assertions)) := by
  intro assertion member
  obtain ⟨member, src, dst⟩ := mem_staying.mp member
  obtain ⟨row, held, strong⟩ := backed_dropFiles backed deletePaths assertion member
  have written : (upsertBatchNodes host (store.deleteFiles deletePaths) files).1.edges.lookup assertion.key = some row := by
    rw [edges_upsertBatchNodes]
    exact held
  exact ⟨row, lookup_edges_of_prune written src dst, strong⟩

end deletes

section edges

variable {assertions : List Assertion} {pending : Pending}

/-- The row of an asserted edge: one that is the same, or not the assertion's to change, stays. -/
def edgeOutcome (prior : OrderedMap EdgeKey EdgeRow) (scope : Option (List EdgeProvenance)) (key : EdgeKey) (edge : EdgeIR)
    (held : Option EdgeRow) : Option EdgeRow :=
  match prior.lookup key with
  | some row => if row = edgeRow edge ∨ isProtected scope row edge then held else some (edgeRow edge)
  | none => some (edgeRow edge)

theorem lookup_upsertFileEdge (prior : OrderedMap EdgeKey EdgeRow) (scope : Option (List EdgeProvenance))
    (edges : OrderedMap EdgeKey EdgeRow) (entry : EdgeKey × EdgeIR) (key : EdgeKey) :
    (upsertFileEdge prior scope edges entry).lookup key =
      if key = entry.1 then edgeOutcome prior scope entry.1 entry.2 (edges.lookup key) else edges.lookup key := by
  unfold upsertFileEdge edgeOutcome
  cases prior.lookup entry.1 with
  | none => exact lookup_set _ _ _ _
  | some row =>
    dsimp only
    by_cases stays : row = edgeRow entry.2 ∨ isProtected scope row entry.2
    · rw [if_pos stays, if_pos stays, ite_self]
    · rw [if_neg stays, if_neg stays, lookup_set]

theorem assertedEdges_congr {fileId : Nat} (nodes : next.nodes = store.nodes) (files : next.files = store.files)
    (edges : List EdgeIR) : assertedEdges next fileId edges = assertedEdges store fileId edges := by
  cases store
  cases next
  cases nodes
  cases files
  rfl

theorem isOwn_congr {fileId : Nat} (nodes : next.nodes = store.nodes) (id : NodeId) : isOwn next fileId id = isOwn store fileId id := by
  unfold isOwn
  rw [nodes]

theorem backed_upsertFileEdges (heuristic : ∃ ir, pending.ir = heuristicFile ir) (backed : Backed store.edges assertions)
    (run : upsertFileEdges store pending = some next) : Backed next.edges (reassert store assertions pending) := by
  obtain ⟨ir, same⟩ := heuristic
  have scope : scopeOf pending.ir = some [.heuristic] := by
    rw [same]
    rfl
  unfold upsertFileEdges at run
  cases given : pending.ir.edges with
  | none =>
    rw [same] at given
    cases given
  | some edges =>
    rw [given] at run
    dsimp only at run
    split at run
    · cases run
      unfold reassert
      rw [given, getD_some, scope]
      set asserted := assertedEdges store pending.fileId edges
      set fresh := store.edges.keep fun key row =>
        !(isOwn store pending.fileId key.src && !asserted.contains key && decide (row.provenance ∈ [EdgeProvenance.heuristic]))
      have rows : ∀ key, (asserted.entries.foldl (upsertFileEdge store.edges (some [.heuristic])) fresh).lookup key =
          (asserted.lookup key).elim (fresh.lookup key) fun edge =>
            edgeOutcome store.edges (some [.heuristic]) key edge (fresh.lookup key) :=
        lookup_foldl_rows _ (lookup_upsertFileEdge store.edges (some [.heuristic])) asserted fresh
      have kept : ∀ {key row}, store.edges.lookup key = some row →
          (asserted.contains key = true ∨ row.provenance ≠ .heuristic ∨ isOwn store pending.fileId key.src = false) →
            fresh.lookup key = some row := by
        intro key row held spared
        refine lookup_keep_eq_some.mpr ⟨held, ?_⟩
        rcases spared with known | strong | foreign
        · simp [known]
        · simp [strong]
        · simp [foreign]
      intro assertion member
      rcases mem_append.mp member with before | new
      · obtain ⟨before, spared⟩ := mem_filter.mp before
        obtain ⟨row, held, strong⟩ := backed assertion before
        show ∃ row, (asserted.entries.foldl (upsertFileEdge store.edges (some [.heuristic])) fresh).lookup assertion.key = some row ∧ _
        rw [rows]
        cases known : asserted.lookup assertion.key with
        | none =>
          rw [elim_none]
          refine ⟨row, kept held ?_, strong⟩
          by_cases layer : assertion.layer = .heuristic
          · exact .inr (.inr (by simpa [layer] using spared))
          · exact .inr (.inl (strong layer))
        | some edge =>
          have there : fresh.lookup assertion.key = some row :=
            kept held (.inl ((contains_iff _ _).mpr ⟨edge, known⟩))
          rw [elim_some, edgeOutcome, held, there]
          dsimp only
          split_ifs with stays
          · exact ⟨row, rfl, strong⟩
          · refine ⟨edgeRow edge, rfl, fun layer => absurd (.inr ?_) stays⟩
            simp [isProtected, strong layer]
      · obtain ⟨key, listed, rfl⟩ := mem_map.mp new
        obtain ⟨edge, known⟩ := (mem_keys_iff _ _).mp listed
        show ∃ row, (asserted.entries.foldl (upsertFileEdge store.edges (some [.heuristic])) fresh).lookup key = some row ∧ _
        rw [rows, known, elim_some, edgeOutcome]
        cases held : store.edges.lookup key with
        | none => exact ⟨edgeRow edge, rfl, fun layer => absurd rfl layer⟩
        | some row =>
          have there : fresh.lookup key = some row := kept held (.inl ((contains_iff _ _).mpr ⟨edge, known⟩))
          dsimp only
          rw [there]
          split_ifs
          · exact ⟨row, rfl, fun layer => absurd rfl layer⟩
          · exact ⟨edgeRow edge, rfl, fun layer => absurd rfl layer⟩
    · cases run

theorem reassert_congr (nodes : next.nodes = store.nodes) (files : next.files = store.files) (assertions : List Assertion)
    (pending : Pending) : reassert next assertions pending = reassert store assertions pending := by
  unfold reassert
  simp only [assertedEdges_congr nodes files, isOwn_congr nodes]

theorem tables_upsertFileEdges (run : upsertFileEdges store pending = some next) :
    next.nodes = store.nodes ∧ next.files = store.files := by
  unfold upsertFileEdges at run
  split at run
  · cases run
    exact ⟨rfl, rfl⟩
  · split at run
    · cases run
      exact ⟨rfl, rfl⟩
    · cases run

theorem backed_edges {pending : List Pending} (heuristic : ∀ file ∈ pending, ∃ ir, file.ir = heuristicFile ir)
    (backed : Backed store.edges assertions) (run : pending.foldlM upsertFileEdges store = some next) :
    Backed next.edges (pending.foldl (reassert store) assertions) := by
  induction pending generalizing store assertions with
  | nil =>
    cases run
    exact backed
  | cons first pending ih =>
    rw [foldlM_cons] at run
    obtain ⟨middle, one, rest⟩ := bind_eq_some_iff.mp run
    obtain ⟨nodes, files⟩ := tables_upsertFileEdges one
    have moved := ih (fun file member => heuristic file (mem_cons_of_mem _ member))
      (backed_upsertFileEdges (heuristic first mem_cons_self) backed one) rest
    have same : reassert middle = reassert store := by
      funext assertions pending
      exact reassert_congr nodes files assertions pending
    rw [same] at moved
    exact moved

theorem edges_attributes (store : Store) (pending : List Pending) : (pending.foldl upsertFileAttributes store).edges = store.edges := by
  induction pending generalizing store with
  | nil => rfl
  | cons first pending ih =>
    rw [foldl_cons, ih]
    unfold upsertFileAttributes
    split <;> rfl

/-- Every file of a batch is left to the later passes. -/
theorem pending_upsertBatchNodes (host : Host) (store : Store) (files : List StoreFileIR) :
    (upsertBatchNodes host store files).2.map Pending.ir = files := by
  refine upsertBatchNodes_tracks (fun done state => state.2.map Pending.ir = done) (fun done state ir before => ?_) rfl files
  rw [map_append, before]
  rfl

theorem backed_reingest {files : List StoreFileIR} {deletePaths : List JsString} (backed : Backed store.edges assertions)
    (run : runUpsert host store (files.map heuristicFile) deletePaths = some next) :
    Backed next.edges ((prepared host store (files.map heuristicFile) deletePaths).2.foldl
      (reassert (prepared host store (files.map heuristicFile) deletePaths).1)
      (staying (prepared host store (files.map heuristicFile) deletePaths).1 (staying (store.deleteFiles deletePaths) assertions))) := by
  unfold runUpsert at run
  split at run
  · obtain ⟨edged, edges, last⟩ := bind_eq_some_iff.mp run
    cases last
    rw [edges_attributes]
    refine backed_edges (fun file member => ?_) (backed_prepared backed (files.map heuristicFile) deletePaths) edges
    have listed : file.ir ∈ files.map heuristicFile := by
      rw [← pending_upsertBatchNodes host (store.deleteFiles deletePaths) (files.map heuristicFile)]
      exact mem_map_of_mem member
    obtain ⟨ir, _, same⟩ := mem_map.mp listed
    exact ⟨ir, same.symm⟩
  · cases run

theorem backed_upsertEdges {edges : List EdgeIR} (foreign : ∀ edge ∈ edges, edge.provenance ≠ .heuristic)
    (backed : Backed store.edges assertions) :
    Backed (edges.foldl (persistEdge store) store.edges) (assertEdges store assertions edges) := by
  have persisted : ∀ (edges : List EdgeIR) (rows : OrderedMap EdgeKey EdgeRow) (assertions : List Assertion),
      (∀ edge ∈ edges, edge.provenance ≠ .heuristic) → Backed rows assertions →
        Backed (edges.foldl (persistEdge store) rows) (assertEdges store assertions edges) := by
    intro edges
    induction edges with
    | nil =>
      intro rows assertions _ backed
      simpa [assertEdges] using backed
    | cons edge edges ih =>
      intro rows assertions foreign backed
      have strong := foreign edge mem_cons_self
      have later := fun other member => foreign other (mem_cons_of_mem edge member)
      cases resolved : resolveEnds store edge with
      | none =>
        have first : persistEdge store rows edge = rows := by rw [persistEdge, resolved]
        have same : assertEdges store assertions (edge :: edges) = assertEdges store assertions edges := by
          simp [assertEdges, resolved]
        rw [foldl_cons, first, same]
        exact ih rows assertions later backed
      | some key =>
        have first : persistEdge store rows edge = rows.set key (edgeRow edge) := by rw [persistEdge, resolved]
        have same : assertEdges store assertions (edge :: edges) =
            assertEdges store (assertions ++ [⟨edge.provenance, key⟩]) edges := by
          simp [assertEdges, resolved]
        rw [foldl_cons, first, same]
        apply ih _ _ later
        intro assertion member
        by_cases here : assertion.key = key
        · exact ⟨edgeRow edge, by rw [here, lookup_set_self], fun _ => strong⟩
        · rcases mem_append.mp member with before | new
          · obtain ⟨row, held, kept⟩ := backed assertion before
            exact ⟨row, by rw [lookup_set_of_ne _ _ _ _ here, held], kept⟩
          · rw [mem_singleton] at new
            exact absurd (congrArg Assertion.key new) here
  exact persisted edges store.edges assertions foreign backed

theorem backed_reconcile {filePath : JsString} {asserted : List AssertedEdge} (backed : Backed store.edges assertions)
    (unshared : Unshared ⟨store, assertions⟩ (.reconcileLspEdges filePath asserted)) :
    Backed (reconcileLspEdges store filePath asserted).edges (retractLsp store assertions filePath asserted) := by
  unfold reconcileLspEdges retractLsp
  cases known : store.files.lookup filePath with
  | none => exact backed
  | some file =>
    intro assertion member
    obtain ⟨member, spared⟩ := mem_filter.mp member
    obtain ⟨row, held, strong⟩ := backed assertion member
    refine ⟨row, lookup_keep_eq_some.mpr ⟨held, ?_⟩, strong⟩
    by_cases layer : assertion.layer = .lsp
    · unfold isRetired
      by_cases listed : assertion.key ∈ assertedKeys store file.id asserted
      · simp [listed]
      · have foreign : isOwn store file.id assertion.key.src = false := by simpa [layer, listed] using spared
        simp [foreign]
    · rw [unshared file known assertion member layer row held]
      rfl

end edges

theorem backed_step {world after : World} {action : Action} (backed : Backed world.store.edges world.assertions)
    (unshared : Unshared world action) (stepped : step host world action = some after) :
    Backed after.store.edges after.assertions := by
  cases action with
  | reingest files deletePaths =>
    obtain ⟨store, run, last⟩ := bind_eq_some_iff.mp stepped
    cases last
    exact backed_reingest backed run
  | upsertEdges edges =>
    simp only [step] at stepped
    split at stepped
    next foreign =>
      obtain ⟨store, run, last⟩ := bind_eq_some_iff.mp stepped
      cases last
      unfold runUpsertEdges at run
      split at run
      · cases run
        exact backed_upsertEdges (by simpa using foreign) backed
      · cases run
    · cases stepped
  | reconcileLspEdges filePath asserted =>
    cases stepped
    exact backed_reconcile backed unshared
  | dropFiles paths =>
    cases stepped
    exact backed_dropFiles backed paths

/-- In every run whose steps all meet the condition, what a layer asserts stays until the layer retracts it. -/
theorem layers_keep_their_edges {world : World} (reached : Reaches (step host) Unshared initial world) : KeepsLayers world := by
  have backed : Backed world.store.edges world.assertions := by
    apply reached.invariant (fun world => Backed world.store.edges world.assertions)
    · exact fun _ member => absurd member not_mem_nil
    · intro before action after backed unshared stepped
      exact backed_step backed unshared stepped
  intro assertion member
  obtain ⟨row, held, strong⟩ := backed assertion member
  exact ⟨row, held, fun layer => strong (by rw [layer]; decide)⟩

instance (world : World) (action : Action) : Decidable (Unshared world action) := by
  cases action <;> unfold Unshared <;> infer_instance

def sampleEdge (provenance : EdgeProvenance) (src dst : String) : EdgeIR :=
  ⟨text src, text dst, text "CALLS", some 1, provenance, none, none, none, none⟩

def sampleCaller : StoreFileIR :=
  { sampleFile "main.ts" ["main", "load", "save"] with edges := some [sampleEdge .heuristic "main" "load"] }

/-- The language server confirms a call and finds another, and then does not find the other one any more. -/
def confirmed : List Action :=
  [.reingest [sampleCaller] [], .upsertEdges [sampleEdge .lsp "main" "load", sampleEdge .lsp "main" "save"],
    .reingest [sampleCaller] [],
    .reconcileLspEdges (text "main.ts") [⟨text "main", text "load", text "CALLS"⟩]]

theorem layers_keep_their_edges_confirmed : ∃ world : World,
    Reaches (step sampleHost) Unshared initial world ∧ world.assertions.length = 2 ∧ KeepsLayers world := by
  refine exists_reached (fun world => world.assertions.length = 2) confirmed (by decide +kernel) ?_
  intro world reached two
  exact ⟨two, layers_keep_their_edges reached⟩

theorem retired_edge_was_heuristic : ∃ world : World,
    Reaches (step sampleHost) (fun _ _ => True) initial world ∧ ¬ KeepsLayers world := by
  refine exists_reached (fun world => world.assertions ≠ [] ∧ world.store.edges.entries = [])
    [.reingest [sampleCaller] [], .upsertEdges [sampleEdge .lsp "main" "load"], .reconcileLspEdges (text "main.ts") []]
    (by decide +kernel) ?_
  intro world _ ⟨asserted, empty⟩ keeps
  obtain ⟨assertion, member⟩ := exists_mem_of_ne_nil _ asserted
  obtain ⟨row, held, _⟩ := keeps assertion member
  have listed := (lookup_eq_some_iff _ _ _).mp held
  rw [empty] at listed
  cases listed

end Remnic.CodingGraph.Layers
