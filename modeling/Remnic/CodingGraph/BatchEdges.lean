import Remnic.CodingGraph.BatchEffects
import Remnic.CodingGraph.Layers
import Remnic.Library.CommutingFold

/-!
What the later passes of a batch do to one edge and to the attributes of one node. The edges of
a file resolve by what readers see of the nodes, whatever the row ids of the files are.
-/

namespace Remnic.CodingGraph.BatchEdges

open Text.CodeUnits Library Library.CommutingFold Schema Resolve Upsert StoredRuns Batch List

variable {host : Host} {one other store next : Store} {key : EdgeKey} {id : NodeId} {ir : StoreFileIR}
  {files : List StoreFileIR}

def fileIdOf (store : Store) (path : JsString) : Nat := ((store.files.lookup path).map FileRow.id).getD 0

/-- The row of an edge after the edges of a file are written. -/
def edgeEffect (store : Store) (key : EdgeKey) (held : Option EdgeRow) (ir : StoreFileIR) : Option EdgeRow :=
  match ir.edges with
  | none => held
  | some edges =>
      match (assertedEdges store (fileIdOf store ir.path) edges).lookup key with
      | some edge => held.elim (some (edgeRow edge)) fun row =>
          if row = edgeRow edge ∨ isProtected (scopeOf ir) row edge then some row else some (edgeRow edge)
      | none => held.filter fun row => !((nodeView store key.src).any (·.path = ir.path) && (scopeOf ir).all (row.provenance ∈ ·))

/-- The attributes of a node after those of a file are written. -/
def attributeEffect (store : Store) (id : NodeId) (held : Option NodeAttributes) (ir : StoreFileIR) : Option NodeAttributes :=
  if ir.exports = none ∧ ir.routes = none then held
  else
    match (nodeView store id).filter (·.path = ir.path) with
    | some node => some
        { isExported := (ir.exports.map (decide <| node.name ∈ ·)).getD (held.getD ⟨false, false⟩).isExported
          isRouteHandler := (ir.routes.map (decide <| node.qualifiedName ∈ ·)).getD (held.getD ⟨false, false⟩).isRouteHandler }
    | none => held

def Listed (store : Store) (files : List StoreFileIR) : Prop := ∀ ir ∈ files, ∃ row, store.files.lookup ir.path = some row

section resolving

/-- The only id of which something holds. -/
def Only (holds : NodeId → Prop) (id : NodeId) : Prop := holds id ∧ ∀ other, holds other → other = id

theorem single_eq_some_iff {Item : Type} {items : List Item} {item : Item} : single items = some item ↔ items = [item] := by
  match items with
  | [] => simp [single]
  | [only] => simp [single]
  | _ :: _ :: _ => simp [single]

theorem single_filter_iff (nodes : OrderedMap NodeId NodeRow) (wanted : NodeId × NodeRow → Bool) (id : NodeId) :
    (single (nodes.entries.filter wanted)).map Prod.fst = some id ↔
      Only (fun id => ∃ row, nodes.lookup id = some row ∧ wanted (id, row) = true) id := by
  have listed : ∀ {id row}, (id, row) ∈ nodes.entries.filter wanted ↔ nodes.lookup id = some row ∧ wanted (id, row) = true := by
    intro id row
    rw [mem_filter, OrderedMap.lookup_eq_some_iff]
  rw [Option.map_eq_some_iff]
  constructor
  · rintro ⟨⟨_, row⟩, alone, rfl⟩
    rw [single_eq_some_iff] at alone
    refine ⟨⟨row, listed.mp (alone ▸ mem_singleton_self _)⟩, fun other ⟨found, held, met⟩ => ?_⟩
    have member := listed.mpr ⟨held, met⟩
    rw [alone, mem_singleton] at member
    exact congrArg Prod.fst member
  · rintro ⟨⟨row, held, met⟩, unique⟩
    refine ⟨(id, row), single_eq_some_iff.mpr ?_, rfl⟩
    have once : ((nodes.entries.filter wanted).map Prod.fst).Nodup := (filter_sublist.map Prod.fst).nodup nodes.keysNodup
    have member := listed.mpr ⟨held, met⟩
    have same : ∀ entry ∈ nodes.entries.filter wanted, entry.1 = id := by
      intro entry present
      exact unique entry.1 ⟨entry.2, listed.mp present⟩
    match nodes.entries.filter wanted, once, member, same with
    | [], _, member, _ => cases member
    | [only], _, member, _ => rw [mem_singleton.mp member]
    | first :: second :: _, once, _, same =>
      rw [map_cons, map_cons, nodup_cons] at once
      refine absurd ?_ once.1
      rw [same first mem_cons_self, ← same second (mem_cons_of_mem _ mem_cons_self)]
      exact mem_cons_self

section

variable (stored : Stored host store)
include stored

theorem only_node_iff {wantedRow : NodeId × NodeRow → Bool} (wanted : NodeView → Bool)
    (same : ∀ {id row path}, Store.filePath store row.fileId = some path → wantedRow (id, row) = wanted (viewOf row path)) :
    (single (store.nodes.entries.filter wantedRow)).map Prod.fst = some id ↔
      Only (fun id => ∃ view, nodeView store id = some view ∧ wanted view = true) id := by
  rw [single_filter_iff]
  refine iff_of_eq (congrArg (Only · id) (funext fun id => propext ⟨?_, ?_⟩))
  · rintro ⟨row, held, met⟩
    obtain ⟨path, file, listed, known, seen⟩ := exists_nodeView stored held
    exact ⟨_, seen, same ((filePath_eq_some_iff stored).mpr ⟨file, listed, known⟩) ▸ met⟩
  · rintro ⟨view, seen, met⟩
    obtain ⟨row, file, held, listed, known, shown⟩ := (nodeView_eq_some_iff stored).mp seen
    refine ⟨row, held, ?_⟩
    rw [same ((filePath_eq_some_iff stored).mpr ⟨file, listed, known⟩), shown, met]

theorem fileId_iff {path place : JsString} {file : FileRow} (listed : store.files.lookup path = some file) {fileId : Nat}
    (located : Store.filePath store fileId = some place) : fileId = file.id ↔ place = path := by
  obtain ⟨known, there, rfl⟩ := (filePath_eq_some_iff stored).mp located
  constructor
  · exact stored.fileIds there listed
  · rintro rfl
    rw [there] at listed
    cases listed
    rfl

theorem ownSymbol_iff {path : JsString} {file : FileRow} (listed : store.files.lookup path = some file)
    (qualifiedName : JsString) : ownSymbol store file.id qualifiedName = some id ↔
      Only (fun id => ∃ view, nodeView store id = some view ∧
        (decide (view.qualifiedName = qualifiedName) && decide (view.path = path)) = true) id := by
  unfold ownSymbol Store.ownNodes
  rw [filter_filter]
  exact only_node_iff stored (fun view => decide (view.qualifiedName = qualifiedName) && decide (view.path = path))
    fun located => congrArg (_ && ·) (decide_eq_decide.mpr (fileId_iff stored listed located))

theorem named_iff (qualifiedName : JsString) : (single (named store qualifiedName)).map Prod.fst = some id ↔
    Only (fun id => ∃ view, nodeView store id = some view ∧ decide (view.qualifiedName = qualifiedName) = true) id :=
  only_node_iff stored (fun view => decide (view.qualifiedName = qualifiedName)) fun _ => rfl

theorem hinted_iff (qualifiedName pathHint : JsString) (importerLanguage : Option JsString) :
    resolveNodeIdWithPathHint store qualifiedName pathHint importerLanguage = some id ↔
      Only (fun id => ∃ view, nodeView store id = some view ∧
        (meetsHint view.path pathHint importerLanguage && decide (view.qualifiedName = qualifiedName)) = true) id := by
  unfold resolveNodeIdWithPathHint named
  rw [filter_filter]
  refine only_node_iff stored (fun view => meetsHint view.path pathHint importerLanguage && decide (view.qualifiedName = qualifiedName))
    fun located => ?_
  rw [located]
  rfl

end

section views

variable (storedOne : Stored host one) (storedOther : Stored host other) (same : ∀ id, nodeView one id = nodeView other id)
include storedOne storedOther same

theorem ownSymbol_congr {path : JsString} {file kept : FileRow} (listed : one.files.lookup path = some file)
    (also : other.files.lookup path = some kept) : ownSymbol one file.id = ownSymbol other kept.id := by
  funext qualifiedName
  apply Option.ext
  intro id
  rw [ownSymbol_iff storedOne listed, ownSymbol_iff storedOther also]
  simp only [same]

theorem resolveEdge_congr {path : JsString} {file kept : FileRow} (listed : one.files.lookup path = some file)
    (also : other.files.lookup path = some kept) : resolveEdge one file.id = resolveEdge other kept.id := by
  have own := ownSymbol_congr storedOne storedOther same listed also
  funext edge
  have dst : resolveDst one file.id edge = resolveDst other kept.id edge := by
    unfold resolveDst
    cases edge.dstPathHint.filter (· ≠ []) with
    | some hint =>
      apply Option.ext
      intro id
      dsimp only
      rw [hinted_iff storedOne, hinted_iff storedOther]
      simp only [same]
    | none =>
      have bare : (single (named one edge.dstQualifiedName)).map Prod.fst = (single (named other edge.dstQualifiedName)).map Prod.fst := by
        apply Option.ext
        intro id
        rw [named_iff storedOne, named_iff storedOther]
        simp only [same]
      dsimp only
      unfold resolveNodeId
      rw [own, bare]
  rw [resolveEdge_eq, resolveEdge_eq, own, dst]

theorem edgeEffect_congr (listed : Listed one [ir]) (also : Listed other [ir]) (key : EdgeKey) (held : Option EdgeRow) :
    edgeEffect one key held ir = edgeEffect other key held ir := by
  obtain ⟨file, there⟩ := listed ir (mem_singleton_self _)
  obtain ⟨kept, here⟩ := also ir (mem_singleton_self _)
  have resolved := resolveEdge_congr storedOne storedOther same there here
  have asserted : ∀ edges, assertedEdges one (fileIdOf one ir.path) edges = assertedEdges other (fileIdOf other ir.path) edges := by
    intro edges
    unfold assertedEdges fileIdOf
    rw [there, here, Option.map_some, Option.map_some, Option.getD_some, Option.getD_some, resolved]
  unfold edgeEffect
  simp only [asserted, same]

end views

end resolving

section effects

theorem Listed.alone (listed : Listed store files) (member : ir ∈ files) : Listed store [ir] :=
  fun _ known => mem_singleton.mp known ▸ listed ir member

section

variable (stored : Stored host store) (listed : Listed store [ir])
include stored listed

theorem isOwn_eq (id : NodeId) : isOwn store (fileIdOf store ir.path) id = (nodeView store id).any (·.path = ir.path) := by
  obtain ⟨file, there⟩ := listed ir (mem_singleton_self _)
  unfold isOwn fileIdOf
  rw [there, Option.map_some, Option.getD_some]
  cases held : store.nodes.lookup id with
  | none =>
    unfold nodeView
    rw [held]
    rfl
  | some row =>
    obtain ⟨path, known, placed, same, seen⟩ := exists_nodeView stored held
    rw [seen, Option.any_some, Option.any_some]
    exact decide_eq_decide.mpr (fileId_iff stored there ((filePath_eq_some_iff stored).mpr ⟨known, placed, same⟩))

theorem own_of_asserted {edges : List EdgeIR} {edge : EdgeIR}
    (asserted : (assertedEdges store (fileIdOf store ir.path) edges).lookup key = some edge) :
    (nodeView store key.src).any (·.path = ir.path) = true := by
  have resolved := (resolved_of_assertedEdges asserted).2
  rw [resolveEdge_eq] at resolved
  obtain ⟨src, own, rest⟩ := Option.bind_eq_some_iff.mp resolved
  obtain ⟨_, _, rfl⟩ := Option.map_eq_some_iff.mp rest
  obtain ⟨node, alone, rfl⟩ := Option.map_eq_some_iff.mp own
  obtain ⟨held, same⟩ := mem_ownNodes.mp (mem_of_mem_filter (mem_of_single alone))
  rw [← isOwn_eq stored listed, isOwn, held]
  exact decide_eq_true same

theorem edgeEffect_idle (foreign : (nodeView store key.src).any (·.path = ir.path) = false) (held : Option EdgeRow) : edgeEffect store key held ir = held := by
  unfold edgeEffect
  cases ir.edges with
  | none => rfl
  | some edges =>
    dsimp only
    cases asserted : (assertedEdges store (fileIdOf store ir.path) edges).lookup key with
    | some edge => exact absurd (own_of_asserted stored listed asserted) (by rw [foreign]; exact Bool.false_ne_true)
    | none =>
      dsimp only
      rw [foreign]
      cases held <;> rfl

end

theorem edgeEffect_again (store : Store) (key : EdgeKey) (held : Option EdgeRow) (ir : StoreFileIR) :
    edgeEffect store key (edgeEffect store key held ir) ir = edgeEffect store key held ir := by
  unfold edgeEffect
  cases ir.edges with
  | none => rfl
  | some edges =>
    dsimp only
    cases (assertedEdges store (fileIdOf store ir.path) edges).lookup key with
    | some edge =>
      cases held with
      | none => simp
      | some row => by_cases stays : row = edgeRow edge ∨ isProtected (scopeOf ir) row edge <;> simp [stays]
    | none =>
      dsimp only
      rw [Option.filter_filter]
      simp only [Bool.and_self]

theorem attributeEffect_idle (foreign : (nodeView store id).any (·.path = ir.path) = false) (held : Option NodeAttributes) :
    attributeEffect store id held ir = held := by
  have none : (nodeView store id).filter (·.path = ir.path) = none := by
    cases seen : nodeView store id with
    | none => rfl
    | some view =>
      rw [seen, Option.any_some] at foreign
      rw [Option.filter, foreign]
      rfl
  unfold attributeEffect
  rw [none]
  exact ite_self _

theorem attributeEffect_again (store : Store) (id : NodeId) (held : Option NodeAttributes) (ir : StoreFileIR) :
    attributeEffect store id (attributeEffect store id held ir) ir = attributeEffect store id held ir := by
  unfold attributeEffect
  by_cases absent : ir.exports = none ∧ ir.routes = none
  · simp [absent]
  · rw [if_neg absent, if_neg absent]
    cases (nodeView store id).filter (·.path = ir.path) with
    | none => rfl
    | some view =>
      dsimp only
      rw [Option.getD_some]
      cases ir.exports <;> cases ir.routes <;> rfl

theorem owner_unique (distinct : (files.map StoreFileIR.path).Nodup) {view : Option NodeView} :
    ∀ one ∈ files, ∀ other ∈ files, view.any (·.path = one.path) = true → view.any (·.path = other.path) = true → one = other := by
  intro one member other listed first second
  obtain ⟨seen, found, same⟩ := (Option.any_eq_true _ _).mp first
  rw [found, Option.any_some] at second
  exact inj_on_of_nodup_map distinct member listed ((of_decide_eq_true same).symm.trans (of_decide_eq_true second))

theorem commuting_edges (stored : Stored host store) (listed : Listed store files) (distinct : (files.map StoreFileIR.path).Nodup)
    (key : EdgeKey) : Commuting (edgeEffect store key) files :=
  commuting_of_owners (fun ir => (nodeView store key.src).any (·.path = ir.path) = true)
    (fun _ member foreign => edgeEffect_idle stored (listed.alone member) (Bool.eq_false_iff.mpr foreign)) (owner_unique distinct)

theorem commuting_attributes (store : Store) (distinct : (files.map StoreFileIR.path).Nodup) (id : NodeId) :
    Commuting (attributeEffect store id) files :=
  commuting_of_owners (fun ir => (nodeView store id).any (·.path = ir.path) = true)
    (fun _ _ foreign => attributeEffect_idle (Bool.eq_false_iff.mpr foreign)) (owner_unique distinct)

end effects

section passes

variable {pending : Pending}

def hasValidEdges (ir : StoreFileIR) : Bool := ir.edges.all (·.all isValidEdge)

theorem isSome_upsertFileEdges (store : Store) (pending : Pending) : (upsertFileEdges store pending).isSome = hasValidEdges pending.ir := by
  unfold upsertFileEdges hasValidEdges
  cases pending.ir.edges with
  | none => rfl
  | some edges =>
    rw [Option.all_some]
    cases sound : edges.all isValidEdge <;> simp [sound]

theorem attributes_upsertFileEdges (run : upsertFileEdges store pending = some next) : next.nodeAttributes = store.nodeAttributes := by
  unfold upsertFileEdges at run
  split at run
  · cases run
    rfl
  · split at run <;> cases run
    rfl

theorem tables_upsertFileAttributes (store : Store) (pending : Pending) : (upsertFileAttributes store pending).nodes = store.nodes ∧
    (upsertFileAttributes store pending).files = store.files ∧ (upsertFileAttributes store pending).edges = store.edges := by
  unfold upsertFileAttributes
  split <;> exact ⟨rfl, rfl, rfl⟩

theorem edges_upsertFileEdges (stored : Stored host store) (listed : Listed store [pending.ir])
    (known : pending.fileId = fileIdOf store pending.ir.path) (run : upsertFileEdges store pending = some next) (key : EdgeKey) :
    next.edges.lookup key = edgeEffect store key (store.edges.lookup key) pending.ir := by
  unfold upsertFileEdges at run
  unfold edgeEffect
  cases given : pending.ir.edges with
  | none =>
    rw [given] at run
    cases run
    rfl
  | some edges =>
    rw [given] at run
    dsimp only at run ⊢
    split at run
    · cases run
      rw [known, OrderedMap.lookup_foldl_rows _ (Layers.lookup_upsertFileEdge store.edges (scopeOf pending.ir)), OrderedMap.lookup_keep]
      cases asserted : (assertedEdges store (fileIdOf store pending.ir.path) edges).lookup key with
      | some edge =>
        rw [Option.elim_some, Layers.edgeOutcome]
        cases held : store.edges.lookup key with
        | none => rfl
        | some row =>
          have contained : (assertedEdges store (fileIdOf store pending.ir.path) edges).contains key = true :=
            (OrderedMap.contains_iff _ _).mpr ⟨edge, asserted⟩
          simp [contained, Option.filter]
      | none =>
        have absent : (assertedEdges store (fileIdOf store pending.ir.path) edges).contains key = false := by
          rw [OrderedMap.contains, asserted]
          rfl
        rw [Option.elim_none, isOwn_eq stored listed, absent]
        simp only [Bool.not_false, Bool.and_true]
    · cases run

theorem attributes_upsertFileAttributes (stored : Stored host store) (listed : Listed store [pending.ir])
    (known : pending.fileId = fileIdOf store pending.ir.path) (id : NodeId) :
    (upsertFileAttributes store pending).nodeAttributes.lookup id =
      attributeEffect store id (store.nodeAttributes.lookup id) pending.ir := by
  have own : ((store.nodes.lookup id).filter fun row => row.fileId = pending.fileId).isSome =
      (nodeView store id).any (·.path = pending.ir.path) := by
    rw [← isOwn_eq stored listed, ← known, isOwn]
    cases store.nodes.lookup id with
    | none => rfl
    | some row => by_cases same : row.fileId = pending.fileId <;> simp [Option.filter, same]
  unfold upsertFileAttributes attributeEffect
  split
  · rfl
  · dsimp only [setAttributes]
    rw [Store.ownNodes, ← OrderedMap.entries_keep store.nodes fun _ row => decide (row.fileId = pending.fileId),
      OrderedMap.lookup_foldl_rows (fun _ node held => some
        { isExported := (pending.ir.exports.map (decide <| node.name ∈ ·)).getD (held.getD ⟨false, false⟩).isExported
          isRouteHandler := (pending.ir.routes.map (decide <| node.qualifiedName ∈ ·)).getD (held.getD ⟨false, false⟩).isRouteHandler })
        (fun map entry key => ?_), OrderedMap.lookup_keep]
    · cases held : store.nodes.lookup id with
      | none =>
        unfold nodeView
        rw [held]
        rfl
      | some row =>
        obtain ⟨path, file, _, _, seen⟩ := exists_nodeView stored held
        rw [held, seen, Option.any_some] at own
        rw [seen]
        by_cases mine : path = pending.ir.path
        · have row_own : row.fileId = pending.fileId := by simpa [Option.filter, viewOf, mine] using own
          simp [Option.filter, row_own, viewOf, mine]
        · have row_foreign : row.fileId ≠ pending.fileId := by simpa [Option.filter, viewOf, mine] using own
          simp [Option.filter, row_foreign, viewOf, mine]
    · rw [OrderedMap.lookup_set]
      split
      next here => rw [here]
      next => rfl

theorem edges_pass (stored : Stored host store) {pending : List Pending} (listed : Listed store (pending.map Pending.ir))
    (known : ∀ file ∈ pending, file.fileId = fileIdOf store file.ir.path) (run : pending.foldlM upsertFileEdges store = some next) :
    next.nodes = store.nodes ∧ next.files = store.files ∧ next.nodeAttributes = store.nodeAttributes ∧
      ∀ key, next.edges.lookup key = (pending.map Pending.ir).foldl (edgeEffect store key) (store.edges.lookup key) := by
  induction pending generalizing store with
  | nil =>
    cases run
    exact ⟨rfl, rfl, rfl, fun _ => rfl⟩
  | cons first pending ih =>
    rw [foldlM_cons] at run
    obtain ⟨middle, one, rest⟩ := Option.bind_eq_some_iff.mp run
    obtain ⟨nodes, files⟩ := Layers.tables_upsertFileEdges one
    have attributes : middle.nodeAttributes = store.nodeAttributes := attributes_upsertFileEdges one
    have view : ∀ id, nodeView middle id = nodeView store id := nodeView_congr nodes files
    have there : Listed middle (pending.map Pending.ir) := by
      intro ir member
      rw [files]
      exact listed ir (mem_cons_of_mem _ member)
    have after := stored_upsertFileEdges stored one
    obtain ⟨laterNodes, laterFiles, laterAttributes, rows⟩ := ih after there (fun file member => by
      rw [known file (mem_cons_of_mem _ member), fileIdOf, fileIdOf, files]) rest
    refine ⟨laterNodes.trans nodes, laterFiles.trans files, laterAttributes.trans attributes, fun key => ?_⟩
    have here : Listed store [first.ir] := listed.alone mem_cons_self
    rw [rows, map_cons, foldl_cons, edges_upsertFileEdges stored here (known first mem_cons_self) one]
    refine foldl_ext _ _ _ fun held ir member => ?_
    exact edgeEffect_congr after stored view (there.alone member) ((listed.alone (mem_cons_of_mem _ member))) key held

theorem isSome_edges_pass (store : Store) (pending : List Pending) :
    (pending.foldlM upsertFileEdges store).isSome = (pending.map Pending.ir).all hasValidEdges := by
  induction pending generalizing store with
  | nil => rfl
  | cons first pending ih =>
    rw [foldlM_cons, map_cons, all_cons, ← isSome_upsertFileEdges store first]
    cases upsertFileEdges store first with
    | none => rfl
    | some middle => exact ih middle

theorem attributes_pass (stored : Stored host store) {pending : List Pending} (listed : Listed store (pending.map Pending.ir))
    (known : ∀ file ∈ pending, file.fileId = fileIdOf store file.ir.path) :
    (pending.foldl upsertFileAttributes store).nodes = store.nodes ∧ (pending.foldl upsertFileAttributes store).files = store.files ∧
      (pending.foldl upsertFileAttributes store).edges = store.edges ∧
      ∀ id, (pending.foldl upsertFileAttributes store).nodeAttributes.lookup id =
        (pending.map Pending.ir).foldl (attributeEffect store id) (store.nodeAttributes.lookup id) := by
  induction pending generalizing store with
  | nil => exact ⟨rfl, rfl, rfl, fun _ => rfl⟩
  | cons first pending ih =>
    obtain ⟨nodes, files, edges⟩ := tables_upsertFileAttributes store first
    have there : Listed (upsertFileAttributes store first) (pending.map Pending.ir) := by
      intro ir member
      rw [files]
      exact listed ir (mem_cons_of_mem _ member)
    obtain ⟨laterNodes, laterFiles, laterEdges, rows⟩ := ih (stored_upsertFileAttributes stored first) there (fun file member => by
      rw [known file (mem_cons_of_mem _ member), fileIdOf, fileIdOf, files])
    refine ⟨laterNodes.trans nodes, laterFiles.trans files, laterEdges.trans edges, fun id => ?_⟩
    have here : Listed store [first.ir] := listed.alone mem_cons_self
    have view : attributeEffect (upsertFileAttributes store first) id = attributeEffect store id := by
      unfold attributeEffect
      rw [nodeView_congr nodes files]
    rw [foldl_cons, rows, map_cons, foldl_cons, attributes_upsertFileAttributes stored here (known first mem_cons_self),
      view]

end passes

end Remnic.CodingGraph.BatchEdges
