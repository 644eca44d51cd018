import Remnic.CodingGraph.BatchEdges

/-!
A batch is an unordered, repeatable update of the graph that readers see.
-/

namespace Remnic.CodingGraph.BatchOrder

open Text.CodeUnits Library Library.Transition Library.CommutingFold Schema Resolve Upsert StoredRuns Batch BatchEffects BatchEdges List

variable {host : Host} {store start final again : Store} {files reordered : List StoreFileIR} {deletePaths : List JsString}
variable {dropped counts : List (JsString × Nat)} {id : NodeId} {ir : StoreFileIR}

def lostEdges (host : Host) (start : Store) (files : List StoreFileIR) (ir : StoreFileIR) : Nat :=
  start.edges.entries.countP fun edge => isPruned host start ir edge.1.dst && !files.any (isPruned host start · edge.1.src)

def isStale (host : Host) (start : Store) (files : List StoreFileIR) (id : NodeId) : Bool := files.any (isPruned host start · id)

structure Committed (host : Host) (start : Store) (files : List StoreFileIR) (final : Store) (dropped : List (JsString × Nat)) : Prop where
  stored : Stored host final
  listed : Listed final files
  nodes : ∀ id, nodeView final id = if isStale host start files id then none else files.foldl (writeView host id) (nodeView start id)
  edges : ∀ key, final.edges.lookup key = files.foldl (edgeEffect final key)
    (if isStale host start files key.src || isStale host start files key.dst then none else start.edges.lookup key)
  attributes : ∀ id, final.nodeAttributes.lookup id = files.foldl (attributeEffect final id)
    (if isStale host start files id then none else start.nodeAttributes.lookup id)
  dropped : dropped = files.map fun ir => (ir.path, lostEdges host start files ir)

section committing

theorem isSome_upsertFileBatch (host : Host) (store : Store) (files : List StoreFileIR) (deletePaths : List JsString) :
    (upsertFileBatch host store files deletePaths).isSome = true ↔
      ((files.map StoreFileIR.path).Nodup ∧ files.all isValidFile = true) ∧ files.all hasValidEdges = true := by
  unfold upsertFileBatch
  split
  next valid =>
    dsimp only
    have sound := isSome_edges_pass (pruneBatchNodes (upsertBatchNodes host (store.deleteFiles deletePaths) files).1
      (upsertBatchNodes host (store.deleteFiles deletePaths) files).2).1 (upsertBatchNodes host (store.deleteFiles deletePaths) files).2
    rw [Layers.pending_upsertBatchNodes] at sound
    rw [and_iff_right valid, ← sound]
    cases (upsertBatchNodes host (store.deleteFiles deletePaths) files).2.foldlM upsertFileEdges
      (pruneBatchNodes (upsertBatchNodes host (store.deleteFiles deletePaths) files).1
        (upsertBatchNodes host (store.deleteFiles deletePaths) files).2).1 <;> rfl
  next invalid => exact iff_of_false Bool.false_ne_true fun valid => invalid valid.1

variable {pending : List Pending} {state : Store}

theorem mem_stale_iff (written : Written host start files (state, pending)) (id : NodeId) :
    id ∈ pending.flatMap Pending.prunedNodeIds ↔ isStale host start files id = true := by
  rw [isStale, ← written.pending, any_map, any_eq_true, mem_flatMap]
  exact exists_congr fun file => and_congr_right fun member => written.pruned file member id

theorem pairwise_pruned (written : Written host start files (state, pending)) (distinct : (files.map StoreFileIR.path).Nodup) :
    pending.Pairwise fun one other => ∀ id ∈ one.prunedNodeIds, id ∉ other.prunedNodeIds := by
  rw [← written.pending, map_map] at distinct
  refine (pairwise_map.mp distinct).imp_of_mem fun {one other} member listed different id stale also => different ?_
  have first := (Bool.and_eq_true _ _ ▸ (written.pruned one member id).mp stale).1
  have second := (Bool.and_eq_true _ _ ▸ (written.pruned other listed id).mp also).1
  obtain ⟨view, seen, same⟩ := (Option.any_eq_true _ _).mp first
  rw [seen, Option.any_some] at second
  exact (of_decide_eq_true same).symm.trans (of_decide_eq_true second)

theorem droppedDanglingEdges_eq (written : Written host start files (state, pending)) {file : Pending} (member : file ∈ pending) :
    droppedDanglingEdges state file.prunedNodeIds (pending.flatMap Pending.prunedNodeIds) = lostEdges host start files file.ir := by
  unfold droppedDanglingEdges lostEdges
  rw [written.edges]
  refine countP_congr fun edge _ => ?_
  rw [Bool.and_eq_true, Bool.and_eq_true, decide_eq_true_iff, decide_eq_true_iff, written.pruned file member, mem_stale_iff written,
    Bool.not_eq_true', Bool.not_eq_true]
  rfl

theorem committed (stored : Stored host start) (separate : Separate host start files) (same : start = store.deleteFiles deletePaths)
    (run : upsertFileBatch host store files deletePaths = some (final, dropped)) : Committed host start files final dropped := by
  unfold upsertFileBatch at run
  split at run
  next valid =>
    dsimp only at run
    rw [← same] at run
    have written := written_upsertBatchNodes stored separate valid.1
    generalize upsertBatchNodes host start files = batch at run written
    obtain ⟨state, pending⟩ := batch
    dsimp only at run
    rw [fst_pruneBatchNodes, snd_pruneBatchNodes (pairwise_pruned written valid.1)] at run
    obtain ⟨edged, edges, last⟩ := Option.bind_eq_some_iff.mp run
    cases last
    set base := pending.foldl pruneFileNodes state with pruned
    have base_stored : Stored host base := stored_prune written.stored pending
    have base_files : base.files = state.files := files_prune pending state
    have listed : Listed base (pending.map Pending.ir) := by
      intro ir member
      obtain ⟨file, known, rfl⟩ := mem_map.mp member
      obtain ⟨row, held, _⟩ := written.fileIds file known
      exact ⟨row, base_files ▸ held⟩
    have known : ∀ file ∈ pending, file.fileId = fileIdOf base file.ir.path := by
      intro file member
      obtain ⟨row, held, id⟩ := written.fileIds file member
      rw [fileIdOf, base_files, held, Option.map_some, Option.getD_some, id]
    obtain ⟨edged_nodes, edged_files, edged_attributes, edged_rows⟩ := edges_pass base_stored listed known edges
    have edged_stored : Stored host edged := stored_edges base_stored edges
    have edged_listed : Listed edged (pending.map Pending.ir) := fun ir member => edged_files ▸ listed ir member
    have edged_known : ∀ file ∈ pending, file.fileId = fileIdOf edged file.ir.path := by
      intro file member
      rw [known file member, fileIdOf, fileIdOf, edged_files]
    obtain ⟨nodes, files_same, final_edges, final_rows⟩ := attributes_pass edged_stored edged_listed edged_known
    have views : ∀ id, nodeView (pending.foldl upsertFileAttributes edged) id = nodeView base id := fun id =>
      nodeView_congr (nodes.trans edged_nodes) (files_same.trans edged_files) id
    have final_stored : Stored host (pending.foldl upsertFileAttributes edged) := stored_attributes edged_stored pending
    have final_listed : Listed (pending.foldl upsertFileAttributes edged) (pending.map Pending.ir) := by
      intro ir member
      rw [files_same]
      exact edged_listed ir member
    rw [written.pending] at listed final_listed edged_rows final_rows
    refine ⟨final_stored, final_listed, fun id => ?_, fun key => ?_, fun id => ?_, ?_⟩
    · rw [views, pruned, nodeView_prune, written.views]
      exact if_congr (mem_stale_iff written id) rfl rfl
    · have rows := lookup_edges_prune written.stored pending key
      rw [← pruned, written.edges] at rows
      rw [final_edges, edged_rows, rows]
      have start_row : (if key.src ∈ pending.flatMap Pending.prunedNodeIds ∨ key.dst ∈ pending.flatMap Pending.prunedNodeIds then none
          else start.edges.lookup key) =
          if isStale host start files key.src || isStale host start files key.dst then none else start.edges.lookup key := by
        refine if_congr ?_ rfl rfl
        rw [Bool.or_eq_true, mem_stale_iff written, mem_stale_iff written]
      rw [start_row]
      exact foldl_ext _ _ _ fun held ir member =>
        edgeEffect_congr base_stored final_stored (fun id => (views id).symm) (listed.alone member) (final_listed.alone member) key held
    · have rows := lookup_attributes_prune written.stored pending id
      rw [← pruned, written.attributes] at rows
      have effect : attributeEffect edged id = attributeEffect (pending.foldl upsertFileAttributes edged) id := by
        unfold attributeEffect
        rw [nodeView_congr nodes files_same]
      rw [final_rows, edged_attributes, rows, effect]
      exact congrArg (fun start => List.foldl _ start files) (if_congr (mem_stale_iff written id) rfl rfl)
    · rw [← written.pending, map_map, written.pending]
      exact map_congr_left fun file member => congrArg (Prod.mk file.ir.path) (droppedDanglingEdges_eq written member)
  next => cases run

end committing

section nodes

theorem asserted_or_silent (host : Host) (id : NodeId) (files : List StoreFileIR) :
    (∃ ir ∈ files, ∃ view, assertedView host id ir = some view) ∨ ∀ ir ∈ files, assertedView host id ir = none := by
  by_cases said : ∃ ir ∈ files, ∃ view, assertedView host id ir = some view
  · exact .inl said
  · exact .inr fun ir member => Option.eq_none_iff_forall_ne_some.mpr fun view same => said ⟨ir, member, view, same⟩

variable {view : NodeView}

theorem placed_of_asserted (member : ir ∈ files) (said : assertedView host id ir = some view) : Placed host start files id ir.path :=
  .inr ⟨ir, member, view, said, path_of_assertedView said⟩

theorem asserter_unique (separate : Separate host start files) (distinct : (files.map StoreFileIR.path).Nodup) :
    ∀ one ∈ files, ∀ other ∈ files, assertedView host id one ≠ none → assertedView host id other ≠ none → one = other := by
  intro one member other listed first second
  obtain ⟨view, said⟩ := Option.ne_none_iff_exists'.mp first
  obtain ⟨seen, also⟩ := Option.ne_none_iff_exists'.mp second
  exact inj_on_of_nodup_map distinct member listed (separate id _ _ (placed_of_asserted member said) (placed_of_asserted listed also))

theorem commuting_nodes (separate : Separate host start files) (distinct : (files.map StoreFileIR.path).Nodup) (id : NodeId) :
    Commuting (writeView host id) files := by
  refine commuting_of_owners (fun ir => assertedView host id ir ≠ none) (fun ir _ silent held => ?_) (asserter_unique separate distinct)
  rw [writeView, not_not.mp silent, Option.none_or]

theorem Committed.nodes_said (committed : Committed host start files final dropped) (separate : Separate host start files)
    (distinct : (files.map StoreFileIR.path).Nodup) (member : ir ∈ files) (said : assertedView host id ir = some view) :
    nodeView final id = some view := by
  have fresh : isStale host start files id = false := by
    refine any_eq_false.mpr fun other listed stale => ?_
    obtain ⟨own, silent⟩ := Bool.and_eq_true _ _ ▸ stale
    obtain ⟨seen, found, same⟩ := (Option.any_eq_true _ _).mp own
    have place : Placed host start files id other.path := .inl ⟨seen, found, of_decide_eq_true same⟩
    have equal : other = ir :=
      inj_on_of_nodup_map distinct listed member (separate id _ _ place (placed_of_asserted member said))
    rw [equal, said] at silent
    cases silent
  rw [committed.nodes, fresh]
  rcases foldl_writeView host id (nodeView start id) files with ⟨other, listed, seen, also, same⟩ | ⟨silent, _⟩
  · have equal : ir = other := asserter_unique separate distinct ir member other listed (by rw [said]; exact Option.some_ne_none _)
      (by rw [also]; exact Option.some_ne_none _)
    rw [equal, also] at said
    exact same.trans said
  · rw [silent ir member] at said
    cases said

theorem Committed.nodes_silent (committed : Committed host start files final dropped)
    (silent : ∀ ir ∈ files, assertedView host id ir = none) :
    nodeView final id = (nodeView start id).filter fun view => !files.any fun ir => decide (view.path = ir.path) := by
  rw [committed.nodes]
  rcases foldl_writeView host id (nodeView start id) files with ⟨ir, member, _, said, _⟩ | ⟨_, same⟩
  · rw [silent ir member] at said
    cases said
  · rw [same]
    have stale : isStale host start files id = files.any fun ir => (nodeView start id).any (·.path = ir.path) := by
      refine Bool.eq_iff_iff.mpr (any_eq_true.trans (Iff.trans ?_ any_eq_true.symm))
      refine exists_congr fun ir => and_congr_right fun member => ?_
      rw [isPruned, silent ir member, Option.isNone_none, Bool.and_true]
    rw [stale]
    cases nodeView start id with
    | none => rw [ite_self]; rfl
    | some view =>
      by_cases own : (files.any fun ir => decide (view.path = ir.path)) = true <;> simp only [Option.any_some, Option.filter, own] <;> rfl

end nodes

section order

theorem isStale_perm (same : files.Perm reordered) (start : Store) (id : NodeId) :
    isStale host start files id = isStale host start reordered id := same.any_eq

theorem Committed.perm {other : Store} (separate : Separate host start files) (distinct : (files.map StoreFileIR.path).Nodup)
    (same : files.Perm reordered) (one : Committed host start files final dropped) (two : Committed host start reordered other counts) :
    SameGraph final other ∧ dropped.Perm counts := by
  have views : ∀ id, nodeView final id = nodeView other id := by
    intro id
    rw [one.nodes, two.nodes, isStale_perm same, (commuting_nodes separate distinct id).perm same]
  have also : Listed other files := fun ir member => two.listed ir (same.mem_iff.mp member)
  refine ⟨⟨views, fun key => ?_, fun id => ?_⟩, ?_⟩
  · rw [one.edges, two.edges, isStale_perm same, isStale_perm same, ← (commuting_edges two.stored also distinct key).perm same]
    exact foldl_ext _ _ _ fun held ir member => edgeEffect_congr one.stored two.stored views (one.listed.alone member) (also.alone member) key held
  · have effect : attributeEffect final id = attributeEffect other id := by
      unfold attributeEffect
      rw [views]
    rw [one.attributes, two.attributes, isStale_perm same, effect, (commuting_attributes other distinct id).perm same]
  · rw [one.dropped, two.dropped]
    have lost : ∀ ir, lostEdges host start files ir = lostEdges host start reordered ir := by
      intro ir
      unfold lostEdges
      refine countP_congr fun edge _ => ?_
      rw [show files.any (isPruned host start · edge.1.src) = reordered.any (isPruned host start · edge.1.src) from isStale_perm same start _]
    simp only [lost]
    exact same.map _

end order

section deletes

def isDropped (store : Store) (deletePaths : List JsString) (id : NodeId) : Bool := (nodeView store id).any (·.path ∈ deletePaths)

theorem doomed_eq (stored : Stored host store) (deletePaths : List JsString) (id : NodeId) :
    (store.nodes.lookup id).any (fun row => decide (row.fileId ∈ deletePaths.filterMap fun path => (store.files.lookup path).map FileRow.id)) =
      isDropped store deletePaths id := by
  unfold isDropped
  cases held : store.nodes.lookup id with
  | none =>
    unfold nodeView
    rw [held]
    rfl
  | some row =>
    obtain ⟨path, file, listed, same, seen⟩ := exists_nodeView stored held
    rw [seen, Option.any_some, Option.any_some]
    refine decide_eq_decide.mpr (mem_filterMap.trans ⟨?_, fun member => ⟨path, member, by rw [listed, Option.map_some, same]⟩⟩)
    rintro ⟨other, member, found⟩
    obtain ⟨known, there, also⟩ := Option.map_eq_some_iff.mp found
    exact stored.fileIds there listed (also.trans same.symm) ▸ member

theorem nodeView_deleteFiles (stored : Stored host store) (deletePaths : List JsString) (id : NodeId) :
    nodeView (store.deleteFiles deletePaths) id = (nodeView store id).filter fun view => !decide (view.path ∈ deletePaths) := by
  apply Option.ext
  intro view
  rw [nodeView_eq_some_iff (stored_deleteFiles stored deletePaths), Option.filter_eq_some_iff, nodeView_eq_some_iff stored, Bool.not_eq_true',
    decide_eq_false_iff_not]
  constructor
  · rintro ⟨row, file, held, listed, same, shown⟩
    obtain ⟨there, kept⟩ := lookup_files_deleteFiles.mp listed
    exact ⟨⟨row, file, ((lookup_nodes_deleteFiles stored).mp held).1, there, same, shown⟩, kept⟩
  · rintro ⟨⟨row, file, held, listed, same, shown⟩, kept⟩
    exact ⟨row, file, (lookup_nodes_deleteFiles stored).mpr ⟨held, view.path, file, listed, same, kept⟩,
      lookup_files_deleteFiles.mpr ⟨listed, kept⟩, same, shown⟩

theorem lookup_edges_deleteFiles (stored : Stored host store) (deletePaths : List JsString) (key : EdgeKey) :
    (store.deleteFiles deletePaths).edges.lookup key =
      if isDropped store deletePaths key.src || isDropped store deletePaths key.dst then none else store.edges.lookup key := by
  rw [← doomed_eq stored, ← doomed_eq stored]
  refine (OrderedMap.lookup_keep _).trans ?_
  cases store.edges.lookup key with
  | none => rw [ite_self]; rfl
  | some row =>
    show (some row).filter (fun _ => !(store.nodes.lookup key.src).any _ && !(store.nodes.lookup key.dst).any _) = _
    simp only [Option.filter, ← Bool.not_or]
    split <;> simp_all

theorem lookup_attributes_deleteFiles (stored : Stored host store) (deletePaths : List JsString) (id : NodeId) :
    (store.deleteFiles deletePaths).nodeAttributes.lookup id =
      if isDropped store deletePaths id then none else store.nodeAttributes.lookup id := by
  rw [← doomed_eq stored]
  refine (OrderedMap.lookup_keep _).trans ?_
  cases store.nodeAttributes.lookup id with
  | none => rw [ite_self]; rfl
  | some attributes =>
    show (some attributes).filter (fun _ => !(store.nodes.lookup id).any _) = _
    simp only [Option.filter]
    split <;> simp_all

end deletes

section repeating

variable (separate : Separate host (store.deleteFiles deletePaths) files) (distinct : (files.map StoreFileIR.path).Nodup)
variable (first : Committed host (store.deleteFiles deletePaths) files final dropped)
include separate distinct first

theorem seen_final {view : NodeView} (seen : nodeView final id = some view) :
    (∃ ir ∈ files, assertedView host id ir = some view) ∨
      ((∀ ir ∈ files, assertedView host id ir = none) ∧ nodeView (store.deleteFiles deletePaths) id = some view ∧
        ∀ ir ∈ files, view.path ≠ ir.path) := by
  rcases asserted_or_silent host id files with ⟨ir, member, view', said⟩ | silent
  · rw [first.nodes_said separate distinct member said] at seen
    exact .inl ⟨ir, member, seen ▸ said⟩
  · rw [first.nodes_silent silent, Option.filter_eq_some_iff, Bool.not_eq_true', any_eq_false] at seen
    exact .inr ⟨silent, seen.1, fun ir member same => seen.2 ir member (decide_eq_true same)⟩

theorem separate_again : Separate host (final.deleteFiles deletePaths) files := by
  refine separate.of_placed fun {id path} placed => ?_
  rcases placed with ⟨view, seen, same⟩ | said
  · rw [nodeView_deleteFiles first.stored, Option.filter_eq_some_iff] at seen
    rcases seen_final separate distinct first seen.1 with ⟨ir, member, said⟩ | ⟨_, before, _⟩
    · exact .inr ⟨ir, member, view, said, same⟩
    · exact .inl ⟨view, before, same⟩
  · exact .inr said

theorem isStale_again (id : NodeId) : isStale host (final.deleteFiles deletePaths) files id = false := by
  refine any_eq_false.mpr fun ir member stale => ?_
  obtain ⟨own, silent⟩ := Bool.and_eq_true _ _ ▸ stale
  obtain ⟨view, seen, same⟩ := (Option.any_eq_true _ _).mp own
  rw [nodeView_deleteFiles first.stored, Option.filter_eq_some_iff] at seen
  rcases seen_final separate distinct first seen.1 with ⟨other, listed, said⟩ | ⟨_, _, foreign⟩
  · have equal : other = ir := inj_on_of_nodup_map distinct listed member
      ((path_of_assertedView said).symm.trans (of_decide_eq_true same))
    rw [← equal, said] at silent
    cases silent
  · exact foreign ir member (of_decide_eq_true same)

theorem absent_of_isDropped (stored : Stored host store) (id : NodeId) (gone : isDropped final deletePaths id = true) :
    (store.deleteFiles deletePaths).nodes.contains id = false := by
  refine Bool.eq_false_iff.mpr fun present => ?_
  obtain ⟨row, held⟩ := (OrderedMap.contains_iff _ _).mp present
  obtain ⟨path, file, listed, _, seen⟩ := exists_nodeView (stored_deleteFiles stored deletePaths) held
  have kept : path ∉ deletePaths := (lookup_files_deleteFiles.mp listed).2
  obtain ⟨view, after, doomed⟩ := (Option.any_eq_true _ _).mp gone
  rcases seen_final separate distinct first after with ⟨ir, member, said⟩ | ⟨_, before, _⟩
  · have same : path = ir.path := separate id _ _ (.inl ⟨_, seen, rfl⟩) (placed_of_asserted member said)
    rw [path_of_assertedView said, ← same] at doomed
    exact kept (of_decide_eq_true doomed)
  · rw [nodeView_deleteFiles stored, Option.filter_eq_some_iff, Bool.not_eq_true', decide_eq_false_iff_not] at before
    exact before.2 (of_decide_eq_true doomed)

theorem Committed.repeated (stored : Stored host store) (second : Committed host (final.deleteFiles deletePaths) files again counts) : SameGraph final again := by
  have separated : Separate host (final.deleteFiles deletePaths) files := separate_again separate distinct first
  have views : ∀ id, nodeView final id = nodeView again id := by
    intro id
    rcases asserted_or_silent host id files with ⟨ir, member, view, said⟩ | silent
    · rw [first.nodes_said separate distinct member said, second.nodes_said separated distinct member said]
    · rw [second.nodes_silent silent, nodeView_deleteFiles first.stored, first.nodes_silent silent, nodeView_deleteFiles stored]
      simp only [Option.filter_filter]
      refine congrArg (Option.filter · (nodeView store id)) (funext fun view => ?_)
      generalize (files.any fun ir => decide (view.path = ir.path)) = own
      cases own <;> cases decide (view.path ∈ deletePaths) <;> rfl
  have fresh := isStale_again separate distinct first
  have absent := fun id => absent_of_isDropped separate distinct first stored id
  refine ⟨views, fun key => ?_, fun id => ?_⟩
  · have effects : ∀ held, files.foldl (edgeEffect again key) held = files.foldl (edgeEffect final key) held := fun held =>
      foldl_ext _ _ _ fun held ir member => edgeEffect_congr second.stored first.stored (fun id => (views id).symm)
        (second.listed.alone member) (first.listed.alone member) key held
    rw [second.edges, effects, fresh, fresh, lookup_edges_deleteFiles first.stored, Bool.or_false, if_neg Bool.false_ne_true]
    by_cases gone : (isDropped final deletePaths key.src || isDropped final deletePaths key.dst) = true
    · have none : (store.deleteFiles deletePaths).edges.lookup key = none := by
        refine Option.eq_none_iff_forall_ne_some.mpr fun row held => ?_
        obtain ⟨src, dst⟩ := (stored_deleteFiles stored deletePaths).edgeEnds held
        rcases Bool.or_eq_true _ _ ▸ gone with source | target
        · exact Bool.false_ne_true ((absent _ source).symm.trans src)
        · exact Bool.false_ne_true ((absent _ target).symm.trans dst)
      rw [if_pos gone, first.edges, none, ite_self]
    · rw [if_neg gone, first.edges]
      exact ((commuting_edges first.stored first.listed distinct key).again (fun ir _ held => edgeEffect_again final key held ir) _).symm
  · have effects : attributeEffect again id = attributeEffect final id := by
      unfold attributeEffect
      rw [views]
    rw [second.attributes, effects, fresh, lookup_attributes_deleteFiles first.stored, if_neg Bool.false_ne_true]
    by_cases gone : isDropped final deletePaths id = true
    · have none : (store.deleteFiles deletePaths).nodeAttributes.lookup id = none := by
        refine Option.eq_none_iff_forall_ne_some.mpr fun attributes held => ?_
        exact Bool.false_ne_true ((absent _ gone).symm.trans ((stored_deleteFiles stored deletePaths).attributeNode held))
      rw [if_pos gone, first.attributes, none, ite_self]
    · rw [if_neg gone, first.attributes]
      exact ((commuting_attributes final distinct id).again (fun ir _ held => attributeEffect_again final id held ir) _).symm

end repeating

section claims

theorem separate_deleteFiles (stored : Stored host store) (free : CollisionFree host (identities store files)) (deletePaths : List JsString) :
    Separate host (store.deleteFiles deletePaths) files := by
  refine (separate_of_collisionFree stored free).of_placed fun {id path} placed => placed.of_view fun {view} seen => ?_
  rw [nodeView_deleteFiles stored, Option.filter_eq_some_iff] at seen
  exact seen.1

/-- In every order of its files a batch leaves the same graph and counts, or throws; and a second time it changes nothing. -/
theorem batch_is_unordered_and_repeatable
    (reached : Reaches (step host) (fun _ _ => True) (applyCodingGraphSchema Store.blank) store)
    (free : CollisionFree host (identities store files)) :
    (∀ reordered, files.Perm reordered →
      Option.Rel (fun one other => SameGraph one.1 other.1 ∧ one.2.Perm other.2)
        (upsertFileBatch host store files deletePaths) (upsertFileBatch host store reordered deletePaths)) ∧
    ∀ final dropped, upsertFileBatch host store files deletePaths = some (final, dropped) →
      ∃ again counts, upsertFileBatch host final files deletePaths = some (again, counts) ∧ SameGraph final again := by
  have stored := stored_of_reaches reached
  have before := stored_deleteFiles stored deletePaths
  have separate : Separate host (store.deleteFiles deletePaths) files := separate_deleteFiles stored free deletePaths
  constructor
  · intro reordered same
    have alike : (upsertFileBatch host store files deletePaths).isSome = (upsertFileBatch host store reordered deletePaths).isSome := by
      rw [Bool.eq_iff_iff, isSome_upsertFileBatch, isSome_upsertFileBatch, (same.map StoreFileIR.path).nodup_iff, same.all_eq, same.all_eq]
    cases one : upsertFileBatch host store files deletePaths with
    | none =>
      rw [one, Option.isSome_none, eq_comm, Option.isSome_eq_false_iff, Option.isNone_iff_eq_none] at alike
      rw [alike]
      exact .none
    | some first =>
      rw [one, Option.isSome_some, eq_comm, Option.isSome_iff_exists] at alike
      obtain ⟨second, other⟩ := alike
      rw [other]
      have valid := ((isSome_upsertFileBatch host store files deletePaths).mp (Option.isSome_iff_exists.mpr ⟨first, one⟩)).1.1
      have moved : Separate host (store.deleteFiles deletePaths) reordered := by
        intro id path place here there
        exact separate id path place (here.of_perm same.symm) (there.of_perm same.symm)
      exact .some ((committed before separate rfl one).perm separate valid same (committed before moved rfl other))
  · intro final dropped run
    obtain ⟨valid, sound⟩ := (isSome_upsertFileBatch host store files deletePaths).mp (Option.isSome_iff_exists.mpr ⟨_, run⟩)
    have first := committed before separate rfl run
    obtain ⟨⟨again, counts⟩, second⟩ := Option.isSome_iff_exists.mp
      ((isSome_upsertFileBatch host final files deletePaths).mpr ⟨valid, sound⟩)
    have repeated : Committed host (final.deleteFiles deletePaths) files again counts :=
      committed (stored_deleteFiles first.stored deletePaths) (separate_again separate valid.1 first) rfl second
    exact ⟨again, counts, second, Committed.repeated separate valid.1 first stored repeated⟩

def linked : List StoreFileIR :=
  [{ sampleFile "store.ts" ["open", "close"] with exports := some [text "open"] },
    { sampleFile "main.ts" ["main"] with edges := some [Layers.sampleEdge .heuristic "main" "close"] }]

/-- The function is renamed, and the caller comes first. -/
def renamed : List StoreFileIR :=
  [{ sampleFile "main.ts" ["main"] with edges := some [Layers.sampleEdge .heuristic "main" "dispose"] },
    { sampleFile "store.ts" ["open", "dispose"] with exports := some [text "open"] }]

theorem batch_is_unordered_and_repeatable_renamed : ∃ store : Store,
    Reaches (step sampleHost) (fun _ _ => True) (applyCodingGraphSchema Store.blank) store ∧
      (upsertFileBatch sampleHost store renamed []).any (fun result => result.2 = [(text "main.ts", 0), (text "store.ts", 1)]) = true ∧
      (∀ reordered, renamed.Perm reordered →
        Option.Rel (fun one other => SameGraph one.1 other.1 ∧ one.2.Perm other.2)
          (upsertFileBatch sampleHost store renamed []) (upsertFileBatch sampleHost store reordered [])) ∧
      ∀ final dropped, upsertFileBatch sampleHost store renamed [] = some (final, dropped) →
        ∃ again counts, upsertFileBatch sampleHost final renamed [] = some (again, counts) ∧ SameGraph final again := by
  refine exists_reached (fun store => CollisionFree sampleHost (identities store renamed) ∧
    (upsertFileBatch sampleHost store renamed []).any fun result => result.2 = [(text "main.ts", 0), (text "store.ts", 1)])
    [.upsertFileBatch linked []] (by decide +kernel) ?_
  intro store reached ⟨free, counted⟩
  exact ⟨counted, batch_is_unordered_and_repeatable reached free⟩

end claims

end Remnic.CodingGraph.BatchOrder
