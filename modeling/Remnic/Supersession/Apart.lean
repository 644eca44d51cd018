import Remnic.Supersession.Apply
import Remnic.Supersession.Head
import Remnic.Supersession.Validity

/-!
A memory that a supersession has given its end is never valid together with its
successor, unless the successor is valid since ever.
-/

namespace Remnic.Supersession.Apart
open Library.Transition Text.CodeUnits Memory.SupersessionKey Decision Store Calls Head Validity List Bool
open Tombstone.Entry (truthy)

/-- The scan orders by the start of its replacement, or the replacement has a start of its own. -/
def listsStart (scan : Scan) : Bool :=
  scan.replacement.any fun file =>
    (explicitValidAt file.frontmatter).isSome || scan.persistedCreatedAt = effectiveValidAt file.frontmatter

/-- A supersession that finds no end sets it to the start of the replacement. -/
def fillsEnd (scan : Scan) (fresh : MemoryFrontmatter) : Bool :=
  truthy fresh.invalidAt = none && !scan.useCallerTimestamp && listsStart scan

def hasPath (files : List MemoryFile) (path : JsString) : Bool := files.any fun file => file.path = path

variable {Call : Type}

/-- A write to the memory at a path, or to one that it is a chunk of, fills an end that is not there. -/
def FillsAt (path : JsString) : Phase → Prop
  | .marking position fresh _ =>
    fresh.path = path ∨ hasPath (chunksOf position.scan.allCandidates fresh.frontmatter.id) path = true →
      fillsEnd position.scan fresh.frontmatter = true
  | .expiringChunk _ chunk =>
    chunk.path = path → chunk.frontmatter.isActive = true → truthy chunk.frontmatter.invalidAt = none
  | _ => True

def Fills (path : JsString) (world : World Call) : Action Call → Prop
  | .mark call _ | .expire call _ => FillsAt path (world.phases call)
  | _ => True

section Starts

structure SameStart (first second : MemoryFrontmatter) : Prop where
  validAt : first.validAt = second.validAt
  created : first.created = second.created

theorem SameStart.effective {first second : MemoryFrontmatter} (same : SameStart first second) :
    effectiveValidAt first = effectiveValidAt second := by
  unfold effectiveValidAt
  rw [same.validAt, same.created]

def OneStart (store other : MemoryStore) : Prop :=
  ∀ file ∈ store.files, ∀ copy ∈ other.files, file.frontmatter.id = copy.frontmatter.id →
    SameStart file.frontmatter copy.frontmatter

/-- A memory ends where the stored ones with the id start. -/
def EndsAt (store : MemoryStore) (invalidAt : Option JsString) (replacementId : JsString) : Prop :=
  ∃ file ∈ store.files, file.frontmatter.id = replacementId ∧ truthy invalidAt = truthy (some (effectiveValidAt file.frontmatter))

/-- A patch leaves a memory its id and its start. -/
structure KeepsStart (patch : MemoryFrontmatter → MemoryFrontmatter) : Prop where
  id : ∀ frontmatter, (patch frontmatter).id = frontmatter.id
  start : ∀ frontmatter, SameStart (patch frontmatter) frontmatter

variable (replacementId : JsString) (mutation : TemporalSupersessionMutation)

theorem keepsStart_temporalMutationPatch : KeepsStart (temporalMutationPatch replacementId mutation) :=
  ⟨fun _ => rfl, fun _ => ⟨rfl, rfl⟩⟩

theorem keepsStart_childPatch : KeepsStart (childPatch replacementId mutation) :=
  ⟨fun _ => rfl, fun _ => ⟨rfl, rfl⟩⟩

end Starts

/-- What a phase knows of the replacement: the listed one has been stored, and a mutation that may reach the path ends at
its start. -/
def Knows (host : Host) (path : JsString) (world : World Call) : Phase → Prop
  | .idle | .finished | .readingHot .. => True
  | .readingCold _ _ _ hotMemories => ∀ file ∈ hotMemories, ∃ store ∈ world.past, file ∈ store.files
  | .scanning position => Stored position.scan
  | .marking position fresh mutation => Stored position.scan ∧
    ∃ matchedKeys, mutation = mutationOf host position.scan fresh.frontmatter matchedKeys
  | .expiring expiry => Stored expiry.position.scan ∧ (hasPath expiry.chunks path = true → Given expiry)
  | .expiringChunk expiry chunk => Stored expiry.position.scan ∧
    (hasPath expiry.chunks path = true ∨ chunk.path = path → Given expiry)
where
  Stored (scan : Scan) : Prop := ∀ file, scan.replacement = some file →
    file.frontmatter.id = scan.newMemoryId ∧ ∃ store ∈ world.past, file ∈ store.files
  Given (expiry : Expiry) : Prop := EndsAt world.store expiry.mutation.invalidAt expiry.position.scan.newMemoryId

/-- The invariant of the runs that fill the ends at a path. -/
structure Ended (host : Host) (path : JsString) (world : World Call) : Prop where
  current : world.store ∈ world.past
  starts : ∀ store ∈ world.past, OneStart store world.store
  known : ∀ store ∈ world.past, ∀ file ∈ store.files, ∃ copy ∈ world.store.files, copy.frontmatter.id = file.frontmatter.id
  ends : ∀ file ∈ world.store.files, file.path = path → ∀ replacementId, link file.frontmatter = some replacementId →
    EndsAt world.store file.frontmatter.invalidAt replacementId
  knows : ∀ call, Knows host path world (world.phases call)
  fits : ∀ call, Head.Fits (world.phases call)

section Truthy

variable {value other : Option JsString}

theorem truthy_truthy (value : Option JsString) : truthy (truthy value) = truthy value := by
  cases value with
  | none => rfl
  | some held => by_cases empty : held = [] <;> simp [truthy, Option.filter, empty]

theorem truthy_or_of_none (none_ : truthy other = none) : truthy ((truthy value).or other) = truthy value := by
  cases held : truthy value with
  | none => exact none_
  | some text_ =>
    rw [Option.some_or, ← held, truthy_truthy]

end Truthy

section Stores

variable {store next : MemoryStore} {path : JsString} {patch : MemoryFrontmatter → MemoryFrontmatter} {file : MemoryFile}

variable {second first : MemoryFrontmatter}

theorem SameStart.symm (same : SameStart first second) : SameStart second first :=
  ⟨same.validAt.symm, same.created.symm⟩

theorem SameStart.trans {third : MemoryFrontmatter} (same : SameStart first second) (later : SameStart second third) :
    SameStart first third :=
  ⟨same.validAt.trans later.validAt, same.created.trans later.created⟩

/-- The next store has the memories of a store, with their starts. -/
structure Follows (store next : MemoryStore) : Prop where
  forward : ∀ file ∈ store.files, ∃ copy ∈ next.files, copy.frontmatter.id = file.frontmatter.id ∧
    SameStart copy.frontmatter file.frontmatter
  one : OneStart store next
  self : OneStart next next

theorem EndsAt.follows {invalidAt : Option JsString} {replacementId : JsString} (follows : Follows store next)
    (ends : EndsAt store invalidAt replacementId) : EndsAt next invalidAt replacementId := by
  obtain ⟨file, listed, named, ended⟩ := ends
  obtain ⟨copy, later, same, start⟩ := follows.forward file listed
  exact ⟨copy, later, same.trans named, by rw [ended, start.effective]⟩

theorem mem_write_origin (keeps : KeepsStart patch) (listed : file ∈ (writeMemoryFrontmatter store path patch).files) :
    ∃ old ∈ store.files, file.frontmatter.id = old.frontmatter.id ∧ SameStart file.frontmatter old.frontmatter := by
  rw [files_write] at listed
  obtain ⟨old, before, rfl⟩ := mem_map.mp listed
  refine ⟨old, before, ?_⟩
  unfold patchAt
  split_ifs
  · exact ⟨keeps.id _, keeps.start _⟩
  · exact ⟨rfl, rfl, rfl⟩

theorem follows_write (one : OneStart store store) (keeps : KeepsStart patch) :
    Follows store (writeMemoryFrontmatter store path patch) where
  forward := by
    intro file listed
    refine ⟨patchAt path patch file, ?_, ?_⟩
    · rw [files_write]
      exact mem_map_of_mem listed
    · unfold patchAt
      split_ifs
      · exact ⟨keeps.id _, keeps.start _⟩
      · exact ⟨rfl, rfl, rfl⟩
  one := by
    intro file listed copy later same
    obtain ⟨old, before, named, start⟩ := mem_write_origin keeps later
    exact (one file listed old before (same.trans named)).trans start.symm
  self := by
    intro file listed copy later same
    obtain ⟨first, before, named, start⟩ := mem_write_origin keeps listed
    obtain ⟨second, before_, named_, start_⟩ := mem_write_origin keeps later
    exact start.trans ((one first before second before_ (named.symm.trans (same.trans named_))).trans start_.symm)

theorem follows_changed {expected : MemoryFile} (one : OneStart store store) (keeps : KeepsStart patch)
    (changed : writeMemoryFrontmatterIfUnchanged store expected patch = some next) : Follows store next := by
  unfold writeMemoryFrontmatterIfUnchanged at changed
  split_ifs at changed
  cases changed
  exact follows_write one keeps

theorem follows_persist (one : OneStart store store) (fresh : file.path ∉ store.files.map MemoryFile.path)
    (unknown : file.frontmatter.id ∉ store.files.map (·.frontmatter.id)) : Follows store (persist store file fresh) where
  forward := fun old listed => ⟨old, mem_cons_of_mem _ listed, rfl, rfl, rfl⟩
  one := by
    intro old listed copy later same
    rcases mem_cons.mp later with rfl | before
    · exact absurd (mem_map.mpr ⟨old, listed, same⟩) unknown
    · exact one old listed copy before same
  self := by
    intro first listed second later same
    rcases mem_cons.mp listed with rfl | before
    · rcases mem_cons.mp later with rfl | before_
      · exact ⟨rfl, rfl⟩
      · exact absurd (mem_map.mpr ⟨second, before_, same.symm⟩) unknown
    · rcases mem_cons.mp later with rfl | before_
      · exact absurd (mem_map.mpr ⟨first, before, same⟩) unknown
      · exact one first before second before_ same

end Stores

section Filling

variable {host : Host} {scan : Scan} {fresh : MemoryFrontmatter}

theorem invalidAtPatch_of_fills (fills : fillsEnd scan fresh = true) :
    truthy fresh.invalidAt = none ∧ ∃ file, scan.replacement = some file ∧
      invalidAtPatch scan fresh = some (effectiveValidAt file.frontmatter) := by
  unfold fillsEnd listsStart at fills
  rw [and_eq_true, and_eq_true, decide_eq_true_eq, not_eq_true', Option.any_eq_true] at fills
  obtain ⟨⟨free, own⟩, file, replaces, start⟩ := fills
  refine ⟨free, file, replaces, ?_⟩
  unfold invalidAtPatch
  rw [free, if_neg (by simp), if_neg (by rw [own]; exact false_ne_true), replaces, Option.bind_some]
  unfold explicitValidAt at start
  unfold effectiveValidAt
  cases explicit : truthy (file.frontmatter.validAt.map trim) with
  | some validAt => rfl
  | none =>
    rw [explicit, or_eq_true, decide_eq_true_eq] at start
    unfold effectiveValidAt at start
    rw [explicit] at start
    rcases start with some_ | ordered
    · cases some_
    · rw [Option.getD_none, ordered, Option.getD_none]

end Filling

section Worlds

variable {host : Host} {path : JsString} {world : World Call} {phase : Phase} {next : MemoryStore}

theorem Knows.stored (follows : Follows world.store next) (knows : Knows host path world phase) :
    Knows host path (world.stored next) phase := by
  have scans {scan : Scan} (stored : Knows.Stored world scan) : Knows.Stored (world.stored next) scan := by
    intro file replaces
    obtain ⟨named, store, past, listed⟩ := stored file replaces
    exact ⟨named, store, mem_cons_of_mem _ past, listed⟩
  cases phase with
  | idle => trivial
  | readingHot => trivial
  | finished => trivial
  | readingCold args entityRef attributes hotMemories =>
    intro file listed
    obtain ⟨store, past, held⟩ := knows file listed
    exact ⟨store, mem_cons_of_mem _ past, held⟩
  | scanning position => exact scans knows
  | marking position fresh mutation => exact ⟨scans knows.1, knows.2⟩
  | expiring expiry => exact ⟨scans knows.1, fun reaches => (knows.2 reaches).follows follows⟩
  | expiringChunk expiry chunk => exact ⟨scans knows.1, fun reaches => (knows.2 reaches).follows follows⟩

theorem Ended.stored (ended : Ended host path world) (follows : Follows world.store next)
    (ends : ∀ file ∈ next.files, file.path = path → ∀ replacementId, link file.frontmatter = some replacementId →
      EndsAt next file.frontmatter.invalidAt replacementId) : Ended host path (world.stored next) where
  current := mem_cons_self
  starts := by
    intro store past
    rcases mem_cons.mp past with rfl | before
    · exact follows.self
    · intro file listed copy later same
      obtain ⟨old, held, named⟩ := ended.known store before file listed
      exact (ended.starts store before file listed old held named.symm).trans
        (follows.one old held copy later (named.trans same))
  known := by
    intro store past file listed
    rcases mem_cons.mp past with rfl | before
    · exact ⟨file, listed, rfl⟩
    · obtain ⟨old, held, named⟩ := ended.known store before file listed
      obtain ⟨copy, later, same, _⟩ := follows.forward old held
      exact ⟨copy, later, same.trans named⟩
  ends := ends
  knows := fun other => (ended.knows other).stored follows
  fits := ended.fits

theorem Ended.endsAt_of_listed (ended : Ended host path world) {scan : Scan} {file : MemoryFile}
    (stored : Knows.Stored world scan) (replaces : scan.replacement = some file) {invalidAt : Option JsString}
    (ends : truthy invalidAt = truthy (some (effectiveValidAt file.frontmatter))) :
    EndsAt world.store invalidAt scan.newMemoryId := by
  obtain ⟨named, store, past, listed⟩ := stored file replaces
  obtain ⟨copy, held, same⟩ := ended.known store past file listed
  refine ⟨copy, held, same.trans named, ?_⟩
  rw [ends, (ended.starts store past file listed copy held same.symm).effective]

theorem Ended.given (ended : Ended host path world) {scan : Scan} {fresh : MemoryFrontmatter}
    (stored : Knows.Stored world scan) (fills : fillsEnd scan fresh = true) (matchedKeys : List JsString) :
    EndsAt world.store (temporalMutationPatch scan.newMemoryId (mutationOf host scan fresh matchedKeys) fresh).invalidAt
      scan.newMemoryId ∧
    EndsAt world.store (childMutation (mutationOf host scan fresh matchedKeys) fresh).invalidAt scan.newMemoryId := by
  obtain ⟨free, file, replaces, patch⟩ := invalidAtPatch_of_fills fills
  have mutated : (mutationOf host scan fresh matchedKeys).invalidAt = truthy (some (effectiveValidAt file.frontmatter)) := by
    unfold mutationOf
    rw [patch]
  have filled : truthy ((truthy (some (effectiveValidAt file.frontmatter))).or fresh.invalidAt) =
      truthy (some (effectiveValidAt file.frontmatter)) := truthy_or_of_none free
  refine ⟨ended.endsAt_of_listed stored replaces ?_, ended.endsAt_of_listed stored replaces ?_⟩
  · unfold temporalMutationPatch
    rw [mutated, truthy_truthy]
    exact filled
  · unfold childMutation
    rw [mutated, truthy_truthy]
    exact filled

theorem Ended.write (ended : Ended host path world) {expected : MemoryFile} {patch : MemoryFrontmatter → MemoryFrontmatter}
    {replacementId : JsString} (keeps : KeepsStart patch)
    (changed : writeMemoryFrontmatterIfUnchanged world.store expected patch = some next)
    (marks : Marks replacementId expected.frontmatter (patch expected.frontmatter))
    (ends : expected.path = path → expected ∈ world.store.files → truthy (some replacementId) = some replacementId →
      EndsAt world.store (patch expected.frontmatter).invalidAt replacementId) : Ended host path (world.stored next) := by
  have follows := follows_changed (ended.starts _ ended.current) keeps changed
  unfold writeMemoryFrontmatterIfUnchanged at changed
  split_ifs at changed with read
  cases changed
  refine ended.stored follows fun file listed same replacementId_ linked => ?_
  rcases (mem_files_write read).mp listed with rfl | ⟨before, _⟩
  · rw [link_of_marks marks] at linked
    have named := eq_of_truthy linked
    rw [named] at linked ⊢
    exact (ends same (mem_of_find?_eq_some read) linked).follows follows
  · exact (ended.ends file before same replacementId_ linked).follows follows

theorem knows_nextCandidate {position : Position} (knows : Knows host path world (.scanning position)) (read : Bool) :
    Knows host path world (nextCandidate host world.store position read) := by
  unfold nextCandidate
  split
  next => trivial
  next memory rest _ =>
    split
    next => exact knows
    next => exact knows
    next matchedKeys _ =>
      split
      next => exact knows
      next fresh _ =>
        split_ifs
        · exact ⟨knows, matchedKeys, rfl⟩
        · exact knows

theorem hasPath_tail {chunk : MemoryFile} {chunks : List MemoryFile} (reaches : hasPath chunks path = true) :
    hasPath (chunk :: chunks) path = true := by
  unfold hasPath
  rw [any_cons, or_eq_true]
  exact .inr reaches

theorem knows_nextChunk {expiry : Expiry} (knows : Knows host path world (.expiring expiry)) (read recorded : Bool) :
    Knows host path world (nextChunk world.store expiry read recorded) := by
  obtain ⟨stored, given⟩ := knows
  unfold nextChunk
  split
  next => exact stored
  next chunk chunks listed =>
    have later (reaches : hasPath chunks path = true) : hasPath expiry.chunks path = true := by
      rw [listed]
      exact hasPath_tail reaches
    split_ifs
    · exact ⟨stored, fun reaches => given (later reaches)⟩
    · exact stored
    · split
      next => exact ⟨stored, fun reaches => given (later reaches)⟩
      next fresh read =>
        dsimp only
        split_ifs
        · refine ⟨stored, fun reaches => ?_⟩
          rcases reaches with more | same
          · exact given (later more)
          · apply given
            unfold hasPath
            rw [listed, any_cons, or_eq_true]
            exact .inl (decide_eq_true ((readMemoryByPath_path read).symm.trans same))
        · exact ⟨stored, fun reaches => given (later reaches)⟩

theorem knows_scanOf {args : SupersessionArgs} {entityRef : JsString} {attributes : Attributes}
    {hotMemories coldMemories : List MemoryFile} (hot : ∀ file ∈ hotMemories, ∃ store ∈ world.past, file ∈ store.files)
    (cold : ∀ file ∈ coldMemories, ∃ store ∈ world.past, file ∈ store.files) :
    Knows.Stored world (scanOf args entityRef attributes hotMemories coldMemories) := by
  intro file replaces
  have found : findById (hotMemories ++ coldMemories) args.newMemoryId = some file := replaces
  have named : file.frontmatter.id = args.newMemoryId := by simpa using find?_some found
  refine ⟨named, ?_⟩
  rcases mem_append.mp (mem_of_find?_eq_some found) with first | second
  · exact hot file first
  · exact cold file second

end Worlds

section Steps

variable [DecidableEq Call] {host : Host} {path : JsString} {world next : World Call} {call : Call} {phase : Phase}

theorem Ended.at (ended : Ended host path world) (knows : Knows host path world phase) (fits : Head.Fits phase) :
    Ended host path (world.at call phase) where
  current := ended.current
  starts := ended.starts
  known := ended.known
  ends := ended.ends
  knows := by
    intro other
    change Knows host path world (Function.update world.phases call phase other)
    by_cases same : other = call
    · rw [same, Function.update_self]
      exact knows
    · rw [Function.update_of_ne same]
      exact ended.knows other
  fits := by
    intro other
    change Head.Fits (Function.update world.phases call phase other)
    by_cases same : other = call
    · rw [same, Function.update_self]
      exact fits
    · rw [Function.update_of_ne same]
      exact ended.fits other

theorem ended_step {action : Action Call} (ended : Ended host path world) (fills : Fills path world action)
    (stepped : step host world action = some next) : Ended host path next := by
  cases action with
  | persist file =>
    simp only [step] at stepped
    split_ifs at stepped with fresh admitted
    cases stepped
    have follows := follows_persist (ended.starts _ ended.current) fresh admitted.1
    refine ended.stored follows fun other listed same replacementId linked => ?_
    rcases mem_cons.mp listed with rfl | before
    · have unlinked := admitted.2
      simp only [stillOpen, and_eq_true, decide_eq_true_eq] at unlinked
      unfold link at linked
      rw [unlinked.2] at linked
      cases linked
    · exact (ended.ends other before same replacementId linked).follows follows
  | begin call args =>
    simp only [step] at stepped
    split_ifs at stepped
    split at stepped
    next =>
      cases stepped
      exact ended.at trivial (fits_of_none rfl)
    next =>
      cases stepped
      exact ended.at trivial (fits_of_none rfl)
  | readHot call age =>
    simp only [step] at stepped
    split at stepped
    next =>
      split at stepped
      next =>
        cases stepped
        exact ended.at trivial (fits_of_none rfl)
      next listed held =>
        cases stepped
        obtain ⟨age, _, at_⟩ := Option.bind_eq_some_iff.mp held
        refine ended.at (fun file hot => ⟨listed, mem_of_getElem? at_, ?_⟩) (fits_of_none rfl)
        exact mem_append_left _ hot
    next => cases stepped
  | readCold call age =>
    simp only [step] at stepped
    split at stepped
    next args entityRef attributes hotMemories phase =>
      cases stepped
      have knows := ended.knows call
      rw [phase] at knows
      refine ended.at (knows_scanOf knows fun file cold => ?_) (fits_of_none rfl)
      cases held : age.bind (world.past[·]?) with
      | none =>
        rw [held] at cold
        cases cold
      | some listed =>
        rw [held] at cold
        obtain ⟨age, _, at_⟩ := Option.bind_eq_some_iff.mp held
        exact ⟨listed, mem_of_getElem? at_, mem_append_right _ cold⟩
    next => cases stepped
  | next call read =>
    simp only [step] at stepped
    split at stepped
    next position phase =>
      cases stepped
      have knows := ended.knows call
      rw [phase] at knows
      exact ended.at (knows_nextCandidate knows read) (fits_nextCandidate position read)
    next => cases stepped
  | mark call written =>
    simp only [step] at stepped
    split at stepped
    next position fresh mutation phase =>
      have knows := ended.knows call
      rw [phase] at knows
      obtain ⟨stored, matchedKeys, rfl⟩ := knows
      simp only [Fills, FillsAt, phase] at fills
      split at stepped
      next =>
        cases stepped
        exact ended.at stored (fits_of_none rfl)
      next after changed =>
        cases stepped
        split_ifs at changed
        have keeps := keepsStart_temporalMutationPatch position.scan.newMemoryId
          (mutationOf host position.scan fresh.frontmatter matchedKeys)
        have follows := follows_changed (ended.starts _ ended.current) keeps changed
        have written := ended.write keeps changed (marks_temporalMutationPatch _ _ _) fun same _ _ => ?_
        · have later := ended.knows call
          rw [phase] at later
          refine written.at ⟨(later.stored follows).1, fun reaches => ?_⟩ (fits_of_none rfl)
          exact (ended.given stored (fills (.inr reaches)) matchedKeys).2.follows follows
        · exact (ended.given stored (fills (.inl same)) matchedKeys).1
    next => cases stepped
  | nextChunk call read recorded =>
    simp only [step] at stepped
    split at stepped
    next expiry phase =>
      cases stepped
      have knows := ended.knows call
      rw [phase] at knows
      exact ended.at (knows_nextChunk knows read recorded) (fits_nextChunk expiry read recorded)
    next => cases stepped
  | expire call written =>
    simp only [step] at stepped
    split at stepped
    next expiry chunk phase =>
      have knows := ended.knows call
      have fits := ended.fits call
      rw [phase] at knows fits
      simp only [Fills, FillsAt, phase] at fills
      split at stepped
      next =>
        cases stepped
        exact ended.at knows.1 (fits_of_none rfl)
      next after changed =>
        cases stepped
        split_ifs at changed
        have keeps := keepsStart_childPatch expiry.position.scan.newMemoryId expiry.mutation
        have follows := follows_changed (ended.starts _ ended.current) keeps changed
        have written := ended.write keeps changed (marks_childPatch _ _ _) fun same listed named => ?_
        · exact written.at ⟨(knows.stored follows).1, fun reaches => (knows.2 (.inl reaches)).follows follows⟩ (fits_of_none rfl)
        · change EndsAt world.store (if (truthy chunk.frontmatter.invalidAt).isSome then chunk.frontmatter.invalidAt
            else (truthy expiry.mutation.invalidAt).or chunk.frontmatter.invalidAt) _
          split_ifs with held
          · rcases fits _ rfl with active | linked
            · rw [fills same active] at held
              cases held
            · refine ended.ends chunk listed same _ ?_
              unfold link
              rw [linked, named]
          · obtain ⟨file, stored, called, given⟩ := knows.2 (.inr same)
            refine ⟨file, stored, called, ?_⟩
            rw [truthy_or_of_none (Option.not_isSome_iff_eq_none.mp held), given]
    next => cases stepped
  | giveUp call =>
    simp only [step] at stepped
    split at stepped
    next expiry phase =>
      cases stepped
      have knows := ended.knows call
      rw [phase] at knows
      exact ended.at knows.1 (fits_of_none rfl)
    next expiry chunk phase =>
      cases stepped
      have knows := ended.knows call
      rw [phase] at knows
      exact ended.at knows.1 (fits_of_none rfl)
    next => cases stepped

end Steps

theorem ended_initial [DecidableEq Call] {host : Host} {path : JsString} {start : MemoryStore} (one : OneStart start start)
    (unlinked : ∀ file ∈ start.files, file.path = path → link file.frontmatter = none) :
    Ended host path (initial start : World Call) where
  current := mem_cons_self
  starts := by
    intro store past
    rw [mem_singleton.mp past]
    exact one
  known := by
    intro store past file listed
    rw [mem_singleton.mp past] at listed
    exact ⟨file, listed, rfl⟩
  ends := by
    intro file listed same replacementId linked
    rw [unlinked file listed same] at linked
    cases linked
  knows := fun _ => trivial
  fits := fun _ => fits_of_none rfl

/-- The main result: in every run whose writes fill the end of a memory, it is never valid together with the memory that
has superseded it, unless that one is valid since ever. -/
theorem superseded_apart [DecidableEq Call] (host : Host) (blank : host.dateParse [] = none) (start : MemoryStore)
    (one : OneStart start start) (path : JsString)
    (unlinked : ∀ file ∈ start.files, file.path = path → link file.frontmatter = none) (world : World Call)
    (reached : Reaches (step host) (Fills path) (initial start) world) :
    ∀ first ∈ world.store.files, first.path = path → ∀ second ∈ world.store.files,
      link first.frontmatter = some second.frontmatter.id → trim second.frontmatter.created = second.frontmatter.created →
        openStartEnd host second.frontmatter = none → ∀ asOf : ℚ,
          ¬(isValidAsOf host first.frontmatter asOf = true ∧ isValidAsOf host second.frontmatter asOf = true) := by
  intro first listed same second stored linked trimmed closed asOf
  have ended : Ended host path world := by
    apply reached.invariant (Ended host path)
    · exact ended_initial one unlinked
    · exact fun _ _ _ ended fills stepped => ended_step ended fills stepped
  obtain ⟨copy, held, named, ends⟩ := ended.ends first listed same _ linked
  have start := ended.starts _ ended.current copy held second stored named
  exact apart_of_end blank (by rw [ends, start.effective]) trimmed closed asOf

section Samples

instance (path : JsString) (phase : Phase) : Decidable (FillsAt path phase) := by
  cases phase <;> unfold FillsAt <;> infer_instance

instance (path : JsString) (world : World Call) (action : Action Call) : Decidable (Fills path world action) :=
  match action with
  | .mark call _ | .expire call _ => inferInstanceAs (Decidable (FillsAt path (world.phases call)))
  | .persist _ | .begin .. | .readHot .. | .readCold .. | .next .. | .nextChunk .. | .giveUp _ => .isTrue trivial

theorem superseded_apart_move : ∃ world : World Nat,
    Reaches (step sampleHost) (Fills austin.path) (initial onlyAustin) world ∧
      ∃ first ∈ world.store.files, first.path = austin.path ∧ ∃ second ∈ world.store.files,
        link first.frontmatter = some second.frontmatter.id ∧ ∀ asOf : ℚ,
          ¬(isValidAsOf sampleHost first.frontmatter asOf = true ∧ isValidAsOf sampleHost second.frontmatter asOf = true) := by
  refine exists_reached (fun world => ∃ first ∈ world.store.files, first.path = austin.path ∧ ∃ second ∈ world.store.files,
    link first.frontmatter = some second.frontmatter.id ∧ trim second.frontmatter.created = second.frontmatter.created ∧
      openStartEnd sampleHost second.frontmatter = none) move (by decide +kernel) ?_
  intro world reached ⟨first, listed, same, second, stored, links, trimmed, unended⟩
  have one : OneStart onlyAustin onlyAustin := by
    intro file member copy member_ _
    rw [mem_singleton.mp member, mem_singleton.mp member_]
    exact ⟨rfl, rfl⟩
  exact ⟨first, listed, same, second, stored, links, superseded_apart sampleHost (by decide) onlyAustin
    one austin.path (by decide) world reached first listed same second stored links trimmed unended⟩

/-- A memory that is known to end on the ninth day. -/
def austinUntil : MemoryFile :=
  { austin with frontmatter := { austin.frontmatter with invalidAt := some (text "2026-01-09T00:00:00.000Z") } }

def austinUntilAndNyc : MemoryStore := ⟨[austinUntil, nyc], [], by decide⟩

/-- An end that is there stays, and on the third day both memories are valid. -/
theorem own_end_stays : ∃ first ∈ (Apply.applyTemporalSupersession sampleHost austinUntilAndNyc (sampleArgs nyc)).store.files,
    ∃ second ∈ (Apply.applyTemporalSupersession sampleHost austinUntilAndNyc (sampleArgs nyc)).store.files,
      link first.frontmatter = some second.frontmatter.id ∧ isValidAsOf sampleHost first.frontmatter 1767398400000 = true ∧
        isValidAsOf sampleHost second.frontmatter 1767398400000 = true := by
  decide +kernel

end Samples

end Remnic.Supersession.Apart
