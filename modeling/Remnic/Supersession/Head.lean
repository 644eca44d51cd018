import Remnic.Library.Links
import Remnic.Supersession.Calls

/-!
Every key keeps an active memory, and no chain of successors returns to its start,
while each memory is marked for a successor that is active and carries its keys.
-/

namespace Remnic.Supersession.Head

open Library.Links Library.Transition Text.CodeUnits Memory.SupersessionKey Decision Store Calls Bool
open Tombstone.Entry (truthy)

variable (host : Host)

def Links (store : MemoryStore) (first second : JsString) : Prop :=
  ∃ file ∈ store.files, file.frontmatter.id = first ∧ link file.frontmatter = some second

structure Headed (store : MemoryStore) : Prop where
  acyclic : Acyclic (Links store)
  carried : ∀ file ∈ store.files, ∀ key ∈ keysOf host file.frontmatter,
    ∃ holder ∈ store.files, holder.frontmatter.isActive ∧ key ∈ keysOf host holder.frontmatter

/-- The successor is another memory, without a successor of its own, active, and carries
every key of the memory. -/
def Backed (store : MemoryStore) (frontmatter : MemoryFrontmatter) (replacementId : JsString) : Prop :=
  frontmatter.id ≠ replacementId ∧
    (∀ copy ∈ store.files, copy.frontmatter.id = replacementId → link copy.frontmatter = none) ∧
      ∃ holder ∈ store.files, holder.frontmatter.id = replacementId ∧ holder.frontmatter.isActive ∧
        ∀ key ∈ keysOf host frontmatter, key ∈ keysOf host holder.frontmatter

/-- The file a call is about to write, and the successor it will name. -/
def Phase.target : Phase → Option (MemoryFile × JsString)
  | .marking position fresh _ => some (fresh, position.scan.newMemoryId)
  | .expiringChunk expiry chunk => some (chunk, expiry.position.scan.newMemoryId)
  | _ => none

/-- The condition of each write: an active memory is marked for a successor that backs it. -/
def Careful {Call : Type} (world : World Call) : Action Call → Prop
  | .mark call _ | .expire call _ => ∀ target ∈ Phase.target (world.phases call),
    target.1.frontmatter.isActive → Backed host world.store target.1.frontmatter target.2
  | _ => True

/-- What a call writes is active or has this successor already. -/
def Fits (phase : Phase) : Prop :=
  ∀ target ∈ Phase.target phase,
    target.1.frontmatter.isActive ∨ target.1.frontmatter.supersededBy = some target.2

variable {host : Host} {store : MemoryStore} {expected : MemoryFile} {replacementId : JsString}
  {patch : MemoryFrontmatter → MemoryFrontmatter}

theorem link_of_marks {old new : MemoryFrontmatter} (marks : Marks replacementId old new) :
    link new = truthy (some replacementId) := by
  unfold link
  rw [marks.supersededBy]

theorem eq_of_truthy {value other : JsString} (present : truthy (some value) = some other) : other = value := by
  obtain ⟨same, _⟩ := Option.filter_eq_some_iff.mp present
  exact (Option.some.inj same).symm

section

variable (headed : Headed host store) (read : readMemoryByPath store expected.path = some expected)
  (marks : Marks replacementId expected.frontmatter (patch expected.frontmatter))
include headed read marks

theorem acyclic_write (fits : expected.frontmatter.isActive ∨ expected.frontmatter.supersededBy = some replacementId)
    (backed : expected.frontmatter.isActive → Backed host store expected.frontmatter replacementId) :
    Acyclic (Links (writeMemoryFrontmatter store expected.path patch)) := by
  have stored : expected ∈ store.files := List.mem_of_find?_eq_some read
  rcases fits with active | linked
  · obtain ⟨different, unlinked, _⟩ := backed active
    apply acyclic_of_last headed.acyclic
    · rintro first second ⟨file, listed, rfl, linked⟩
      rcases (mem_files_write read).mp listed with rfl | ⟨before, _⟩
      · rw [link_of_marks marks] at linked
        exact .inr (eq_of_truthy linked)
      · exact .inl ⟨file, before, rfl, linked⟩
    · rintro second ⟨file, listed, same, linked⟩
      rcases (mem_files_write read).mp listed with rfl | ⟨before, _⟩
      · exact different (marks.id.symm.trans same)
      · rw [unlinked file before same] at linked
        contradiction
  · apply acyclic_mono headed.acyclic
    rintro first second ⟨file, listed, rfl, link⟩
    rcases (mem_files_write read).mp listed with rfl | ⟨before, _⟩
    · refine ⟨expected, stored, marks.id.symm, ?_⟩
      rw [link_of_marks marks] at link
      unfold Store.link
      rw [linked, link]
    · exact ⟨file, before, rfl, link⟩

theorem carried_write (backed : expected.frontmatter.isActive → Backed host store expected.frontmatter replacementId) :
    ∀ file ∈ (writeMemoryFrontmatter store expected.path patch).files, ∀ key ∈ keysOf host file.frontmatter,
      ∃ holder ∈ (writeMemoryFrontmatter store expected.path patch).files,
        holder.frontmatter.isActive ∧ key ∈ keysOf host holder.frontmatter := by
  intro file listed key carries
  have before : ∃ old ∈ store.files, key ∈ keysOf host old.frontmatter := by
    rcases (mem_files_write read).mp listed with rfl | ⟨old, _⟩
    · exact ⟨expected, List.mem_of_find?_eq_some read, by rwa [← keysOf_of_marks host marks]⟩
    · exact ⟨file, old, carries⟩
  obtain ⟨old, present, carried⟩ := before
  obtain ⟨holder, held, active, holds⟩ := headed.carried old present key carried
  by_cases same : holder = expected
  · subst same
    obtain ⟨different, _, successor, listed, named, alive, covers⟩ := backed active
    have other : successor ≠ holder := fun equal => different (equal ▸ named)
    exact ⟨successor, (mem_files_write read).mpr (.inr ⟨listed, other⟩), alive, covers key holds⟩
  · exact ⟨holder, (mem_files_write read).mpr (.inr ⟨held, same⟩), active, holds⟩

end

theorem headed_write {next : MemoryStore} (headed : Headed host store)
    (written : writeMemoryFrontmatterIfUnchanged store expected patch = some next)
    (marks : Marks replacementId expected.frontmatter (patch expected.frontmatter))
    (fits : expected.frontmatter.isActive ∨ expected.frontmatter.supersededBy = some replacementId)
    (backed : expected.frontmatter.isActive → Backed host store expected.frontmatter replacementId) : Headed host next := by
  unfold writeMemoryFrontmatterIfUnchanged at written
  split_ifs at written with read
  cases written
  exact ⟨acyclic_write headed read marks fits backed, carried_write headed read marks backed⟩

theorem headed_persist {file : MemoryFile} (headed : Headed host store)
    (fresh : file.path ∉ store.files.map MemoryFile.path) (active : stillOpen file.frontmatter) :
    Headed host (persist store file fresh) := by
  simp only [stillOpen, and_eq_true, decide_eq_true_eq] at active
  refine ⟨acyclic_mono headed.acyclic ?_, ?_⟩
  · rintro first second ⟨other, listed, named, linked⟩
    rcases List.mem_cons.mp listed with rfl | before
    · unfold link at linked
      rw [active.2] at linked
      contradiction
    · exact ⟨other, before, named, linked⟩
  · intro other listed key carries
    rcases List.mem_cons.mp listed with rfl | before
    · exact ⟨other, listed, active.1, carries⟩
    · obtain ⟨holder, held, rest⟩ := headed.carried other before key carries
      exact ⟨holder, List.mem_cons_of_mem _ held, rest⟩

theorem fits_of_none {phase : Phase} (writesNothing : Phase.target phase = none) : Fits phase := by
  intro target writes
  rw [writesNothing] at writes
  contradiction

theorem headed_of_open (allOpen : ∀ file ∈ store.files, stillOpen file.frontmatter) : Headed host store := by
  simp only [stillOpen, and_eq_true, decide_eq_true_eq] at allOpen
  refine ⟨acyclic_of_unlinked ?_, fun file listed key carries => ⟨file, listed, (allOpen file listed).1, carries⟩⟩
  rintro first second ⟨file, listed, _, linked⟩
  unfold link at linked
  rw [(allOpen file listed).2] at linked
  contradiction

/-- The heads, and what each call is about to write. -/
structure Safe {Call : Type} (host : Host) (world : World Call) : Prop where
  headed : Headed host world.store
  fits : ∀ call, Fits (world.phases call)

variable {Call : Type} [DecidableEq Call] {world next : World Call} {call : Call}

theorem Safe.at {phase : Phase} (safe : Safe host world) (fits : Fits phase) : Safe host (world.at call phase) := by
  refine ⟨safe.headed, fun other => ?_⟩
  by_cases same : other = call
  · simp only [World.at, same, Function.update_self]
    exact fits
  · simp only [World.at, Function.update_of_ne same]
    exact safe.fits other

theorem fits_nextCandidate (position : Position) (read : Bool) : Fits (nextCandidate host store position read) := by
  unfold nextCandidate
  split
  next => exact fits_of_none rfl
  next memory rest _ =>
    split
    next => exact fits_of_none rfl
    next => exact fits_of_none rfl
    next matchedKeys _ =>
      split
      next => exact fits_of_none rfl
      next fresh _ =>
        split_ifs with still
        · simp only [stillOpen, and_eq_true] at still
          rintro target marked
          cases marked
          exact .inl still.1
        · exact fits_of_none rfl

theorem fits_nextChunk (expiry : Expiry) (read recorded : Bool) : Fits (nextChunk store expiry read recorded) := by
  unfold nextChunk
  split
  next => exact fits_of_none rfl
  next chunk chunks _ =>
    split_ifs
    · exact fits_of_none rfl
    · exact fits_of_none rfl
    · split
      next => exact fits_of_none rfl
      next fresh _ =>
        split_ifs with due
        · simp only [expires, and_eq_true, or_eq_true, decide_eq_true_eq] at due
          rintro target marked
          cases marked
          exact due.1.imp id And.right
        · exact fits_of_none rfl

theorem safe_write {expiry : Expiry} {file : MemoryFile} {written : MemoryStore} (safe : Safe host world)
    (target : Phase.target (world.phases call) = some (file, replacementId))
    (backed : file.frontmatter.isActive → Backed host world.store file.frontmatter replacementId)
    (changed : writeMemoryFrontmatterIfUnchanged world.store file patch = some written)
    (marks : Marks replacementId file.frontmatter (patch file.frontmatter)) :
    Safe host ((world.stored written).at call (.expiring expiry)) := by
  have headed := headed_write safe.headed changed marks (safe.fits call _ target) backed
  have stored : Safe host (world.stored written) := ⟨headed, safe.fits⟩
  exact stored.at (fits_of_none rfl)

theorem safe_step {action : Action Call} (safe : Safe host world) (careful : Careful host world action)
    (stepped : step host world action = some next) : Safe host next := by
  cases action with
  | persist file =>
    simp only [step] at stepped
    split_ifs at stepped with fresh active
    cases stepped
    exact ⟨headed_persist safe.headed fresh active.2, safe.fits⟩
  | begin call args =>
    simp only [step] at stepped
    split_ifs at stepped
    split at stepped
    next =>
      cases stepped
      exact safe.at (fits_of_none rfl)
    next =>
      cases stepped
      exact safe.at (fits_of_none rfl)
  | readHot call age =>
    simp only [step] at stepped
    split at stepped
    next =>
      split at stepped
      next =>
        cases stepped
        exact safe.at (fits_of_none rfl)
      next =>
        cases stepped
        exact safe.at (fits_of_none rfl)
    next => contradiction
  | readCold call age =>
    simp only [step] at stepped
    split at stepped
    next =>
      cases stepped
      exact safe.at (fits_of_none rfl)
    next => contradiction
  | next call read =>
    simp only [step] at stepped
    split at stepped
    next position phase =>
      cases stepped
      exact safe.at (fits_nextCandidate position read)
    next => contradiction
  | mark call written =>
    simp only [step] at stepped
    split at stepped
    next position fresh mutation phase =>
      have target : Phase.target (world.phases call) = some (fresh, position.scan.newMemoryId) := by rw [phase]; rfl
      split at stepped
      next =>
        cases stepped
        exact safe.at (fits_of_none rfl)
      next after changed =>
        cases stepped
        split_ifs at changed
        exact safe_write safe target (careful _ target) changed (marks_temporalMutationPatch _ _ _)
    next => contradiction
  | nextChunk call read recorded =>
    simp only [step] at stepped
    split at stepped
    next expiry phase =>
      cases stepped
      exact safe.at (fits_nextChunk expiry read recorded)
    next => contradiction
  | expire call written =>
    simp only [step] at stepped
    split at stepped
    next expiry chunk phase =>
      have target : Phase.target (world.phases call) = some (chunk, expiry.position.scan.newMemoryId) := by rw [phase]; rfl
      split at stepped
      next =>
        cases stepped
        exact safe.at (fits_of_none rfl)
      next after changed =>
        cases stepped
        split_ifs at changed
        exact safe_write safe target (careful _ target) changed (marks_childPatch _ _ _)
    next => contradiction
  | giveUp call =>
    simp only [step] at stepped
    split at stepped
    next =>
      cases stepped
      exact safe.at (fits_of_none rfl)
    next =>
      cases stepped
      exact safe.at (fits_of_none rfl)
    next => contradiction

/-- In every run whose writes are backed, the successors stay acyclic and every key that is
carried keeps an active carrier. -/
theorem supersession_keeps_head {start : MemoryStore} (headed : Headed host start)
    (reached : Reaches (step host) (Careful host) (initial start) world) : Headed host world.store := by
  have safe : Safe host world := by
    apply reached.invariant (Safe host)
    · exact ⟨headed, fun _ => fits_of_none rfl⟩
    · exact fun _ _ _ safe careful stepped => safe_step safe careful stepped
  exact safe.headed

instance (store : MemoryStore) (frontmatter : MemoryFrontmatter) (replacementId : JsString) :
    Decidable (Backed host store frontmatter replacementId) := by
  unfold Backed
  infer_instance

instance (world : World Call) (action : Action Call) : Decidable (Careful host world action) := by
  cases action <;> unfold Careful <;> infer_instance

def austin : MemoryFile := sampleMemory "austin" "1" (sampleAttribute "city" "austin")

def nyc : MemoryFile := sampleMemory "nyc" "2" (sampleAttribute "city" "nyc")

/-- A call reads both tiers and goes through some candidates. -/
def scanning (call candidates : Nat) (args : SupersessionArgs) : List (Action Nat) :=
  [.begin call args, .readHot call (some 0), .readCold call (some 0)] ++ List.replicate candidates (.next call true)

def onlyAustin : MemoryStore := ⟨[austin], [], by decide⟩

/-- The move is written and supersedes the older memory. -/
def move : List (Action Nat) :=
  .persist nyc :: scanning 0 2 (sampleArgs nyc) ++ [.mark 0 true, .nextChunk 0 true false, .next 0 true]

theorem supersession_keeps_head_move : ∃ world : World Nat,
    Reaches (step sampleHost) (Careful sampleHost) (initial onlyAustin) world ∧ Links world.store austin.frontmatter.id
      nyc.frontmatter.id ∧ Headed sampleHost world.store := by
  refine exists_reached (fun world => ∃ file ∈ world.store.files, file.frontmatter.id = austin.frontmatter.id ∧
    link file.frontmatter = some nyc.frontmatter.id) move (by decide +kernel) ?_
  intro world reached links
  exact ⟨links, supersession_keeps_head (headed_of_open (by decide)) reached⟩

def austinAndNyc : MemoryStore := ⟨[austin, nyc], [], by decide⟩

/-- The older memory is observed again on the third day while the call of the newer runs. -/
def observedAgain : List (Action Nat) :=
  scanning 0 2 { sampleArgs austin with createdAt := text "2026-01-03T00:00:00.000Z", useCallerTimestamp := true } ++
    scanning 1 1 (sampleArgs nyc) ++ [.mark 0 true, .mark 1 true]

theorem both_superseded : Headed sampleHost austinAndNyc ∧ ∃ world : World Nat,
    run (step sampleHost) observedAgain (initial austinAndNyc) = some world ∧ ¬ Headed sampleHost world.store := by
  refine ⟨headed_of_open (by decide), exists_run (fun world =>
    (∃ file ∈ world.store.files, keysOf sampleHost file.frontmatter ≠ []) ∧
      ∀ file ∈ world.store.files, file.frontmatter.isActive = false) (by decide +kernel) ?_⟩
  intro world ⟨⟨file, listed, keyed⟩, idle⟩ headed
  obtain ⟨key, carries⟩ := List.exists_mem_of_ne_nil _ keyed
  obtain ⟨holder, held, active, _⟩ := headed.carried file listed key carries
  have retired := idle holder held
  rw [active] at retired
  contradiction

end Remnic.Supersession.Head
