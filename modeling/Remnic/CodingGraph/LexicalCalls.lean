import Remnic.CodingGraph.ImportChoice
import Remnic.CodingGraph.Scopes

/-!
Which symbol or import a bare call means by the scopes of its file, and when the derivation binds
each call to it, whatever the order of the symbols and of the imports.
-/

namespace Remnic.CodingGraph.LexicalCalls

open Text.CodeUnits Library.Nesting Upsert Heuristic Scopes ImportChoice

structure Offer where
  exported : JsString
  hint : JsString
  deriving DecidableEq, Repr

def offers (ir : FileIR) (imp : ImportIR) (name : JsString) : List Offer :=
  match pathHintOf ir imp with
  | none => []
  | some hint =>
      ((imp.bindings.getD (imp.importedNames.map fun name => ⟨name, name⟩)).filter (·.localName = name)).map
        fun binding => ⟨binding.exported, hint⟩

/-- The innermost symbol around an import, or the file. -/
def ImportScope (ir : FileIR) (imp : ImportIR) : Scope → Prop
  | some sym => Innermost symbolSpan ir.symbols (importSpan imp) sym
  | none => ∀ sym ∈ ir.symbols, ¬ (symbolSpan sym).Covers (importSpan imp)

/-- An import in a scope around the caller, not in the body of a class, that binds the name. -/
structure Imports (ir : FileIR) (src : SymbolIR) (name : JsString) (imp : ImportIR) (scope : Scope) (offered : Offer) : Prop where
  member : imp ∈ ir.imports
  stands : ImportScope ir imp scope
  around : ∀ sym ∈ scope, (symbolSpan sym).Covers (symbolSpan src) ∧ isClassLike sym.kind = false
  first : (offers ir imp name).head? = some offered

/-- No import of the name is in an inner scope. -/
def IsInnermost (ir : FileIR) (src : SymbolIR) (name : JsString) (scope : Scope) : Prop :=
  ∀ imp inner offered, Imports ir src name imp inner offered → ¬ inner.Inside scope

/-- No scope that the call sees declares the name. -/
def Free (ir : FileIR) (src : SymbolIR) (name : JsString) : Prop :=
  ∀ scope, Visible ir src scope → ∀ sym, ¬ Declares ir.symbols scope name sym

/-- What a name means in a caller: the only symbol of the name in the innermost scope that has one, or an import of the innermost scope. -/
inductive Binds (ir : FileIR) (src : SymbolIR) (name : JsString) : Target → Prop
  | symbol {scope : Scope} {sym : SymbolIR} (visible : Visible ir src scope) (declared : Declares ir.symbols scope name sym)
      (alone : ∀ other, Declares ir.symbols scope name other → other = sym)
      (innermost : ∀ inner, Visible ir src inner → inner.Inside scope → ∀ other, ¬ Declares ir.symbols inner name other) :
      Binds ir src name ⟨sym.qualifiedName, none, heuristicConfidenceSameFile⟩
  | imported {imp : ImportIR} {scope : Scope} {offered : Offer} (free : Free ir src name) (imports : Imports ir src name imp scope offered)
      (innermost : IsInnermost ir src name scope) :
      Binds ir src name ⟨offered.exported, some offered.hint, heuristicConfidenceImportBound⟩

/-- The first name of a call that means something decides. -/
def Reaches (ir : FileIR) (src : SymbolIR) (site : CallSiteIR) (name : JsString) : Prop :=
  ∃ before after, site.calleeNameCandidates = before ++ name :: after ∧ ∀ earlier ∈ before, ∀ target, ¬ Binds ir src earlier target

/-- The edge of a call by the scopes of the file. -/
def LexicalEdge (ir : FileIR) (site : CallSiteIR) (edge : EdgeIR) : Prop :=
  ∃ src name target, Innermost symbolSpan ir.symbols (siteSpan site) src ∧ Reaches ir src site name ∧ Binds ir src name target ∧
    edge = edgeOf ir src target

/-- The imports of a name that are of the file or of the innermost scope bind it alike. -/
def Alike (ir : FileIR) (src : SymbolIR) (name : JsString) : Prop :=
  ∀ first scope offered second otherScope otherOffered,
    Imports ir src name first scope offered → Imports ir src name second otherScope otherOffered →
      (scope = none ∨ IsInnermost ir src name scope) → (otherScope = none ∨ IsInnermost ir src name otherScope) →
        offered = otherOffered

/-- A name that a bare call reaches and no scope declares is imported alike. -/
def Agreeing (ir : FileIR) : Prop :=
  ∀ site ∈ ir.callSites, site.memberAccess = false → ∀ src, Innermost symbolSpan ir.symbols (siteSpan site) src →
    ∀ name, Reaches ir src site name → Free ir src name → Alike ir src name

/-- The same file with its symbols and its imports in any order. -/
structure Rearranged (ir other : FileIR) : Prop where
  symbols : ir.symbols.Perm other.symbols
  imports : ir.imports.Perm other.imports
  rest : { other with symbols := ir.symbols, imports := ir.imports } = ir

section order

variable {ir other : FileIR}

namespace Rearranged

section

variable (moved : Rearranged ir other)
include moved

theorem symm : Rearranged other ir where
  symbols := moved.symbols.symm
  imports := moved.imports.symm
  rest := by rw [← moved.rest]

theorem language : ir.language = other.language := by rw [← moved.rest]

theorem path : ir.path = other.path := by rw [← moved.rest]

theorem callSites : ir.callSites = other.callSites := by rw [← moved.rest]

variable {sym src : SymbolIR} {scope : Scope} {name : JsString} {site : CallSiteIR}

theorem innermost {place : Span} (innermost : Innermost symbolSpan ir.symbols place sym) :
    Innermost symbolSpan other.symbols place sym where
  member := moved.symbols.mem_iff.mp innermost.member
  covers := innermost.covers
  inside := fun around member => innermost.inside around (moved.symbols.mem_iff.mpr member)

theorem isParent (isParent : IsParent symbolSpan ir.symbols sym scope) :
    IsParent symbolSpan other.symbols sym scope := by
  cases scope with
  | none => exact fun around member => isParent around (moved.symbols.mem_iff.mpr member)
  | some parent =>
    obtain ⟨member, strictly, inside⟩ := isParent
    exact ⟨moved.symbols.mem_iff.mp member, strictly, fun around member => inside around (moved.symbols.mem_iff.mpr member)⟩

theorem visible (visible : Visible ir src scope) : Visible other src scope := by
  cases scope with
  | none => trivial
  | some sym =>
    obtain ⟨member, covers, open_⟩ := visible
    refine ⟨moved.symbols.mem_iff.mp member, covers, open_.imp_right fun shown hidden => shown ?_⟩
    rwa [Hidden, moved.language]

theorem declares (declares : Declares ir.symbols scope name sym) : Declares other.symbols scope name sym :=
  ⟨moved.symbols.mem_iff.mp declares.1, declares.2.1, moved.isParent declares.2.2⟩

theorem offers (imp : ImportIR) (name : JsString) : offers ir imp name = offers other imp name := by
  unfold LexicalCalls.offers pathHintOf
  rw [moved.language, moved.path]

theorem imported {imp : ImportIR} {offered : Offer}
    (imports : Imports ir src name imp scope offered) : Imports other src name imp scope offered where
  member := moved.imports.mem_iff.mp imports.member
  stands := by
    have stands := imports.stands
    cases scope with
    | none => exact fun around member => stands around (moved.symbols.mem_iff.mpr member)
    | some sym => exact moved.innermost stands
  around := imports.around
  first := by rw [← moved.offers]; exact imports.first

theorem isInnermost (innermost : IsInnermost ir src name scope) : IsInnermost other src name scope :=
  fun imp inner offered imports => innermost imp inner offered (moved.symm.imported imports)

theorem free (free : Free ir src name) : Free other src name :=
  fun scope visible sym declares => free scope (moved.symm.visible visible) sym (moved.symm.declares declares)

theorem binds {target : Target} (binds : Binds ir src name target) :
    Binds other src name target := by
  cases binds with
  | symbol visible declared alone innermost =>
    refine .symbol (moved.visible visible) (moved.declares declared) (fun sym declares => alone sym (moved.symm.declares declares)) ?_
    exact fun inner shown inside sym declares => innermost inner (moved.symm.visible shown) inside sym (moved.symm.declares declares)
  | imported free imports innermost => exact .imported (moved.free free) (moved.imported imports) (moved.isInnermost innermost)

theorem reaches (reaches : Reaches ir src site name) :
    Reaches other src site name := by
  obtain ⟨before, after, shape, unbound⟩ := reaches
  exact ⟨before, after, shape, fun earlier member target binds => unbound earlier member target (moved.symm.binds binds)⟩

theorem lexicalEdge {edge : EdgeIR} (lexical : LexicalEdge ir site edge) :
    LexicalEdge other site edge := by
  obtain ⟨src, name, target, caller, reaches, binds, same⟩ := lexical
  refine ⟨src, name, target, moved.innermost caller, moved.reaches reaches, moved.binds binds, ?_⟩
  rw [same, edgeOf, edgeOf, moved.language]

theorem agreeing (agreeing : Agreeing ir) : Agreeing other := by
  intro site member bare src caller name reaches free first scope offered second otherScope otherOffered one two oneInner twoInner
  have back := moved.symm
  rw [← moved.callSites] at member
  exact agreeing site member bare src (back.innermost caller) name (back.reaches reaches) (back.free free) first scope offered second
    otherScope otherOffered (back.imported one) (back.imported two) (oneInner.imp_right back.isInnermost)
    (twoInner.imp_right back.isInnermost)

theorem wellScoped (wellScoped : WellScoped ir) : WellScoped other where
  names := (moved.symbols.map _).nodup_iff.mp wellScoped.names
  named := fun sym member => wellScoped.named sym (moved.symbols.mem_iff.mpr member)
  nested := wellScoped.nested.perm moved.symbols
  sites := moved.callSites ▸ wellScoped.sites
  imports := fun imp member => wellScoped.imports imp (moved.imports.mem_iff.mpr member)

end

end Rearranged

end order

end Remnic.CodingGraph.LexicalCalls
