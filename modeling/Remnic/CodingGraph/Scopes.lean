import Mathlib.Data.Finset.Card
import Remnic.CodingGraph.Heuristic
import Remnic.Library.Nesting

/-!
The scopes of a file by the spans of its symbols, whatever their order, and the levels that the
derivation walks through: they are those scopes, inner ones first. The walk ends unless the names go round.
-/

namespace Remnic.CodingGraph.Scopes

open Text.CodeUnits Library.Nesting Upsert Heuristic List

def symbolSpan (sym : SymbolIR) : Span := ⟨sym.startByte, sym.endByte⟩

def siteSpan (site : CallSiteIR) : Span := ⟨site.startByte, site.endByte⟩

def importSpan (imp : ImportIR) : Span := ⟨imp.startByte, imp.endByte⟩

/-- A file whose symbols have names of their own, and spans that are nested or disjoint. -/
structure WellScoped (ir : FileIR) : Prop where
  names : (ir.symbols.map SymbolIR.qualifiedName).Nodup
  named : ∀ sym ∈ ir.symbols, sym.qualifiedName ≠ []
  nested : Nested symbolSpan ir.symbols
  sites : ∀ site ∈ ir.callSites, (siteSpan site).Filled
  imports : ∀ imp ∈ ir.imports, (importSpan imp).Filled

/-- A symbol's scope, or that of the file. -/
abbrev Scope := Option SymbolIR

def Scope.level (scope : Scope) : JsString := (scope.map SymbolIR.qualifiedName).getD []

/-- One scope is in another one and not the same. -/
def Scope.Inside : Scope → Scope → Prop
  | some inner, some outer => (symbolSpan outer).StrictlyCovers (symbolSpan inner)
  | some _, none => True
  | none, _ => False

/-- The scopes of an explicit receiver's language leave out the classes around the caller. -/
def Hidden (ir : FileIR) (sym : SymbolIR) : Prop := ir.language ∈ explicitReceiverLanguages ∧ isClassLike sym.kind = true

/-- A scope that a bare call of a symbol looks into. -/
def Visible (ir : FileIR) (src : SymbolIR) : Scope → Prop
  | some sym => sym ∈ ir.symbols ∧ (symbolSpan sym).Covers (symbolSpan src) ∧ (sym = src ∨ ¬ Hidden ir sym)
  | none => True

def Declares (symbols : List SymbolIR) (scope : Scope) (name : JsString) (sym : SymbolIR) : Prop :=
  sym ∈ symbols ∧ sym.name = name ∧ IsParent symbolSpan symbols sym scope

theorem smallest_eq_argmin (symbols : List SymbolIR) : smallest symbols = symbols.argmin fun sym => (symbolSpan sym).size := by
  have step : (fun (best : Option SymbolIR) sym => if best.all (symbolSize sym < symbolSize ·) then some sym else best) =
      List.argAux fun first second => (symbolSpan first).size < (symbolSpan second).size := by
    funext best sym
    cases best with
    | none => rfl
    | some best => exact if_congr decide_eq_true_iff rfl rfl
  unfold smallest
  rw [step]
  rfl

theorem Inside.irrefl (scope : Scope) : ¬ scope.Inside scope := by
  cases scope with
  | none => exact id
  | some sym => exact fun strictly => strictly.2 rfl

theorem Inside.asymm {first second : Scope} (one : first.Inside second) : ¬ second.Inside first := by
  cases first with
  | none => exact absurd one id
  | some inner =>
    cases second with
    | none => exact id
    | some outer => exact fun two => one.not_covers two.1

variable {ir : FileIR}

namespace WellScoped

theorem eq_of_qualifiedName (wellScoped : WellScoped ir) {first second : SymbolIR} (one : first ∈ ir.symbols) (two : second ∈ ir.symbols)
    (same : first.qualifiedName = second.qualifiedName) : first = second :=
  inj_on_of_nodup_map wellScoped.names one two same

variable {sym : SymbolIR}

theorem lastNamed_eq (wellScoped : WellScoped ir) (member : sym ∈ ir.symbols) :
    lastNamed ir.symbols sym.qualifiedName = some sym := by
  cases found : lastNamed ir.symbols sym.qualifiedName with
  | none =>
    rw [lastNamed, getLast?_eq_none_iff] at found
    have listed : sym ∈ ir.symbols.filter (·.qualifiedName = sym.qualifiedName) := mem_filter.mpr ⟨member, decide_eq_true rfl⟩
    rw [found] at listed
    cases listed
  | some last =>
    obtain ⟨lastIn, named⟩ := mem_filter.mp (mem_of_getLast? found)
    rw [wellScoped.eq_of_qualifiedName lastIn member (of_decide_eq_true named)]

theorem kindOf_eq (wellScoped : WellScoped ir) (member : sym ∈ ir.symbols) : kindOf ir.symbols sym.qualifiedName = some sym.kind := by
  rw [kindOf, wellScoped.lastNamed_eq member, Option.map_some]

theorem enclosingSymbol_eq_some_iff (wellScoped : WellScoped ir) {startByte endByte : Int} (filled : Span.Filled ⟨startByte, endByte⟩) (sym : SymbolIR) :
    enclosingSymbol ir.symbols startByte endByte = some sym ↔ Innermost symbolSpan ir.symbols ⟨startByte, endByte⟩ sym := by
  rw [← wellScoped.nested.argmin_covers filled, enclosingSymbol, smallest_eq_argmin]
  have same : (ir.symbols.filter (encloses · startByte endByte)) =
      ir.symbols.filter fun other => decide ((symbolSpan other).Covers ⟨startByte, endByte⟩) := by
    refine filter_congr fun other _ => ?_
    rw [Bool.eq_iff_iff, decide_eq_true_iff]
    simp [encloses, Span.Covers, symbolSpan]
  rw [same]

theorem enclosingSymbol_eq_none_iff (startByte endByte : Int) : enclosingSymbol ir.symbols startByte endByte = none ↔
    ∀ sym ∈ ir.symbols, ¬ (symbolSpan sym).Covers ⟨startByte, endByte⟩ := by
  rw [enclosingSymbol, smallest_eq_argmin, argmin_eq_none, filter_eq_nil_iff]
  simp [encloses, Span.Covers, symbolSpan]

section

variable (wellScoped : WellScoped ir)
include wellScoped

theorem parentSymbol_eq_iff (member : sym ∈ ir.symbols) (parent : Scope) :
    parentSymbol ir.symbols sym = parent ↔ IsParent symbolSpan ir.symbols sym parent := by
  rw [← wellScoped.nested.argmin_parent member, parentSymbol, smallest_eq_argmin]
  have same : (ir.symbols.filter fun other => encloses other sym.startByte sym.endByte &&
      !(other.startByte = sym.startByte && other.endByte = sym.endByte)) =
      ir.symbols.filter fun other => decide ((symbolSpan other).StrictlyCovers (symbolSpan sym)) := by
    refine filter_congr fun other _ => ?_
    simp only [encloses, Span.StrictlyCovers, Span.Covers, symbolSpan, ne_eq, Span.mk.injEq]
    grind
  rw [same]

theorem parentOf_eq (member : sym ∈ ir.symbols) {parent : Scope} (isParent : IsParent symbolSpan ir.symbols sym parent) : parentOf ir.symbols sym.qualifiedName = parent.level := by
  rw [parentOf, wellScoped.lastNamed_eq member, Option.bind_some, (wellScoped.parentSymbol_eq_iff member parent).mpr isParent]
  rfl

theorem level_inj {first second : Scope} (one : ∀ sym ∈ first, sym ∈ ir.symbols) (two : ∀ sym ∈ second, sym ∈ ir.symbols) : first.level = second.level ↔ first = second := by
  refine ⟨fun same => ?_, congrArg Scope.level⟩
  cases first with
  | none =>
    cases second with
    | none => rfl
    | some sym => exact absurd same.symm (wellScoped.named sym (two sym rfl))
  | some sym =>
    cases second with
    | none => exact absurd same (wellScoped.named sym (one sym rfl))
    | some other => rw [wellScoped.eq_of_qualifiedName (one sym rfl) (two other rfl) same]

theorem mem_scopeByName {scope : Scope} (inFile : ∀ sym ∈ scope, sym ∈ ir.symbols) (name : JsString) (sym : SymbolIR) :
    sym ∈ scopeByName ir.symbols scope.level name ↔ Declares ir.symbols scope name sym := by
  rw [scopeByName, mem_filter, Declares, Bool.and_eq_true, decide_eq_true_eq, decide_eq_true_eq]
  refine and_congr_right fun member => ?_
  rw [and_comm]
  refine and_congr_right fun _ => ?_
  have isParent := (wellScoped.parentSymbol_eq_iff member _).mp rfl
  have parentIn : ∀ parent ∈ parentSymbol ir.symbols sym, parent ∈ ir.symbols := by
    intro parent found
    rw [found] at isParent
    exact isParent.1
  rw [wellScoped.parentOf_eq member isParent, wellScoped.level_inj parentIn inFile, wellScoped.parentSymbol_eq_iff member]

theorem levelsAround_eq {src : SymbolIR} (member : src ∈ ir.symbols) {rest : List SymbolIR}
    (outward : Outward symbolSpan ir.symbols src rest) {steps : Nat} (enough : rest.length + 1 < steps) :
    levelsAround ir.symbols steps src.qualifiedName = some (rest.map SymbolIR.qualifiedName ++ [[]]) := by
  induction outward generalizing steps with
  | @top item isParent =>
    obtain ⟨steps, rfl⟩ : ∃ more, steps = more + 2 := ⟨steps - 2, by simp only [length_nil] at enough; omega⟩
    have parent : parentOf ir.symbols item.qualifiedName = [] := wellScoped.parentOf_eq member isParent
    rw [levelsAround, if_neg (wellScoped.named item member), parent, levelsAround, if_pos rfl]
    rfl
  | @step item parent rest isParent outer ih =>
    obtain ⟨steps, rfl⟩ : ∃ more, steps = more + 1 := ⟨steps - 1, by omega⟩
    have above : parentOf ir.symbols item.qualifiedName = parent.qualifiedName := wellScoped.parentOf_eq member isParent
    rw [levelsAround, if_neg (wellScoped.named item member), above, ih isParent.1 (by simp only [length_cons] at enough; omega)]
    rfl

end

end WellScoped

/-- The scopes that a call looks into, inner ones first, from the caller and the symbols around it. -/
def scopesOf (ir : FileIR) (src : SymbolIR) (rest : List SymbolIR) : List Scope :=
  some src :: (rest.filter fun sym => !(ir.language ∈ explicitReceiverLanguages && isClassLike sym.kind)).map some ++ [none]

variable {src : SymbolIR} {rest : List SymbolIR}

theorem mem_scopesOf (wellScoped : WellScoped ir) (member : src ∈ ir.symbols) (outward : Outward symbolSpan ir.symbols src rest)
    (scope : Scope) : scope ∈ scopesOf ir src rest ↔ Visible ir src scope := by
  cases scope with
  | none => simp [scopesOf, Visible]
  | some sym =>
    have listed : some sym ∈ scopesOf ir src rest ↔ sym = src ∨ sym ∈ rest ∧ ¬ Hidden ir sym := by
      simp [scopesOf, Hidden, imp_iff_not_or]
    rw [listed, outward.mem_iff wellScoped.nested, Visible]
    constructor
    · rintro (rfl | ⟨⟨symIn, strictly⟩, open_⟩)
      · exact ⟨member, Span.Covers.refl _, .inl rfl⟩
      · exact ⟨symIn, strictly.1, .inr open_⟩
    · rintro ⟨symIn, covers, visible⟩
      by_cases same : sym = src
      · exact .inl same
      · refine .inr ⟨⟨symIn, covers, fun equal => same (wellScoped.nested.eq_of_span_eq symIn member equal)⟩, ?_⟩
        exact visible.resolve_left same

theorem pairwise_scopesOf (wellScoped : WellScoped ir) (outward : Outward symbolSpan ir.symbols src rest) :
    (scopesOf ir src rest).Pairwise Scope.Inside := by
  have chain := outward.pairwise wellScoped.nested
  have shown : (src :: rest.filter fun sym => !(ir.language ∈ explicitReceiverLanguages && isClassLike sym.kind)).Sublist (src :: rest) :=
    Sublist.cons_cons src filter_sublist
  have inner : ((src :: rest.filter fun sym => !(ir.language ∈ explicitReceiverLanguages && isClassLike sym.kind)).map some).Pairwise
      Scope.Inside := pairwise_map.mpr (chain.sublist shown)
  refine pairwise_append.mpr ⟨inner, pairwise_singleton _ _, fun first firstIn last lastIn => ?_⟩
  rw [mem_singleton.mp lastIn]
  rcases mem_cons.mp firstIn with rfl | later
  · trivial
  · obtain ⟨sym, _, rfl⟩ := mem_map.mp later
    trivial

theorem find?_eq_some_iff_inside {scopes : List Scope} (ordered : scopes.Pairwise Scope.Inside) (pick : Scope → Bool) (scope : Scope) :
    scopes.find? pick = some scope ↔
      scope ∈ scopes ∧ pick scope = true ∧ ∀ inner ∈ scopes, inner.Inside scope → pick inner = false := by
  rw [find?_eq_some_iff_append]
  constructor
  · rintro ⟨found, before, after, rfl, skipped⟩
    obtain ⟨_, laterOrdered, _⟩ := pairwise_append.mp ordered
    refine ⟨by simp, found, fun inner innerIn inside => ?_⟩
    rcases mem_append.mp innerIn with earlier | later
    · simpa using skipped inner earlier
    · rcases mem_cons.mp later with rfl | behind
      · exact absurd inside (Inside.irrefl _)
      · exact absurd inside (Inside.asymm ((pairwise_cons.mp laterOrdered).1 inner behind))
  · rintro ⟨member, found, innermost⟩
    obtain ⟨before, after, rfl⟩ := append_of_mem member
    refine ⟨found, before, after, rfl, fun inner earlier => ?_⟩
    have inside := (pairwise_append.mp ordered).2.2 inner earlier scope mem_cons_self
    simp [innermost inner (mem_append_left _ earlier) inside]

section Walk

open Relation

/-- The second name is that of the innermost symbol around the last one with the first name, if there is one. -/
def Above (symbols : List SymbolIR) (name above : JsString) : Prop := name ≠ [] ∧ parentOf symbols name = above

/-- From a name one comes, outwards, to a name that lies around itself. -/
def GoesRound (symbols : List SymbolIR) (name : JsString) : Prop :=
  ∃ other, ReflTransGen (Above symbols) name other ∧ TransGen (Above symbols) other other

variable {symbols : List SymbolIR} {name : JsString}

theorem GoesRound.parent (round : GoesRound symbols name) : name ≠ [] ∧ GoesRound symbols (parentOf symbols name) := by
  obtain ⟨other, reached, cycle⟩ := round
  rcases reached.cases_head with rfl | ⟨above, ⟨filled, rfl⟩, rest⟩
  · obtain ⟨above, ⟨filled, rfl⟩, rest⟩ := TransGen.head'_iff.mp cycle
    exact ⟨filled, name, rest, cycle⟩
  · exact ⟨filled, other, rest, cycle⟩

theorem levelsAround_of_goesRound (steps : Nat) (round : GoesRound symbols name) : levelsAround symbols steps name = none := by
  induction steps generalizing name with
  | zero => rfl
  | succ steps ih => rw [levelsAround, if_neg round.parent.1, ih round.parent.2, Option.map_none]

theorem parentOf_named : parentOf symbols name = [] ∨ parentOf symbols name ∈ symbols.map SymbolIR.qualifiedName := by
  unfold parentOf
  cases found : (lastNamed symbols name).bind (parentSymbol symbols) with
  | none => exact .inl rfl
  | some parent =>
    obtain ⟨sym, _, inner⟩ := Option.bind_eq_some_iff.mp found
    rw [parentSymbol, smallest_eq_argmin] at inner
    exact .inr (mem_map_of_mem (mem_filter.mp (argmin_mem inner)).1)

/-- Each step of a walk that does not go round uses up a name. -/
theorem levelsAround_isSome {steps : Nat} (names : Finset JsString) (straight : ¬ GoesRound symbols name)
    (within : ∀ other, ReflTransGen (Above symbols) name other → other ≠ [] → other ∈ names) (enough : names.card < steps) :
    (levelsAround symbols steps name).isSome = true := by
  induction steps generalizing name names with
  | zero => omega
  | succ steps ih =>
    unfold levelsAround
    split_ifs with empty
    · rfl
    · have above : Above symbols name (parentOf symbols name) := ⟨empty, rfl⟩
      have here := within name .refl empty
      rw [Option.isSome_map]
      refine ih (names.erase name) (fun ⟨other, reached, cycle⟩ => straight ⟨other, reached.head above, cycle⟩) ?_ ?_
      · intro other reached filled
        refine Finset.mem_erase.mpr ⟨?_, within other (reached.head above) filled⟩
        rintro rfl
        exact straight ⟨other, .refl, TransGen.head' above reached⟩
      · have smaller := Finset.card_erase_lt_of_mem here
        omega

/-- The walk from each caller ends, within as many steps as there are symbols, exactly when it never comes back to a name. -/
theorem walks_end_iff (ir : FileIR) :
    (∀ site ∈ ir.callSites, ∀ src, site.memberAccess = false → enclosingSymbol ir.symbols site.startByte site.endByte = some src →
        (levelsAround ir.symbols (ir.symbols.length + 1) src.qualifiedName).isSome = true) ↔
      ∀ site ∈ ir.callSites, ∀ src, site.memberAccess = false → enclosingSymbol ir.symbols site.startByte site.endByte = some src →
        ¬ GoesRound ir.symbols src.qualifiedName := by
  refine forall₅_congr fun site _ src _ encloses => ⟨fun ends round => ?_, fun straight => ?_⟩
  · rw [levelsAround_of_goesRound _ round] at ends
    contradiction
  · have named (other : JsString) (reached : ReflTransGen (Above ir.symbols) src.qualifiedName other) (filled : other ≠ []) :
        other ∈ (ir.symbols.map SymbolIR.qualifiedName).toFinset := by
      rw [mem_toFinset]
      rcases reached.cases_tail with rfl | ⟨below, _, _, rfl⟩
      · rw [enclosingSymbol, smallest_eq_argmin] at encloses
        exact mem_map_of_mem (mem_filter.mp (argmin_mem encloses)).1
      · exact parentOf_named.resolve_left filled
    refine levelsAround_isSome _ straight named ?_
    have count := toFinset_card_le (ir.symbols.map SymbolIR.qualifiedName)
    rw [length_map] at count
    omega

/-- A Rust method in whose body a local type of the same name has a method of the same name, which makes a call. -/
def localType : FileIR where
  path := text "src/a.rs"
  language := text "rust"
  contentHash := text "0"
  symbols := [⟨text "new", text "Foo.new", text "method", 11, 80⟩, ⟨text "new", text "Foo.new", text "method", 40, 60⟩]
  imports := []
  exports := []
  callSites := [⟨[text "go"], false, 50, 54⟩]
  routes := []

theorem local_type_hangs : ∃ site ∈ localType.callSites, ∃ src, site.memberAccess = false ∧
    enclosingSymbol localType.symbols site.startByte site.endByte = some src ∧
      (∀ steps, levelsAround localType.symbols steps src.qualifiedName = none) ∧ deriveHeuristicEdges [localType] = none := by
  have above : Above localType.symbols (text "Foo.new") (text "Foo.new") := ⟨by decide, by decide +kernel⟩
  exact ⟨_, mem_cons_self, ⟨text "new", text "Foo.new", text "method", 40, 60⟩, rfl, by decide +kernel,
    fun steps => levelsAround_of_goesRound steps ⟨_, .refl, .single above⟩, by decide +kernel⟩

end Walk

end Remnic.CodingGraph.Scopes
