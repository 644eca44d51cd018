import Remnic.CodingGraph.LexicalCalls

/-!
When `deriveHeuristicEdges` binds each bare call to what its name means, and in any order of
symbols and imports alike: exactly when the imports that it may keep agree.
-/

namespace Remnic.CodingGraph.ResolvedCalls

open Text.CodeUnits Library.Nesting Upsert Heuristic Scopes ImportChoice LexicalCalls
open List hiding choose

section imports

def bindingAt (scope : Scope) (offered : Offer) : ImportBinding :=
  let shown := scope.all fun sym => !isClassLike sym.kind
  ⟨offered.exported, offered.hint, if shown then scope.map SymbolIR.qualifiedName else none, !shown⟩

def scopeOf (ir : FileIR) (imp : ImportIR) : Scope := enclosingSymbol ir.symbols imp.startByte imp.endByte

def firstBindings (ir : FileIR) (name : JsString) : List ImportBinding :=
  ir.imports.filterMap fun imp => (offers ir imp name).head?.map (bindingAt (scopeOf ir imp))

variable {ir : FileIR} {src : SymbolIR} {rest : List SymbolIR}

variable {imp : ImportIR}

section

variable (wellScoped : WellScoped ir)
include wellScoped

theorem scopeOf_eq_iff (member : imp ∈ ir.imports) (scope : Scope) : scopeOf ir imp = scope ↔ ImportScope ir imp scope := by
  cases scope with
  | none => exact WellScoped.enclosingSymbol_eq_none_iff _ _
  | some sym => exact wellScoped.enclosingSymbol_eq_some_iff (wellScoped.imports imp member) sym

theorem scopeOf_mem (member : imp ∈ ir.imports) : ∀ sym ∈ scopeOf ir imp, sym ∈ ir.symbols :=
  fun sym found => ((scopeOf_eq_iff wellScoped member (some sym)).mp found).member

theorem bindingsOf_eq (member : imp ∈ ir.imports) (name : JsString) :
    ((bindingsOf ir imp).filter (·.1 = name)).map Prod.snd = (offers ir imp name).map (bindingAt (scopeOf ir imp)) := by
  have shown : (!((scopeOf ir imp).bind fun sym => kindOf ir.symbols sym.qualifiedName).any isClassLike) =
      (scopeOf ir imp).all fun sym => !isClassLike sym.kind := by
    cases found : scopeOf ir imp with
    | none => rfl
    | some sym => simp [wellScoped.kindOf_eq (scopeOf_mem wellScoped member sym found)]
  unfold bindingsOf offers
  cases pathHintOf ir imp with
  | none => rfl
  | some hint =>
    dsimp only
    rw [← scopeOf, shown, filter_map, map_map, map_map]
    rfl

theorem importBindings_eq (name : JsString) : importBindings ir name =
    ir.imports.flatMap fun imp => (offers ir imp name).map (bindingAt (scopeOf ir imp)) := by
  rw [importBindings, filter_flatMap, map_flatMap]
  exact flatMap_congr fun imp member => bindingsOf_eq wellScoped member name

theorem chooseBinding_first (ancestorChain : List JsString) (name : JsString) :
    chooseBinding ancestorChain (importBindings ir name) = ((firstBindings ir name).foldl (choose ancestorChain) none).map Prod.fst := by
  rw [chooseBinding_eq, importBindings_eq wellScoped, foldl_choose_flatMap]
  · rw [firstBindings]
    simp only [List.head?_map]
  · intro imp first one second two
    obtain ⟨offered, _, rfl⟩ := mem_map.mp one
    obtain ⟨other, _, rfl⟩ := mem_map.mp two
    rfl

end

theorem mem_firstBindings {name : JsString} {binding : ImportBinding} : binding ∈ firstBindings ir name ↔
    ∃ imp ∈ ir.imports, ∃ offered, (offers ir imp name).head? = some offered ∧ bindingAt (scopeOf ir imp) offered = binding := by
  simp [firstBindings, mem_filterMap]

def chainNames (src : SymbolIR) (rest : List SymbolIR) : List JsString := (src :: rest).map SymbolIR.qualifiedName

theorem seatOf_eq_file_iff {ancestorChain : List JsString} (scope : Scope) (offered : Offer) :
    seatOf ancestorChain (bindingAt scope offered) = .file ↔ scope = none := by
  cases scope with
  | none => simp [seatOf, bindingAt]
  | some sym =>
    cases classLike : isClassLike sym.kind with
    | true => simp [seatOf, bindingAt, classLike]
    | false => cases found : ancestorChain.idxOf? sym.qualifiedName <;> simp [seatOf, bindingAt, classLike, found]

theorem lt_iff_strictlyCovers (wellScoped : WellScoped ir) (outward : Outward symbolSpan ir.symbols src rest) {inner outer : SymbolIR}
    {depth deeper : Nat} (one : (src :: rest)[depth]? = some inner) (two : (src :: rest)[deeper]? = some outer) :
    depth < deeper ↔ (symbolSpan outer).StrictlyCovers (symbolSpan inner) := by
  obtain ⟨short, rfl⟩ := List.getElem?_eq_some_iff.mp one
  obtain ⟨shorter, rfl⟩ := List.getElem?_eq_some_iff.mp two
  have chain := pairwise_iff_getElem.mp (outward.pairwise wellScoped.nested)
  constructor
  · exact chain depth deeper short shorter
  · intro strictly
    by_contra notLess
    rcases Nat.lt_or_eq_of_le (Nat.le_of_not_lt notLess) with less | rfl
    · exact (chain deeper depth shorter short less).not_covers strictly.1
    · exact strictly.2 rfl

/-- The scope in which a name is found: the innermost one that declares it. -/
def declaringScope (ir : FileIR) (src : SymbolIR) (rest : List SymbolIR) (name : JsString) : Option Scope :=
  (scopesOf ir src rest).find? fun scope => scopeByName ir.symbols scope.level name ≠ []

def resolveFrom (ir : FileIR) (src : SymbolIR) (rest : List SymbolIR) (name : JsString) : Option Target :=
  resolveCandidate ir ((scopesOf ir src rest).map Scope.level) (chainNames src rest) name

theorem resolveFrom_eq (name : JsString) : resolveFrom ir src rest name =
    match (declaringScope ir src rest name).map fun scope => scopeByName ir.symbols scope.level name with
    | some [sym] => some ⟨sym.qualifiedName, none, heuristicConfidenceSameFile⟩
    | some _ => none
    | none => (chooseBinding (chainNames src rest) (importBindings ir name)).map fun binding =>
        ⟨binding.exported, some binding.hint, heuristicConfidenceImportBound⟩ := by
  rw [resolveFrom, resolveCandidate, map_map, List.find?_map]
  rfl

theorem declares_iff_ne_nil (wellScoped : WellScoped ir) {scope : Scope} (visible : Visible ir src scope) (name : JsString) :
    scopeByName ir.symbols scope.level name ≠ [] ↔ ∃ sym, Declares ir.symbols scope name sym := by
  have inFile : ∀ sym ∈ scope, sym ∈ ir.symbols := by
    rintro sym rfl
    exact visible.1
  rw [ne_nil_iff_exists_cons]
  constructor
  · rintro ⟨sym, more, shape⟩
    exact ⟨sym, (wellScoped.mem_scopeByName inFile name sym).mp (shape ▸ mem_cons_self)⟩
  · rintro ⟨sym, declares⟩
    exact exists_cons_of_ne_nil (ne_nil_of_mem ((wellScoped.mem_scopeByName inFile name sym).mpr declares))

section chain

variable (wellScoped : WellScoped ir) (member : src ∈ ir.symbols) (outward : Outward symbolSpan ir.symbols src rest)

include wellScoped member outward

theorem mem_chain_iff (sym : SymbolIR) : sym ∈ src :: rest ↔ sym ∈ ir.symbols ∧ (symbolSpan sym).Covers (symbolSpan src) := by
  rw [mem_cons, outward.mem_iff wellScoped.nested]
  constructor
  · rintro (rfl | ⟨symIn, strictly⟩)
    · exact ⟨member, Span.Covers.refl _⟩
    · exact ⟨symIn, strictly.1⟩
  · rintro ⟨symIn, covers⟩
    by_cases same : sym = src
    · exact .inl same
    · exact .inr ⟨symIn, covers, fun equal => same (wellScoped.nested.eq_of_span_eq symIn member equal)⟩

variable {scope : Scope} {offered : Offer} {name : JsString} {sym : SymbolIR} {imp : ImportIR}

theorem idxOf?_chainNames (symIn : sym ∈ ir.symbols) (depth : Nat) :
    (chainNames src rest).idxOf? sym.qualifiedName = some depth ↔ (src :: rest)[depth]? = some sym := by
  have inFile : ∀ other ∈ src :: rest, other ∈ ir.symbols := fun other listed =>
    ((mem_chain_iff wellScoped member outward other).mp listed).1
  have chain := outward.pairwise wellScoped.nested
  rw [List.idxOf?_eq_some_iff, List.getElem?_eq_some_iff]
  constructor
  · rintro ⟨less, named, _⟩
    have short : depth < (src :: rest).length := by simpa [chainNames] using less
    refine ⟨short, wellScoped.eq_of_qualifiedName (inFile _ (getElem_mem short)) symIn ?_⟩
    simpa only [chainNames, getElem_map] using named
  · rintro ⟨short, same⟩
    have less : depth < (chainNames src rest).length := by simpa [chainNames] using short
    have at_ : ∀ i (h : i < (chainNames src rest).length) (g : i < (src :: rest).length),
        (chainNames src rest)[i] = (src :: rest)[i].qualifiedName := fun i h g => getElem_map ..
    refine ⟨less, by rw [at_ depth less short, same], fun earlier before named => ?_⟩
    have shorter := before.trans short
    rw [at_ earlier (before.trans less) shorter] at named
    have equal := wellScoped.eq_of_qualifiedName (inFile _ (getElem_mem shorter)) symIn named
    have strictly := pairwise_iff_getElem.mp chain earlier depth shorter short before
    rw [equal, same] at strictly
    exact strictly.2 rfl

theorem seatOf_eq_local_iff (symIn : sym ∈ ir.symbols) (offered : Offer) (depth : Nat) :
    seatOf (chainNames src rest) (bindingAt (some sym) offered) = .local depth ↔
      isClassLike sym.kind = false ∧ (src :: rest)[depth]? = some sym := by
  rw [← idxOf?_chainNames wellScoped member outward symIn]
  cases classLike : isClassLike sym.kind with
  | true => simp [seatOf, bindingAt, classLike]
  | false => cases found : (chainNames src rest).idxOf? sym.qualifiedName <;> simp [seatOf, bindingAt, classLike, found]

theorem seatOf_ne_unseen_iff (impIn : imp ∈ ir.imports) (offered : Offer) :
    seatOf (chainNames src rest) (bindingAt (scopeOf ir imp) offered) ≠ .unseen ↔
      ∀ sym ∈ scopeOf ir imp, (symbolSpan sym).Covers (symbolSpan src) ∧ isClassLike sym.kind = false := by
  cases found : scopeOf ir imp with
  | none => simp [seatOf, bindingAt]
  | some sym =>
    have symIn := scopeOf_mem wellScoped impIn sym found
    have listed := mem_chain_iff wellScoped member outward sym
    have seated : ∀ depth, _ := seatOf_eq_local_iff wellScoped member outward symIn offered
    simp only [Option.mem_def, Option.some.injEq, forall_eq']
    constructor
    · intro seen
      cases seat : seatOf (chainNames src rest) (bindingAt (some sym) offered) with
      | unseen => exact absurd seat seen
      | file => exact absurd ((seatOf_eq_file_iff (some sym) offered).mp seat) (by simp)
      | «local» depth =>
        obtain ⟨notClass, place⟩ := (seated depth).mp seat
        exact ⟨(listed.mp (mem_of_getElem? place)).2, notClass⟩
    · rintro ⟨covers, notClass⟩ unseen
      obtain ⟨depth, place⟩ := mem_iff_getElem?.mp (listed.mpr ⟨symIn, covers⟩)
      rw [(seated depth).mpr ⟨notClass, place⟩] at unseen
      cases unseen

theorem imports_iff (name : JsString) (imp : ImportIR) (scope : Scope) (offered : Offer) : Imports ir src name imp scope offered ↔
    imp ∈ ir.imports ∧ scopeOf ir imp = scope ∧ (offers ir imp name).head? = some offered ∧
      seatOf (chainNames src rest) (bindingAt scope offered) ≠ .unseen := by
  constructor
  · rintro ⟨impIn, stands, around, first⟩
    obtain rfl := (scopeOf_eq_iff wellScoped impIn scope).mpr stands
    exact ⟨impIn, rfl, first, (seatOf_ne_unseen_iff wellScoped member outward impIn offered).mpr around⟩
  · rintro ⟨impIn, rfl, first, seen⟩
    exact ⟨impIn, (scopeOf_eq_iff wellScoped impIn _).mp rfl, (seatOf_ne_unseen_iff wellScoped member outward impIn offered).mp seen, first⟩

theorem exists_sym_of_local {depth : Nat} (imports : Imports ir src name imp scope offered)
    (seat : seatOf (chainNames src rest) (bindingAt scope offered) = .local depth) :
    ∃ sym, scope = some sym ∧ (src :: rest)[depth]? = some sym := by
  obtain ⟨impIn, rfl, _, _⟩ := (imports_iff wellScoped member outward name imp scope offered).mp imports
  cases found : scopeOf ir imp with
  | none => rw [found, (seatOf_eq_file_iff none offered).mpr rfl] at seat; cases seat
  | some sym =>
    rw [found] at seat
    exact ⟨sym, rfl, ((seatOf_eq_local_iff wellScoped member outward (scopeOf_mem wellScoped impIn sym found) offered depth).mp seat).2⟩

theorem local_of_imports (imports : Imports ir src name imp (some sym) offered) :
    ∃ depth, seatOf (chainNames src rest) (bindingAt (some sym) offered) = .local depth ∧ (src :: rest)[depth]? = some sym := by
  have seen := ((imports_iff wellScoped member outward name imp (some sym) offered).mp imports).2.2.2
  cases seat : seatOf (chainNames src rest) (bindingAt (some sym) offered) with
  | unseen => exact absurd seat seen
  | file => exact absurd ((seatOf_eq_file_iff (some sym) offered).mp seat) (by simp)
  | «local» depth =>
    obtain ⟨_, same, place⟩ := exists_sym_of_local wellScoped member outward imports seat
    cases same
    exact ⟨depth, rfl, place⟩

theorem chooseBinding_eq_none (none : chooseBinding (chainNames src rest) (importBindings ir name) = none) (imp : ImportIR)
    (scope : Scope) (offered : Offer) : ¬ Imports ir src name imp scope offered := by
  intro imports
  obtain ⟨impIn, rfl, first, seen⟩ := (imports_iff wellScoped member outward name imp scope offered).mp imports
  rw [chooseBinding_first wellScoped, Option.map_eq_none_iff] at none
  have isChoice := isChoice_foldl (chainNames src rest) (firstBindings ir name)
  rw [none] at isChoice
  exact seen (isChoice _ (mem_firstBindings.mpr ⟨imp, impIn, offered, first, rfl⟩))

theorem chooseBinding_eq_some {binding : ImportBinding}
    (found : chooseBinding (chainNames src rest) (importBindings ir name) = some binding) : ∃ imp scope offered,
      Imports ir src name imp scope offered ∧ (scope = none ∨ IsInnermost ir src name scope) ∧ bindingAt scope offered = binding := by
  rw [chooseBinding_first wellScoped, Option.map_eq_some_iff] at found
  obtain ⟨⟨chosen, depth⟩, folded, rfl⟩ := found
  have isChoice := isChoice_foldl (chainNames src rest) (firstBindings ir name)
  rw [folded] at isChoice
  obtain ⟨listed, place⟩ := isChoice
  obtain ⟨imp, impIn, offered, first, rfl⟩ := mem_firstBindings.mp listed
  have imports : Imports ir src name imp (scopeOf ir imp) offered := by
    refine (imports_iff wellScoped member outward name imp _ offered).mpr ⟨impIn, rfl, first, fun unseen => ?_⟩
    rcases place with ⟨seat, _⟩ | ⟨seat, _⟩ <;> rw [unseen] at seat <;> cases seat
  refine ⟨imp, scopeOf ir imp, offered, imports, ?_, rfl⟩
  rcases place with ⟨seat, _⟩ | ⟨seat, least⟩
  · exact .inl ((seatOf_eq_file_iff _ offered).mp seat)
  · refine .inr fun other inner otherOffered otherImports inside => ?_
    obtain ⟨outer, outerIs, place⟩ := exists_sym_of_local wellScoped member outward imports seat
    cases inner with
    | none => exact inside
    | some sym =>
      obtain ⟨deeper, otherSeat, otherPlace⟩ := local_of_imports wellScoped member outward otherImports
      obtain ⟨otherIn, otherScope, otherFirst, _⟩ := (imports_iff wellScoped member outward name other _ otherOffered).mp otherImports
      rw [outerIs] at inside
      have less := (lt_iff_strictlyCovers wellScoped outward otherPlace place).mpr inside
      have least := least _ (mem_firstBindings.mpr ⟨other, otherIn, otherOffered, otherFirst, by rw [otherScope]⟩) deeper otherSeat
      omega

theorem chooseBinding_of_first {others : List ImportIR} (listed : ir.imports = imp :: others)
    (imports : Imports ir src name imp scope offered) (innermost : scope = none ∨ IsInnermost ir src name scope) :
    chooseBinding (chainNames src rest) (importBindings ir name) = some (bindingAt scope offered) := by
  obtain ⟨_, rfl, first, seen⟩ := (imports_iff wellScoped member outward name imp scope offered).mp imports
  have firsts : firstBindings ir name = bindingAt (scopeOf ir imp) offered ::
      others.filterMap fun other => (offers ir other name).head?.map (bindingAt (scopeOf ir other)) := by
    rw [firstBindings, listed, filterMap_cons, first]
    rfl
  have stays : ∀ depth, (∀ other ∈ firstBindings ir name, ∀ otherDepth,
      seatOf (chainNames src rest) other = .local otherDepth → depth ≤ otherDepth) →
      choose (chainNames src rest) none (bindingAt (scopeOf ir imp) offered) = some (bindingAt (scopeOf ir imp) offered, depth) →
      ((firstBindings ir name).foldl (choose (chainNames src rest)) none).map Prod.fst = some (bindingAt (scopeOf ir imp) offered) := by
    intro depth outer taken
    rw [firsts, foldl_cons, taken, foldl_choose_stays]
    · rfl
    · intro other otherIn
      exact outer other (firsts ▸ mem_cons_of_mem _ otherIn)
  rw [chooseBinding_first wellScoped]
  cases seat : seatOf (chainNames src rest) (bindingAt (scopeOf ir imp) offered) with
  | unseen => exact absurd seat seen
  | file => exact stays 0 (fun _ _ _ _ => Nat.zero_le _) (by simp [choose, seat])
  | «local» depth =>
    obtain ⟨outer, outerIs, place⟩ := exists_sym_of_local wellScoped member outward imports seat
    refine stays depth (fun other otherIn otherDepth otherSeat => ?_) (by simp [choose, seat])
    obtain ⟨otherImp, otherImpIn, otherOffered, otherFirst, rfl⟩ := mem_firstBindings.mp otherIn
    have otherImports : Imports ir src name otherImp (scopeOf ir otherImp) otherOffered := by
      refine (imports_iff wellScoped member outward name otherImp _ otherOffered).mpr ⟨otherImpIn, rfl, otherFirst, ?_⟩
      rw [otherSeat]
      simp
    obtain ⟨inner, innerIs, otherPlace⟩ := exists_sym_of_local wellScoped member outward otherImports otherSeat
    by_contra deeper
    have innermost := innermost.resolve_left (by rw [outerIs]; simp) otherImp _ otherOffered otherImports
    rw [innerIs, outerIs] at innermost
    exact innermost ((lt_iff_strictlyCovers wellScoped outward otherPlace place).mp (by omega))

theorem exists_innermost (imports : Imports ir src name imp scope offered) :
    ∃ imp scope offered, Imports ir src name imp scope offered ∧ IsInnermost ir src name scope := by
  have inner : ∀ (depth : Nat) sym imp offered, (src :: rest)[depth]? = some sym → Imports ir src name imp (some sym) offered →
      ∃ imp scope offered, Imports ir src name imp scope offered ∧ IsInnermost ir src name scope := by
    intro depth
    induction depth using Nat.strong_induction_on with
    | _ depth ih =>
      intro sym imp offered place imports
      by_cases innermost : IsInnermost ir src name (some sym)
      · exact ⟨imp, some sym, offered, imports, innermost⟩
      · unfold IsInnermost at innermost
        push Not at innermost
        obtain ⟨other, scope, otherOffered, otherImports, inside⟩ := innermost
        cases scope with
        | none => exact absurd inside id
        | some inner =>
          obtain ⟨deeper, _, otherPlace⟩ := local_of_imports wellScoped member outward otherImports
          have less := (lt_iff_strictlyCovers wellScoped outward otherPlace place).mpr inside
          exact ih deeper less inner other otherOffered otherPlace otherImports
  have ofLocal : ∀ sym imp offered, Imports ir src name imp (some sym) offered →
      ∃ imp scope offered, Imports ir src name imp scope offered ∧ IsInnermost ir src name scope := by
    intro sym imp offered imports
    obtain ⟨depth, _, place⟩ := local_of_imports wellScoped member outward imports
    exact inner depth sym imp offered place imports
  cases scope with
  | some sym => exact ofLocal sym imp offered imports
  | none =>
    by_cases innermost : IsInnermost ir src name none
    · exact ⟨imp, none, offered, imports, innermost⟩
    · unfold IsInnermost at innermost
      push Not at innermost
      obtain ⟨other, scope, otherOffered, otherImports, inside⟩ := innermost
      cases scope with
      | none => exact absurd inside id
      | some sym => exact ofLocal sym other otherOffered otherImports

theorem declaringScope_eq_some_iff (name : JsString) (scope : Scope) : declaringScope ir src rest name = some scope ↔
    Visible ir src scope ∧ (∃ sym, Declares ir.symbols scope name sym) ∧
      ∀ inner, Visible ir src inner → inner.Inside scope → ∀ other, ¬ Declares ir.symbols inner name other := by
  rw [declaringScope, find?_eq_some_iff_inside (pairwise_scopesOf wellScoped outward)]
  simp only [mem_scopesOf wellScoped member outward, decide_eq_true_eq, decide_eq_false_iff_not]
  refine and_congr_right fun visible => and_congr (declares_iff_ne_nil wellScoped visible name) ?_
  refine forall_congr' fun inner => forall₂_congr fun shown _ => ?_
  rw [declares_iff_ne_nil wellScoped shown, not_exists]

theorem declaringScope_eq_none_iff (name : JsString) : declaringScope ir src rest name = none ↔ Free ir src name := by
  rw [declaringScope, List.find?_eq_none]
  simp only [mem_scopesOf wellScoped member outward, decide_eq_true_eq]
  refine forall₂_congr fun scope visible => ?_
  rw [declares_iff_ne_nil wellScoped visible, not_exists]

theorem resolveFrom_of_free (free : Free ir src name) : resolveFrom ir src rest name =
    (chooseBinding (chainNames src rest) (importBindings ir name)).map fun binding =>
      ⟨binding.exported, some binding.hint, heuristicConfidenceImportBound⟩ := by
  rw [resolveFrom_eq, (declaringScope_eq_none_iff wellScoped member outward name).mpr free]
  rfl

theorem resolveFrom_of_declared (found : declaringScope ir src rest name = some scope) (target : Target) :
    resolveFrom ir src rest name = some target ↔ Binds ir src name target := by
  obtain ⟨visible, ⟨sym, declared⟩, innermost⟩ := (declaringScope_eq_some_iff wellScoped member outward name scope).mp found
  have inFile : ∀ sym ∈ scope, sym ∈ ir.symbols := by
    rintro sym rfl
    exact visible.1
  have listed := fun sym => wellScoped.mem_scopeByName inFile name sym
  have bound : ∀ {target}, Binds ir src name target →
      ∃ sym, target = ⟨sym.qualifiedName, none, heuristicConfidenceSameFile⟩ ∧ Declares ir.symbols scope name sym ∧
        ∀ other, Declares ir.symbols scope name other → other = sym := by
    intro target binds
    cases binds with
    | @symbol otherScope other otherVisible otherDeclared alone otherInnermost =>
      have same := (declaringScope_eq_some_iff wellScoped member outward name otherScope).mpr ⟨otherVisible, ⟨other, otherDeclared⟩, otherInnermost⟩
      rw [found] at same
      cases same
      exact ⟨other, rfl, otherDeclared, alone⟩
    | imported free => exact absurd declared (free scope visible sym)
  rw [resolveFrom_eq, found, Option.map_some]
  cases shape : scopeByName ir.symbols scope.level name with
  | nil =>
    have inside := (listed sym).mpr declared
    rw [shape] at inside
    cases inside
  | cons first more =>
    cases more with
    | nil =>
      have only : ∀ other, Declares ir.symbols scope name other ↔ other = first := by
        intro other
        rw [← listed other, shape, mem_singleton]
      dsimp only
      rw [Option.some.injEq]
      constructor
      · rintro rfl
        exact .symbol visible ((only first).mpr rfl) (fun other declares => (only other).mp declares) innermost
      · intro binds
        obtain ⟨other, rfl, declares, _⟩ := bound binds
        rw [(only other).mp declares]
    | cons second more =>
      refine iff_of_false (by simp) fun binds => ?_
      obtain ⟨only, _, _, alone⟩ := bound binds
      have apart : (first :: second :: more).Nodup := by
        rw [← shape]
        exact wellScoped.nested.nodup.filter _
      have one := alone first ((listed first).mp (by simp [shape]))
      have two := alone second ((listed second).mp (by simp [shape]))
      exact (nodup_cons.mp apart).1 (by simp [one, two])

theorem resolveFrom_eq_none_iff (name : JsString) : resolveFrom ir src rest name = none ↔ ∀ target, ¬ Binds ir src name target := by
  cases found : declaringScope ir src rest name with
  | some scope =>
    have bound := resolveFrom_of_declared wellScoped member outward found
    rw [Option.eq_none_iff_forall_ne_some]
    exact forall_congr' fun target => not_congr (bound target)
  | none =>
    have free := (declaringScope_eq_none_iff wellScoped member outward name).mp found
    rw [resolveFrom_of_free wellScoped member outward free, Option.map_eq_none_iff]
    constructor
    · intro none target binds
      cases binds with
      | symbol visible declared => exact free _ visible _ declared
      | imported _ imports => exact chooseBinding_eq_none wellScoped member outward none _ _ _ imports
    · intro unbound
      cases chosen : chooseBinding (chainNames src rest) (importBindings ir name) with
      | none => rfl
      | some binding =>
        obtain ⟨_, _, _, imports, _, _⟩ := chooseBinding_eq_some wellScoped member outward chosen
        obtain ⟨_, _, _, inner, innermost⟩ := exists_innermost wellScoped member outward imports
        exact absurd (.imported free inner innermost) (unbound _)

theorem resolveFrom_eq_some_iff (alike : Free ir src name → Alike ir src name) (target : Target) :
    resolveFrom ir src rest name = some target ↔ Binds ir src name target := by
  cases found : declaringScope ir src rest name with
  | some scope => exact resolveFrom_of_declared wellScoped member outward found target
  | none =>
    have free := (declaringScope_eq_none_iff wellScoped member outward name).mp found
    have alike := alike free
    rw [resolveFrom_of_free wellScoped member outward free, Option.map_eq_some_iff]
    constructor
    · rintro ⟨binding, chosen, rfl⟩
      obtain ⟨imp, scope, offered, imports, counts, rfl⟩ := chooseBinding_eq_some wellScoped member outward chosen
      obtain ⟨inner, innerScope, innerOffered, innerImports, innermost⟩ := exists_innermost wellScoped member outward imports
      have same := alike imp scope offered inner innerScope innerOffered imports innerImports counts (.inr innermost)
      subst same
      exact .imported free innerImports innermost
    · intro binds
      cases binds with
      | symbol visible declared => exact absurd declared (free _ visible _)
      | @imported imp scope offered _ imports innermost =>
        cases chosen : chooseBinding (chainNames src rest) (importBindings ir name) with
        | none => exact absurd imports (chooseBinding_eq_none wellScoped member outward chosen imp scope offered)
        | some binding =>
          obtain ⟨other, otherScope, otherOffered, otherImports, counts, rfl⟩ := chooseBinding_eq_some wellScoped member outward chosen
          have same := alike imp scope offered other otherScope otherOffered imports otherImports (.inr innermost) counts
          subst same
          exact ⟨_, rfl, rfl⟩

end chain

end imports

section calls

variable {ir : FileIR} {src : SymbolIR} {rest : List SymbolIR} {site : CallSiteIR}

theorem edgeOfCall_eq (wellScoped : WellScoped ir) (siteIn : site ∈ ir.callSites) (bare : site.memberAccess = false)
    (caller : Innermost symbolSpan ir.symbols (siteSpan site) src) (outward : Outward symbolSpan ir.symbols src rest) :
    edgeOfCall ir site = some ((site.calleeNameCandidates.findSome? (resolveFrom ir src rest)).map (edgeOf ir src)) := by
  have enclosing : enclosingSymbol ir.symbols site.startByte site.endByte = some src :=
    (wellScoped.enclosingSymbol_eq_some_iff (wellScoped.sites site siteIn) src).mpr caller
  have short := outward.length_lt wellScoped.nested caller.member
  have inFile : ∀ sym ∈ rest, sym ∈ ir.symbols := fun sym listed => ((outward.mem_iff wellScoped.nested sym).mp listed).1
  have scopes : src.qualifiedName :: (rest.map SymbolIR.qualifiedName ++ [[]]).filter (fun level =>
      !(ir.language ∈ explicitReceiverLanguages && level ≠ [] && (kindOf ir.symbols level).any isClassLike)) =
        (scopesOf ir src rest).map Scope.level := by
    have shown : (rest.map SymbolIR.qualifiedName).filter (fun level =>
        !(ir.language ∈ explicitReceiverLanguages && level ≠ [] && (kindOf ir.symbols level).any isClassLike)) =
        ((rest.filter fun sym => !(ir.language ∈ explicitReceiverLanguages && isClassLike sym.kind)).map some).map Scope.level := by
      rw [filter_map, map_map]
      refine congrArg (List.map _) (filter_congr fun sym listed => ?_)
      simp [wellScoped.kindOf_eq (inFile sym listed), wellScoped.named sym (inFile sym listed)]
    rw [filter_append, shown]
    simp [scopesOf, Scope.level]
  have ancestors : src.qualifiedName :: (rest.map SymbolIR.qualifiedName ++ [[]]).filter (· ≠ []) = chainNames src rest := by
    have all : (rest.map SymbolIR.qualifiedName).filter (· ≠ []) = rest.map SymbolIR.qualifiedName := by
      refine filter_eq_self.mpr fun name listed => ?_
      obtain ⟨sym, symIn, rfl⟩ := mem_map.mp listed
      exact decide_eq_true (wellScoped.named sym (inFile sym symIn))
    rw [filter_append, all]
    simp [chainNames]
  rw [edgeOfCall, if_neg (by simp [bare]), enclosing]
  dsimp only
  rw [wellScoped.levelsAround_eq caller.member outward (by omega), Option.bind_eq_bind, Option.bind_some, scopes, ancestors]
  rfl

variable {name : JsString} {imp : ImportIR}

theorem findSome?_of_reaches (wellScoped : WellScoped ir) (member : src ∈ ir.symbols)
    (outward : Outward symbolSpan ir.symbols src rest) (reaches : Reaches ir src site name) {target : Target}
    (resolved : resolveFrom ir src rest name = some target) :
    site.calleeNameCandidates.findSome? (resolveFrom ir src rest) = some target := by
  obtain ⟨before, after, shape, unbound⟩ := reaches
  rw [List.findSome?_eq_some_iff]
  refine ⟨before, name, after, shape, resolved, fun earlier listed => ?_⟩
  exact (resolveFrom_eq_none_iff wellScoped member outward earlier).mpr (unbound earlier listed)

theorem edgeOfCall_iff (wellScoped : WellScoped ir) (agreeing : Agreeing ir) (siteIn : site ∈ ir.callSites) :
    ∃ found, edgeOfCall ir site = some found ∧ ∀ edge, found = some edge ↔ site.memberAccess = false ∧ LexicalEdge ir site edge := by
  cases bare : site.memberAccess with
  | true => exact ⟨none, by rw [edgeOfCall, if_pos bare], fun edge => by simp⟩
  | false =>
    cases enclosing : enclosingSymbol ir.symbols site.startByte site.endByte with
    | none =>
      refine ⟨none, by rw [edgeOfCall, if_neg (by simp [bare]), enclosing], fun edge => iff_of_false (by simp) ?_⟩
      rintro ⟨_, src, _, _, caller, _⟩
      exact WellScoped.enclosingSymbol_eq_none_iff _ _ |>.mp enclosing src caller.member caller.covers
    | some src =>
      have caller : Innermost symbolSpan ir.symbols (siteSpan site) src :=
        (wellScoped.enclosingSymbol_eq_some_iff (wellScoped.sites site siteIn) src).mp enclosing
      obtain ⟨rest, outward⟩ := Outward.exists_outward wellScoped.nested caller.member
      refine ⟨_, edgeOfCall_eq wellScoped siteIn bare caller outward, fun edge => ?_⟩
      have resolved : ∀ name, Reaches ir src site name → ∀ target, resolveFrom ir src rest name = some target ↔ Binds ir src name target :=
        fun name reaches => resolveFrom_eq_some_iff wellScoped caller.member outward fun free =>
          agreeing site siteIn bare src caller name reaches free
      rw [Option.map_eq_some_iff, and_iff_right rfl]
      constructor
      · rintro ⟨target, found, rfl⟩
        obtain ⟨before, name, after, shape, one, skipped⟩ := List.findSome?_eq_some_iff.mp found
        have reaches : Reaches ir src site name := ⟨before, after, shape, fun earlier listed =>
          (resolveFrom_eq_none_iff wellScoped caller.member outward earlier).mp (skipped earlier listed)⟩
        exact ⟨src, name, target, caller, reaches, (resolved name reaches target).mp one, rfl⟩
      · rintro ⟨other, name, target, otherCaller, reaches, binds, rfl⟩
        obtain rfl := otherCaller.unique wellScoped.nested caller
        have found := (resolved name reaches target).mpr binds
        exact ⟨target, findSome?_of_reaches wellScoped caller.member outward reaches found, rfl⟩

theorem edgeOf_inj {first second : Target} (same : edgeOf ir src first = edgeOf ir src second) : first = second := by
  obtain ⟨dst, hint, confidence⟩ := first
  obtain ⟨otherDst, otherHint, otherConfidence⟩ := second
  simp only [edgeOf, EdgeIR.mk.injEq, Option.some.injEq] at same
  grind

/-- With an import that counts listed first, a call that reaches its name goes to it. -/
theorem edgeOfCall_of_first (wellScoped : WellScoped ir) (siteIn : site ∈ ir.callSites) (bare : site.memberAccess = false)
    (caller : Innermost symbolSpan ir.symbols (siteSpan site) src) (reaches : Reaches ir src site name)
    (free : Free ir src name) {others : List ImportIR} (listed : ir.imports = imp :: others) {scope : Scope} {offered : Offer}
    (imports : Imports ir src name imp scope offered) (counts : scope = none ∨ IsInnermost ir src name scope) :
    edgeOfCall ir site = some (some (edgeOf ir src ⟨offered.exported, some offered.hint, heuristicConfidenceImportBound⟩)) := by
  obtain ⟨rest, outward⟩ := Outward.exists_outward wellScoped.nested caller.member
  have found : resolveFrom ir src rest name = some ⟨offered.exported, some offered.hint, heuristicConfidenceImportBound⟩ := by
    rw [resolveFrom_of_free wellScoped caller.member outward free,
      chooseBinding_of_first wellScoped caller.member outward listed imports counts]
    rfl
  rw [edgeOfCall_eq wellScoped siteIn bare caller outward, findSome?_of_reaches wellScoped caller.member outward reaches found]
  rfl

def fronted (ir : FileIR) (imp : ImportIR) : FileIR := { ir with imports := imp :: ir.imports.erase imp }

theorem rearranged_fronted (member : imp ∈ ir.imports) : Rearranged ir (fronted ir imp) where
  symbols := .refl _
  imports := perm_cons_erase member
  rest := rfl

end calls

theorem mapM_congr_left {Item Value : Type} {items : List Item} {first second : Item → Option Value}
    (same : ∀ item ∈ items, first item = second item) : items.mapM first = items.mapM second := by
  induction items with
  | nil => rfl
  | cons item items ih =>
    rw [mapM_cons, mapM_cons, same item mem_cons_self, ih fun other member => same other (mem_cons_of_mem item member)]

/-- Each bare call that gets an edge gets the one of its scopes, and no order of symbols or imports changes an edge. -/
def BindsLexically (ir : FileIR) : Prop :=
  (∀ site ∈ ir.callSites, ∀ edge, edgeOfCall ir site = some (some edge) → LexicalEdge ir site edge) ∧
    ∀ other, Rearranged ir other → (∀ site ∈ ir.callSites, edgeOfCall other site = edgeOfCall ir site) ∧
      (deriveFile other).map StoreFileIR.edges = (deriveFile ir).map StoreFileIR.edges

theorem binds_lexically_iff (ir : FileIR) (wellScoped : WellScoped ir) : BindsLexically ir ↔ Agreeing ir := by
  constructor
  · rintro ⟨_, ordered⟩ site siteIn bare src caller name reaches free first scope offered second otherScope otherOffered one two oneCounts twoCounts
    have at_ : ∀ imp scope offered, Imports ir src name imp scope offered → (scope = none ∨ IsInnermost ir src name scope) →
        edgeOfCall ir site = some (some (edgeOf ir src ⟨offered.exported, some offered.hint, heuristicConfidenceImportBound⟩)) := by
      intro imp scope offered imports counts
      have moved := rearranged_fronted imports.member
      rw [← (ordered (fronted ir imp) moved).1 site siteIn]
      exact edgeOfCall_of_first (moved.wellScoped wellScoped) siteIn bare (moved.innermost caller) (moved.reaches reaches) (moved.free free)
        rfl (moved.imported imports) (counts.imp_right moved.isInnermost)
    have same := (at_ first scope offered one oneCounts).symm.trans (at_ second otherScope otherOffered two twoCounts)
    have targets := edgeOf_inj (Option.some.inj (Option.some.inj same))
    obtain ⟨exported, hint⟩ := offered
    obtain ⟨otherExported, otherHint⟩ := otherOffered
    simp only [Target.mk.injEq, Option.some.injEq] at targets
    grind
  · intro agreeing
    have edges : ∀ other, Rearranged ir other → ∀ site ∈ ir.callSites, edgeOfCall other site = edgeOfCall ir site := by
      intro other moved site siteIn
      obtain ⟨found, own, ownIff⟩ := edgeOfCall_iff wellScoped agreeing siteIn
      obtain ⟨otherFound, others, othersIff⟩ :=
        edgeOfCall_iff (moved.wellScoped wellScoped) (moved.agreeing agreeing) (moved.callSites ▸ siteIn)
      rw [own, others]
      refine congrArg some (Option.ext fun edge => ?_)
      rw [othersIff, ownIff]
      exact and_congr_right fun _ => ⟨moved.symm.lexicalEdge, moved.lexicalEdge⟩
    refine ⟨fun site siteIn edge derived => ?_, fun other moved => ⟨edges other moved, ?_⟩⟩
    · obtain ⟨found, own, ownIff⟩ := edgeOfCall_iff wellScoped agreeing siteIn
      rw [own, Option.some.injEq] at derived
      exact ((ownIff edge).mp derived).2
    · have calls : other.callSites.mapM (edgeOfCall other) = ir.callSites.mapM (edgeOfCall ir) := by
        rw [← moved.callSites]
        exact mapM_congr_left (edges other moved)
      unfold deriveFile
      rw [calls]
      cases ir.callSites.mapM (edgeOfCall ir) <;> rfl

section shadowed

def runSymbol : SymbolIR := ⟨text "run", text "run", text "function", 21, 90⟩

def helperCall : CallSiteIR := ⟨[text "helper"], false, 70, 78⟩

/-- `from .a import helper` in the file, and in the function `run` the same name from `.b` before its call. -/
def shadowedFile : FileIR where
  path := text "pkg/main.py"
  language := text "python"
  contentHash := text "0"
  symbols := [runSymbol]
  imports := [⟨text ".a", [text "helper"], none, 0, 20⟩, ⟨text ".b", [text "helper"], none, 40, 60⟩]
  exports := []
  callSites := [helperCall]
  routes := []

def helperEdge (hint : JsString) : EdgeIR := edgeOf shadowedFile runSymbol ⟨text "helper", some hint, heuristicConfidenceImportBound⟩

theorem wellScoped_shadowedFile : WellScoped shadowedFile where
  names := by decide
  named := by decide
  nested := ⟨by decide, by decide, by decide⟩
  sites := by decide
  imports := by decide

theorem edgeOfCall_shadowedFile : edgeOfCall shadowedFile helperCall = some (some (helperEdge (text "pkg/a"))) ∧
    edgeOfCall { shadowedFile with imports := shadowedFile.imports.reverse } helperCall = some (some (helperEdge (text "pkg/b"))) := by
  decide +kernel

theorem not_bindsLexically_shadowedFile : ¬ BindsLexically shadowedFile := by
  rintro ⟨_, ordered⟩
  have moved : Rearranged shadowedFile { shadowedFile with imports := shadowedFile.imports.reverse } :=
    ⟨.refl _, (reverse_perm _).symm, rfl⟩
  have same := (ordered _ moved).1 helperCall (mem_singleton_self _)
  rw [edgeOfCall_shadowedFile.1, edgeOfCall_shadowedFile.2] at same
  exact absurd same (by decide +kernel)

/-- The call goes to the file's import, and to the function's own one if that is listed first. -/
theorem shadowing_import_is_ignored : WellScoped shadowedFile ∧ edgeOfCall shadowedFile helperCall = some (some (helperEdge (text "pkg/a"))) ∧
    edgeOfCall { shadowedFile with imports := shadowedFile.imports.reverse } helperCall = some (some (helperEdge (text "pkg/b"))) ∧
      ¬ BindsLexically shadowedFile :=
  ⟨wellScoped_shadowedFile, edgeOfCall_shadowedFile.1, edgeOfCall_shadowedFile.2, not_bindsLexically_shadowedFile⟩

theorem binds_lexically_iff_shadowed : ¬ Agreeing shadowedFile :=
  fun agreeing => not_bindsLexically_shadowedFile ((binds_lexically_iff shadowedFile wellScoped_shadowedFile).mpr agreeing)

end shadowed

end Remnic.CodingGraph.ResolvedCalls
