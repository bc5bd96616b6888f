import ContractCheck.Proofs.SuccessfulRun
import ContractCheck.Proofs.WellSorted

/-!
What a walk sends can be read back. The terms of a walk over a well-sorted expression are made of
words, and so are the commands that they occur in (`legible_checkWithin`).
-/

namespace ContractCheck

open Smt

theorem Term.legible_symbol {name : String} (h : isPlainName name = true) :
    (Term.symbol name).Legible :=
  .atom (isWord_of_isPlainName h)

theorem Term.legible_not {t : Term} (h : t.Legible) : (Term.not t).Legible := by
  refine .apply (by decide) fun arg harg => ?_
  rw [List.mem_singleton.1 harg]
  exact h

theorem Term.legible_eq {a b : Term} (ha : a.Legible) (hb : b.Legible) :
    (Term.eq a b).Legible := by
  refine .apply (by decide) (List.forall_mem_cons.2 ⟨ha, fun arg harg => ?_⟩)
  rw [List.mem_singleton.1 harg]
  exact hb

theorem Term.legible_bool (b : Bool) : (Term.bool b).Legible := by
  cases b <;> exact .atom (by decide)

theorem Term.legible_int (n : Int64) : (Term.int n).Legible := by
  have hdigits : SExpr.Legible (.atom (toString n.toInt.natAbs)) := by
    refine .atom (isWord_of_plain ?_ fun c hc => ?_)
    · rw [Nat.toString_eq_repr, Nat.toList_repr]
      exact Nat.toDigits_ne_nil
    · simp [isPlainChar, Char.isAlphanum, isDigit_of_mem_toString hc]
  unfold Term.int
  split
  · refine .apply (by decide) fun arg harg => ?_
    rw [List.mem_singleton.1 harg]
    exact hdigits
  · exact hdigits

theorem Operator.isWord_of_symbol? {name symbol : String} (h : symbol? name = some symbol) :
    SExpr.IsWord symbol := by
  have hall : ∀ entry ∈ symbols, SExpr.IsWord entry.2 := by decide
  exact hall (name, symbol) (NameMap.mem_of_lookup_eq_some h)

theorem Operator.legible_of_apply {name : String} {terms : List Term} {applied : Term}
    (h : Operator.apply name terms = .ok applied) (hterms : ∀ t ∈ terms, t.Legible) :
    applied.Legible := by
  obtain ⟨symbol, hsymbol, rfl | rfl⟩ := apply_eq_ok h
  · exact .apply (isWord_of_symbol? hsymbol) hterms
  · exact Term.legible_not (.apply (isWord_of_symbol? hsymbol) hterms)

namespace Checker

/-- All commands and the term can be read back. -/
def Spelled (commands : List Command) (t : Term) : Prop :=
  (∀ c ∈ commands, c.IsLegible) ∧ t.Legible

/-- The variables of a context have legible terms. -/
def Spells (env : Env) (locals : Bindings) (context : NameMap SolverSort) : Prop :=
  ∀ name sort, env.variableSort? context name = some sort → (locals.resolve name).Legible

/-- The favourable courses of the walk over well-sorted expressions can be read back. -/
def LegibleWalk (env : Env) (walk : Walk) : Prop :=
  ∀ ⦃mode locals e p commands t p'⦄, Accepts (walk mode locals e) p commands t p' →
    ∀ ⦃lets context sort⦄, e.sort? env lets context = some sort → (lets = true → locals = ∅) →
      Spells env locals context → Spelled commands t

section

variable {env : Env} {walk : Walk} {locals : Bindings} {context : NameMap SolverSort}

theorem Spells.bindIn (h : Spells env locals context) (t : RefinedTy) {term : Term}
    (hterm : term.Legible) (sort : SolverSort) :
    Spells env (locals.bindRefined t term) (t.bindIn context sort) := by
  intro name found hfound
  cases t with
  | plain ty => exact h name found hfound
  | refined ty refinement =>
      simp only [Bindings.bindRefined, RefinedTy.bindIn, RefinedTy.refinement?] at hfound ⊢
      unfold Env.variableSort? at hfound
      unfold Bindings.resolve
      rw [NameMap.get?_insert] at hfound ⊢
      by_cases hname : name = refinement.binder
      · rw [if_pos hname]
        exact hterm
      · rw [if_neg hname] at hfound ⊢
        exact h name found hfound

theorem Spells.letIn (h : Spells env ∅ context) {name : String}
    (hname : isPlainName name = true) (sort : SolverSort) :
    Spells env ∅ (context.insert name sort) := by
  intro other found hfound
  unfold Env.variableSort? at hfound
  rw [NameMap.get?_insert] at hfound
  by_cases hother : other = name
  · rw [hother]
    exact Term.legible_symbol hname
  · rw [if_neg hother] at hfound
    exact h other found hfound

/-- Where nothing is bound, the variables are global values. -/
theorem spells_empty (hnames : env.IsPlain) : Spells env ∅ ∅ := by
  intro name sort hsort
  refine Term.legible_symbol ?_
  obtain ⟨sig, hsig, -, hrank⟩ := Env.globalRank?_of_valueSort? hsort
  exact hnames name sig hsig (by rw [hrank]; rfl)

theorem legible_goal (clause : Clause) {subject term : Term} (hsubject : subject.Legible)
    (hterm : term.Legible) : (clause.goal subject term).Legible := by
  cases clause with
  | holds pred => exact hterm
  | equals value => exact Term.legible_eq hsubject hterm

theorem legible_declareConst {name : String} {sort : SolverSort} {ty : Ty}
    (hname : isPlainName name = true) (hof : SolverSort.of? ty = some sort)
    (hnamed : sort ≠ .named "") : (Command.declareConst name sort.display).IsLegible :=
  ⟨isWord_of_isPlainName hname, (SolverSort.isWritable_of_of? hof hnamed).word⟩

theorem legible_application {callee : String} {terms : List Term}
    (hcallee : isPlainName callee = true) (hterms : ∀ t ∈ terms, t.Legible) :
    (application callee terms).Legible := by
  unfold application
  split
  · exact Term.legible_symbol hcallee
  · exact .apply (isWord_of_isPlainName hcallee) hterms

theorem spelled_appliesOperator {mode : Mode} {name : String} {ret : RefinedTy}
    {terms : List Term} {p p' : Progress} {commands : List Command} {t : Term} {sort : SolverSort}
    (h : AppliesOperator mode name ret terms p commands t p')
    (hret : SolverSort.of? ret.ty = some sort) (hnamed : sort ≠ .named "")
    (hterms : ∀ t ∈ terms, t.Legible) : Spelled commands t := by
  obtain ⟨applied, happly, hmode⟩ := h
  have happlied := Operator.legible_of_apply happly hterms
  cases mode with
  | full =>
      obtain ⟨rfl, rfl, -⟩ := hmode
      exact ⟨fun c hc => (nomatch hc), happlied⟩
  | simple =>
      obtain ⟨found, var, hof, rfl, rfl, rfl, -⟩ := hmode
      obtain rfl := Option.some.inj (hret.symm.trans hof)
      have hname := isPlainName_next p.names sort
      have hvar := Term.legible_symbol hname
      refine ⟨List.forall_mem_cons.2 ⟨legible_declareConst hname hof hnamed, fun c hc => ?_⟩, hvar⟩
      rw [List.mem_singleton.1 hc]
      exact Term.legible_eq hvar happlied

variable (hwalk : LegibleWalk env walk)
include hwalk

theorem legible_provesContract {t : RefinedTy} {term : Term} {p p' : Progress}
    {commands : List Command} {sort : SolverSort}
    (h : ProvesContract walk (locals.bindRefined t term) t p commands p')
    (hsorted : t.isSorted env context sort = true) (hspells : Spells env locals context)
    (hterm : term.Legible) : ∀ c ∈ commands, c.IsLegible := by
  unfold ProvesContract at h
  split at h
  · obtain ⟨rfl, -⟩ := h
    exact fun c hc => nomatch hc
  · rename_i binder clause hcontract
    obtain ⟨-, inner, result, p₁, hinner, rfl, -⟩ := h
    obtain ⟨hcommands, hresult⟩ := hwalk hinner (RefinedTy.sort?_of_isSorted hsorted hcontract)
      (fun h => nomatch h) (hspells.bindIn t hterm sort)
    have hsubject : ((locals.bindRefined t term).resolve binder).Legible := by
      rw [Bindings.resolve_bindRefined hcontract]
      exact hterm
    have hgoal := Term.legible_not (legible_goal clause hsubject hresult)
    intro c hc
    simp only [refutation, List.mem_cons, List.mem_append, List.not_mem_nil, or_false] at hc
    rcases hc with rfl | (hc | rfl | rfl) | rfl
    · trivial
    · exact hcommands c hc
    · exact hgoal
    · trivial
    · trivial

theorem legible_assumesContract {t : RefinedTy} {result : Term} {p p' : Progress}
    {commands : List Command} {sort : SolverSort}
    (h : AssumesContract walk (locals.bindRefined t result) result t p commands p')
    (hsorted : t.isSorted env context sort = true) (hspells : Spells env locals context)
    (hresult : result.Legible) : ∀ c ∈ commands, c.IsLegible := by
  unfold AssumesContract at h
  split at h
  · obtain ⟨rfl, -⟩ := h
    exact fun c hc => nomatch hc
  · rename_i binder clause hcontract
    obtain ⟨-, inner, term, hinner, rfl⟩ := h
    obtain ⟨hcommands, hterm⟩ := hwalk hinner (RefinedTy.sort?_of_isSorted hsorted hcontract)
      (fun h => nomatch h) (hspells.bindIn t hresult sort)
    intro c hc
    rcases List.mem_append.1 hc with hc | hc
    · exact hcommands c hc
    · rw [List.mem_singleton.1 hc]
      exact legible_goal clause hresult hterm

theorem legible_checkArgs {lets : Bool} {callee : String} {span : Option Span}
    {pairs : List (RefinedTy × Expr)} {binders : Bindings} {p p' : Progress}
    {commands : List Command} {r : Bindings × List Term} {sorts : List SolverSort}
    {rest : List (RefinedTy × SolverSort)} {inner : NameMap SolverSort}
    (h : Accepts (checkArgs walk callee span locals pairs binders) p commands r p')
    (hsorts : Expr.sorts? env lets context (pairs.map (·.2)) = some sorts)
    (hcontracts : sortedContracts env inner ((pairs.map (·.1)).zip sorts ++ rest) = true)
    (hlets : lets = true → locals = ∅) (hspells : Spells env locals context)
    (hinner : Spells env binders inner) :
    (∀ c ∈ commands, c.IsLegible) ∧ (∀ t ∈ r.2, t.Legible) ∧
      ∃ inner', sortedContracts env inner' rest = true ∧ Spells env r.1 inner' := by
  induction pairs generalizing binders p commands r sorts inner with
  | nil =>
      obtain ⟨rfl, rfl, -⟩ := accepts_checkArgs_nil h
      exact ⟨fun c hc => (nomatch hc), fun t ht => (nomatch ht), inner, hcontracts, hinner⟩
  | cons head others ih =>
      obtain ⟨param, arg⟩ := head
      obtain ⟨first, term, p₁, second, p₂, third, terms, hfirst, hsecond, hthird, rfl, hr⟩ :=
        accepts_checkArgs_cons h
      rw [List.map_cons, Expr.sorts?] at hsorts
      obtain ⟨sort, hsort, hsorts⟩ := Option.bind_eq_some_iff.1 hsorts
      obtain ⟨sorts, hothers, rfl⟩ := Option.map_eq_some_iff.1 hsorts
      rw [List.map_cons, List.zip_cons_cons, List.cons_append, sortedContracts,
        Bool.and_eq_true] at hcontracts
      obtain ⟨hcontract, hcontracts⟩ := hcontracts
      obtain ⟨hcommands₁, hterm⟩ := hwalk hfirst hsort hlets hspells
      have hcommands₂ := legible_provesContract hwalk hsecond hcontract hinner hterm
      obtain ⟨hcommands₃, hterms, hrest⟩ :=
        ih hthird hothers hcontracts (hinner.bindIn param hterm sort)
      refine ⟨fun c hc => ?_, ?_, hrest⟩
      · rcases List.mem_append.1 hc with hc | hc
        · exact hcommands₁ c hc
        · exact (List.mem_append.1 hc).elim (hcommands₂ c) (hcommands₃ c)
      · rw [hr]
        exact List.forall_mem_cons.2 ⟨hterm, hterms⟩

theorem spelled_checkResult {callee : String} {origin : Origin} {ret : RefinedTy}
    {binders : Bindings} {terms : List Term} {span : Option Span} {p p' : Progress}
    {commands : List Command} {t : Term} {sort : SolverSort}
    (h : Accepts (checkResult walk callee origin ret binders terms span) p commands t p')
    (hcallee : origin = .uninterpreted → isPlainName callee = true)
    (hsorted : sortedContracts env context [(ret, sort)] = true)
    (hret : SolverSort.of? ret.ty = some sort) (hnamed : sort ≠ .named "")
    (hspells : Spells env binders context) (hterms : ∀ t ∈ terms, t.Legible) :
    Spelled commands t := by
  obtain ⟨found, rest, name, hof, rfl, rfl, hassumes, rfl⟩ := accepts_checkResult h
  obtain rfl := Option.some.inj (hret.symm.trans hof)
  have hname := isPlainName_next p.names sort
  have hresult := Term.legible_symbol hname
  have hcontract : ret.isSorted env context sort = true := by
    rw [sortedContracts, sortedContracts, Bool.and_true] at hsorted
    exact hsorted
  have hrest := legible_assumesContract hwalk hassumes hcontract hspells hresult
  refine ⟨List.forall_mem_cons.2 ⟨legible_declareConst hname hof hnamed, fun c hc => ?_⟩, hresult⟩
  rcases List.mem_append.1 hc with hc | hc
  · unfold resultDefinition at hc
    split at hc
    · rename_i horigin
      rw [List.mem_singleton.1 hc]
      exact Term.legible_eq hresult (legible_application (hcallee horigin) hterms)
    · cases hc
  · exact hrest c hc

theorem spelled_checkCall (henv : env.IsSorted) (hnames : env.IsPlain) {mode : Mode} {lets : Bool}
    {ty : Ty} {callee : Expr} {args : List Expr} {span espan : Option Span} {p p' : Progress}
    {commands : List Command} {t : Term} {sort : SolverSort}
    (h : Accepts (checkCall env walk mode locals callee args span) p commands t p')
    (hsort : Expr.sort? env lets context ⟨ty, .call callee args, espan⟩ = some sort)
    (hlets : lets = true → locals = ∅) (hspells : Spells env locals context) :
    Spelled commands t := by
  obtain ⟨hcall, hty⟩ := Expr.sort?_eq_some_iff.1 hsort
  obtain ⟨-, hnamed⟩ := Ty.sort?_eq_some_iff.1 hty
  obtain ⟨name, sig, params, ret, first, binders, terms, p₁, second, hcallee, hsig, harrow,
    hlength, hargs, rfl, hresult⟩ := accepts_checkCall h
  obtain ⟨rank, hrank, hpairs, hcontracts, rfl⟩ :=
    henv.call_inversion hcall hcallee hsig harrow hlength
  have hret := (Signature.rank?_eq_some harrow hrank).2
  obtain ⟨hcommands, hterms, inner, hrest, hinner⟩ :=
    legible_checkArgs hwalk hargs hpairs hcontracts hlets hspells
      (spells_empty hnames)
  have hsecond : Spelled second t := by
    rcases hresult with ⟨-, happlies⟩ | ⟨-, hchecked⟩
    · exact spelled_appliesOperator happlies hret hnamed hterms
    · refine spelled_checkResult hwalk hchecked (fun horigin => ?_) hrest hret hnamed hinner hterms
      refine hnames name sig hsig ?_
      rw [Signature.globalRank?, horigin, hrank]
      rfl
  refine ⟨fun c hc => ?_, hsecond.2⟩
  exact (List.mem_append.1 hc).elim (hcommands c) (hsecond.1 c)

theorem legible_checkExpr (henv : env.IsSorted) (hnames : env.IsPlain) :
    LegibleWalk env (checkExpr env walk) := by
  rintro mode locals ⟨ty, shape, span⟩ p commands t p' h lets context sort hsort hlets hspells
  obtain ⟨hshape, -⟩ := Expr.sort?_eq_some_iff.1 hsort
  cases shape with
  | var name =>
      obtain ⟨rfl, hleaf, -⟩ := accepts_checkExpr_leaf (.inl ⟨name, rfl⟩) h
      obtain rfl := Option.some.inj hleaf
      rw [Shape.sort?] at hshape
      exact ⟨fun c hc => (nomatch hc), hspells name sort hshape⟩
  | bool value =>
      obtain ⟨rfl, hleaf, -⟩ := accepts_checkExpr_leaf (.inr (.inl ⟨value, rfl⟩)) h
      obtain rfl := Option.some.inj hleaf
      exact ⟨fun c hc => (nomatch hc), Term.legible_bool value⟩
  | int value =>
      obtain ⟨rfl, hleaf, -⟩ := accepts_checkExpr_leaf (.inr (.inr ⟨value, rfl⟩)) h
      obtain rfl := Option.some.inj hleaf
      exact ⟨fun c hc => (nomatch hc), Term.legible_int value⟩
  | ite test onTrue onFalse => exact absurd h not_accepts_checkExpr_ite
  | lambda params body => exact absurd h not_accepts_checkExpr_lambda
  | cast expr target =>
      obtain ⟨first, p₁, second, hfirst, hproof, rfl⟩ := accepts_checkExpr_cast h
      obtain ⟨hexpr, hcontract⟩ := Shape.sort?_cast_eq_some_iff.1 hshape
      obtain ⟨hcommands, hterm⟩ := hwalk hfirst hexpr hlets hspells
      have hsecond := legible_provesContract hwalk hproof hcontract hspells hterm
      exact ⟨fun c hc => (List.mem_append.1 hc).elim (hcommands c) (hsecond c), hterm⟩
  | letIn name value body =>
      obtain ⟨bound, first, term, p₁, second, hof, hvalue, hbody, rfl⟩ := accepts_checkExpr_letIn h
      obtain ⟨rfl, hname, found, hvsort, hbsort⟩ := Shape.sort?_letIn_eq_some hshape
      obtain rfl := hlets rfl
      obtain ⟨hfound, hnamed⟩ := Ty.sort?_eq_some_iff.1 (Expr.sort?_ty hvsort)
      obtain rfl := Option.some.inj (hfound.symm.trans hof)
      obtain ⟨hfirst, hterm⟩ := hwalk hvalue hvsort (fun _ => rfl) hspells
      obtain ⟨hsecond, hresult⟩ := hwalk hbody hbsort (fun _ => rfl) (hspells.letIn hname found)
      have hequation := Term.legible_eq (Term.legible_symbol hname) hterm
      refine ⟨List.forall_mem_cons.2 ⟨legible_declareConst hname hof hnamed, fun c hc => ?_⟩,
        hresult⟩
      rcases List.mem_append.1 hc with hc | hc
      · exact hfirst c hc
      · rcases List.mem_cons.1 hc with rfl | hc
        · exact hequation
        · exact hsecond c hc
  | call callee args => exact spelled_checkCall hwalk henv hnames h hsort hlets hspells

end

theorem legible_checkWithin {env : Env} (henv : env.IsSorted) (hnames : env.IsPlain)
    (depth : Nat) : LegibleWalk env (checkWithin env depth) := by
  induction depth with
  | zero =>
      intro mode locals e p commands t p' h
      cases h
  | succ depth ih => exact legible_checkExpr ih henv hnames

end Checker

end ContractCheck
