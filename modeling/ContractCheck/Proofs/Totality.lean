import ContractCheck.Proofs.Evaluation
import ContractCheck.Proofs.SuccessfulRun

/-!
Evaluations exist. Whatever the global values and uninterpreted functions are, an expression that
a run has accepted has an evaluation (`exists_evaluates_of_prove`): operators have a meaning for
operands of their sorts, any value of the right sort may come out of other calls, and contracts that
a walk has come to the end of do not lead in a circle.
-/

namespace ContractCheck

open Smt

variable {carrier : String → Type}

theorem Value.exists_of_sort [∀ sort, Nonempty (carrier sort)] (sort : SolverSort) :
    ∃ v : Value carrier, v.sort = sort := by
  cases sort with
  | int => exact ⟨.int 0, rfl⟩
  | bool => exact ⟨.bool true, rfl⟩
  | named name =>
      obtain ⟨x⟩ := (inferInstance : Nonempty (carrier name))
      exact ⟨.element name x, rfl⟩

namespace Checker

/-- What the walk accepts evaluates wherever the variables have values of their sorts. -/
def Evaluable (env : Env) (I : Interpretation carrier) (walk : Walk) : Prop :=
  ∀ ⦃mode locals e p commands t p'⦄, Accepts (walk mode locals e) p commands t p' →
    ∀ ⦃lets context sort scope⦄, e.sort? env lets context = some sort →
      I.FitsScope env context scope → ∃ v F, Evaluates env I scope e v F

section

variable {env : Env} {I : Interpretation carrier} {walk : Walk}
  {context : NameMap SolverSort} {scope : NameMap (Value carrier)} {locals : Bindings}

variable (hwalk : Evaluable env I walk)
include hwalk

/-- What a refined type states is found once its clause is accepted somewhere. -/
theorem exists_states {t : RefinedTy} {v : Value carrier}
    (haccepts : ∀ binder clause, t.contract? = some (binder, clause) →
      ∃ mode locals p commands r p', Accepts (walk mode locals clause.expr) p commands r p')
    (hsorted : t.isSorted env context v.sort = true) (hscope : I.FitsScope env context scope)
    (kind : Prop → Finding) : ∃ F, States env I kind (t.bindIn scope v) v t F := by
  cases hcontract : t.contract? with
  | none => exact ⟨[], .nothing hcontract⟩
  | some contract =>
      obtain ⟨binder, clause⟩ := contract
      obtain ⟨mode, locals, p, commands, r, p', hclause⟩ := haccepts binder clause hcontract
      obtain ⟨w, F, heval⟩ := hwalk hclause (RefinedTy.sort?_of_isSorted hsorted hcontract)
        (hscope.bindIn t v)
      exact ⟨_, .clause hcontract heval⟩

theorem exists_states_of_provesContract {t : RefinedTy} {p p' : Progress}
    {commands : List Command} {v : Value carrier}
    (h : ProvesContract walk locals t p commands p')
    (hsorted : t.isSorted env context v.sort = true) (hscope : I.FitsScope env context scope) :
    ∃ F, States env I .required (t.bindIn scope v) v t F := by
  refine exists_states hwalk (fun binder clause hcontract => ?_) hsorted hscope .required
  rw [ProvesContract, hcontract] at h
  obtain ⟨-, inner, result, p₁, hinner, -, -⟩ := h
  exact ⟨_, _, _, _, _, _, hinner⟩

theorem exists_states_of_assumesContract {t : RefinedTy} {result : Term} {p p' : Progress}
    {commands : List Command} {v : Value carrier}
    (h : AssumesContract walk locals result t p commands p')
    (hsorted : t.isSorted env context v.sort = true) (hscope : I.FitsScope env context scope) :
    ∃ F, States env I .assumed (t.bindIn scope v) v t F := by
  refine exists_states hwalk (fun binder clause hcontract => ?_) hsorted hscope .assumed
  rw [AssumesContract, hcontract] at h
  obtain ⟨-, inner, term, hinner, -⟩ := h
  exact ⟨_, _, _, _, _, _, hinner⟩

theorem exists_evaluatesArgs {lets : Bool} {callee : String} {span : Option Span}
    {pairs : List (RefinedTy × Expr)} {binders : Bindings} {p p' : Progress}
    {commands : List Command} {r : Bindings × List Term} {sorts : List SolverSort}
    {rest : List (RefinedTy × SolverSort)} {inner : NameMap SolverSort}
    {bound : NameMap (Value carrier)}
    (h : Accepts (checkArgs walk callee span locals pairs binders) p commands r p')
    (hsorts : Expr.sorts? env lets context (pairs.map (·.2)) = some sorts)
    (hcontracts : sortedContracts env inner ((pairs.map (·.1)).zip sorts ++ rest) = true)
    (hscope : I.FitsScope env context scope) (hinner : I.FitsScope env inner bound) :
    ∃ bound' vs F, EvaluatesArgs env I scope pairs bound bound' vs F ∧
      ∃ inner', sortedContracts env inner' rest = true ∧ I.FitsScope env inner' bound' := by
  induction pairs generalizing binders p commands r sorts inner bound with
  | nil => exact ⟨bound, [], [], .nil, inner, hcontracts, hinner⟩
  | cons head others ih =>
      obtain ⟨param, arg⟩ := head
      obtain ⟨first, term, p₁, second, p₂, third, terms, hfirst, hsecond, hthird, -, -⟩ :=
        accepts_checkArgs_cons h
      rw [List.map_cons, Expr.sorts?] at hsorts
      obtain ⟨sort, hsort, hsorts⟩ := Option.bind_eq_some_iff.1 hsorts
      obtain ⟨sorts, hothers, rfl⟩ := Option.map_eq_some_iff.1 hsorts
      rw [List.map_cons, List.zip_cons_cons, List.cons_append, sortedContracts,
        Bool.and_eq_true] at hcontracts
      obtain ⟨hcontract, hcontracts⟩ := hcontracts
      obtain ⟨v, F, harg⟩ := hwalk hfirst hsort hscope
      obtain rfl := harg.sort_eq hsort hscope
      obtain ⟨G, hstates⟩ :=
        exists_states_of_provesContract hwalk hsecond hcontract hinner
      obtain ⟨bound', vs, H, hrest, hbound'⟩ :=
        ih hthird hothers hcontracts (hinner.bindIn param v)
      exact ⟨bound', v :: vs, _, .cons harg hstates hrest, hbound'⟩

theorem exists_evaluates_call [∀ sort, Nonempty (carrier sort)] (hI : I.Fits env)
    (henv : env.IsSorted) {mode : Mode} {lets : Bool} {ty : Ty} {callee : Expr}
    {args : List Expr} {span espan : Option Span} {p p' : Progress} {commands : List Command}
    {t : Term} {sort : SolverSort}
    (h : Accepts (checkCall env walk mode locals callee args span) p commands t p')
    (hcall : (Shape.call callee args).sort? env lets context = some sort)
    (hscope : I.FitsScope env context scope) :
    ∃ v F, Evaluates env I scope ⟨ty, .call callee args, espan⟩ v F := by
  obtain ⟨name, sig, params, ret, first, binders, terms, p₁, second, hcallee, hsig, harrow,
    hlength, hargs, -, hresult⟩ := accepts_checkCall h
  obtain ⟨rank, hrank, hpairs, hcontracts, hrange⟩ :=
    henv.call_inversion hcall hcallee hsig harrow hlength
  obtain ⟨bound, vs, F, hevals, inner, hsorted, hinner⟩ :=
    exists_evaluatesArgs hwalk hargs hpairs hcontracts hscope hI.fitsScope_empty
  have hvs := hevals.sorts_eq hpairs hscope
  have hret := (Signature.rank?_eq_some harrow hrank).2
  rcases hresult with ⟨horigin, -⟩ | ⟨horigin, hchecked⟩
  · obtain ⟨name', sig', rank', hcallee', hsig', hrank', hsorts, -, hbuiltin⟩ :=
      Shape.sort?_call_eq_some hcall
    obtain rfl := Shape.var.inj (hcallee.symm.trans hcallee')
    obtain rfl := Option.some.inj (hsig.symm.trans hsig')
    obtain rfl := Option.some.inj (hrank.symm.trans hrank')
    have hoperator : Operator.resultSort? name (vs.map Value.sort) = some rank.range := by
      rw [hvs]
      exact hbuiltin horigin
    obtain ⟨v, hmeaning, -⟩ := Operator.exists_meaning I.byZero hoperator
    exact ⟨v, F, .operator hcallee hsig harrow horigin hevals hmeaning⟩
  · obtain ⟨v, hv, hfunction⟩ : ∃ v : Value carrier, v.sort = rank.range ∧
        (sig.origin = .uninterpreted → v = I.function name vs) := by
      by_cases huninterpreted : sig.origin = .uninterpreted
      · exact ⟨_, hI.function name sig rank hsig huninterpreted hrank vs hvs, fun _ => rfl⟩
      · obtain ⟨v, hv⟩ : ∃ v : Value carrier, v.sort = rank.range := Value.exists_of_sort rank.range
        exact ⟨v, hv, fun h => absurd h huninterpreted⟩
    obtain ⟨bound, rest, result, -, -, -, hassumes, -⟩ := accepts_checkResult hchecked
    have hcontract : ret.isSorted env inner v.sort = true := by
      rw [sortedContracts, sortedContracts, Bool.and_true] at hsorted
      rw [hv]
      exact hsorted
    obtain ⟨G, hstates⟩ :=
      exists_states_of_assumesContract hwalk hassumes hcontract hinner
    refine ⟨v, _, .call hcallee hsig harrow horigin hevals ?_ hfunction hstates⟩
    rw [hret, hv]

theorem evaluable_checkExpr [∀ sort, Nonempty (carrier sort)] (hI : I.Fits env)
    (henv : env.IsSorted) : Evaluable env I (checkExpr env walk) := by
  rintro mode locals ⟨ty, shape, span⟩ p commands t p' h lets context sort scope hsort hscope
  obtain ⟨hshape, -⟩ := Expr.sort?_eq_some_iff.1 hsort
  cases shape with
  | var name => exact ⟨_, _, .var⟩
  | bool value => exact ⟨_, _, .bool⟩
  | int value => exact ⟨_, _, .int⟩
  | ite test onTrue onFalse => exact absurd h not_accepts_checkExpr_ite
  | lambda params body => exact absurd h not_accepts_checkExpr_lambda
  | cast expr target =>
      obtain ⟨first, p₁, second, hfirst, hproof, -⟩ := accepts_checkExpr_cast h
      obtain ⟨hexpr, hcontract⟩ := Shape.sort?_cast_eq_some_iff.1 hshape
      obtain ⟨v, F, heval⟩ := hwalk hfirst hexpr hscope
      obtain rfl := heval.sort_eq hexpr hscope
      obtain ⟨G, hstates⟩ :=
        exists_states_of_provesContract hwalk hproof hcontract hscope
      exact ⟨v, _, .cast heval hstates⟩
  | letIn name value body =>
      obtain ⟨bound, first, term, p₁, second, -, hvalue, hbody, -⟩ := accepts_checkExpr_letIn h
      obtain ⟨-, -, sort', hvsort, hbsort⟩ := Shape.sort?_letIn_eq_some hshape
      obtain ⟨v, F, hveval⟩ := hwalk hvalue hvsort hscope
      obtain rfl := hveval.sort_eq hvsort hscope
      obtain ⟨w, G, hbeval⟩ := hwalk hbody hbsort (hscope.insert name v)
      exact ⟨w, _, .letIn hveval hbeval⟩
  | call callee args => exact exists_evaluates_call hwalk hI henv h hshape hscope

end

theorem evaluable_checkWithin [∀ sort, Nonempty (carrier sort)] {env : Env}
    {I : Interpretation carrier} (hI : I.Fits env) (henv : env.IsSorted) (depth : Nat) :
    Evaluable env I (checkWithin env depth) := by
  induction depth with
  | zero =>
      intro mode locals e p commands t p' h
      cases h
  | succ depth ih => exact evaluable_checkExpr ih hI henv

end Checker

theorem Session.exists_evaluates_of_prove {τ ω : Type} [Transport τ ω]
    [∀ sort, Nonempty (carrier sort)] {env : Env} {e : Expr} (hsorted : WellSorted env e)
    {summary : Summary} {s s' : Session τ ω} (h : prove env e s = (.ok summary, s'))
    {I : Interpretation carrier} (hI : I.Fits env) : ∃ v F, Evaluates env I ∅ e v F := by
  obtain ⟨-, -, commands, t, p, -, hcheck, -⟩ := prove_eq_ok h
  obtain ⟨sort, hsort⟩ := Option.isSome_iff_exists.1 hsorted.expr
  exact Checker.evaluable_checkWithin hI hsorted.signatures _ hcheck hsort hI.fitsScope_empty

end ContractCheck
