import ContractCheck.Proofs.SimilarSolvers

/-!
What the mode of a walk does. It only decides whether the result of a built-in operator at the tail
of the expression gets a name. Elsewhere the two modes are one, and with a name the walk goes on as
it does without, but for names and terms.
-/

namespace ContractCheck

/-- Where the result of an expression comes from, through casts and the bodies of lets. -/
def Expr.tail : Expr → Expr
  | ⟨ty, shape, span⟩ =>
    match shape with
    | .cast e _ => e.tail
    | .letIn _ _ body => body.tail
    | .var name => ⟨ty, .var name, span⟩
    | .bool value => ⟨ty, .bool value, span⟩
    | .int value => ⟨ty, .int value, span⟩
    | .call callee args => ⟨ty, .call callee args, span⟩
    | .ite test onTrue onFalse => ⟨ty, .ite test onTrue onFalse, span⟩
    | .lambda params body => ⟨ty, .lambda params body, span⟩

/-- The built-in operator that a callee names. -/
def Env.operator? (env : Env) (callee : Shape) : Option String :=
  match callee with
  | .var name => if (env.get? name).any (·.origin = .builtin) then some name else none
  | _ => none

/-- The built-in operator that is called at the tail of an expression. -/
def Env.tailOperator? (env : Env) (e : Expr) : Option String :=
  match e.tail.shape with
  | .call callee _ => env.operator? callee.shape
  | _ => none

/-- The results of built-in operators have sorts. -/
def Env.SortsBuiltins (env : Env) : Prop :=
  ∀ name sig params ret, env.get? name = some sig → sig.origin = .builtin →
    sig.ty.ty.arrow? = some (params, ret) → (SolverSort.of? ret.ty).isSome = true

namespace Checker

/-- Where no built-in operator is called at the tail, the modes are one. -/
theorem checkWithin_mode {env : Env} (depth : Nat) (locals : Bindings) {e : Expr}
    (h : env.tailOperator? e = none) :
    checkWithin env depth .simple locals e = checkWithin env depth .full locals e := by
  induction depth generalizing locals e with
  | zero => rfl
  | succ depth ih =>
      obtain ⟨ty, shape, span⟩ := e
      cases shape with
      | var name => rfl
      | bool value => rfl
      | int value => rfl
      | ite test onTrue onFalse => rfl
      | lambda params body => rfl
      | cast inner target =>
          have hinner : checkWithin env depth .simple locals inner = _ := ih locals h
          simp only [checkWithin, checkExpr, hinner]
      | letIn name value body =>
          have hbody : checkWithin env depth .simple locals body = _ := ih locals h
          simp only [checkWithin, checkExpr, hbody]
      | call callee args =>
          simp only [checkWithin, checkExpr, checkCall]
          rcases hresolve : resolveCall env callee args span with
            failure | ⟨name, origin, params, ret⟩
          · rw [ofOutcome_error_bind, ofOutcome_error_bind]
          · obtain ⟨hcallee, sig, hsig, horigin, -, -⟩ := resolveCall_eq_ok hresolve
            have hother : origin ≠ .builtin := by
              rintro rfl
              have hoperator : env.operator? callee.shape = none := h
              simp [Env.operator?, hcallee, hsig, horigin] at hoperator
            simp only [ofOutcome_ok_bind, if_neg hother]

section

variable {α : Type} {lets : String → Prop}

/-- A part does what it does. -/
theorem similar_of_part {part : CheckM α} (h : Part lets part) (p : Progress) :
    (part p : Dialogue (Outcome α × Progress)).Similar lets
      (fun r r' gap => r = r' ∧ gap = .none r.2.names) (.none p.names) (part p) := by
  induction h generalizing p with
  | answer outcome => exact .done ⟨rfl, rfl⟩
  | note text => exact .note text (.done ⟨rfl, rfl⟩)
  | fresh ty =>
      unfold Checker.fresh
      cases SolverSort.of ty with
      | error failure => exact .done ⟨rfl, rfl⟩
      | ok sort => exact .fresh sort (.done ⟨rfl, rfl⟩)
  | declare hname sort => exact .declare hname sort (.done ⟨rfl, rfl⟩)
  | assert term => exact .assert (fun _ => rfl) (.done ⟨rfl, rfl⟩)
  | refute goal obligation span =>
      rw [refute_apply]
      refine .assert (fun _ => rfl) (.checkSat fun outcome => ?_)
      cases outcome with
      | error failure => exact .done ⟨rfl, rfl⟩
      | ok answer =>
          refine .note _ ?_
          split <;> exact .done ⟨rfl, rfl⟩
  | andThen _ _ ih ihf =>
      rw [bind_apply]
      refine (ih p).bind ?_
      rintro ⟨failure | a, q⟩ _ _ ⟨rfl, rfl⟩
      · exact .done ⟨rfl, rfl⟩
      · exact ihf a q
  | adapt _ f _ ih =>
      rw [adapt_apply]
      refine (ih p).bind ?_
      rintro r _ _ ⟨rfl, rfl⟩
      exact .done ⟨rfl, rfl⟩
  | scope _ ih =>
      rw [inSolverScope_apply]
      refine .push ((ih p).bind ?_)
      rintro r _ _ ⟨rfl, rfl⟩
      exact .pop (.done ⟨rfl, rfl⟩)

/-- The first result is a fresh variable that was declared as a name for the second, which is an
application of the operator. -/
structure Names (operator : String) (x : Naming) (result result' : Term) : Prop where
  symbol : result = .symbol x.var
  fresh : ∃ index, x.var = FreshNames.nameOf x.sort.tag index
  term : result' = x.term
  applied : ∃ terms, Operator.apply operator terms = .ok x.term

/-- Unless something was named, both have failed, and alike. -/
def NamesResult (operator : String) (r r' : Outcome Term × Progress) (gap : Gap) : Prop :=
  match gap.naming with
  | none => ∃ failure, r.1 = .error failure ∧ r'.1 = .error failure
  | some x => Ends x (Names operator x) r r' gap

variable {operator : String}

theorem namesResult_of_ends {x : Naming} {r r' : Outcome Term × Progress} {gap : Gap}
    (h : Ends x (Names operator x) r r' gap) : NamesResult operator r r' gap := by
  obtain ⟨rfl, hahead, houtcomes⟩ := h
  exact ⟨rfl, hahead, houtcomes⟩

/-- What comes before makes no difference. -/
theorem similar_after {part : CheckM α} (h : Part lets part) {f f' : α → CheckM Term}
    (hf : ∀ a p, (f a p : Dialogue (Outcome Term × Progress)).Similar lets (NamesResult operator)
      (.none p.names) (f' a p)) (p : Progress) :
    ((part >>= f) p : Dialogue (Outcome Term × Progress)).Similar lets (NamesResult operator)
      (.none p.names) ((part >>= f') p) := by
  rw [bind_apply, bind_apply]
  refine (similar_of_part h p).bind ?_
  rintro ⟨failure | a, q⟩ _ _ ⟨rfl, rfl⟩
  · exact .done ⟨failure, rfl, rfl⟩
  · exact hf a q

/-- What comes after goes on from the name in the first walk, and from what it names in the
second. -/
theorem similar_then {part part' : CheckM Term}
    (h : ∀ p, (part p : Dialogue (Outcome Term × Progress)).Similar lets (NamesResult operator)
      (.none p.names) (part' p)) {f : Term → CheckM Term}
    (hf : ∀ x t t', Names operator x t t' → Akin lets x (Names operator x) (f t) (f t'))
    (p : Progress) :
    ((part >>= f) p : Dialogue (Outcome Term × Progress)).Similar lets (NamesResult operator)
      (.none p.names) ((part' >>= f) p) := by
  rw [bind_apply, bind_apply]
  refine (h p).bind ?_
  rintro ⟨outcome, q⟩ ⟨outcome', q'⟩ ⟨names, names', _ | x⟩ hresult
  · obtain ⟨failure, rfl : outcome = _, rfl : outcome' = _⟩ := hresult
    exact .done ⟨failure, rfl, rfl⟩
  obtain ⟨hgap, hahead, houtcomes⟩ := hresult
  cases hgap
  rcases outcome with failure | t <;> rcases outcome' with failure' | t'
  · exact .done ⟨rfl, hahead, houtcomes⟩
  · exact houtcomes.elim
  · exact houtcomes.elim
  · exact (hf x t t' houtcomes q q' hahead).mono fun _ _ _ => namesResult_of_ends

/-- A name is given to the result of an operator in the simple mode alone. -/
theorem similar_applyOperator (name : String) {ret : RefinedTy}
    (hret : (SolverSort.of? ret.ty).isSome = true) (terms : List Term) (span : Option Span)
    (p : Progress) :
    (applyOperator .simple name ret terms span p : Dialogue (Outcome Term × Progress)).Similar lets
      (NamesResult name) (.none p.names) (applyOperator .full name ret terms span p) := by
  obtain ⟨sort, hsort⟩ := Option.isSome_iff_exists.1 hret
  have hof : SolverSort.of ret.ty = .ok sort := SolverSort.of_eq_ok_iff.2 hsort
  unfold applyOperator Checker.fresh
  rw [hof]
  cases happly : Operator.apply name terms with
  | error failure => exact .done ⟨failure.locate span, rfl, rfl⟩
  | ok applied =>
      have hnames : Names name ⟨(p.names.next sort.tag).1, sort, applied⟩
        (.symbol (p.names.next sort.tag).1) applied := ⟨rfl, ⟨_, rfl⟩, rfl, terms, happly⟩
      exact .name rfl sort applied rfl (.done ⟨rfl, ⟨rfl, rfl⟩, hnames⟩)

/-- In the simple mode the result of the operator at the tail gets a name, and what is proved about
it on the way out is proved about the name. -/
theorem similar_checkWithin {env : Env} (hsorts : env.SortsBuiltins)
    (henv : ∀ n ∈ env.letNames, lets n) (depth : Nat) (locals : Bindings) {e : Expr}
    (he : ∀ n ∈ e.letNames, lets n) (htail : env.tailOperator? e = some operator) (p : Progress) :
    (checkWithin env depth .simple locals e p : Dialogue (Outcome Term × Progress)).Similar lets
      (NamesResult operator) (.none p.names) (checkWithin env depth .full locals e p) := by
  induction depth generalizing locals e p with
  | zero => exact .done ⟨depthExceeded, rfl, rfl⟩
  | succ depth ih =>
      obtain ⟨ty, shape, span⟩ := e
      rw [Expr.letNames] at he
      have hwalk := part_checkWithin henv depth
      cases shape with
      | var name => cases htail
      | bool value => cases htail
      | int value => cases htail
      | ite test onTrue onFalse => cases htail
      | lambda params body => cases htail
      | cast inner target =>
          rw [Shape.letNames, List.forall_mem_append] at he
          have htarget := RefinedTy.letsIn_of_letNames he.2
          refine similar_then (ih locals he.1 htail) (fun x term term' hnames => ?_) p
          -- Both walks go on to the contract of the target, each about its own term.
          rcases target with target | ⟨target, refinement⟩
          · exact akin_pure hnames
          · refine akin_clause htarget (fun clause hclause => ?_) (akin_pure hnames)
            exact akin_prove (akin_checkWithin henv depth) hclause _ _ _ _
      | letIn name value body =>
          rw [Shape.letNames, List.forall_mem_cons, List.forall_mem_append] at he
          obtain ⟨hname, hvalue, hbody⟩ := he
          refine similar_after (.answer _) (fun sort => ?_) p
          refine similar_after (.declare hname _) fun _ => ?_
          refine similar_after (hwalk _ _ _ hvalue) fun term => ?_
          exact similar_after (.assert _) fun _ => ih locals hbody htail
      | call callee args =>
          rw [Shape.letNames, List.forall_mem_append] at he
          simp only [checkWithin, checkExpr, checkCall]
          rcases hresolve : resolveCall env callee args span with
            failure | ⟨name, origin, params, ret⟩
          · exact .done ⟨failure, rfl, rfl⟩
          obtain ⟨hcallee, sig, hsig, horigin, harrow, -⟩ := resolveCall_eq_ok hresolve
          obtain ⟨rfl, hbuiltin⟩ : name = operator ∧ sig.origin = .builtin := by
            have hoperator : env.operator? callee.shape = some operator := htail
            simpa [Env.operator?, hcallee, hsig, and_comm] using hoperator
          have hpairs := Env.letsIn_zip henv hsig harrow (fun _ => Expr.forall_letNamesAll he.2)
          simp only [ofOutcome_ok_bind]
          refine similar_after (part_checkArgs hwalk name span locals hpairs ∅) ?_ p
          rintro ⟨binders, terms⟩ q
          simp only [← horigin, if_pos hbuiltin]
          have hret := hsorts name sig params ret hsig hbuiltin harrow
          exact similar_applyOperator name hret terms span q

end

section

variable {τ ω α : Type} [Transport τ ω]

/-- The answers to the checks while a part of a walk is carried out. -/
def heard (part : CheckM α) (c : Checker τ ω) : List (Outcome String) :=
  c.session.heard (part c.progress)

/-- Two runs from one state succeed, with as many obligations. The second answers an application of
the operator, and the first a fresh variable that it declared and said to be equal to it. But for
this they send the same lines, the names of later variables and the terms of later assertions
aside. -/
structure OneNameMore (operator : String) (c : Checker τ ω) (x : Naming)
    (r r' : Outcome Term × Checker τ ω) : Prop where
  symbol : r.1 = .ok (.symbol x.var)
  isFresh : IsFresh x.var
  term : r'.1 = .ok x.term
  applied : ∃ terms, Operator.apply operator terms = .ok x.term
  obligations : r.2.progress.summary.obligations = r'.2.progress.summary.obligations
  fresh : r.2.progress.summary.fresh = r'.2.progress.summary.fresh + 1
  lines : ∃ before after after',
    r.2.session.transcript.toList = c.session.transcript.toList ++
      (before ++ ([.declareConst x.var x.sort.display, .assert (.eq (.symbol x.var) x.term)] ++
        after)).map Command.line ∧
    r'.2.session.transcript.toList =
      c.session.transcript.toList ++ (before ++ after').map Command.line ∧
    List.Forall₂ Command.Like after after'

theorem oneNameMore_of_result {operator : String} {c : Checker τ ω} {part part' : CheckM Term}
    {gap : Gap} (hresult : NamesResult operator (c.session.hold (part c.progress)).1
      (c.session.hold (part' c.progress)).1 gap)
    (hsent : Session.HaveSent c.session c.session (c.session.hold (part c.progress)).2
      (c.session.hold (part' c.progress)).2 none gap.naming) :
    (∃ failure, (c.perform part).1 = .error failure ∧ (c.perform part').1 = .error failure) ∨
      ∃ x, OneNameMore operator c x (c.perform part) (c.perform part') := by
  unfold perform
  generalize c.session.hold (part c.progress) = held, c.session.hold (part' c.progress) = held'
    at hresult hsent
  obtain ⟨⟨outcome, p⟩, s⟩ := held
  obtain ⟨⟨outcome', p'⟩, s'⟩ := held'
  obtain ⟨names, names', _ | x⟩ := gap
  · exact .inl hresult
  obtain ⟨-, hahead, houtcomes⟩ := hresult
  rcases outcome with failure | t <;> rcases outcome' with failure' | t'
  · obtain rfl : failure = failure' := houtcomes
    exact .inl ⟨failure, rfl, rfl⟩
  · exact houtcomes.elim
  · exact houtcomes.elim
  obtain ⟨rfl, ⟨index, hvar⟩, rfl, happlied⟩ := houtcomes
  obtain ⟨_, _, ⟨before, after, after', rfl, rfl, hlike⟩, hlines, hlines'⟩ := hsent
  exact .inr ⟨x, rfl, ⟨x.sort, index, hvar⟩, rfl, happlied, hahead.obligations, hahead.fresh,
    before, after, after', hlines, hlines', hlike⟩

/-- The mode only names results. Unless a built-in operator is called at the tail of the expression,
the two modes are one. If one is, runs in both modes, from one state of a session that accepts every
line and with the same answers, fail alike, or the simple mode declares one fresh variable more, as
a name for the application that the full mode answers, and answers this name. A scripted solver
gives both the same answers if the fresh variables of this checker are the only names of their form:
no let has such a name, and the solver holds no other. -/
theorem check_modes {env : Env} (hsorts : env.SortsBuiltins) (locals : Bindings) (e : Expr) :
    (env.tailOperator? e = none → check env .simple locals e = check env .full locals e) ∧
    ∀ operator, env.tailOperator? e = some operator →
      (∀ {τ ω : Type} [Transport τ ω] (c : Checker τ ω), c.session.IsObliging →
        SameAnswers (heard (check env .simple locals e) c) (heard (check env .full locals e) c) →
        (∃ failure, (c.perform (check env .simple locals e)).1 = .error failure ∧
          (c.perform (check env .full locals e)).1 = .error failure) ∨
        ∃ x, OneNameMore operator c x (c.perform (check env .simple locals e))
          (c.perform (check env .full locals e))) ∧
      ∀ (c : Checker Scripted.Solver Scripted.Script) solver, c.session.channel = some solver →
        c.session.world.failSend = [] → solver.HoldsIssued c.progress.names →
        (∀ n ∈ env.letNames ++ e.letNames, ¬ IsFresh (Scripted.firstWord n)) →
        c.session.IsObliging ∧
          heard (check env .simple locals e) c = heard (check env .full locals e) c := by
  refine ⟨checkWithin_mode _ locals, fun operator htail => ⟨?_, ?_⟩⟩
  · intro τ ω _ c hobliging hanswers
    have hsimilar := @similar_checkWithin (fun _ => True) operator env hsorts (fun _ _ => trivial)
      (depthLimit env e) locals e (fun _ _ => trivial) htail c.progress
    obtain ⟨gap, hresult, hsent⟩ := hsimilar.runAlike (fun _ => rfl) c.session c.session hobliging
      hobliging hanswers
    exact oneNameMore_of_result hresult hsent
  · intro c solver hsolver hsendable hissued hlets
    rw [List.forall_mem_append] at hlets
    refine ⟨Session.isObliging_of_unfailing hsolver hsendable, ?_⟩
    have hsimilar := similar_checkWithin hsorts hlets.1 (depthLimit env e) locals hlets.2 htail
      c.progress
    refine hsimilar.heardAlike (fun _ => id) c.session c.session ?_
    exact ⟨rfl, hsendable, hsendable, solver, solver, hsolver, hsolver,
      ⟨⟨rfl, List.forall₂_same.2 fun _ _ _ _ => Iff.rfl⟩, hissued, hissued⟩⟩

end

theorem sortsBuiltins_prelude : Env.SortsBuiltins prelude := by
  have hall : prelude.entries.all (fun entry => decide (entry.2.origin ≠ .builtin) ||
      entry.2.ty.ty.arrow?.all fun arrow => (SolverSort.of? arrow.2.ty).isSome) = true := by
    decide +kernel
  intro name sig params ret hsig horigin harrow
  have hentry := List.all_eq_true.1 hall _ (NameMap.get?_eq_some_iff.1 hsig)
  simpa [horigin, harrow] using hentry

/-- `1 + 2`, of which it is stated that it equals `3` -/
def statedSum : Expr := .cast (.call "+" [.int 1, .int 2] .int)
  (.refined .int (.equals "v" (.int 3)))

def sumTerm : Term := .apply "+" [Term.int 1, Term.int 2]

/-- A call of a function that is not built in -/
def successorOfOne : Expr := .call "succ" [.int 1] .int

open Scripted in
/-- A session with a solver that refutes one thing. -/
def answering : Checker Solver Script :=
  { session := (Session.start { world := { answers := ["unsat"] } }).2 }

/-- In the simple mode it is the name that is proved to equal `3`. -/
theorem check_modes_statedSum :
    prelude.SortsBuiltins ∧ prelude.tailOperator? successorOfOne = none ∧
      check prelude .simple ∅ successorOfOne = check prelude .full ∅ successorOfOne ∧
      prelude.tailOperator? statedSum = some "+" ∧
      answering.session.IsObliging ∧
      heard (check prelude .simple ∅ statedSum) answering =
        heard (check prelude .full ∅ statedSum) answering ∧
      (answering.perform (check prelude .full ∅ statedSum)).1 = .ok sumTerm ∧
      ∃ x, OneNameMore "+" answering x (answering.perform (check prelude .simple ∅ statedSum))
        (answering.perform (check prelude .full ∅ statedSum)) := by
  have hnone : prelude.tailOperator? successorOfOne = none := rfl
  have hone := (check_modes sortsBuiltins_prelude ∅ successorOfOne).1 hnone
  have htail : prelude.tailOperator? statedSum = some "+" := rfl
  obtain ⟨hmodes, hscripted⟩ := (check_modes sortsBuiltins_prelude ∅ statedSum).2 "+" htail
  have hholds : Scripted.Solver.HoldsIssued {} answering.progress.names := fun name hholds => by
    simp [Scripted.Solver.holds] at hholds
  have hlets : ∀ n ∈ Env.letNames prelude ++ statedSum.letNames,
      ¬ IsFresh (Scripted.firstWord n) := by
    have hnil : Env.letNames prelude ++ statedSum.letNames = [] := by decide +kernel
    rw [hnil]
    intro n hn
    cases hn
  obtain ⟨hobliging, hheard⟩ := hscripted answering {} rfl rfl hholds hlets
  obtain ⟨depth, hdepth⟩ : ∃ depth, depthLimit prelude statedSum = depth + 3 :=
    ⟨prelude.reachDepth statedSum.calls + circleDepth, by
      rw [depthLimit, show statedSum.walkDepth = 3 from rfl]
      omega⟩
  have hfull : (answering.perform (check prelude .full ∅ statedSum)).1 = .ok sumTerm := by
    rw [check, hdepth]
    rfl
  refine ⟨sortsBuiltins_prelude, hnone, hone, htail, hobliging, hheard, hfull, ?_⟩
  have hsame : SameAnswers (heard (check prelude .simple ∅ statedSum) answering)
      (heard (check prelude .full ∅ statedSum) answering) := by
    rw [hheard]
    exact .inl List.prefix_rfl
  refine (hmodes answering hobliging hsame).resolve_left ?_
  rintro ⟨failure, -, hfailed⟩
  rw [hfull] at hfailed
  cases hfailed

end Checker

end ContractCheck
