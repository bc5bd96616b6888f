import ContractCheck.Proofs.Walk

/-!
Two walks side by side. Bindings and an expression are related in a way that the walk passes on, to
the expressions inside and to the contracts of what is called (`Checker.PassesOn`). Two walks that
go the same way wherever they are so related then do so one level further out
(`Checker.sameWalk_scopedExpr`). The walks may follow different environments, and may differ in what
a `let` does to the bindings.
-/

namespace ContractCheck

theorem RefinedTy.contract?_refined (ty : Ty) (r : Refinement) :
    (RefinedTy.refined ty r).contract? = r.clause?.map (r.binder, ·) := by
  cases r <;> rfl

/-- A binder stands for its term, and other names for what they stood for. -/
theorem Bindings.resolve_insert (locals : Bindings) (binder name : String) (term : Term) :
    Bindings.resolve (NameMap.insert locals binder term) name =
      if name = binder then term else locals.resolve name := by
  unfold Bindings.resolve
  rw [NameMap.get?_insert]
  split <;> rfl

namespace Checker

/-- What names stand for in the body of a `let`, by its name. -/
abbrev LetRule := Bindings → String → Bindings

/-- The names stand for what they did. -/
def LetRule.keep : LetRule := fun locals _ => locals

/-- One level of the walk, with lets that bind by the rule. -/
def scopedExpr (rule : LetRule) (env : Env) (walk : Walk) : Walk := fun mode locals e =>
  match e.shape with
  | .letIn name value body => do
    let sort ← ofOutcome ((SolverSort.of value.ty).located (value.span.or e.span))
    write (.declareConst name sort.display)
    let term ← walk .full locals value
    assert (.eq (.symbol name) term)
    walk mode (rule locals name) body
  | _ => checkExpr env walk mode locals e

/-- The walk with lets that bind by the rule, at most `depth` levels deep. -/
def scopedWithin (rule : LetRule) (env : Env) : Nat → Walk
  | 0 => fun _ _ _ => ofOutcome (.error depthExceeded)
  | depth + 1 => scopedExpr rule env (scopedWithin rule env depth)

theorem scopedExpr_keep (env : Env) (walk : Walk) :
    scopedExpr .keep env walk = checkExpr env walk := by
  funext mode locals e
  obtain ⟨ty, shape, span⟩ := e
  cases shape <;> rfl

/-- The walk is the one whose lets keep the bindings. -/
theorem scopedWithin_keep (env : Env) (depth : Nat) :
    scopedWithin .keep env depth = checkWithin env depth := by
  induction depth with
  | zero => rfl
  | succ depth ih => rw [scopedWithin, scopedExpr_keep, ih, checkWithin]

variable {R S : Bindings → Bindings → Expr → Prop}

/-- Wherever bindings and expression are so related, the walks go the same way. -/
def SameWalk (R : Bindings → Bindings → Expr → Prop) (walk walk' : Walk) : Prop :=
  ∀ ⦃mode locals locals' e⦄, R locals locals' e → walk mode locals e = walk' mode locals' e

/-- The contracts are related where their own binders and those before them are bound, whatever
terms these stand for. -/
def RelatesContracts (R : Bindings → Bindings → Expr → Prop) : Bindings → List RefinedTy → Prop
  | _, [] => True
  | binders, t :: rest => ∀ term,
    (∀ binder clause, t.contract? = some (binder, clause) →
      R (binders.bindRefined t term) (binders.bindRefined t term) clause.expr) ∧
    RelatesContracts R (binders.bindRefined t term) rest

/-- What is related to itself everywhere relates all contracts. -/
theorem relatesContracts_of_refl {ts : List RefinedTy}
    (h : ∀ t ∈ ts, ∀ binder clause, t.contract? = some (binder, clause) →
      ∀ binders, R binders binders clause.expr) (binders : Bindings) :
    RelatesContracts R binders ts := by
  induction ts generalizing binders with
  | nil => trivial
  | cons t rest ih =>
      obtain ⟨ht, hrest⟩ := List.forall_mem_cons.1 h
      intro term
      exact ⟨fun binder clause hclause => ht binder clause hclause _, ih hrest _⟩

/-- From an expression one relation passes to the other on what the walk goes on to, if the one
walk's lets bind by `rule` and the other's by `rule'`. -/
structure PassesTo (S R : Bindings → Bindings → Expr → Prop) (rule rule' : LetRule)
    (env env' : Env) : Prop where
  var : ∀ {locals locals' ty name span}, S locals locals' ⟨ty, .var name, span⟩ →
    locals.resolve name = locals'.resolve name
  expr : ∀ {locals locals' ty e target span}, S locals locals' ⟨ty, .cast e target, span⟩ →
    R locals locals' e
  target : ∀ {locals locals' ty e target span}, S locals locals' ⟨ty, .cast e target, span⟩ →
    ∀ binder clause, target.contract? = some (binder, clause) → ∀ term,
      R (locals.insert binder term) (locals'.insert binder term) clause.expr
  value : ∀ {locals locals' ty name value body span},
    S locals locals' ⟨ty, .letIn name value body, span⟩ → R locals locals' value
  body : ∀ {locals locals' ty name value body span},
    S locals locals' ⟨ty, .letIn name value body, span⟩ →
      R (rule locals name) (rule' locals' name) body
  arg : ∀ {locals locals' ty callee args span}, S locals locals' ⟨ty, .call callee args, span⟩ →
    ∀ arg ∈ args, R locals locals' arg
  callee : ∀ {locals locals' ty callee args span},
    S locals locals' ⟨ty, .call callee args, span⟩ →
      ∀ name, callee.shape = .var name → env.get? name = env'.get? name
  contracts : ∀ {locals locals' ty callee args span},
    S locals locals' ⟨ty, .call callee args, span⟩ → ∀ name sig params ret,
      callee.shape = .var name → env.get? name = some sig →
      sig.ty.ty.arrow? = some (params, ret) → RelatesContracts R ∅ (params ++ [ret])

/-- The relation passes from an expression to what the walk goes on to. -/
abbrev PassesOn (R : Bindings → Bindings → Expr → Prop) (rule rule' : LetRule) (env env' : Env) :
    Prop := PassesTo R R rule rule' env env'

theorem ofOutcome_ok_bind {α β : Type} (a : α) (f : α → CheckM β) :
    (ofOutcome (.ok a) >>= f) = f a := by
  funext p
  rfl

theorem ofOutcome_error_bind {α β : Type} (failure : Failure) (f : α → CheckM β) :
    (ofOutcome (.error failure) >>= f) = ofOutcome (.error failure) := by
  funext p
  rfl

theorem resolveCall_congr {env env' : Env} {callee : Expr}
    (h : ∀ name, callee.shape = .var name → env.get? name = env'.get? name) (args : List Expr)
    (span : Option Span) :
    resolveCall env callee args span = resolveCall env' callee args span := by
  unfold resolveCall
  split
  · rename_i name hcallee
    rw [h name hcallee]
  · rfl

section

variable {walk walk' : Walk} {locals locals' : Bindings} (hwalk : SameWalk R walk walk')
include hwalk

theorem prove_congr {clause : Clause} {binder : String} (hclause : R locals locals' clause.expr)
    (hbinder : locals.resolve binder = locals'.resolve binder) (span : Option Span) :
    prove walk locals binder clause span = prove walk' locals' binder clause span := by
  cases clause with
  | holds pred =>
      have hpred : walk .full locals pred = walk' .full locals' pred := hwalk hclause
      simp only [prove, hpred]
  | equals value =>
      have hvalue : walk .full locals value = walk' .full locals' value := hwalk hclause
      simp only [prove, hvalue, hbinder]

theorem assume_congr {clause : Clause} (hclause : R locals locals' clause.expr) (result : Term)
    (span : Option Span) :
    assume walk locals result clause span = assume walk' locals' result clause span := by
  cases clause with
  | holds pred =>
      have hpred : walk .full locals pred = walk' .full locals' pred := hwalk hclause
      simp only [assume, hpred]
  | equals value =>
      have hvalue : walk .full locals value = walk' .full locals' value := hwalk hclause
      simp only [assume, hvalue]

/-- A contract is proved alike where its binder stands for the same term. -/
theorem prove_insert_congr {clause : Clause} {binder : String} {term : Term}
    (hclause : R (locals.insert binder term) (locals'.insert binder term) clause.expr)
    (span : Option Span) :
    prove walk (locals.insert binder term) binder clause span =
      prove walk' (locals'.insert binder term) binder clause span := by
  refine prove_congr hwalk hclause ?_ span
  rw [Bindings.resolve_insert, Bindings.resolve_insert, if_pos rfl, if_pos rfl]

/-- The arguments of a call, and how it goes on from where the binders of the parameters are
bound. -/
theorem checkArgs_congr {α : Type} (callee : String) (span : Option Span)
    {pairs : List (RefinedTy × Expr)} {rest : List RefinedTy}
    (hargs : ∀ a ∈ pairs, R locals locals' a.2) {binders : Bindings}
    (hcontracts : RelatesContracts R binders (pairs.map (·.1) ++ rest))
    {next next' : Bindings × List Term → CheckM α}
    (hnext : ∀ checked, RelatesContracts R checked.1 rest → next checked = next' checked) :
    (checkArgs walk callee span locals pairs binders >>= next) =
      (checkArgs walk' callee span locals' pairs binders >>= next') := by
  induction pairs generalizing binders next next' with
  | nil =>
      simp only [checkArgs, pure_bind]
      exact hnext _ hcontracts
  | cons head others ih =>
      obtain ⟨param, arg⟩ := head
      obtain ⟨harg, hothers⟩ := List.forall_mem_cons.1 hargs
      have hterm : ∀ mode, walk mode locals arg = walk' mode locals' arg := fun _ => hwalk harg
      have hrest : ∀ term, (checkArgs walk callee span locals others
            (binders.bindRefined param term) >>= fun r => next (r.1, term :: r.2)) =
          (checkArgs walk' callee span locals' others
            (binders.bindRefined param term) >>= fun r => next' (r.1, term :: r.2)) := by
        intro term
        apply ih hothers (hcontracts term).2
        intro checked hchecked
        exact hnext (checked.1, term :: checked.2) hchecked
      cases param with
      | plain ty =>
          simp only [checkArgs, RefinedTy.refinement?, bind_assoc, pure_bind, hterm]
          exact congrArg _ (funext hrest)
      | refined ty refinement =>
          cases hclause : refinement.clause? with
          | none =>
              simp only [checkArgs, RefinedTy.refinement?, hclause, bind_assoc, pure_bind, hterm]
              exact congrArg _ (funext hrest)
          | some clause =>
              have hcontract : (RefinedTy.refined ty refinement).contract? =
                  some (refinement.binder, clause) := by
                rw [RefinedTy.contract?_refined, hclause, Option.map_some]
              simp only [checkArgs, RefinedTy.refinement?, hclause, bind_assoc, pure_bind, hterm]
              congr 1
              funext term
              have hproved := (hcontracts term).1 refinement.binder clause hcontract
              rw [show prove walk _ _ _ _ = _ from prove_insert_congr hwalk hproved _]
              exact congrArg _ (funext fun _ => hrest term)

theorem assumeReturn_congr (callee : String) {ret : RefinedTy} {binders : Bindings}
    (hret : RelatesContracts R binders [ret]) (result : Term) (span : Option Span) :
    assumeReturn walk callee ret binders result span =
      assumeReturn walk' callee ret binders result span := by
  cases ret with
  | plain ty => rfl
  | refined ty refinement =>
      cases refinement with
      | bind binder => rfl
      | holds binder pred =>
          have hclause := assume_congr hwalk ((hret result).1 binder (.holds pred) rfl) result span
          exact congrArg (fun part => inContext _ part >>= fun _ => pure result) hclause
      | equals binder value =>
          have hclause := assume_congr hwalk ((hret result).1 binder (.equals value) rfl) result
            span
          exact congrArg (fun part => inContext _ part >>= fun _ => pure result) hclause

theorem checkResult_congr (callee : String) (origin : Origin) {ret : RefinedTy}
    {binders : Bindings} (hret : RelatesContracts R binders [ret]) (terms : List Term)
    (span : Option Span) :
    checkResult walk callee origin ret binders terms span =
      checkResult walk' callee origin ret binders terms span := by
  unfold checkResult
  congr 1
  funext name
  have hreturn := assumeReturn_congr hwalk callee hret (.symbol name) span
  by_cases horigin : origin = .uninterpreted
  · simp only [if_pos horigin]
    exact congrArg _ (funext fun _ => hreturn)
  · simp only [if_neg horigin]
    exact hreturn

variable {rule rule' : LetRule} {env env' : Env} (hR : PassesTo S R rule rule' env env')
include hR

theorem checkCall_congr {mode : Mode} {ty : Ty} {callee : Expr} {args : List Expr}
    {span : Option Span} (h : S locals locals' ⟨ty, .call callee args, span⟩) :
    checkCall env walk mode locals callee args span =
      checkCall env' walk' mode locals' callee args span := by
  unfold checkCall
  rw [← resolveCall_congr (hR.callee h) args span]
  rcases hresolve : resolveCall env callee args span with failure | ⟨name, origin, params, ret⟩
  · rw [ofOutcome_error_bind, ofOutcome_error_bind]
  obtain ⟨hcallee, sig, hsig, -, harrow, hlength⟩ := resolveCall_eq_ok hresolve
  have hcontracts : RelatesContracts R ∅ ((params.zip args).map (·.1) ++ [ret]) := by
    rw [List.map_fst_zip (Nat.le_of_eq hlength)]
    exact hR.contracts h name sig params ret hcallee hsig harrow
  have hargs : ∀ a ∈ params.zip args, R locals locals' a.2 := fun a ha =>
    hR.arg h a.2 (List.of_mem_zip ha).2
  simp only [ofOutcome_ok_bind]
  refine checkArgs_congr hwalk name span hargs hcontracts fun checked hret => ?_
  obtain ⟨binders, terms⟩ := checked
  by_cases horigin : origin = .builtin
  · simp only [if_pos horigin]
  · simp only [if_neg horigin]
    exact checkResult_congr hwalk name origin hret terms span

/-- Walks that go the same way on what is inside do so one level further out. -/
theorem sameWalk_scopedExpr :
    SameWalk S (scopedExpr rule env walk) (scopedExpr rule' env' walk') := by
  rintro mode locals locals' ⟨ty, shape, span⟩ h
  cases shape with
  | var name =>
      have hname := hR.var h
      simp only [scopedExpr, checkExpr, Expr.toTerm, hname]
  | bool value => rfl
  | int value => rfl
  | ite test onTrue onFalse => rfl
  | lambda params body => rfl
  | call callee args => exact checkCall_congr hwalk hR h
  | letIn name value body =>
      have hvalue : walk .full locals value = walk' .full locals' value := hwalk (hR.value h)
      have hbody : walk mode (rule locals name) body = walk' mode (rule' locals' name) body :=
        hwalk (hR.body h)
      simp only [scopedExpr, hvalue, hbody]
  | cast e target =>
      have he : walk mode locals e = walk' mode locals' e := hwalk (hR.expr h)
      simp only [scopedExpr, checkExpr, he]
      refine congrArg _ (funext fun term => ?_)
      rcases target with target | ⟨target, binder | ⟨binder, pred⟩ | ⟨binder, value⟩⟩
      · rfl
      · rfl
      · have hclause := hR.target h binder (.holds pred) rfl term
        simp only [RefinedTy.refinement?, Refinement.clause?, Refinement.binder]
        rw [prove_insert_congr hwalk hclause span]
      · have hclause := hR.target h binder (.equals value) rfl term
        simp only [RefinedTy.refinement?, Refinement.clause?, Refinement.binder]
        rw [prove_insert_congr hwalk hclause span]

end

/-- A relation that is passed on makes the two walks go the same way, to every depth. -/
theorem sameWalk_scopedWithin {rule rule' : LetRule} {env env' : Env}
    (hR : PassesOn R rule rule' env env') (depth : Nat) :
    SameWalk R (scopedWithin rule env depth) (scopedWithin rule' env' depth) := by
  induction depth with
  | zero =>
      intro mode locals locals' e h
      rfl
  | succ depth ih => exact sameWalk_scopedExpr ih hR

end Checker

end ContractCheck
