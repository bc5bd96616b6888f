import ContractCheck.Proofs.Preamble
import ContractCheck.Proofs.Reach
import ContractCheck.Proofs.Scoping
import ContractCheck.Proofs.SessionHistory

/-!
Scope safety of what is asserted. On every course of the walk over a scoped expression, each word
of a term is known when the term is asserted: what the walk answers stays grounded, since it opens
scopes only to prove something and keeps no term from there (`Checker.GroundedWalk`).
-/

namespace ContractCheck

/-- The lines that stand in the open scopes are kept. Only grounded terms are asserted. -/
def Rule.grounded : Rule (List (List String)) where
  allows
    | st, .write (.assert t) => t.GroundedIn st
    | _, _ => True
  after
    | st, deed, .ok () => standing st deed.command.line
    | st, _, .error _ => st

namespace Checker

variable {α : Type} {st : List (List String)} {locals : Bindings} {bound : List String}

/-- Whatever the solver does, the part asserts grounded terms only, and if it succeeds, its answer
is as `ok` says and only the innermost scope has gained lines. -/
def Grounds (st : List (List String)) (part : CheckM α)
    (ok : α → List (List String) → Prop) : Prop :=
  Ensures Rule.grounded st part (fun a st' => Grown st st' ∧ ok a st') fun _ => True

theorem grounds_pure {a : α} {ok : α → List (List String) → Prop} (hst : st ≠ []) (h : ok a st) :
    Grounds st (pure a) ok := ensures_pure ⟨.refl hst, h⟩

theorem grounds_bind {β : Type} (mid : α → List (List String) → Prop)
    {ok : β → List (List String) → Prop} {part : CheckM α} {f : α → CheckM β}
    (h : Grounds st part mid) (hf : ∀ a st', Grown st st' → mid a st' → Grounds st' (f a) ok) :
    Grounds st (part >>= f) ok := by
  refine ensures_bind _ h ?_
  rintro a st' ⟨hgrown, hmid⟩
  exact (hf a st' hgrown hmid).mono (fun _ _ hok => ⟨hgrown.trans hok.1, hok.2⟩) fun _ h => h

theorem grounds_ofOutcome {outcome : Outcome α} {ok : α → List (List String) → Prop}
    (hst : st ≠ []) (h : ∀ a, outcome = .ok a → ok a st) : Grounds st (ofOutcome outcome) ok :=
  ensures_ofOutcome (fun a ha => ⟨.refl hst, h a ha⟩) fun _ _ => trivial

theorem grounds_adapt {part : CheckM α} {ok : α → List (List String) → Prop}
    (h : Grounds st part ok) (f : Failure → Failure) : Grounds st (part.adapt f) ok :=
  ensures_adapt h f

theorem grown_after {c : Command} (hplain : c.IsPlain) (hst : st ≠ []) :
    Grown st (Rule.grounded.after st (.write c) (.ok ())) := grown_standing hplain.isFlat st hst

theorem grounded_after {c : Command} {name : String} (hname : c.declared? = some name)
    (hword : SExpr.IsWord name) (hst : st ≠ []) :
    (Term.symbol name).GroundedIn (Rule.grounded.after st (.write c) (.ok ())) :=
  Term.grounded_symbol hword (declaredIn_standing hname hword hst)

theorem grounds_declare {name : String} (hword : SExpr.IsWord name) (sort : String)
    (hst : st ≠ []) : Grounds st (write (.declareConst name sort))
      fun _ st' => (Term.symbol name).GroundedIn st' :=
  ensures_write trivial ⟨grown_after trivial hst, grounded_after rfl hword hst⟩ fun _ => trivial

theorem grounds_assert {t : Term} (h : t.GroundedIn st) (hst : st ≠ []) :
    Grounds st (assert t) fun _ _ => True :=
  ensures_write h ⟨grown_after trivial hst, trivial⟩ fun _ => trivial

theorem grounds_fresh (ty : Ty) (hst : st ≠ []) :
    Grounds st (fresh ty) fun name st' => (Term.symbol name).GroundedIn st' := by
  refine ensures_fresh trivial fun sort names _ => ?_
  have hword := isWord_of_isPlainName (isPlainName_next names sort)
  exact ⟨trivial, ⟨grown_after trivial hst, grounded_after rfl hword hst⟩, fun _ => trivial⟩

theorem grounds_refute {goal : Term} (h : goal.GroundedIn st) (obligation : String)
    (span : Option Span) (hst : st ≠ []) :
    Grounds st (refute goal obligation span) fun _ _ => True := by
  exact ensures_refute (Term.grounded_not h) ⟨grown_after trivial hst, trivial⟩ fun _ => trivial

/-- After a scope of its own a part leaves what stood before. -/
theorem grounds_scope (ok : α → List (List String) → Prop) {body : CheckM α} (hst : st ≠ [])
    (hbody : Grounds ([] :: st) body ok) : Grounds st (inSolverScope body) fun _ _ => True := by
  obtain ⟨scope, rest, rfl⟩ := List.exists_cons_of_ne_nil hst
  refine ensures_inSolverScope trivial (fun _ => trivial) hbody ?_ fun _ _ =>
    ⟨trivial, fun _ => trivial⟩
  rintro a st' ⟨⟨top, top', below, hcons, rfl, -⟩, -⟩
  cases hcons
  have hpop : standing (top' :: scope :: rest) Command.pop.line = scope :: rest :=
    isScoping_standing.pop top' scope rest
  refine ⟨trivial, ⟨?_, trivial⟩, fun _ => trivial⟩
  change Grown (scope :: rest) (standing (top' :: scope :: rest) Command.pop.line)
  rw [hpop]
  exact .refl hst

/-- The walk over each scoped expression answers a grounded term. -/
def GroundedWalk (env : Env) (walk : Walk) : Prop :=
  ∀ mode locals e bound st, e.isScoped env bound = true → env.StandsIn st →
    locals.GroundedIn bound st → Grounds st (walk mode locals e) fun t st' => t.GroundedIn st'

theorem grounds_requireBool (pred : Expr) (span : Option Span) (hst : st ≠ []) :
    Grounds st (requireBool pred span) fun _ _ => True :=
  ensures_requireBool ⟨.refl hst, trivial⟩ trivial

theorem grounds_note (text : String) (hst : st ≠ []) :
    Grounds st (note text) fun _ _ => True :=
  ensures_note ⟨.refl hst, trivial⟩

section

variable {env : Env} {walk : Walk} (hwalk : GroundedWalk env walk)
include hwalk

theorem grounds_prove {clause : Clause} {binder : String}
    (hclause : clause.expr.isScoped env bound = true) (hbinder : binder ∈ bound)
    (henv : env.StandsIn st) (hlocals : locals.GroundedIn bound st) (span : Option Span) :
    Grounds st (prove walk locals binder clause span) fun _ _ => True := by
  have hst := henv.nonempty
  have hinner : ([] :: st : List (List String)) ≠ [] := List.cons_ne_nil [] st
  cases clause with
  | holds pred =>
      refine grounds_bind _ (grounds_requireBool pred span hst) fun _ st₁ hgrown₁ _ => ?_
      refine grounds_bind _ (grounds_note _ hgrown₁.ne_nil) fun _ st₂ hgrown₂ _ => ?_
      have hgrown := hgrown₁.trans hgrown₂
      refine grounds_scope (fun _ _ => True) hgrown.ne_nil ?_
      have hpred := hwalk .full locals pred bound _ hclause (henv.mono hgrown).push
        (hlocals.mono hgrown).push
      refine grounds_bind _ hpred fun goal st₃ hgrown₃ hgoal => ?_
      exact grounds_refute hgoal _ span hgrown₃.ne_nil
  | equals value =>
      refine grounds_bind _ (grounds_note _ hst) fun _ st₁ hgrown _ => ?_
      refine grounds_scope (fun _ _ => True) hgrown.ne_nil ?_
      refine grounds_bind (fun _ _ => True)
        (grounds_ofOutcome (List.cons_ne_nil [] st₁) fun _ _ => trivial) fun _ st₂ hgrown₂ _ => ?_
      have hlocals₂ := (hlocals.mono hgrown).push.mono hgrown₂
      have hvalue := hwalk .full locals value bound _ hclause ((henv.mono hgrown).push.mono hgrown₂)
        hlocals₂
      refine grounds_bind _ hvalue fun term st₃ hgrown₃ hterm => ?_
      have hsubject := (hlocals₂.mono hgrown₃).names binder hbinder
      exact grounds_refute (Term.grounded_eq hsubject hterm) _ span hgrown₃.ne_nil

theorem grounds_assume {clause : Clause} {result : Term}
    (hclause : clause.expr.isScoped env bound = true) (henv : env.StandsIn st)
    (hlocals : locals.GroundedIn bound st) (hresult : result.GroundedIn st) (span : Option Span) :
    Grounds st (assume walk locals result clause span) fun _ _ => True := by
  cases clause with
  | holds pred =>
      refine grounds_bind _ (grounds_requireBool pred span henv.nonempty) fun _ st₁ hgrown _ => ?_
      have hpred := hwalk .full locals pred bound _ hclause (henv.mono hgrown)
        (hlocals.mono hgrown)
      exact grounds_bind _ hpred fun fact st₂ hgrown₂ hfact => grounds_assert hfact hgrown₂.ne_nil
  | equals value =>
      have hvalue := hwalk .full locals value bound _ hclause henv hlocals
      refine grounds_bind _ hvalue fun term st₁ hgrown hterm => ?_
      exact grounds_assert (Term.grounded_eq (hresult.mono hgrown) hterm) hgrown.ne_nil

omit hwalk in
/-- What is done about the clause of a refinement, if it has one, before the rest. -/
theorem grounds_clause {r : Refinement} (hr : r.isScoped env bound = true)
    {act : Clause → CheckM Unit} (hst : st ≠ [])
    (hact : ∀ clause, clause.expr.isScoped env (r.binder :: bound) = true →
      Grounds st (act clause) fun _ _ => True)
    {rest : CheckM α} {ok : α → List (List String) → Prop}
    (hrest : ∀ st', Grown st st' → Grounds st' rest ok) :
    Grounds st (match r.clause? with
      | none => rest
      | some clause => act clause >>= fun _ => rest) ok := by
  cases hclause : r.clause? with
  | none => exact hrest st (.refl hst)
  | some clause =>
      have hscoped := Refinement.isScoped_clause hr hclause
      exact grounds_bind _ (hact clause hscoped) fun _ st' hgrown _ => hrest st' hgrown

theorem grounds_checkArgs (callee : String) (span : Option Span)
    {pairs : List (RefinedTy × Expr)} {rest : List RefinedTy} {inner : List String}
    {binders : Bindings} (hargs : ∀ a ∈ pairs, a.2.isScoped env bound = true)
    (hcontracts : scopedContracts env inner (pairs.map (·.1) ++ rest) = true)
    (henv : env.StandsIn st) (hlocals : locals.GroundedIn bound st)
    (hbinders : binders.GroundedIn inner st) :
    Grounds st (checkArgs walk callee span locals pairs binders) fun r st' =>
      (∃ inner', scopedContracts env inner' rest = true ∧ r.1.GroundedIn inner' st') ∧
        ∀ t ∈ r.2, t.GroundedIn st' := by
  induction pairs generalizing st inner binders with
  | nil =>
      exact grounds_pure henv.nonempty ⟨⟨inner, hcontracts, hbinders⟩, fun t ht => nomatch ht⟩
  | cons head others ih =>
      obtain ⟨param, arg⟩ := head
      obtain ⟨harg, hothers⟩ := List.forall_mem_cons.1 hargs
      rw [List.map_cons, List.cons_append, scopedContracts, Bool.and_eq_true] at hcontracts
      obtain ⟨hparam, hcontracts⟩ := hcontracts
      -- The other arguments, once the term of this one is known.
      have hrest : ∀ {binders' : Bindings} {term : Term} {st₁ : List (List String)},
          Grown st st₁ → binders'.GroundedIn (param.binders ++ inner) st₁ →
          term.GroundedIn st₁ →
          Grounds st₁ (checkArgs walk callee span locals others binders' >>= fun r =>
            pure (r.1, term :: r.2)) fun r st' =>
              (∃ inner', scopedContracts env inner' rest = true ∧ r.1.GroundedIn inner' st') ∧
                ∀ t ∈ r.2, t.GroundedIn st' := by
        intro binders' term st₁ hgrown hbinders' hterm
        have hothers' := ih hothers hcontracts (henv.mono hgrown) (hlocals.mono hgrown) hbinders'
        refine grounds_bind _ hothers' fun r st₂ hgrown₂ hr => ?_
        refine grounds_pure hgrown₂.ne_nil ⟨hr.1, List.forall_mem_cons.2 ⟨?_, hr.2⟩⟩
        exact hterm.mono hgrown₂
      rcases param with ty | ⟨ty, r⟩
      · refine grounds_bind _ (hwalk .full locals arg bound st harg henv hlocals) ?_
        intro term st₁ hgrown hterm
        exact hrest hgrown (hbinders.mono hgrown) hterm
      · refine grounds_bind _ (hwalk .simple locals arg bound st harg henv hlocals) ?_
        intro term st₁ hgrown hterm
        have hinserted := (hbinders.mono hgrown).insert r.binder hterm
        rw [RefinedTy.isScoped] at hparam
        refine grounds_clause hparam hgrown.ne_nil (fun clause hclause => ?_) fun st₂ hgrown₂ => ?_
        · have hproof := grounds_prove hwalk hclause List.mem_cons_self (henv.mono hgrown) hinserted
          exact grounds_adapt (hproof _) _
        · exact hrest (hgrown.trans hgrown₂) (hinserted.mono hgrown₂) (hterm.mono hgrown₂)

omit hwalk in
theorem grounds_applyOperator (mode : Mode) (name : String) (ret : RefinedTy) {terms : List Term}
    (hst : st ≠ []) (hterms : ∀ t ∈ terms, t.GroundedIn st) (span : Option Span) :
    Grounds st (applyOperator mode name ret terms span) fun t st' => t.GroundedIn st' := by
  have happly : Grounds st (ofOutcome ((Operator.apply name terms).located span))
      fun t st' => t.GroundedIn st' := grounds_ofOutcome hst fun t ht =>
    Operator.grounded_of_apply (Outcome.located_eq_ok_iff.1 ht) hterms
  refine grounds_bind _ happly fun applied st₁ hgrown happlied => ?_
  cases mode with
  | full => exact grounds_pure hgrown.ne_nil happlied
  | simple =>
      have hfresh := grounds_adapt (grounds_fresh ret.ty hgrown.ne_nil) (·.locate span)
      refine grounds_bind _ hfresh fun var st₂ hgrown₂ hvar => ?_
      have hequation := Term.grounded_eq hvar (happlied.mono hgrown₂)
      refine grounds_bind _ (grounds_assert hequation hgrown₂.ne_nil) fun _ st₃ hgrown₃ _ => ?_
      exact grounds_pure hgrown₃.ne_nil (hvar.mono hgrown₃)

theorem grounds_assumeReturn (callee : String) {ret : RefinedTy} {binders : Bindings}
    {result : Term} (hret : scopedContracts env bound [ret] = true) (henv : env.StandsIn st)
    (hbinders : binders.GroundedIn bound st) (hresult : result.GroundedIn st)
    (span : Option Span) :
    Grounds st (assumeReturn walk callee ret binders result span) fun t st' =>
      t.GroundedIn st' := by
  rcases ret with ty | ⟨ty, r⟩
  · exact grounds_pure henv.nonempty hresult
  · rw [scopedContracts, Bool.and_eq_true, RefinedTy.isScoped] at hret
    have hinserted := hbinders.insert r.binder hresult
    refine grounds_clause hret.1 henv.nonempty (fun clause hclause => ?_) fun st' hgrown => ?_
    · have hassume := grounds_assume hwalk hclause henv hinserted hresult
      exact grounds_adapt (hassume _) _
    · exact grounds_pure hgrown.ne_nil (hresult.mono hgrown)

theorem grounds_checkResult (callee : String) {origin : Origin} {ret : RefinedTy}
    {binders : Bindings} {terms : List Term}
    (hcallee : origin = .uninterpreted → SExpr.IsWord callee ∧ DeclaredIn st callee)
    (hret : scopedContracts env bound [ret] = true) (henv : env.StandsIn st)
    (hbinders : binders.GroundedIn bound st) (hterms : ∀ t ∈ terms, t.GroundedIn st)
    (span : Option Span) :
    Grounds st (checkResult walk callee origin ret binders terms span) fun t st' =>
      t.GroundedIn st' := by
  have hfresh := grounds_adapt (grounds_fresh ret.ty henv.nonempty) (·.locate span)
  refine grounds_bind _ hfresh fun name st₁ hgrown hname => ?_
  have hcontract : ∀ st₂, Grown st₁ st₂ →
      Grounds st₂ (assumeReturn walk callee ret binders (.symbol name) span) fun t st' =>
        t.GroundedIn st' := fun st₂ hgrown₂ =>
    have hgrown' := hgrown.trans hgrown₂
    grounds_assumeReturn hwalk callee hret (henv.mono hgrown') (hbinders.mono hgrown')
      (hname.mono hgrown₂) span
  by_cases horigin : origin = .uninterpreted
  · simp only [if_pos horigin]
    obtain ⟨hword, hdeclared⟩ := hcallee horigin
    have happlied : (application callee terms).GroundedIn st₁ := by
      unfold application
      split
      · exact Term.grounded_symbol hword (hdeclared.mono hgrown)
      · exact Term.grounded_apply hword (.inr (.inr (hdeclared.mono hgrown))) fun t ht =>
          (hterms t ht).mono hgrown
    refine grounds_bind _ (grounds_assert (Term.grounded_eq hname happlied) hgrown.ne_nil) ?_
    exact fun _ st₂ hgrown₂ _ => hcontract st₂ hgrown₂
  · simp only [if_neg horigin]
    exact hcontract st₁ (.refl hgrown.ne_nil)

variable (hsignatures : ∀ name sig, env.get? name = some sig → sig.isScoped env = true)
include hsignatures

theorem grounds_checkCall (mode : Mode) (callee : Expr) {args : List Expr} (span : Option Span)
    (hargs : Expr.areScoped env bound args = true) (henv : env.StandsIn st)
    (hlocals : locals.GroundedIn bound st) :
    Grounds st (checkCall env walk mode locals callee args span) fun t st' => t.GroundedIn st' := by
  unfold checkCall
  rcases hresolve : resolveCall env callee args span with failure | ⟨name, origin, params, ret⟩
  · change Grounds st (ofOutcome (.error failure)) _
    exact grounds_ofOutcome henv.nonempty fun _ h => nomatch h
  obtain ⟨-, sig, hsig, horigin, harrow, hlength⟩ := resolveCall_eq_ok hresolve
  have hcontracts : scopedContracts env [] (params ++ [ret]) = true := by
    have hscoped := hsignatures name sig hsig
    rwa [Signature.isScoped, harrow] at hscoped
  have hparams : (params.zip args).map (·.1) = params :=
    List.map_fst_zip (Nat.le_of_eq hlength)
  rw [← hparams] at hcontracts
  have hpairs : ∀ a ∈ params.zip args, a.2.isScoped env bound = true := fun a ha =>
    Expr.isScoped_of_mem hargs (List.of_mem_zip ha).2
  have hchecked := grounds_checkArgs hwalk name span hpairs hcontracts henv hlocals
    Bindings.grounded_empty
  change Grounds st (checkArgs walk name span locals (params.zip args) ∅ >>= _) _
  refine grounds_bind _ hchecked fun r st₁ hgrown hr => ?_
  obtain ⟨binders, terms⟩ := r
  obtain ⟨⟨inner, hret, hbinders⟩, hterms⟩ := hr
  by_cases hbuiltin : origin = .builtin
  · simp only [if_pos hbuiltin]
    exact grounds_applyOperator mode name ret hgrown.ne_nil hterms span
  · simp only [if_neg hbuiltin]
    refine grounds_checkResult hwalk name (fun h => ?_) hret (henv.mono hgrown) hbinders hterms span
    obtain ⟨hword, hdeclared⟩ := henv.function name sig hsig (horigin.trans h)
    exact ⟨hword, hdeclared.mono hgrown⟩

theorem grounds_checkExpr : GroundedWalk env (checkExpr env walk) := by
  rintro mode locals ⟨ty, shape, span⟩ bound st he henv hlocals
  rw [Expr.isScoped] at he
  have hst := henv.nonempty
  cases shape with
  | var name =>
      refine grounds_ofOutcome hst fun t ht => ?_
      cases ht
      exact hlocals.resolve henv he
  | bool value =>
      refine grounds_ofOutcome hst fun t ht => ?_
      cases ht
      exact Term.grounded_bool value
  | int value =>
      refine grounds_ofOutcome hst fun t ht => ?_
      cases ht
      exact Term.grounded_int value
  | ite test onTrue onFalse => exact grounds_ofOutcome hst fun _ h => nomatch h
  | lambda params body => exact grounds_ofOutcome hst fun _ h => nomatch h
  | call callee args =>
      rw [Shape.isScoped] at he
      exact grounds_checkCall hwalk hsignatures mode callee span he henv hlocals
  | letIn name value body =>
      rw [Shape.isScoped, Bool.and_eq_true, Bool.and_eq_true, decide_eq_true_eq] at he
      obtain ⟨hword, hvalue, hbody⟩ := he
      refine grounds_bind (fun _ _ => True) (grounds_ofOutcome hst fun _ _ => trivial) ?_
      intro sort st₁ hgrown₁ _
      refine grounds_bind _ (grounds_declare hword sort.display hgrown₁.ne_nil) ?_
      intro _ st₂ hgrown₂ hname
      have henv₂ := (henv.mono hgrown₁).mono hgrown₂
      have hlocals₂ := ((hlocals.mono hgrown₁).mono hgrown₂).letIn hname
      refine grounds_bind _ (hwalk .full locals value _ st₂ hvalue henv₂ hlocals₂) ?_
      intro term st₃ hgrown₃ hterm
      have hequation := Term.grounded_eq (hname.mono hgrown₃) hterm
      refine grounds_bind _ (grounds_assert hequation hgrown₃.ne_nil) fun _ st₄ hgrown₄ _ => ?_
      have hgrown := hgrown₃.trans hgrown₄
      exact hwalk mode locals body _ st₄ hbody (henv₂.mono hgrown) (hlocals₂.mono hgrown)
  | cast expr target =>
      rw [Shape.isScoped, Bool.and_eq_true] at he
      obtain ⟨hexpr, htarget⟩ := he
      refine grounds_bind _ (hwalk mode locals expr bound st hexpr henv hlocals) ?_
      intro term st₁ hgrown hterm
      rcases target with target | ⟨target, r⟩
      · exact grounds_pure hgrown.ne_nil hterm
      · rw [RefinedTy.isScoped] at htarget
        have hinserted := (hlocals.mono hgrown).insert r.binder hterm
        refine grounds_clause htarget hgrown.ne_nil (fun clause hclause => ?_) fun st₂ hgrown₂ => ?_
        · exact grounds_prove hwalk hclause List.mem_cons_self (henv.mono hgrown) hinserted span
        · exact grounds_pure hgrown₂.ne_nil (hterm.mono hgrown₂)

omit hwalk

theorem grounds_checkWithin (depth : Nat) : GroundedWalk env (checkWithin env depth) := by
  induction depth with
  | zero => exact fun _ _ _ _ _ _ henv _ => grounds_ofOutcome henv.nonempty fun _ h => nomatch h
  | succ depth ih => exact grounds_checkExpr ih hsignatures

/-- The dialogue of a run asserts grounded terms only. -/
theorem grounds_run {e : Expr} (he : e.isScoped env [] = true) (henv : env.StandsIn st) :
    (runDialogue env e).Obeys Rule.grounded (fun _ _ => True) st := by
  have hcheck := grounds_checkWithin hsignatures (depthLimit env e) .full ∅ e [] _ he henv.push
    Bindings.grounded_empty
  have hrun : Grounds st (inSolverScope do let _ ← check env .full ∅ e) fun _ _ => True := by
    refine grounds_scope (fun _ _ => True) henv.nonempty ?_
    exact grounds_bind _ hcheck fun _ _ hgrown _ => grounds_pure hgrown.ne_nil trivial
  exact (hrun {}).mono fun _ _ _ => trivial

end

end Checker

/-- Each line that asserts is read as the assertion of a term all of whose words are known where it
is sent. -/
def AssertsKnown : List (List String) → List String → Prop
  | _, [] => True
  | st, line :: rest =>
    (IsAssertion line → ∃ t : Term, Command.read? line = some (.assert t) ∧
      ∀ word ∈ t.words, KnownIn st word) ∧ AssertsKnown (standing st line) rest

section

variable {st : List (List String)} {lines more : List String} {line : String}

theorem assertsKnown_append : AssertsKnown st (lines ++ more) ↔
    AssertsKnown st lines ∧ AssertsKnown (lines.foldl standing st) more := by
  induction lines generalizing st with
  | nil => exact ⟨fun h => ⟨trivial, h⟩, fun h => h.2⟩
  | cons line rest ih =>
      rw [List.cons_append, AssertsKnown, ih, AssertsKnown, List.foldl_cons, and_assoc]

theorem assertsKnown_of_forall (h : ∀ line ∈ lines, ¬ IsAssertion line) :
    AssertsKnown st lines := by
  induction lines generalizing st with
  | nil => trivial
  | cons line rest ih =>
      obtain ⟨hline, hrest⟩ := List.forall_mem_cons.1 h
      exact ⟨fun h => absurd h hline, ih hrest⟩

theorem AssertsKnown.of_split (h : AssertsKnown st lines) {before after : List String}
    (hsplit : lines = before ++ line :: after)
    (hline : IsAssertion line) : ∃ t : Term, Command.read? line = some (.assert t) ∧
      ∀ word ∈ t.words, KnownIn (before.foldl standing st) word := by
  rw [hsplit, assertsKnown_append] at h
  exact h.2.1 hline

theorem not_isAssertion_of_toList {c : Char} {rest : List Char}
    (h : line.toList = '(' :: c :: rest) (hc : c ≠ 'a') : ¬ IsAssertion line := by
  rintro ⟨tail, htail⟩
  rw [h] at htail
  simp at htail
  exact hc htail.1.symm

/-- Among the commands that a session sends, only assertions assert. -/
theorem Command.not_isAssertion {c : Command} (h : ∀ t, c ≠ .assert t) : ¬ IsAssertion c.line := by
  have hdeclare : ∀ {c : Command} {name}, c.declared? = some name → ¬ IsAssertion c.line := by
    intro c name hname
    obtain ⟨rest, hline⟩ := Scripted.opening_of_declared? hname
    exact not_isAssertion_of_toList hline (by decide)
  cases c with
  | scopedDeclarations => exact not_isAssertion_of_toList rfl (by decide)
  | push => exact not_isAssertion_of_toList rfl (by decide)
  | pop => exact not_isAssertion_of_toList rfl (by decide)
  | checkSat => exact not_isAssertion_of_toList rfl (by decide)
  | sync => exact not_isAssertion_of_toList rfl (by decide)
  | exit => exact not_isAssertion_of_toList rfl (by decide)
  | declareSort name => exact hdeclare rfl
  | declareFun name domain range => exact hdeclare rfl
  | declareConst name sort => exact hdeclare rfl
  | assert t => exact absurd rfl (h t)

end

namespace Session

variable {τ ω : Type} [Transport τ ω]

/-- The lines that stand in the open scopes. -/
def stands (s : Session τ ω) : List (List String) := s.transcript.toList.foldl standing [[]]

def KnowsAsserted (s : Session τ ω) : Prop := AssertsKnown [[]] s.transcript.toList

section

variable {s s' : Session τ ω} {lines : List String}

theorem Spoke.stands (h : s.Spoke lines s') : s'.stands = lines.foldl standing s.stands := by
  unfold Session.stands
  rw [h.transcript, List.foldl_append]

theorem Spoke.knowsAsserted (h : s.Spoke lines s') :
    s'.KnowsAsserted ↔ s.KnowsAsserted ∧ AssertsKnown s.stands lines := by
  unfold KnowsAsserted
  rw [h.transcript, assertsKnown_append]
  rfl

/-- What asserts nothing asserts nothing unknown. -/
theorem KnowsAsserted.spoke (hs : s.KnowsAsserted) (h : s.Spoke lines s')
    (hlines : ∀ line ∈ lines, ¬ IsAssertion line) : s'.KnowsAsserted :=
  h.knowsAsserted.2 ⟨hs, assertsKnown_of_forall hlines⟩

theorem KnowsAsserted.write (hs : s.KnowsAsserted) {c : Command} (hc : ∀ t, c ≠ .assert t) :
    (write c.line s).2.KnowsAsserted := by
  refine hs.spoke (said_of_write c.line s).toSpoke fun line hline => ?_
  rw [eq_of_mem_accepted hline]
  exact Command.not_isAssertion hc

theorem KnowsAsserted.read (hs : s.KnowsAsserted) : (read s).2.KnowsAsserted :=
  hs.spoke (said_of_read s).toSpoke nofun

end

omit [Transport τ ω] in
theorem ne_assert_of_mem_declarations {env : Env} {e : Expr} {d : String × Command}
    (h : d ∈ env.declarations e) (t : Term) : d.2 ≠ .assert t := by
  rintro heq
  rcases mem_declarations_iff.1 (List.mem_map_of_mem h) with ⟨sort, -, hsort⟩ |
    ⟨name, sig, key, -, hdeclare⟩
  · rw [hsort] at heq
    cases heq
  · have hname := Signature.declared?_of_globalDeclaration hdeclare
    rw [heq] at hname
    cases hname

/-- Globals are declared only if each of them can be. -/
theorem globalDeclaration_of_declareSignatures {entries : List (String × Signature)}
    {s s' : Session τ ω} (h : declareSignatures entries s = (.ok (), s')) :
    ∀ entry ∈ entries, ∃ declaration, entry.2.globalDeclaration entry.1 = .ok declaration := by
  induction entries generalizing s with
  | nil => exact nofun
  | cons entry rest ih =>
      obtain ⟨name, sig⟩ := entry
      obtain ⟨declaration, s₁, hlift, h⟩ := bind_eq_ok_iff.1 h
      obtain ⟨hdeclaration, -⟩ := liftExcept_eq_ok hlift
      have hrest : ∃ s₂ : Session τ ω, declareSignatures rest s₂ = (.ok (), s') := by
        rcases declaration with ⟨key, command⟩ | unsorted | _
        · obtain ⟨_, s₂, -, hrest⟩ := bind_eq_ok_iff.1 h
          exact ⟨s₂, hrest⟩
        · obtain ⟨_, s₂, -, hrest⟩ := bind_eq_ok_iff.1 h
          exact ⟨s₂, hrest⟩
        · exact ⟨s₁, h⟩
      obtain ⟨s₂, hrest⟩ := hrest
      exact List.forall_mem_cons.2 ⟨⟨declaration, hdeclaration⟩, ih hrest⟩

omit [Transport τ ω] in
/-- An uninterpreted function is declared if it can be. -/
theorem exists_declare_of_uninterpreted {name : String} {sig : Signature}
    {declaration : GlobalDeclaration} (horigin : sig.origin = .uninterpreted)
    (h : sig.globalDeclaration name = .ok declaration) : ∃ key c, declaration = .declare key c := by
  unfold Signature.globalDeclaration at h
  rw [horigin] at h
  rcases harrow : sig.ty.ty.arrow? with _ | ⟨params, ret⟩
  · simp only [harrow] at h
    cases h
  simp only [harrow] at h
  rcases hdomain : params.mapM fun p => SolverSort.of p.ty with failure | domain
  · simp only [hdomain] at h
    cases h
  rcases hrange : SolverSort.of ret.ty with failure | range
  · simp only [hdomain, hrange] at h
    cases h
  · simp only [hdomain, hrange] at h
    cases h
    exact ⟨_, _, rfl⟩

theorem grown_commands {commands : List Command} (hplain : ∀ c ∈ commands, c.IsPlain)
    {st : List (List String)} (hst : st ≠ []) :
    Grown st ((commands.map Command.line).foldl standing st) := by
  refine grown_foldl (fun _ => grown_standing) (fun line hline => ?_) hst
  obtain ⟨c, hc, rfl⟩ := List.mem_map.1 hline
  exact (hplain c hc).isFlat

/-- All that plain commands declare stands in the end. -/
theorem declaredIn_foldl {commands : List Command} (hplain : ∀ c ∈ commands, c.IsPlain)
    {st : List (List String)} (hst : st ≠ []) {c : Command} (hc : c ∈ commands) {name : String}
    (hname : c.declared? = some name) (hword : SExpr.IsWord name) :
    DeclaredIn ((commands.map Command.line).foldl standing st) name := by
  obtain ⟨before, after, rfl⟩ := List.append_of_mem hc
  obtain ⟨hbefore, hafter⟩ := List.forall_mem_append.1 hplain
  obtain ⟨hplainc, hafter⟩ := List.forall_mem_cons.1 hafter
  rw [List.map_append, List.foldl_append, List.map_cons, List.foldl_cons]
  have hst' := (grown_commands hbefore hst).ne_nil
  have hdeclared := declaredIn_standing hname hword hst'
  exact hdeclared.mono (grown_commands hafter (grown_standing hplainc.isFlat _ hst').ne_nil)

/-- The lines of a new session that has declared its globals. -/
theorem transcript_of_declareGlobals {world : ω} {env : Env} {e : Expr} {s₁ s₂ : Session τ ω}
    (hstart : start { world } = (.ok (), s₁)) (hdeclare : declareGlobals env e s₁ = (.ok (), s₂)) :
    s₂.transcript.toList =
      (Command.scopedDeclarations :: (env.declarations e).map (·.2)).map Command.line := by
  obtain ⟨s₀, c, -, -, -, htranscript, hsends, hdeclared⟩ := start_new_eq_ok hstart
  have hdeclares := (declares_of_declareGlobals (isStarted_of_start hstart) hdeclare).sends
  have hall := missing_of_declared_eq_empty hdeclared env e
  unfold missing at hall
  rw [hall] at hdeclares
  rw [hdeclares.transcript, hsends.transcript, htranscript]
  rfl

/-- Once they are declared, all globals that terms may mention stand in the outermost scope. -/
theorem standsIn_of_declareGlobals {world : ω} {env : Env} {e : Expr} {s₁ s₂ : Session τ ω}
    (hscoped : Scoped env e) (hstart : start { world } = (.ok (), s₁))
    (hdeclare : declareGlobals env e s₁ = (.ok (), s₂)) : env.StandsIn s₂.stands := by
  obtain ⟨-, s₃, -, hsignatures⟩ := bind_eq_ok_iff.1 hdeclare
  have hplain : ∀ c ∈ Command.scopedDeclarations :: (env.declarations e).map (·.2), c.IsPlain := by
    refine List.forall_mem_cons.2 ⟨trivial, fun c hc => ?_⟩
    obtain ⟨d, hd, rfl⟩ := List.mem_map.1 hc
    exact Env.isPlain_of_mem_declarations hd
  have hnil : ([[]] : List (List String)) ≠ [] := List.cons_ne_nil [] []
  have hdeclared : ∀ name sig key c, env.get? name = some sig →
      sig.globalDeclaration name = .ok (.declare key c) → SExpr.IsWord name →
      DeclaredIn s₂.stands name := by
    intro name sig key c hsig hglobal hword
    have hmem : c ∈ (env.declarations e).map (·.2) :=
      mem_declarations_iff.2 (.inr ⟨name, sig, key, hsig, hglobal⟩)
    unfold stands
    rw [transcript_of_declareGlobals hstart hdeclare]
    exact declaredIn_foldl hplain hnil (List.mem_cons_of_mem _ hmem)
      (Signature.declared?_of_globalDeclaration hglobal) hword
  refine ⟨?_, fun name hvalue => ?_, fun name sig hsig horigin => ?_⟩
  · unfold stands
    rw [transcript_of_declareGlobals hstart hdeclare]
    exact (grown_commands hplain hnil).ne_nil
  · obtain ⟨sort, hsort⟩ := Option.isSome_iff_exists.1 hvalue
    obtain ⟨sig, hsig, horigin, hrank⟩ := Env.globalRank?_of_valueSort? hsort
    obtain ⟨key, c, hglobal⟩ := Signature.globalDeclaration_of_globalRank? name hrank
    have hword := hscoped.names name sig hsig (.inl horigin)
    exact Term.grounded_symbol hword (hdeclared name sig key c hsig hglobal hword)
  · have hword := hscoped.names name sig hsig (.inr horigin)
    obtain ⟨declaration, hglobal⟩ := globalDeclaration_of_declareSignatures hsignatures (name, sig)
      (NameMap.get?_eq_some_iff.1 hsig)
    obtain ⟨key, c, rfl⟩ := exists_declare_of_uninterpreted horigin hglobal
    exact ⟨hword, hdeclared name sig key c hsig hglobal hword⟩

omit [Transport τ ω] in
theorem isClosed_knowsAsserted :
    IsClosed (fun {α} (op : SessionM τ ω α) => Preserves KnowsAsserted op) :=
  isClosed_preserves fun _ _ _ h => h

theorem KnowsAsserted.start {s : Session τ ω} (hs : s.KnowsAsserted) :
    (start s).2.KnowsAsserted := by
  rw [start_apply]
  split
  · exact hs
  rw [bind_apply]
  rcases launch_cases s with ⟨failure, world, log, -, hlaunch⟩ | ⟨c, world, log, -, hlaunch⟩
  · rw [hlaunch]
    exact hs
  · rw [hlaunch]
    have hlaunched : ({ s with world, channel := some c, depth := 0, log } :
        Session τ ω).KnowsAsserted := hs
    exact hlaunched.write (c := .scopedDeclarations) fun _ h => nomatch h

theorem KnowsAsserted.declareGlobals {s : Session τ ω} (hs : s.KnowsAsserted) (env : Env)
    (e : Expr) : (declareGlobals env e s).2.KnowsAsserted := by
  refine isClosed_knowsAsserted.declareGlobals (fun d hd s hs => ?_) s hs
  have hwrite : (Session.write d.2.line s).2.KnowsAsserted :=
    hs.write (ne_assert_of_mem_declarations hd)
  rw [declareGlobal_apply]
  split
  · exact hs
  rw [bind_apply]
  rcases hs₁ : Session.write d.2.line s with ⟨failure | u, s₁⟩
  · rwa [hs₁] at hwrite
  · rw [hs₁] at hwrite
    exact hwrite

/-- What is known of a session in the middle of a walk. -/
structure Follows (st : List (List String)) (s : Session τ ω) : Prop where
  stands : s.stands = st
  knows : s.KnowsAsserted

theorem Follows.checkSat {st : List (List String)} {s : Session τ ω} (h : s.Follows st) :
    (checkSat s).2.Follows st := by
  obtain ⟨outcome, hsaid⟩ := said_of_checkSat s
  refine ⟨?_, h.knows.spoke hsaid.toSpoke fun line hline => ?_⟩
  · rw [hsaid.stands, h.stands]
    rcases outcome with failure | u
    · rfl
    · exact standing_checkSat st
  · rw [eq_of_mem_accepted hline]
    exact Command.not_isAssertion fun _ h => nomatch h

/-- A deed that is allowed asserts nothing unknown. -/
theorem Follows.perform {st : List (List String)} {s : Session τ ω} (h : s.Follows st)
    {deed : Deed} (hallowed : Rule.grounded.allows st deed) :
    (perform deed s).2.Follows (Rule.grounded.after st deed (perform deed s).1) := by
  have hspoke := spoke_perform deed s
  have hline : IsAssertion deed.command.line → ∃ t : Term,
      Command.read? deed.command.line = some (.assert t) ∧ ∀ word ∈ t.words, KnownIn st word := by
    intro hassertion
    by_cases hassert : ∃ t, deed = .write (.assert t)
    · obtain ⟨t, rfl⟩ := hassert
      have hgrounded : t.GroundedIn st := hallowed
      exact ⟨t, Command.read?_line hgrounded.legible, hgrounded.known⟩
    · refine absurd hassertion (Command.not_isAssertion fun t ht => hassert ?_)
      cases deed with
      | write command => exact ⟨t, congrArg Deed.write ht⟩
      | push => cases ht
      | pop => cases ht
  rcases houtcome : (Session.perform deed s).1 with failure | u
  · rw [houtcome] at hspoke
    exact ⟨hspoke.stands.trans h.stands, h.knows.spoke hspoke nofun⟩
  · rw [houtcome] at hspoke
    refine ⟨?_, hspoke.knowsAsserted.2 ⟨h.knows, ?_, trivial⟩⟩
    · rw [hspoke.stands, h.stands]
      rfl
    · rwa [h.stands]

/-- Where the globals stand, what a walk asserts is known. -/
theorem KnowsAsserted.runChecker {s : Session τ ω} (hs : s.KnowsAsserted) {env : Env} {e : Expr}
    (hscoped : Scoped env e) (henv : env.StandsIn s.stands) :
    (runChecker env e s).2.KnowsAsserted := by
  have hobeys := Checker.grounds_run hscoped.signatures hscoped.expr henv
  obtain ⟨_, hfollows, -⟩ := hold_obeys (I := fun st (s : Session τ ω) => s.Follows st)
    (fun _ _ _ h => ⟨h.stands, h.knows⟩) (fun _ _ _ h => h.perform) (fun _ _ h => h.checkSat)
    hobeys ⟨rfl, hs⟩
  exact hfollows.knows

/-- Whatever a run on a new session ends in, it asserts nothing unknown. -/
theorem knowsAsserted_prove {env : Env} {e : Expr} (hscoped : Scoped env e) (world : ω) :
    (prove env e ({ world } : Session τ ω)).2.KnowsAsserted := by
  have hstarted : (start ({ world } : Session τ ω)).2.KnowsAsserted := KnowsAsserted.start trivial
  unfold prove
  rw [bind_apply]
  rcases hstart : start ({ world } : Session τ ω) with ⟨failure | u, s₁⟩
  · rwa [hstart] at hstarted
  rw [hstart] at hstarted
  have hglobals := hstarted.declareGlobals env e
  simp only
  rw [bind_apply]
  rcases hdeclare : declareGlobals env e s₁ with ⟨failure | u, s₂⟩
  · rwa [hdeclare] at hglobals
  rw [hdeclare] at hglobals
  have hrun := hglobals.runChecker hscoped (standsIn_of_declareGlobals hscoped hstart hdeclare)
  simp only
  rw [bind_apply]
  rcases hchecked : runChecker env e s₂ with ⟨failure | summary, s₃⟩
  · rwa [hchecked] at hrun
  rw [hchecked] at hrun
  have hsync : Preserves KnowsAsserted (sync : SessionM τ ω Unit) :=
    isClosed_knowsAsserted.sync (fun s hs => hs.write (c := .sync) fun _ h => nomatch h)
      fun s hs => hs.read
  exact isClosed_knowsAsserted.andThen hsync (fun _ => isClosed_knowsAsserted.answer (.ok summary))
    s₃ hrun

/-- Scope safety of what is asserted. In every run over a scoped expression on a new session,
whatever the solver answers and however the run ends, a line that asserts is read as the assertion
of a term of which each word is a literal, a symbol of the built-in operators, or declared by a line
whose scope is still open. -/
theorem asserted_words_known {env : Env} {e : Expr} (hscoped : Scoped env e) (world : ω)
    {before after : List String} {line : String}
    (hsent : (prove env e ({ world } : Session τ ω)).2.transcript.toList = before ++ line :: after)
    (hline : IsAssertion line) :
    ∃ t : Term, Command.read? line = some (.assert t) ∧ ∀ word ∈ t.words,
      IsLiteral word ∨ (∃ operator, Operator.symbol? operator = some word) ∨
        ∃ declaration ∈ (before.foldl standing [[]]).flatten,
          Scripted.declaredName? declaration = some word :=
  AssertsKnown.of_split (knowsAsserted_prove hscoped world) hsent hline

open Prelude in
/-- `name >= limit` -/
def atLimit (name : String) : Expr := infixed ">=" (int name) (int "limit") .bool

open Prelude in
/-- `({x: int | x >= limit}) -> {r: int | r >= x}` -/
def keepAbove : Signature :=
  .function .primitive [holds "x" .int (atLimit "x")]
    (holds "r" .int (infixed ">=" (int "r") (int "x") .bool))

/-- With `limit : int` -/
def bounds : Env := .ofList [
  (">=", .function .builtin (Prelude.ints 2) (.plain .bool)), ("above", keepAbove),
  ("limit", .value .int)]

/-- `let y = above(5) in (y : {v: int | v >= limit})` -/
def bounded : Expr :=
  .letIn "y" (.call "above" [.int 5] .int)
    (.cast (Prelude.int "y") (Prelude.holds "v" .int (atLimit "v")))

theorem depthLimit_bounded : Checker.depthLimit bounds bounded = 0x100006 := by
  have habove : bounds.get? "above" = some keepAbove := rfl
  have hcompare : (NameMap.erase bounds "above").get? ">=" =
      some (.function .builtin (Prelude.ints 2) (.plain .bool)) := rfl
  have hgone : ((NameMap.erase bounds "above").erase ">=").get? ">=" = none := rfl
  have hreach : bounds.reachDepth bounded.calls = 2 := by
    rw [show bounded.calls = ["above", ">="] from rfl, Env.reachDepth_cons_of_some habove,
      show keepAbove.clauseCalls ++ [">="] = [">=", ">=", ">="] from rfl,
      Env.reachDepth_cons_of_some hcompare]
    change _ + (_ + Env.reachDepth _ [">=", ">="]) = 2
    rw [Env.reachDepth_cons_of_none hgone, Env.reachDepth_cons_of_none hgone, Env.reachDepth]
    rfl
  rw [Checker.depthLimit, hreach, show bounded.walkDepth = 4 from rfl, Checker.circleDepth]

/-- What is sent if the call's precondition holds and the contract of the cast does not. -/
def boundedLines : List String :=
  ["(set-option :global-declarations false)", "(declare-const limit Int)", "(push 1)",
    "(declare-const y Int)", "(push 1)", "(assert (not (>= 5 limit)))", "(check-sat)", "(pop 1)",
    "(declare-const _i0 Int)", "(assert (>= _i0 5))", "(assert (= y _i0))", "(push 1)",
    "(assert (not (>= y limit)))", "(check-sat)", "(pop 1)", "(pop 1)"]

/-- The contract of the result, in which `x` stands for the argument and `r` for the fresh variable,
and that of the cast, in which `v` stands for the let, in a run that is refuted. -/
theorem asserted_words_known_bounded :
    (∃ t : Term, Command.read? "(assert (>= _i0 5))" = some (.assert t) ∧ ∀ word ∈ t.words,
      IsLiteral word ∨ (∃ operator, Operator.symbol? operator = some word) ∨
        ∃ declaration ∈ ((boundedLines.take 9).foldl standing [[]]).flatten,
          Scripted.declaredName? declaration = some word) ∧
    ∃ t : Term, Command.read? "(assert (not (>= y limit)))" = some (.assert t) ∧ ∀ word ∈ t.words,
      IsLiteral word ∨ (∃ operator, Operator.symbol? operator = some word) ∨
        ∃ declaration ∈ ((boundedLines.take 12).foldl standing [[]]).flatten,
          Scripted.declaredName? declaration = some word := by
  have hscoped : Scoped bounds bounded := by decide +kernel
  have hsent : (prove bounds bounded ({ world := { answers := ["unsat", "sat"] } } :
      Session Scripted.Solver Scripted.Script)).2.transcript.toList = boundedLines := by
    rw [prove_eq_proveWithin depthLimit_bounded]
    decide +kernel
  exact ⟨asserted_words_known hscoped _ (hsent.trans rfl) (by decide),
    asserted_words_known hscoped _ (hsent.trans rfl) (by decide)⟩

end Session

end ContractCheck
