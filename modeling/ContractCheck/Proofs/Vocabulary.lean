import ContractCheck.Proofs.Courses

/-!
What a walk writes, wherever it stands. A vocabulary says which expressions a walk is given, which
terms come of them and which commands may be written, such that each of the three follows from the
others as a walk goes on (`Checker.Vocabulary`). A walk over an expression of the vocabulary then
writes its commands and answers one of its terms on every course, and leaves each scope that it
opens and no other (`Checker.vetted_checkWithin`).
-/

namespace ContractCheck

/-- What is written is allowed, and the dialogue is tidy besides. -/
def Rule.vetted (allowed : Command → Prop) : Rule Nat where
  allows height deed := (Rule.tidy fun _ => True).allows height deed ∧
    ∀ command, deed = .write command → allowed command
  after := (Rule.tidy fun _ => True).after

/-- All terms that names are bound to are such terms. -/
def Bindings.Within (locals : Bindings) (term : Term → Prop) : Prop :=
  ∀ name t, locals.get? name = some t → term t

namespace Bindings.Within

variable {locals : Bindings} {term : Term → Prop}

theorem empty : Bindings.Within ∅ term := fun _ _ h => nomatch h

theorem insert (h : locals.Within term) (name : String) {t : Term} (ht : term t) :
    Bindings.Within (NameMap.insert locals name t) term := by
  intro other t' hfound
  rw [NameMap.get?_insert] at hfound
  split at hfound
  · cases hfound
    exact ht
  · exact h other t' hfound

theorem resolve (h : locals.Within term) {name : String} (hname : term (.symbol name)) :
    term (locals.resolve name) := by
  unfold Bindings.resolve
  cases hfound : locals.get? name with
  | none => exact hname
  | some t => exact h name t hfound

theorem resolve_insert {name : String} {t : Term} (ht : term t) :
    term (Bindings.resolve (NameMap.insert locals name t) name) := by
  unfold Bindings.resolve
  rw [NameMap.get?_insert_self]
  exact ht

end Bindings.Within

namespace Checker

variable {α β : Type} {allowed : Command → Prop}

/-- On every course the part writes what is allowed, leaves each scope that it opens and no other,
and what it answers is as `ok` says. -/
def Vetted (allowed : Command → Prop) (part : CheckM α) (ok : α → Prop) : Prop :=
  ∀ height, Ensures (Rule.vetted allowed) height part (fun a height' => height' = height ∧ ok a)
    fun height' => height' = height

theorem vetted_pure {a : α} {ok : α → Prop} (h : ok a) : Vetted allowed (pure a) ok :=
  fun _ => ensures_pure ⟨rfl, h⟩

theorem vetted_ofOutcome {outcome : Outcome α} {ok : α → Prop}
    (h : ∀ a, outcome = .ok a → ok a) : Vetted allowed (ofOutcome outcome) ok :=
  fun _ => ensures_ofOutcome (fun a ha => ⟨rfl, h a ha⟩) fun _ _ => rfl

theorem vetted_bind (mid : α → Prop) {ok : β → Prop} {part : CheckM α} {f : α → CheckM β}
    (h : Vetted allowed part mid) (hf : ∀ a, mid a → Vetted allowed (f a) ok) :
    Vetted allowed (part >>= f) ok := by
  refine fun height => ensures_bind _ (h height) ?_
  rintro a _ ⟨rfl, ha⟩
  exact hf a ha _

theorem vetted_adapt {part : CheckM α} {ok : α → Prop} (h : Vetted allowed part ok)
    (f : Failure → Failure) : Vetted allowed (part.adapt f) ok :=
  fun height => ensures_adapt (h height) f

theorem vetted_note (text : String) : Vetted allowed (note text) fun _ => True :=
  fun _ => ensures_note ⟨rfl, trivial⟩

theorem allows_write {command : Command} (h : allowed command) (hplain : command.IsPlain)
    (height : Nat) : (Rule.vetted allowed).allows height (.write command) := by
  refine ⟨⟨hplain, fun _ _ => trivial⟩, ?_⟩
  rintro _ ⟨⟩
  exact h

theorem vetted_write {command : Command} (hplain : command.IsPlain) (h : allowed command) :
    Vetted allowed (write command) fun _ => True :=
  fun height => ensures_write (allows_write h hplain height) ⟨rfl, trivial⟩ fun _ => rfl

theorem vetted_requireBool (pred : Expr) (span : Option Span) :
    Vetted allowed (requireBool pred span) fun _ => True :=
  fun _ => ensures_requireBool ⟨rfl, trivial⟩ rfl

theorem vetted_fresh {ty : Ty} {ok : String → Prop}
    (h : ∀ (sort : SolverSort) (names : FreshNames), SolverSort.of? ty = some sort →
      allowed (.declareConst (names.next sort.tag).1 sort.display) ∧
        ok (names.next sort.tag).1) :
    Vetted allowed (fresh ty) ok := by
  refine fun height => ensures_fresh rfl fun sort names hsort => ?_
  obtain ⟨hallowed, hok⟩ := h sort names hsort
  exact ⟨allows_write hallowed trivial height, ⟨rfl, hok⟩, fun _ => rfl⟩

theorem vetted_refute {goal : Term} (h : allowed (.assert (.not goal))) (obligation : String)
    (span : Option Span) : Vetted allowed (refute goal obligation span) fun _ => True :=
  fun height => ensures_refute (allows_write h trivial height) ⟨rfl, trivial⟩ fun _ => rfl

theorem vetted_scope {ok : α → Prop} {body : CheckM α} (h : Vetted allowed body ok) :
    Vetted allowed (inSolverScope body) ok := by
  refine fun height => ensures_inSolverScope ⟨trivial, nofun⟩ (fun _ => rfl) (h (height + 1)) ?_ ?_
  · rintro a _ ⟨rfl, ha⟩
    exact ⟨⟨Nat.succ_pos _, nofun⟩, ⟨rfl, ha⟩, fun _ => rfl⟩
  · rintro _ rfl
    exact ⟨⟨Nat.succ_pos _, nofun⟩, fun _ => rfl⟩

/-- The expressions that a walk is given, the terms that come of them, and the commands that it may
write. A walk is handed the expressions inside and the contracts of signatures. -/
structure Vocabulary (env : Env) (expr : Expr → Prop) (term : Term → Prop)
    (allowed : Command → Prop) : Prop where
  bool : ∀ b, term (.bool b)
  int : ∀ n, term (.int n)
  not : ∀ t, term t → term (.not t)
  eq : ∀ a b, term a → term b → term (.eq a b)
  operator : ∀ name args t, Operator.apply name args = .ok t → (∀ a ∈ args, term a) → term t
  application : ∀ name sig args, env.get? name = some sig → sig.origin = .uninterpreted →
    (∀ a ∈ args, term a) → term (application name args)
  assert : ∀ t, term t → allowed (.assert t)
  var : ∀ ty name span, expr ⟨ty, .var name, span⟩ → term (.symbol name)
  call : ∀ ty callee args span, expr ⟨ty, .call callee args, span⟩ → ∀ arg ∈ args, expr arg
  letIn : ∀ ty name value body span, expr ⟨ty, .letIn name value body, span⟩ →
    expr value ∧ expr body ∧ term (.symbol name) ∧
      ∀ sort, SolverSort.of? value.ty = some sort → allowed (.declareConst name sort.display)
  cast : ∀ ty e target span, expr ⟨ty, .cast e target, span⟩ →
    expr e ∧ ∀ clause, target.clause? = some clause → expr clause.expr
  clause : ∀ name sig params ret, env.get? name = some sig →
    sig.ty.ty.arrow? = some (params, ret) → ∀ t ∈ params ++ [ret],
      ∀ clause, t.clause? = some clause → expr clause.expr
  result : ∀ name sig params ret, env.get? name = some sig →
    sig.ty.ty.arrow? = some (params, ret) → ∀ (sort : SolverSort) (names : FreshNames),
      SolverSort.of? ret.ty = some sort →
        allowed (.declareConst (names.next sort.tag).1 sort.display) ∧
          term (.symbol (names.next sort.tag).1)

section

variable {env : Env} {expr : Expr → Prop} {term : Term → Prop}

/-- A walk over an expression of the vocabulary, where names are bound to its terms. -/
def VettedWalk (expr : Expr → Prop) (term : Term → Prop) (allowed : Command → Prop)
    (walk : Walk) : Prop :=
  ∀ mode locals e, expr e → locals.Within term → Vetted allowed (walk mode locals e) term

/-- What is done about the clause of a refinement, if it has one, before the rest. -/
theorem vetted_clause {ty : Ty} {r : Refinement} {ok : α → Prop}
    (hr : ∀ clause, (RefinedTy.refined ty r).clause? = some clause → expr clause.expr)
    {act : Clause → CheckM Unit}
    (hact : ∀ clause, expr clause.expr → Vetted allowed (act clause) fun _ => True)
    {rest : CheckM α} (hrest : Vetted allowed rest ok) :
    Vetted allowed (match r.clause? with
      | none => rest
      | some clause => act clause >>= fun _ => rest) ok := by
  cases hclause : r.clause? with
  | none => exact hrest
  | some clause => exact vetted_bind _ (hact clause (hr clause hclause)) fun _ _ => hrest

variable (hvocabulary : Vocabulary env expr term allowed) {walk : Walk}
  (hwalk : VettedWalk expr term allowed walk) {locals : Bindings}
include hvocabulary

section

include hwalk

theorem vetted_prove {clause : Clause} {binder : String} (hclause : expr clause.expr)
    (hlocals : locals.Within term) (hbinder : term (locals.resolve binder))
    (span : Option Span) :
    Vetted allowed (prove walk locals binder clause span) fun _ => True := by
  cases clause with
  | holds pred =>
      refine vetted_bind _ (vetted_requireBool pred span) fun _ _ => ?_
      refine vetted_bind _ (vetted_note _) fun _ _ => vetted_scope ?_
      refine vetted_bind _ (hwalk .full locals pred hclause hlocals) fun goal hgoal => ?_
      exact vetted_refute (hvocabulary.assert _ (hvocabulary.not _ hgoal)) _ span
  | equals value =>
      refine vetted_bind _ (vetted_note _) fun _ _ => vetted_scope ?_
      refine vetted_bind (fun _ => True) (vetted_ofOutcome fun _ _ => trivial) fun _ _ => ?_
      refine vetted_bind _ (hwalk .full locals value hclause hlocals) fun t ht => ?_
      have hequation := hvocabulary.eq _ _ hbinder ht
      exact vetted_refute (hvocabulary.assert _ (hvocabulary.not _ hequation)) _ span

theorem vetted_assume {clause : Clause} {result : Term} (hclause : expr clause.expr)
    (hlocals : locals.Within term) (hresult : term result) (span : Option Span) :
    Vetted allowed (assume walk locals result clause span) fun _ => True := by
  cases clause with
  | holds pred =>
      refine vetted_bind _ (vetted_requireBool pred span) fun _ _ => ?_
      refine vetted_bind _ (hwalk .full locals pred hclause hlocals) fun fact hfact => ?_
      exact vetted_write trivial (hvocabulary.assert _ hfact)
  | equals value =>
      refine vetted_bind _ (hwalk .full locals value hclause hlocals) fun t ht => ?_
      exact vetted_write trivial (hvocabulary.assert _ (hvocabulary.eq _ _ hresult ht))

theorem vetted_checkArgs (callee : String) (span : Option Span) (hlocals : locals.Within term)
    {args : List (RefinedTy × Expr)}
    (hargs : ∀ a ∈ args, (∀ clause, a.1.clause? = some clause → expr clause.expr) ∧ expr a.2)
    {binders : Bindings} (hbinders : binders.Within term) :
    Vetted allowed (checkArgs walk callee span locals args binders) fun r =>
      r.1.Within term ∧ ∀ t ∈ r.2, term t := by
  induction args generalizing binders with
  | nil => exact vetted_pure ⟨hbinders, nofun⟩
  | cons head rest ih =>
      obtain ⟨param, arg⟩ := head
      obtain ⟨⟨hparam, harg⟩, hothers⟩ := List.forall_mem_cons.1 hargs
      have hrest : ∀ {binders : Bindings} {t : Term}, binders.Within term → term t →
          Vetted allowed (checkArgs walk callee span locals rest binders >>= fun r =>
            pure (r.1, t :: r.2)) fun r => r.1.Within term ∧ ∀ t ∈ r.2, term t :=
        fun hbinders ht => vetted_bind _ (ih hothers hbinders) fun r hr =>
          vetted_pure ⟨hr.1, List.forall_mem_cons.2 ⟨ht, hr.2⟩⟩
      rcases param with ty | ⟨ty, r⟩
      · exact vetted_bind _ (hwalk .full locals arg harg hlocals) fun t ht => hrest hbinders ht
      · refine vetted_bind _ (hwalk .simple locals arg harg hlocals) fun t ht => ?_
        have hinserted := hbinders.insert r.binder ht
        refine vetted_clause hparam (fun clause hclause => vetted_adapt ?_ _) (hrest hinserted ht)
        exact vetted_prove hvocabulary hwalk hclause hinserted (Bindings.Within.resolve_insert ht) _

theorem vetted_assumeReturn (callee : String) {ret : RefinedTy}
    (hret : ∀ clause, ret.clause? = some clause → expr clause.expr) {binders : Bindings}
    (hbinders : binders.Within term) {result : Term} (hresult : term result)
    (span : Option Span) :
    Vetted allowed (assumeReturn walk callee ret binders result span) term := by
  rcases ret with ty | ⟨ty, r⟩
  · exact vetted_pure hresult
  · refine vetted_clause hret (fun clause hclause => vetted_adapt ?_ _) (vetted_pure hresult)
    exact vetted_assume hvocabulary hwalk hclause (hbinders.insert r.binder hresult) hresult span

end

theorem vetted_applyOperator {name : String} {sig : Signature} {params : List RefinedTy}
    {ret : RefinedTy} (hsig : env.get? name = some sig)
    (harrow : sig.ty.ty.arrow? = some (params, ret)) (mode : Mode) {terms : List Term}
    (hterms : ∀ t ∈ terms, term t) (span : Option Span) :
    Vetted allowed (applyOperator mode name ret terms span) term := by
  refine vetted_bind term (vetted_ofOutcome fun t ht => ?_) fun applied happlied => ?_
  · exact hvocabulary.operator _ _ _ (Outcome.located_eq_ok_iff.1 ht) hterms
  cases mode with
  | full => exact vetted_pure happlied
  | simple =>
      have hfresh : Vetted allowed (fresh ret.ty) fun var => term (.symbol var) :=
        vetted_fresh (hvocabulary.result name sig params ret hsig harrow)
      refine vetted_bind _ (vetted_adapt hfresh _) fun var hvar => ?_
      have hequation := hvocabulary.assert _ (hvocabulary.eq _ _ hvar happlied)
      exact vetted_bind _ (vetted_write trivial hequation) fun _ _ => vetted_pure hvar

include hwalk

theorem vetted_checkResult {name : String} {sig : Signature} {params : List RefinedTy}
    {ret : RefinedTy} (hsig : env.get? name = some sig)
    (harrow : sig.ty.ty.arrow? = some (params, ret)) {binders : Bindings}
    (hbinders : binders.Within term) {terms : List Term} (hterms : ∀ t ∈ terms, term t)
    (span : Option Span) :
    Vetted allowed (checkResult walk name sig.origin ret binders terms span) term := by
  have hfresh : Vetted allowed (fresh ret.ty) fun var => term (.symbol var) :=
    vetted_fresh (hvocabulary.result name sig params ret hsig harrow)
  refine vetted_bind _ (vetted_adapt hfresh _) fun var hvar => ?_
  have hret := hvocabulary.clause name sig params ret hsig harrow ret (by simp)
  have hcontract := vetted_assumeReturn hvocabulary hwalk name hret hbinders hvar span
  by_cases horigin : sig.origin = .uninterpreted
  · simp only [if_pos horigin]
    have happlied := hvocabulary.application name sig terms hsig horigin hterms
    have hequation := hvocabulary.assert _ (hvocabulary.eq _ _ hvar happlied)
    exact vetted_bind _ (vetted_write trivial hequation) fun _ _ => hcontract
  · simp only [if_neg horigin]
    exact hcontract

theorem vetted_checkCall (mode : Mode) (callee : Expr) {args : List Expr}
    (hargs : ∀ arg ∈ args, expr arg) (hlocals : locals.Within term) (span : Option Span) :
    Vetted allowed (checkCall env walk mode locals callee args span) term := by
  unfold checkCall
  rcases hresolve : resolveCall env callee args span with failure | ⟨name, origin, params, ret⟩
  · change Vetted allowed (ofOutcome (.error failure)) term
    exact vetted_ofOutcome nofun
  obtain ⟨-, sig, hsig, rfl, harrow, -⟩ := resolveCall_eq_ok hresolve
  have hclauses := hvocabulary.clause name sig params ret hsig harrow
  have hpairs : ∀ a ∈ params.zip args,
      (∀ clause, a.1.clause? = some clause → expr clause.expr) ∧ expr a.2 := by
    rintro ⟨param, arg⟩ hmem
    obtain ⟨hparam, harg⟩ := List.of_mem_zip hmem
    exact ⟨hclauses param (List.mem_append_left _ hparam), hargs arg harg⟩
  have hchecked := vetted_checkArgs hvocabulary hwalk name span hlocals hpairs
    Bindings.Within.empty
  change Vetted allowed (checkArgs walk name span locals (params.zip args) ∅ >>= _) term
  refine vetted_bind _ hchecked fun r hr => ?_
  obtain ⟨binders, terms⟩ := r
  by_cases horigin : sig.origin = .builtin
  · simp only [if_pos horigin]
    exact vetted_applyOperator hvocabulary hsig harrow mode hr.2 span
  · simp only [if_neg horigin]
    exact vetted_checkResult hvocabulary hwalk hsig harrow hr.1 hr.2 span

theorem vetted_checkExpr : VettedWalk expr term allowed (checkExpr env walk) := by
  rintro mode locals ⟨ty, shape, span⟩ he hlocals
  cases shape with
  | var name =>
      refine vetted_ofOutcome fun t ht => ?_
      cases ht
      exact hlocals.resolve (hvocabulary.var _ _ _ he)
  | bool value =>
      refine vetted_ofOutcome fun t ht => ?_
      cases ht
      exact hvocabulary.bool value
  | int value =>
      refine vetted_ofOutcome fun t ht => ?_
      cases ht
      exact hvocabulary.int value
  | ite test onTrue onFalse => exact vetted_ofOutcome nofun
  | lambda params body => exact vetted_ofOutcome nofun
  | call callee args =>
      have hargs := hvocabulary.call _ _ _ _ he
      exact vetted_checkCall hvocabulary hwalk mode callee hargs hlocals span
  | letIn name value body =>
      obtain ⟨hvalue, hbody, hname, hdeclare⟩ := hvocabulary.letIn _ _ _ _ _ he
      refine vetted_bind (fun sort => SolverSort.of? value.ty = some sort)
        (vetted_ofOutcome fun sort hsort => ?_) fun sort hsort => ?_
      · exact SolverSort.of_eq_ok_iff.1 (Outcome.located_eq_ok_iff.1 hsort)
      refine vetted_bind _ (vetted_write trivial (hdeclare sort hsort)) fun _ _ => ?_
      refine vetted_bind _ (hwalk .full locals value hvalue hlocals) fun t ht => ?_
      have hequation := hvocabulary.assert _ (hvocabulary.eq _ _ hname ht)
      refine vetted_bind _ (vetted_write trivial hequation) fun _ _ => ?_
      exact hwalk mode locals body hbody hlocals
  | cast e target =>
      obtain ⟨he, htarget⟩ := hvocabulary.cast _ _ _ _ he
      refine vetted_bind _ (hwalk mode locals e he hlocals) fun t ht => ?_
      rcases target with target | ⟨target, r⟩
      · exact vetted_pure ht
      · refine vetted_clause htarget (fun clause hclause => ?_) (vetted_pure ht)
        exact vetted_prove hvocabulary hwalk hclause (hlocals.insert r.binder ht)
          (Bindings.Within.resolve_insert ht) span

omit hwalk

theorem vetted_checkWithin (depth : Nat) :
    VettedWalk expr term allowed (checkWithin env depth) := by
  induction depth with
  | zero => exact fun _ _ _ _ _ => vetted_ofOutcome nofun
  | succ depth ih => exact vetted_checkExpr hvocabulary ih

/-- The dialogue of a run writes commands of the vocabulary. -/
theorem vetted_run {e : Expr} (he : expr e) (height : Nat) :
    (runDialogue env e).Obeys (Rule.vetted allowed) (fun _ height' => height' = height) height := by
  have hcheck := vetted_checkWithin hvocabulary (depthLimit env e) .full ∅ e he
    Bindings.Within.empty
  have hrun : Vetted allowed (inSolverScope do let _ ← check env .full ∅ e) fun _ => True :=
    vetted_scope (vetted_bind _ hcheck fun _ _ => vetted_pure trivial)
  refine (hrun height {}).mono ?_
  rintro ⟨failure | u, p⟩ height' h
  · exact h
  · exact h.1

end

/-- What a part answers in a session is as its courses say. -/
theorem vetted_perform {τ ω : Type} [Transport τ ω] {part : CheckM α} {ok : α → Prop}
    (h : Vetted allowed part ok) {c c' : Checker τ ω} {a : α}
    (hperform : c.perform part = (.ok a, c')) : ok a := by
  have hnone : ∀ (height : Nat) (s : Session τ ω), True → True := fun _ _ h => h
  obtain ⟨height, -, hpost⟩ := Session.hold_obeys (I := fun _ (_ : Session τ ω) => True)
    (fun _ _ _ h => h) (fun _ _ _ h _ => h) hnone (h 0 c.progress) (s := c.session) trivial
  unfold perform at hperform
  rcases hheld : c.session.hold (part c.progress) with ⟨⟨outcome, progress⟩, s⟩
  rw [hheld] at hperform hpost
  cases hperform
  exact hpost.2

end Checker

end ContractCheck
