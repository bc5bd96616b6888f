import ContractCheck.Proofs.Acyclicity
import ContractCheck.Proofs.PureTerms

/-!
Termination. Where no function's contracts lead back to it, the walk never comes to its limit: it is
the walk that calls itself without one, and the steps that it takes are bounded by the environment
and the expression (`Checker.check_terminates`). A value whose precondition calls it makes a circle,
and then there is no walk that goes on until it is done (`Checker.endless_without_walk`).
-/

namespace ContractCheck

namespace Checker

variable {env : Env}

/-- A property that passes from an expression to all that the walk goes on to. -/
theorem passesTo_goesOnTo {S R : Expr → Prop} (h : ∀ e, S e → ∀ next ∈ env.goesOnTo e, R next) :
    PassesTo (fun locals locals' e => locals = locals' ∧ S e)
      (fun locals locals' e => locals = locals' ∧ R e) .keep .keep env env where
  var := by
    rintro _ _ _ _ _ ⟨rfl, -⟩
    rfl
  expr := by
    rintro _ _ _ _ _ _ ⟨rfl, hS⟩
    exact ⟨rfl, h _ hS _ List.mem_cons_self⟩
  target := by
    rintro _ _ _ _ _ _ ⟨rfl, hS⟩ binder clause hclause term
    exact ⟨rfl, h _ hS _ (List.mem_cons_of_mem _ (RefinedTy.mem_clauseExprs hclause))⟩
  value := by
    rintro _ _ _ _ _ _ _ ⟨rfl, hS⟩
    exact ⟨rfl, h _ hS _ List.mem_cons_self⟩
  body := by
    rintro _ _ _ _ _ _ _ ⟨rfl, hS⟩
    exact ⟨rfl, h _ hS _ (List.mem_cons_of_mem _ List.mem_cons_self)⟩
  arg := by
    rintro _ _ _ _ _ _ ⟨rfl, hS⟩ arg harg
    exact ⟨rfl, h _ hS _ (List.mem_append_left _ harg)⟩
  callee _ _ _ := rfl
  contracts := by
    rintro _ _ _ callee _ _ ⟨rfl, hS⟩ name sig params ret hcallee hsig harrow
    refine relatesContracts_of_refl (fun t ht binder clause hclause _ => ⟨rfl, h _ hS _ ?_⟩) ∅
    refine List.mem_append_right _ (List.mem_flatMap.2 ⟨name, ?_, ?_⟩)
    · rw [hcallee]
      exact List.mem_singleton_self name
    · rw [hsig]
      exact Signature.mem_clauses harrow ht hclause

/-- One level of the walk depends on the walk over what it goes on to. -/
theorem checkExpr_eq_of_goesOnTo {walk walk' : Walk} {e : Expr}
    (h : ∀ mode locals, ∀ next ∈ env.goesOnTo e, walk mode locals next = walk' mode locals next)
    (mode : Mode) (locals : Bindings) :
    checkExpr env walk mode locals e = checkExpr env walk' mode locals e := by
  have hpasses : PassesTo (fun locals locals' e' => locals = locals' ∧ e' = e)
      (fun locals locals' next => locals = locals' ∧ next ∈ env.goesOnTo e) .keep .keep env env :=
    passesTo_goesOnTo fun _ he next hnext => he ▸ hnext
  have hwalk : SameWalk (fun locals locals' next => locals = locals' ∧ next ∈ env.goesOnTo e)
      walk walk' := by
    rintro mode locals _ next ⟨rfl, hnext⟩
    exact h mode locals next hnext
  have hsame := sameWalk_scopedExpr hwalk hpasses
  rw [scopedExpr_keep, scopedExpr_keep] at hsame
  exact hsame ⟨rfl, rfl⟩

/-- The walk is the one over failing at the limit. -/
theorem walkOver_id (env : Env) (depth : Nat) :
    walkOver env id (checkWithin env 0) depth = checkWithin env depth := by
  induction depth with
  | zero => rfl
  | succ depth ih =>
      funext mode locals e
      rw [walkOver, ih]
      rfl

/-- The walk has `around` put around each of its levels, and calls itself for what it goes on to. -/
def IsUnlimited (env : Env) (around : CheckM Term → CheckM Term) (walk : Walk) : Prop :=
  ∀ mode locals e, walk mode locals e = around (checkExpr env walk mode locals e)

section

variable (hacyclic : env.IsAcyclic) {around : CheckM Term → CheckM Term}
include hacyclic

/-- With levels enough, neither their number nor what the walk is over makes a difference. -/
theorem walkOver_eq (base base' : Walk) {depth depth' : Nat} {e : Expr}
    (h : env.measure e ≤ depth) (h' : env.measure e ≤ depth') (mode : Mode) (locals : Bindings) :
    walkOver env around base depth mode locals e =
      walkOver env around base' depth' mode locals e := by
  induction depth generalizing depth' e mode locals with
  | zero => exact absurd h (Nat.not_le.2 (env.measure_pos e))
  | succ depth ih =>
      cases depth' with
      | zero => exact absurd h' (Nat.not_le.2 (env.measure_pos e))
      | succ depth' =>
          rw [walkOver, walkOver]
          refine congrArg around (checkExpr_eq_of_goesOnTo (fun mode locals next hnext => ?_) _ _)
          have hlt := Env.measure_lt hacyclic hnext
          exact ih (by omega) (by omega) mode locals

/-- As many levels as the expression can need make a walk without a limit. -/
theorem isUnlimited_walkOver (base : Walk) : IsUnlimited env around
    (fun mode locals e => walkOver env around base (env.measure e) mode locals e) := by
  intro mode locals e
  obtain ⟨depth, hdepth⟩ : ∃ depth, env.measure e = depth + 1 :=
    ⟨env.measure e - 1, by have := env.measure_pos e; omega⟩
  dsimp only
  rw [hdepth, walkOver]
  refine congrArg around (checkExpr_eq_of_goesOnTo (fun mode locals next hnext => ?_) _ _)
  have hlt := Env.measure_lt hacyclic hnext
  exact walkOver_eq hacyclic base base (by omega) (Nat.le_refl _) mode locals

/-- There is only one walk without a limit. -/
theorem IsUnlimited.unique {walk walk' : Walk} (h : IsUnlimited env around walk)
    (h' : IsUnlimited env around walk') : walk = walk' := by
  have hover : ∀ {w : Walk}, IsUnlimited env around w → ∀ depth,
      walkOver env around w depth = w := by
    intro w hw depth
    induction depth with
    | zero => rfl
    | succ depth ih =>
        funext mode locals e
        rw [walkOver, ih]
        exact (hw mode locals e).symm
  funext mode locals e
  rw [← hover h (env.measure e), ← hover h' (env.measure e)]
  exact walkOver_eq hacyclic walk walk' (Nat.le_refl _) (Nat.le_refl _) mode locals

omit around in
/-- A check does not come to its limit. -/
theorem check_eq_walkOver (mode : Mode) (locals : Bindings) (e : Expr) :
    check env mode locals e =
      walkOver env id (checkWithin env 0) (env.measure e) mode locals e := by
  unfold check
  rw [← walkOver_id]
  apply walkOver_eq hacyclic
  · unfold depthLimit Env.measure
    omega
  · exact Nat.le_refl _

end

/-- The walk terminates where no function's contracts lead back to it. There the check is the one
walk that calls itself for whatever it goes on to, without any limit; and this walk, with a mark
left at each of its steps, goes as it goes without marks in every mode, under all bindings, from
every progress and on every course, whatever the solver does, and leaves no more marks than the
environment and the expression say. The prelude with signatures added, those of values among them,
is such an environment exactly if no function that was added has contracts that lead back to it. -/
theorem check_terminates :
    (∀ env : Env, env.IsAcyclic →
      IsUnlimited env id (check env) ∧ (∀ walk, IsUnlimited env id walk → walk = check env) ∧
      ∃ marked, IsUnlimited env marking marked ∧ ∀ mode locals e,
        MarkedPart (env.stepBound e) (marked mode locals e) (check env mode locals e)) ∧
    ∀ added : Env, Env.IsAcyclic (prelude.union added) ↔
      ∀ name sig, added.get? name = some sig → sig.clauses ≠ [] →
        ¬ Relation.TransGen (Env.ContractsCall (prelude.union added)) name name := by
  constructor
  · intro env hacyclic
    have hcheck : check env = fun mode locals e =>
        walkOver env id (checkWithin env 0) (env.measure e) mode locals e := by
      funext mode locals e
      exact check_eq_walkOver hacyclic mode locals e
    have hunlimited : IsUnlimited env id (check env) := by
      rw [hcheck]
      exact isUnlimited_walkOver hacyclic (checkWithin env 0)
    refine ⟨hunlimited, fun walk hwalk => hwalk.unique hacyclic hunlimited, ?_⟩
    refine ⟨_, isUnlimited_walkOver hacyclic (checkWithin env 0), fun mode locals e => ?_⟩
    rw [hcheck]
    exact marked_walkOver env (checkWithin env 0) (env.measure e) mode locals e
  · intro added
    exact Env.isAcyclic_union_iff

/-- `below : ({x: int | x < limit}) -> bool` -/
def belowLimit : Signature :=
  .function .value [Prelude.holds "x" .int
    (Prelude.infixed "<" (Prelude.int "x") (Prelude.int "limit") .bool)] (.plain .bool)

/-- With `limit : int` -/
def limits : Env := .ofList [("below", belowLimit), ("limit", .value .int)]

/-- `below(get(alloc(limit), 3))` -/
def readBelowLimit : Expr :=
  .call "below" [.call "get" [.call "alloc" [.var "limit" .int] Prelude.array, .int 3] .int] .bool

/-- The contract of `below` calls `<`, which calls nothing. -/
theorem not_transGen_below :
    ¬ Relation.TransGen (Env.ContractsCall (prelude.union limits)) "below" "below" := by
  have hbelow : (prelude.union limits).get? "below" = some belowLimit := by
    rw [NameMap.get?_union]
    rfl
  have hless : (prelude.union limits).get? "<" =
      some (.function .builtin (Prelude.ints 2) (.plain .bool)) := by
    rw [NameMap.get?_union]
    rfl
  intro hcircle
  obtain ⟨called, ⟨sig, hsig, hcalled⟩, hback⟩ := Relation.TransGen.head'_iff.1 hcircle
  rw [hbelow] at hsig
  cases hsig
  obtain rfl : called = "<" := List.mem_singleton.1 hcalled
  rcases hback.cases_head with heq | ⟨next, ⟨sig, hsig, hnext⟩, -⟩
  · exact absurd heq (by decide)
  · rw [hless] at hsig
    cases hsig
    cases hnext

theorem entry_of_limits {name : String} {sig : Signature} (h : limits.get? name = some sig) :
    (name = "below" ∧ sig = belowLimit) ∨ name = "limit" ∧ sig = .value .int := by
  have hmem : (name, sig) ∈ [("below", belowLimit), ("limit", .value .int)] :=
    NameMap.get?_eq_some_iff.1 h
  simpa using hmem

theorem check_terminates_limits :
    (∀ name sig, limits.get? name = some sig → sig.origin = .value) ∧
    (∀ name sig, limits.get? name = some sig → sig.clauses ≠ [] →
      ¬ Relation.TransGen (Env.ContractsCall (prelude.union limits)) name name) ∧
    Env.IsAcyclic (prelude.union limits) ∧
    ∃ marked, IsUnlimited (prelude.union limits) marking marked ∧
      MarkedPart (Env.stepBound (prelude.union limits) readBelowLimit)
        (marked .full ∅ readBelowLimit) (check (prelude.union limits) .full ∅ readBelowLimit) := by
  have hnone : ∀ name sig, limits.get? name = some sig → sig.clauses ≠ [] →
      ¬ Relation.TransGen (Env.ContractsCall (prelude.union limits)) name name := by
    intro name sig hsig hclauses
    rcases entry_of_limits hsig with ⟨rfl, -⟩ | ⟨-, rfl⟩
    · exact not_transGen_below
    · exact absurd rfl hclauses
  have hacyclic := (check_terminates.2 limits).2 hnone
  obtain ⟨-, -, marked, hmarked, hsteps⟩ := check_terminates.1 _ hacyclic
  refine ⟨fun name sig hsig => ?_, hnone, hacyclic, marked, hmarked, hsteps .full ∅ _⟩
  rcases entry_of_limits hsig with ⟨-, rfl⟩ | ⟨-, rfl⟩ <;> rfl

section

variable {α β : Type} {p p₁ : Progress} {commands : List Command}

/-- How many commands a part sends on its favourable course. -/
def extent (part : CheckM α) (p : Progress) : Nat := (part p).favourable.1.length

theorem extent_bind_left (part : CheckM α) (f : α → CheckM β) (p : Progress) :
    extent part p ≤ extent (part >>= f) p := by
  unfold extent
  rw [bind_apply, Dialogue.bind_eq, Dialogue.favourable_bind, List.length_append]
  exact Nat.le_add_right _ _

theorem extent_bind_right {part : CheckM α} {a : α} (h : Accepts part p commands a p₁)
    (f : α → CheckM β) : extent (f a) p₁ ≤ extent (part >>= f) p := by
  unfold Accepts at h
  unfold extent
  rw [bind_apply, Dialogue.bind_eq, Dialogue.favourable_bind, h, List.length_append]
  exact Nat.le_add_left _ _

theorem extent_adapt (part : CheckM α) (f : Failure → Failure) (p : Progress) :
    extent (part.adapt f) p = extent part p := by
  unfold extent
  rw [adapt_apply, Dialogue.bind_eq, Dialogue.favourable_bind]
  exact congrArg List.length (List.append_nil _)

theorem extent_inSolverScope (body : CheckM α) (p : Progress) :
    extent body p < extent (inSolverScope body) p := by
  unfold extent
  rw [inSolverScope_apply]
  simp only [Dialogue.favourable, Dialogue.bind_eq, Dialogue.favourable_bind, List.length_cons,
    List.length_append]
  omega

/-- A predicate that is to be proved is walked over in a scope of its own. -/
theorem extent_prove {pred : Expr} (hpred : pred.ty.isBool = true) (walk : Walk)
    (locals : Bindings) (binder : String) (span : Option Span) (p : Progress) :
    extent (walk .full locals pred) p < extent (prove walk locals binder (.holds pred) span) p := by
  have hbool : Accepts (requireBool pred span) p [] () p := by simp [requireBool, hpred]
  have hnote : Accepts (note ("proving `" ++ pred.display ++ "`")) p [] () p := by simp
  refine Nat.lt_of_lt_of_le ?_ (extent_bind_right hbool _)
  refine Nat.lt_of_lt_of_le ?_ (extent_bind_right hnote _)
  exact Nat.lt_of_le_of_lt (extent_bind_left _ _ p) (extent_inSolverScope _ p)

/-- The predicate of a parameter is to be proved of the argument's term. -/
theorem extent_checkArgs {walk : Walk} {locals binders : Bindings} {arg pred : Expr} {t : Term}
    (harg : Accepts (walk .simple locals arg) p commands t p₁) (hpred : pred.ty.isBool = true)
    (callee : String) (span : Option Span) (ty : Ty) (binder : String)
    (rest : List (RefinedTy × Expr)) :
    extent (walk .full (binders.insert binder t) pred) p₁ <
      extent (checkArgs walk callee span locals
        ((.refined ty (.holds binder pred), arg) :: rest) binders) p := by
  have hproved := extent_prove hpred walk (binders.insert binder t) binder (arg.span.or span) p₁
  refine Nat.lt_of_lt_of_le ?_ (extent_bind_right harg _)
  refine Nat.lt_of_lt_of_le ?_ (extent_bind_left _ _ p₁)
  rwa [inContext, extent_adapt]

/-- A walk without a limit over a call of a function that takes so many arguments. -/
theorem IsUnlimited.walk_call {walk : Walk} (hwalk : IsUnlimited env id walk)
    {name : String} {origin : Origin} {params : List RefinedTy} {ret : RefinedTy}
    (hsig : env.get? name = some (.function origin params ret)) {args : List Expr}
    (hlength : params.length = args.length) (mode : Mode) (locals : Bindings) (ty : Ty) :
    walk mode locals (.call name args ty) =
      checkArgs walk name none locals (params.zip args) ∅ >>= fun r =>
        if origin = .builtin then applyOperator mode name ret r.2 none
        else checkResult walk name origin ret r.1 r.2 none := by
  have hresolve : resolveCall env (.var name (.arrow (args.map fun a => .plain a.ty) (.plain ty)))
      args none = .ok (name, origin, params, ret) := by
    simp [resolveCall, Expr.var, hsig, Signature.function, RefinedTy.ty, Ty.arrow?, hlength]
  rw [hwalk]
  change checkCall env walk mode locals _ args none = _
  rw [checkCall, hresolve, ofOutcome_ok_bind]
  rfl

end

/-- `x + 1` -/
def oneMore : Expr := Prelude.infixed "+" (Prelude.int "x") (.int 1) .int

/-- `loop(x + 1)` -/
def again : Expr := .call "loop" [oneMore] .bool

/-- `loop : ({x: int | loop(x + 1)}) -> bool`, a value whose precondition calls it. -/
def endless : Env :=
  .ofList [("loop", .function .value [Prelude.holds "x" .int again] (.plain .bool))]

theorem get?_loop : (prelude.union endless).get? "loop" =
    some (.function .value [Prelude.holds "x" .int again] (.plain .bool)) := by
  rw [NameMap.get?_union]
  rfl

section

variable {walk : Walk} (hwalk : IsUnlimited (prelude.union endless) id walk)
include hwalk

/-- The next number, the argument of the call inside, gets a name. -/
theorem exists_accepts_oneMore (locals : Bindings) (p : Progress) :
    ∃ commands t p₁, Accepts (walk .simple locals oneMore) p commands t p₁ := by
  have hplus : (prelude.union endless).get? "+" =
      some (.function .builtin (Prelude.ints 2) (.plain .int)) := by
    rw [NameMap.get?_union]
    rfl
  have hargs : checkArgs walk "+" none locals ((Prelude.ints 2).zip [Prelude.int "x", .int 1]) ∅ =
      pure (∅, [locals.resolve "x", .int 1]) := by
    refine checkArgs_of_toTerms ?_ ?_ rfl "+" none ∅
    · simp [Prelude.ints, RefinedTy.refinement?]
    · have hleaf : ∀ e : Expr, e = Prelude.int "x" ∨ e = .int 1 → ∀ t, e.toTerm locals = .ok t →
          walk .full locals e = pure t := by
        rintro e (rfl | rfl) t ht <;> exact (hwalk .full locals _).trans (congrArg ofOutcome ht)
      intro a ha
      refine hleaf a.2 ?_
      simpa using (List.of_mem_zip ha).2
  rw [oneMore, Prelude.infixed, hwalk.walk_call hplus rfl, hargs]
  exact ⟨_, _, _, rfl⟩

/-- The walk over the call comes to the same call again, inside a scope that it has opened. -/
theorem extent_again (locals : Bindings) (p : Progress) : ∃ locals' p',
    extent (walk .full locals' again) p' < extent (walk .full locals again) p := by
  obtain ⟨commands, t, p₁, harg⟩ := exists_accepts_oneMore hwalk locals p
  refine ⟨NameMap.insert ∅ "x" t, p₁, ?_⟩
  have hbool : again.ty.isBool = true := rfl
  have hargs : extent (walk .full (NameMap.insert ∅ "x" t) again) p₁ < _ :=
    extent_checkArgs harg hbool "loop" none .int "x" []
  rw [show walk .full locals again = _ from hwalk.walk_call get?_loop rfl .full locals .bool]
  exact Nat.lt_of_lt_of_le hargs (extent_bind_left _ _ p)

end

/-- A value can have contracts that lead back to it. The prelude with this one added has a circle,
and no walk there calls itself for whatever it goes on to: with a solver that goes along with
everything, the walk over the call would have to be longer than itself. -/
theorem endless_without_walk :
    (∀ name sig, endless.get? name = some sig → sig.origin = .value) ∧
    ¬ Env.IsAcyclic (prelude.union endless) ∧
    ¬ ∃ walk, IsUnlimited (prelude.union endless) id walk := by
  refine ⟨?_, fun hacyclic => hacyclic "loop" ?_, ?_⟩
  · intro name sig hsig
    obtain ⟨rfl, rfl⟩ := Prod.mk.inj (List.mem_singleton.1 (NameMap.get?_eq_some_iff.1 hsig))
    rfl
  · exact .single ⟨_, get?_loop, List.mem_cons_self⟩
  · rintro ⟨walk, hwalk⟩
    have hle : ∀ n locals p, n ≤ extent (walk .full locals again) p := by
      intro n
      induction n with
      | zero => exact fun locals p => Nat.zero_le _
      | succ n ih =>
          intro locals p
          obtain ⟨locals', p', hlt⟩ := extent_again hwalk locals p
          exact Nat.lt_of_le_of_lt (ih locals' p') hlt
    exact Nat.not_succ_le_self _ (hle _ ∅ {})

end Checker

end ContractCheck
