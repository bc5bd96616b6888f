import ContractCheck.Proofs.SuccessfulRun

/-!
The commands of a walk leave every scope that they open and no other (`level_check`), so that a run
that succeeds ends with as many open scopes as it began with.
-/

namespace ContractCheck

/-- Every scope that is opened is left again, and none of those open before. -/
inductive Level : List Command → Prop where
  | nil : Level []
  | flat {command : Command} {rest : List Command} (hpush : command ≠ .push)
      (hpop : command ≠ .pop) (hrest : Level rest) : Level (command :: rest)
  | scope {inner rest : List Command} (hinner : Level inner) (hrest : Level rest) :
      Level (.push :: (inner ++ .pop :: rest))

namespace Level

theorem append {first second : List Command} (h : Level first) (h' : Level second) :
    Level (first ++ second) := by
  induction h with
  | nil => exact h'
  | flat hpush hpop _ ih => exact .flat hpush hpop ih
  | scope hinner _ _ ih =>
      rw [List.cons_append, List.append_assoc, List.cons_append]
      exact .scope hinner ih

theorem ofPlain {command : Command} (h : command.IsPlain) : Level [command] := by
  refine .flat ?_ ?_ .nil
  · rintro rfl
    exact h
  · rintro rfl
    exact h

theorem ofAllPlain {commands : List Command} (h : ∀ c ∈ commands, c.IsPlain) : Level commands := by
  induction commands with
  | nil => exact .nil
  | cons c rest ih =>
      exact (ofPlain (h c List.mem_cons_self)).append
        (ih fun c hc => h c (List.mem_cons_of_mem _ hc))

theorem ofScope {inner : List Command} (h : Level inner) : Level (.push :: (inner ++ [.pop])) :=
  .scope h .nil

theorem depthAfter {commands : List Command} (h : Level commands) (depth : Nat) :
    commands.foldl Command.depthAfter depth = depth := by
  induction h generalizing depth with
  | nil => rfl
  | @flat command rest hpush hpop _ ih =>
      have hdepth : Command.depthAfter depth command = depth := by
        cases command with
        | push => exact absurd rfl hpush
        | pop => exact absurd rfl hpop
        | _ => rfl
      rw [List.foldl_cons, hdepth]
      exact ih depth
  | scope _ _ ihinner ihrest =>
      rw [List.foldl_cons, List.foldl_append, ihinner, List.foldl_cons]
      exact ihrest depth

end Level

namespace Checker

/-- The favourable courses of the walk leave the scopes that they open. -/
def LevelWalk (walk : Walk) : Prop :=
  ∀ ⦃mode locals e p commands t p'⦄, Accepts (walk mode locals e) p commands t p' → Level commands

section

variable {walk : Walk} (hwalk : LevelWalk walk)

theorem level_refutation (goal : Term) : Level (refutation goal) :=
  .flat (fun h => nomatch h) (fun h => nomatch h)
    (.flat (fun h => nomatch h) (fun h => nomatch h) .nil)

theorem level_resultDefinition (origin : Origin) (callee : String) (terms : List Term)
    (result : Term) : Level (resultDefinition origin callee terms result) := by
  unfold resultDefinition
  split
  · exact .ofPlain trivial
  · exact .nil

theorem level_appliesOperator {mode : Mode} {name : String} {ret : RefinedTy}
    {terms : List Term} {p p' : Progress} {commands : List Command} {t : Term}
    (h : AppliesOperator mode name ret terms p commands t p') : Level commands := by
  obtain ⟨applied, -, h⟩ := h
  cases mode with
  | full =>
      obtain ⟨rfl, -, -⟩ := h
      exact .nil
  | simple =>
      obtain ⟨sort, var, -, -, -, rfl, -⟩ := h
      have hdeclare : Level [.declareConst var sort.display] := .ofPlain trivial
      exact hdeclare.append (.ofPlain trivial)

include hwalk

theorem level_provesContract {locals : Bindings} {t : RefinedTy} {p p' : Progress}
    {commands : List Command} (h : ProvesContract walk locals t p commands p') :
    Level commands := by
  unfold ProvesContract at h
  split at h
  · obtain ⟨rfl, -⟩ := h
    exact .nil
  · obtain ⟨-, inner, term, p₁, hinner, rfl, -⟩ := h
    exact .ofScope ((hwalk hinner).append (level_refutation _))

theorem level_assumesContract {locals : Bindings} {result : Term} {t : RefinedTy}
    {p p' : Progress} {commands : List Command}
    (h : AssumesContract walk locals result t p commands p') : Level commands := by
  unfold AssumesContract at h
  split at h
  · obtain ⟨rfl, -⟩ := h
    exact .nil
  · obtain ⟨-, inner, term, hinner, rfl⟩ := h
    exact (hwalk hinner).append (.ofPlain trivial)

theorem level_checkArgs {callee : String} {span : Option Span} {locals binders : Bindings}
    {args : List (RefinedTy × Expr)} {p p' : Progress} {commands : List Command}
    {r : Bindings × List Term}
    (h : Accepts (checkArgs walk callee span locals args binders) p commands r p') :
    Level commands := by
  induction args generalizing binders p commands r with
  | nil =>
      obtain ⟨rfl, -, -⟩ := accepts_checkArgs_nil h
      exact .nil
  | cons head rest ih =>
      obtain ⟨param, arg⟩ := head
      obtain ⟨first, term, p₁, second, p₂, third, terms, hfirst, hsecond, hthird, rfl, -⟩ :=
        accepts_checkArgs_cons h
      exact (hwalk hfirst).append ((level_provesContract hwalk hsecond).append (ih hthird))

theorem level_checkResult {callee : String} {origin : Origin} {ret : RefinedTy}
    {binders : Bindings} {terms : List Term} {span : Option Span} {p p' : Progress}
    {commands : List Command} {t : Term}
    (h : Accepts (checkResult walk callee origin ret binders terms span) p commands t p') :
    Level commands := by
  obtain ⟨sort, rest, name, -, -, -, hassumes, rfl⟩ := accepts_checkResult h
  exact .flat (fun h => nomatch h) (fun h => nomatch h)
    ((level_resultDefinition _ _ _ _).append (level_assumesContract hwalk hassumes))

theorem level_checkExpr (env : Env) : LevelWalk (checkExpr env walk) := by
  rintro mode locals ⟨ty, shape, span⟩ p commands t p' h
  cases shape with
  | var name =>
      obtain ⟨rfl, -, -⟩ := accepts_checkExpr_leaf (.inl ⟨name, rfl⟩) h
      exact .nil
  | bool value =>
      obtain ⟨rfl, -, -⟩ := accepts_checkExpr_leaf (.inr (.inl ⟨value, rfl⟩)) h
      exact .nil
  | int value =>
      obtain ⟨rfl, -, -⟩ := accepts_checkExpr_leaf (.inr (.inr ⟨value, rfl⟩)) h
      exact .nil
  | ite test onTrue onFalse => exact absurd h not_accepts_checkExpr_ite
  | lambda params body => exact absurd h not_accepts_checkExpr_lambda
  | cast expr target =>
      obtain ⟨first, p₁, second, hfirst, hproof, rfl⟩ := accepts_checkExpr_cast h
      exact (hwalk hfirst).append (level_provesContract hwalk hproof)
  | letIn name value body =>
      obtain ⟨sort, first, term, p₁, second, -, hvalue, hbody, rfl⟩ := accepts_checkExpr_letIn h
      exact .flat (fun h => nomatch h) (fun h => nomatch h) ((hwalk hvalue).append
        (.flat (fun h => nomatch h) (fun h => nomatch h) (hwalk hbody)))
  | call callee args =>
      obtain ⟨name, sig, params, ret, first, binders, terms, p₁, second, -, -, -, -, hargs, rfl,
        hresult⟩ := accepts_checkCall h
      refine (level_checkArgs hwalk hargs).append ?_
      rcases hresult with ⟨-, happlies⟩ | ⟨-, hresult⟩
      · exact level_appliesOperator happlies
      · exact level_checkResult hwalk hresult

end

theorem level_checkWithin (env : Env) (depth : Nat) : LevelWalk (checkWithin env depth) := by
  induction depth with
  | zero =>
      intro mode locals e p commands t p' h
      obtain ⟨-, hfails, -⟩ := accepts_ofOutcome_iff.1 h
      cases hfails
  | succ depth ih => exact level_checkExpr ih env

theorem level_check {env : Env} {mode : Mode} {locals : Bindings} {e : Expr} {p p' : Progress}
    {commands : List Command} {t : Term} (h : Accepts (check env mode locals e) p commands t p') :
    Level commands := level_checkWithin env _ h

end Checker

namespace Session

variable {τ ω : Type} [Transport τ ω]

omit [Transport τ ω] in
theorem level_missing (s : Session τ ω) (env : Env) (e : Expr) : Level (s.missing env e) :=
  .ofAllPlain fun _ hc => isPlain_of_mem_missing hc

/-- A run that succeeds has left every scope that it opened. -/
theorem depth_of_prove {env : Env} {e : Expr} {summary : Summary} {s s' : Session τ ω}
    (h : prove env e s = (.ok summary, s')) :
    s'.depth = if s.isStarted then s.depth else 0 := by
  obtain ⟨s₁, s₂, commands, t, p, hstart, hcheck, -, hsends, hsynced⟩ := prove_eq_ok h
  have hlevel := (level_missing s₁ env e).append (.ofScope (Checker.level_check hcheck))
  rw [hsynced.depth, hsends.depth, hlevel.depthAfter]
  rcases start_eq_ok hstart with ⟨hs, rfl⟩ | ⟨hs, s₀, hlaunch, hopening, -⟩
  · rw [if_pos hs]
  · obtain ⟨c, -, -, hdepth, -⟩ := launch_eq_ok hlaunch
    rw [hopening.depth, hs, hdepth]
    rfl

end Session

end ContractCheck
