import ContractCheck.Proofs.Congruence

/-!
What the calls of an expression lead to: the functions called, those called in the contracts of
these, and so on (`Env.Reaches`). A walk, the depth it is cut off at included, depends on the
signatures of these alone (`Checker.check_eq_of_agree_reached`).
-/

namespace ContractCheck

/-- Calls of the names lead to the function, through the contracts of what is called. -/
inductive Env.Reaches (env : Env) (names : List String) : String → Prop where
  | called {name : String} (h : name ∈ names) : env.Reaches names name
  | contract {caller name : String} {sig : Signature} (h : env.Reaches names caller)
      (hsig : env.get? caller = some sig) (hname : name ∈ sig.clauseCalls) : env.Reaches names name

/-- The environments have the same signatures for all that calls of the names lead to. -/
def Env.AgreeOnReached (env env' : Env) (names : List String) : Prop :=
  ∀ name, env.Reaches names name → env.get? name = env'.get? name

section

variable {env env' : Env} {names names' : List String}

/-- What is led to by what is led to. -/
theorem Env.Reaches.trans (hnames : ∀ name ∈ names, env.Reaches names' name) {name : String}
    (h : env.Reaches names name) : env.Reaches names' name := by
  induction h with
  | called h => exact hnames _ h
  | contract _ hsig hname ih => exact .contract ih hsig hname

theorem Env.Reaches.mono (hnames : ∀ name ∈ names, name ∈ names') {name : String}
    (h : env.Reaches names name) : env.Reaches names' name :=
  h.trans fun _ hname => .called (hnames _ hname)

/-- Nothing more is led to where one signature is left out. -/
theorem Env.Reaches.of_erase {erased name : String}
    (h : Env.Reaches (env.erase erased) names name) : env.Reaches names name := by
  induction h with
  | called h => exact .called h
  | contract _ hsig hname ih =>
      rw [NameMap.get?_erase] at hsig
      split at hsig
      · cases hsig
      · exact .contract ih hsig hname

/-- The calls in a contract of a function that is led to. -/
theorem Env.Reaches.clauseCalls {caller : String} (h : env.Reaches names caller) {sig : Signature}
    (hsig : env.get? caller = some sig) {name : String} (hname : env.Reaches sig.clauseCalls name) :
    env.Reaches names name :=
  hname.trans fun _ hcalled => h.contract hsig hcalled

theorem Env.AgreeOnReached.mono (h : env.AgreeOnReached env' names')
    (hnames : ∀ name ∈ names, name ∈ names') : env.AgreeOnReached env' names :=
  fun name hname => h name (hname.mono hnames)

/-- A signature that the calls do not lead to makes no difference to those that they lead to. -/
theorem Env.agreeOnReached_insert {name : String} (h : ¬ env.Reaches names name) (sig : Signature) :
    env.AgreeOnReached (env.insert name sig) names := by
  intro other hother
  rw [NameMap.get?_insert, if_neg]
  rintro rfl
  exact h hother

theorem Expr.walkDepth_pos (e : Expr) : 0 < e.walkDepth := by
  obtain ⟨ty, shape, span⟩ := e
  rw [Expr.walkDepth]
  omega

theorem Expr.walkDepth_le_walkDepthAll {es : List Expr} {e : Expr} (he : e ∈ es) :
    e.walkDepth ≤ Expr.walkDepthAll es := by
  induction es with
  | nil => cases he
  | cons first rest ih =>
      rw [Expr.walkDepthAll]
      rcases List.mem_cons.1 he with rfl | he
      · exact Nat.le_max_left _ _
      · exact Nat.le_trans (ih he) (Nat.le_max_right _ _)

theorem Expr.mem_callsAll {es : List Expr} {e : Expr} (he : e ∈ es) {name : String}
    (hname : name ∈ e.calls) : name ∈ Expr.callsAll es := by
  induction es with
  | nil => cases he
  | cons first rest ih =>
      rw [Expr.callsAll, List.mem_append]
      rcases List.mem_cons.1 he with rfl | he
      · exact .inl hname
      · exact .inr (ih he)

/-- A call calls its callee. -/
theorem Expr.mem_calls_of_callee {callee : Expr} {name : String} (h : callee.shape = .var name)
    (ty : Ty) (args : List Expr) (span : Option Span) :
    name ∈ Expr.calls ⟨ty, .call callee args, span⟩ := by
  rw [Expr.calls, Shape.calls, h]
  simp [Shape.calledName]

/-- What a clause calls is called by the type it is a clause of. -/
theorem RefinedTy.mem_calls {t : RefinedTy} {binder : String} {clause : Clause}
    (h : t.contract? = some (binder, clause)) {name : String} (hname : name ∈ clause.expr.calls) :
    name ∈ t.calls := by
  rcases t with ty | ⟨ty, _ | ⟨_, pred⟩ | ⟨_, value⟩⟩
  · cases h
  · cases h
  · cases h
    rwa [RefinedTy.calls, Refinement.calls]
  · cases h
    rwa [RefinedTy.calls, Refinement.calls]

/-- The contracts of a function's parameters and return are clauses of its signature. -/
theorem Signature.mem_clauses {sig : Signature} {params : List RefinedTy} {ret : RefinedTy}
    (harrow : sig.ty.ty.arrow? = some (params, ret)) {t : RefinedTy} (ht : t ∈ params ++ [ret])
    {binder : String} {clause : Clause} (h : t.contract? = some (binder, clause)) :
    clause.expr ∈ sig.clauses := by
  unfold Signature.clauses
  rw [harrow]
  refine List.mem_filterMap.2 ⟨t, ht, ?_⟩
  rcases t with ty | ⟨ty, _ | ⟨_, pred⟩ | ⟨_, value⟩⟩
  · cases h
  · cases h
  · cases h
    rfl
  · cases h
    rfl

theorem Signature.mem_clauseCalls {sig : Signature} {e : Expr} (he : e ∈ sig.clauses)
    {name : String} (hname : name ∈ e.calls) : name ∈ sig.clauseCalls :=
  Expr.mem_callsAll he hname

namespace Env

theorem reachDepth_cons_of_none {name : String} (h : env.get? name = none) (names : List String) :
    env.reachDepth (name :: names) = env.reachDepth names := by
  rw [reachDepth]
  split
  · rfl
  · rename_i sig hsig
    rw [h] at hsig
    cases hsig

theorem reachDepth_cons_of_some {name : String} {sig : Signature} (h : env.get? name = some sig)
    (names : List String) : env.reachDepth (name :: names) =
      sig.clauseDepth + Env.reachDepth (env.erase name) (sig.clauseCalls ++ names) := by
  rw [reachDepth]
  split
  · rename_i hnone
    rw [h] at hnone
    cases hnone
  · rename_i found hfound
    rw [h] at hfound
    cases hfound
    rfl

/-- The depth of the contracts that calls lead to depends on the signatures they lead to. -/
theorem reachDepth_eq_of_agree (h : env.AgreeOnReached env' names) :
    env.reachDepth names = env'.reachDepth names := by
  induction env, names using reachDepth.induct generalizing env' with
  | case1 env => rw [reachDepth, reachDepth]
  | case2 env name names hnone ih =>
      have hnone' : env'.get? name = none := by
        rw [← h name (.called List.mem_cons_self), hnone]
      rw [reachDepth_cons_of_none hnone, reachDepth_cons_of_none hnone']
      exact ih (h.mono fun _ hmem => List.mem_cons_of_mem _ hmem)
  | case3 env name names sig hsig ih =>
      have hsig' : env'.get? name = some sig := by
        rw [← h name (.called List.mem_cons_self), hsig]
      rw [reachDepth_cons_of_some hsig, reachDepth_cons_of_some hsig']
      congr 1
      apply ih
      intro other hother
      have hreached : env.Reaches (name :: names) other := by
        refine hother.of_erase.trans fun called hcalled => ?_
        rcases List.mem_append.1 hcalled with hcalled | hcalled
        · exact .contract (.called List.mem_cons_self) hsig hcalled
        · exact .called (List.mem_cons_of_mem _ hcalled)
      rw [NameMap.get?_erase, NameMap.get?_erase, h other hreached]

end Env

end

namespace Checker

/-- Environments that agree on what is led to go on to agree on all that the walk goes on to. -/
theorem passesOn_agreeOnReached (env env' : Env) : PassesOn
    (fun locals locals' e => locals = locals' ∧ env.AgreeOnReached env' e.calls)
    .keep .keep env env' where
  var := by
    rintro _ _ _ _ _ ⟨rfl, -⟩
    rfl
  expr := by
    rintro _ _ _ _ _ _ ⟨rfl, h⟩
    refine ⟨rfl, h.mono fun name hname => ?_⟩
    rw [Expr.calls, Shape.calls]
    exact List.mem_append_left _ hname
  target := by
    rintro _ _ _ _ _ _ ⟨rfl, h⟩ binder clause hclause term
    refine ⟨rfl, h.mono fun name hname => ?_⟩
    rw [Expr.calls, Shape.calls]
    exact List.mem_append_right _ (RefinedTy.mem_calls hclause hname)
  value := by
    rintro _ _ _ _ _ _ _ ⟨rfl, h⟩
    refine ⟨rfl, h.mono fun name hname => ?_⟩
    rw [Expr.calls, Shape.calls]
    exact List.mem_append_left _ hname
  body := by
    rintro _ _ _ _ _ _ _ ⟨rfl, h⟩
    refine ⟨rfl, h.mono fun name hname => ?_⟩
    rw [Expr.calls, Shape.calls]
    exact List.mem_append_right _ hname
  arg := by
    rintro _ _ _ _ _ _ ⟨rfl, h⟩ arg harg
    refine ⟨rfl, h.mono fun name hname => ?_⟩
    rw [Expr.calls, Shape.calls]
    exact List.mem_append_right _ (Expr.mem_callsAll harg hname)
  callee := by
    rintro _ _ _ _ _ _ ⟨rfl, h⟩ name hcallee
    exact h name (.called (Expr.mem_calls_of_callee hcallee _ _ _))
  contracts := by
    rintro locals _ ty callee args span ⟨rfl, h⟩ name sig params ret hcallee hsig harrow
    have hname : env.Reaches (Expr.calls ⟨ty, .call callee args, span⟩) name :=
      .called (Expr.mem_calls_of_callee hcallee ty args span)
    refine relatesContracts_of_refl (fun t ht binder clause hclause _ => ⟨rfl, ?_⟩) ∅
    intro other hother
    refine h other (hname.clauseCalls hsig (hother.mono fun called hcalled => ?_))
    exact Signature.mem_clauseCalls (Signature.mem_clauses harrow ht hclause) hcalled

variable {env env' : Env} {e : Expr}

theorem checkWithin_eq_of_agree_reached (h : env.AgreeOnReached env' e.calls) (depth : Nat)
    (mode : Mode) (locals : Bindings) :
    checkWithin env depth mode locals e = checkWithin env' depth mode locals e := by
  have hwalk := sameWalk_scopedWithin (passesOn_agreeOnReached env env') depth
  rw [scopedWithin_keep, scopedWithin_keep] at hwalk
  exact hwalk ⟨rfl, h⟩

/-- The walk depends on the signatures that the calls of its expression lead to. -/
theorem check_eq_of_agree_reached (h : env.AgreeOnReached env' e.calls) (mode : Mode)
    (locals : Bindings) : check env mode locals e = check env' mode locals e := by
  unfold check depthLimit
  rw [Env.reachDepth_eq_of_agree h, checkWithin_eq_of_agree_reached h]

end Checker

end ContractCheck
