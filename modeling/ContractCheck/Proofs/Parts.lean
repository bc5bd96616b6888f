import ContractCheck.Checker

/-!
How a walk is put together. Whatever it meets, it answers, notes, declares, asserts, refutes, and
runs parts of itself one after the other, with more said of their failures, or in a scope of their
own (`Checker.Part`). What holds of these and is kept by putting them together holds of every walk
(`Checker.part_checkWithin`). The variables that a walk declares are fresh or are bound by a `let`
of the expression or of a contract.
-/

namespace ContractCheck

mutual

/-- The names that `let` binds in an expression, those in contracts of its casts included. -/
def Expr.letNames : Expr → List String
  | ⟨_, shape, _⟩ => shape.letNames

def Expr.letNamesAll : List Expr → List String
  | [] => []
  | e :: es => e.letNames ++ Expr.letNamesAll es

def Shape.letNames : Shape → List String
  | .var _ | .bool _ | .int _ => []
  | .call callee args => callee.letNames ++ Expr.letNamesAll args
  | .letIn name value body => name :: (value.letNames ++ body.letNames)
  | .ite test onTrue onFalse => test.letNames ++ onTrue.letNames ++ onFalse.letNames
  | .lambda _ body => body.letNames
  | .cast expr target => expr.letNames ++ target.letNames

def RefinedTy.letNames : RefinedTy → List String
  | .plain _ => []
  | .refined _ refinement => refinement.letNames

def Refinement.letNames : Refinement → List String
  | .bind _ => []
  | .holds _ pred => pred.letNames
  | .equals _ value => value.letNames

end

/-- The names that `let` binds in the contracts of an environment. -/
def Env.letNames (env : Env) : List String :=
  env.entries.flatMap fun entry => Expr.letNamesAll entry.2.clauses

section

variable {names : String → Prop}

theorem Expr.forall_letNamesAll {es : List Expr} (h : ∀ n ∈ Expr.letNamesAll es, names n) {e : Expr}
    (he : e ∈ es) : ∀ n ∈ e.letNames, names n := by
  induction es with
  | nil => cases he
  | cons first rest ih =>
      rw [Expr.letNamesAll, List.forall_mem_append] at h
      rcases List.mem_cons.1 he with rfl | he
      · exact h.1
      · exact ih h.2 he

/-- Lets of a refinement's clause are lets of the refinement. -/
theorem Refinement.forall_letNames {r : Refinement} {clause : Clause}
    (h : ∀ n ∈ r.letNames, names n) (hclause : r.clause? = some clause) :
    ∀ n ∈ clause.expr.letNames, names n := by
  cases r with
  | bind binder => cases hclause
  | holds binder pred =>
      cases hclause
      rwa [Refinement.letNames] at h
  | equals binder value =>
      cases hclause
      rwa [Refinement.letNames] at h

/-- The lets of a type's contract, if it has one, are lets of the type. -/
def RefinedTy.LetsIn (t : RefinedTy) (names : String → Prop) : Prop :=
  ∀ clause, t.clause? = some clause → ∀ n ∈ clause.expr.letNames, names n

theorem RefinedTy.letsIn_of_letNames {t : RefinedTy} (h : ∀ n ∈ t.letNames, names n) :
    t.LetsIn names := by
  intro clause hclause
  cases t with
  | plain ty => cases hclause
  | refined ty refinement =>
      rw [RefinedTy.letNames] at h
      exact Refinement.forall_letNames h hclause

theorem Env.letsIn {env : Env} (h : ∀ n ∈ env.letNames, names n) {name : String}
    {sig : Signature} (hsig : env.get? name = some sig) {params : List RefinedTy} {ret : RefinedTy}
    (harrow : sig.ty.ty.arrow? = some (params, ret)) {t : RefinedTy} (ht : t ∈ params ++ [ret]) :
    t.LetsIn names := by
  intro clause hclause
  have hmem : clause.expr ∈ sig.clauses := by
    unfold Signature.clauses
    rw [harrow]
    exact List.mem_filterMap.2 ⟨t, ht, by rw [hclause]; rfl⟩
  refine Expr.forall_letNamesAll (fun n hn => h n ?_) hmem
  exact List.mem_flatMap.2 ⟨(name, sig), NameMap.get?_eq_some_iff.1 hsig, hn⟩

/-- The lets of what the parameters state and of the arguments of a call. -/
theorem Env.letsIn_zip {env : Env} (h : ∀ n ∈ env.letNames, names n) {name : String}
    {sig : Signature} (hsig : env.get? name = some sig) {params : List RefinedTy} {ret : RefinedTy}
    (harrow : sig.ty.ty.arrow? = some (params, ret)) {args : List Expr}
    (hargs : ∀ arg ∈ args, ∀ n ∈ arg.letNames, names n) :
    ∀ a ∈ params.zip args, a.1.LetsIn names ∧ ∀ n ∈ a.2.letNames, names n := by
  rintro ⟨param, arg⟩ hmem
  obtain ⟨hparam, harg⟩ := List.of_mem_zip hmem
  exact ⟨Env.letsIn h hsig harrow (List.mem_append_left [ret] hparam), hargs arg harg⟩

end

namespace Checker

variable {α β : Type}

/-- A part of a walk, by how it is put together. What it declares is fresh or has one of the given
names. -/
inductive Part (names : String → Prop) : {α : Type} → CheckM α → Prop where
  | answer {α : Type} (outcome : Outcome α) : Part names (ofOutcome outcome)
  | note (text : String) : Part names (Checker.note text)
  | fresh (ty : Ty) : Part names (Checker.fresh ty)
  | declare {name : String} (h : names name) (sort : String) :
      Part names (write (.declareConst name sort))
  | assert (term : Term) : Part names (Checker.assert term)
  | refute (goal : Term) (obligation : String) (span : Option Span) :
      Part names (Checker.refute goal obligation span)
  | andThen {α β : Type} {part : CheckM α} {f : α → CheckM β} (h : Part names part)
      (hf : ∀ a, Part names (f a)) : Part names (part >>= f)
  | adapt {α : Type} {part : CheckM α} (h : Part names part) (f : Failure → Failure)
      (hf : ∀ failure, (f failure).fault = failure.fault) : Part names (part.adapt f)
  | scope {α : Type} {part : CheckM α} (h : Part names part) : Part names (inSolverScope part)

/-- A call that is carried through names a function with as many parameters as it has arguments. -/
theorem resolveCall_eq_ok {env : Env} {callee : Expr} {args : List Expr} {span : Option Span}
    {name : String} {origin : Origin} {params : List RefinedTy} {ret : RefinedTy}
    (h : resolveCall env callee args span = .ok (name, origin, params, ret)) :
    callee.shape = .var name ∧ ∃ sig, env.get? name = some sig ∧ sig.origin = origin ∧
      sig.ty.ty.arrow? = some (params, ret) ∧ params.length = args.length := by
  unfold resolveCall at h
  split at h
  · rename_i called hcallee
    split at h
    · cases h
    · rename_i sig hsig
      split at h
      · cases h
      · rename_i params' ret' harrow
        split at h
        · rename_i hlength
          cases h
          exact ⟨hcallee, sig, hsig, rfl, harrow, hlength⟩
        · cases h
  · cases h

section

variable {names : String → Prop}

theorem part_located {part : CheckM α} (h : Part names part) (span : Option Span) :
    Part names (located span part) := h.adapt (·.locate span) fun _ => rfl

theorem part_inContext {part : CheckM α} (h : Part names part) (context : String) :
    Part names (inContext context part) := h.adapt (·.withContext context) fun _ => rfl

theorem part_pure (a : α) : Part names (pure a : CheckM α) := .answer (.ok a)

theorem part_requireBool (pred : Expr) (span : Option Span) :
    Part names (requireBool pred span) := by
  unfold requireBool
  split
  · exact part_pure ()
  · exact .answer _

/-- The last part of `checkCall` for a function that is built in. -/
def applyOperator (mode : Mode) (name : String) (ret : RefinedTy) (terms : List Term)
    (span : Option Span) : CheckM Term := do
  let term ← ofOutcome ((Operator.apply name terms).located span)
  match mode with
  | .full => return term
  | .simple =>
    let var ← located span (fresh ret.ty)
    assert (.eq (.symbol var) term)
    return .symbol var

theorem part_applyOperator (mode : Mode) (name : String) (ret : RefinedTy) (terms : List Term)
    (span : Option Span) : Part names (applyOperator mode name ret terms span) := by
  refine (Part.answer _).andThen fun applied => ?_
  cases mode with
  | full => exact part_pure _
  | simple =>
      refine (part_located (.fresh _) span).andThen fun var => (Part.assert _).andThen fun _ => ?_
      exact part_pure _

/-- A walk that is put together from parts, if the lets of the expression have the names. -/
def PartWalk (names : String → Prop) (walk : Walk) : Prop :=
  ∀ mode locals (e : Expr), (∀ n ∈ e.letNames, names n) → Part names (walk mode locals e)

/-- What is done about the clause of a refinement, if it has one, before the rest. -/
theorem part_clause {ty : Ty} {r : Refinement} (hr : (RefinedTy.refined ty r).LetsIn names)
    {act : Clause → CheckM Unit}
    (hact : ∀ clause, (∀ n ∈ clause.expr.letNames, names n) → Part names (act clause))
    {rest : CheckM α} (hrest : Part names rest) :
    Part names (match r.clause? with
      | none => rest
      | some clause => act clause >>= fun _ => rest) := by
  cases r with
  | bind binder => exact hrest
  | holds binder pred => exact (hact _ (hr _ rfl)).andThen fun _ => hrest
  | equals binder value => exact (hact _ (hr _ rfl)).andThen fun _ => hrest

variable {walk : Walk} (hwalk : PartWalk names walk)
include hwalk

theorem part_prove {clause : Clause} (hclause : ∀ n ∈ clause.expr.letNames, names n)
    (locals : Bindings) (binder : String) (span : Option Span) :
    Part names (prove walk locals binder clause span) := by
  cases clause with
  | holds pred =>
      refine (part_requireBool _ _).andThen fun _ => (Part.note _).andThen fun _ => .scope ?_
      exact (hwalk _ _ _ hclause).andThen fun _ => .refute _ _ _
  | equals value =>
      refine (Part.note _).andThen fun _ => .scope ((Part.answer _).andThen fun _ => ?_)
      exact (hwalk _ _ _ hclause).andThen fun _ => .refute _ _ _

theorem part_assume {clause : Clause} (hclause : ∀ n ∈ clause.expr.letNames, names n)
    (locals : Bindings) (result : Term) (span : Option Span) :
    Part names (assume walk locals result clause span) := by
  cases clause with
  | holds pred =>
      refine (part_requireBool _ _).andThen fun _ => ?_
      exact (hwalk _ _ _ hclause).andThen fun _ => .assert _
  | equals value => exact (hwalk _ _ _ hclause).andThen fun _ => .assert _

theorem part_checkArgs (callee : String) (span : Option Span) (locals : Bindings)
    {args : List (RefinedTy × Expr)}
    (hargs : ∀ a ∈ args, a.1.LetsIn names ∧ ∀ n ∈ a.2.letNames, names n) (binders : Bindings) :
    Part names (checkArgs walk callee span locals args binders) := by
  induction args generalizing binders with
  | nil => exact part_pure _
  | cons head rest ih =>
      obtain ⟨param, arg⟩ := head
      obtain ⟨⟨hparam, harg⟩, hrest⟩ := List.forall_mem_cons.1 hargs
      rcases param with ty | ⟨ty, refinement⟩
      · exact (hwalk _ _ _ harg).andThen fun _ => (ih hrest _).andThen fun _ => part_pure _
      · refine (hwalk _ _ _ harg).andThen fun term => ?_
        refine part_clause hparam (fun clause hclause => ?_) ?_
        · exact part_inContext (part_prove hwalk hclause _ _ _) _
        · exact (ih hrest _).andThen fun _ => part_pure _

/-- The last part of `checkResult`: the return contract is assumed of the result. -/
def assumeReturn (walk : Walk) (callee : String) (ret : RefinedTy) (binders : Bindings)
    (result : Term) (span : Option Span) : CheckM Term :=
  match ret.refinement? with
  | none => pure result
  | some refinement =>
    match refinement.clause? with
    | none => pure result
    | some clause => do
      inContext ("postcondition of `" ++ callee ++ "`")
        (assume walk (binders.insert refinement.binder result) result clause span)
      pure result

theorem part_assumeReturn (callee : String) {ret : RefinedTy} (hret : ret.LetsIn names)
    (binders : Bindings) (result : Term) (span : Option Span) :
    Part names (assumeReturn walk callee ret binders result span) := by
  rcases ret with ty | ⟨ty, r⟩
  · exact part_pure _
  · refine part_clause hret (fun clause hclause => ?_) (part_pure _)
    exact part_inContext (part_assume hwalk hclause _ _ _) _

theorem part_checkResult (callee : String) (origin : Origin) {ret : RefinedTy}
    (hret : ret.LetsIn names) (binders : Bindings) (terms : List Term) (span : Option Span) :
    Part names (checkResult walk callee origin ret binders terms span) := by
  refine (part_located (.fresh _) span).andThen fun name => ?_
  have hcontract := part_assumeReturn hwalk callee hret binders (.symbol name) span
  by_cases horigin : origin = .uninterpreted
  · simp only [if_pos horigin]
    exact (Part.assert _).andThen fun _ => hcontract
  · simp only [if_neg horigin]
    exact hcontract

variable {env : Env} (henv : ∀ n ∈ env.letNames, names n)
include henv

theorem part_checkCall (mode : Mode) (locals : Bindings) (callee : Expr) {args : List Expr}
    (hargs : ∀ arg ∈ args, ∀ n ∈ arg.letNames, names n) (span : Option Span) :
    Part names (checkCall env walk mode locals callee args span) := by
  unfold checkCall
  rcases hresolve : resolveCall env callee args span with failure | ⟨name, origin, params, ret⟩
  · exact .answer (.error failure)
  obtain ⟨-, sig, hsig, -, harrow, -⟩ := resolveCall_eq_ok hresolve
  have hpairs := Env.letsIn_zip henv hsig harrow hargs
  refine (part_checkArgs hwalk name span locals hpairs ∅).andThen fun checked => ?_
  obtain ⟨binders, terms⟩ := checked
  by_cases horigin : origin = .builtin
  · simp only [if_pos horigin]
    exact part_applyOperator mode name ret terms span
  · simp only [if_neg horigin]
    have hret := Env.letsIn henv hsig harrow
      (List.mem_append_right params (List.mem_singleton_self ret))
    exact part_checkResult hwalk name origin hret binders terms span

theorem part_checkExpr : PartWalk names (checkExpr env walk) := by
  rintro mode locals ⟨ty, shape, span⟩ he
  rw [Expr.letNames] at he
  cases shape with
  | var name => exact .answer _
  | bool value => exact .answer _
  | int value => exact .answer _
  | ite test onTrue onFalse => exact .answer _
  | lambda params body => exact .answer _
  | call callee args =>
      rw [Shape.letNames, List.forall_mem_append] at he
      exact part_checkCall hwalk henv _ _ _ (fun arg harg => Expr.forall_letNamesAll he.2 harg) _
  | letIn name value body =>
      rw [Shape.letNames, List.forall_mem_cons, List.forall_mem_append] at he
      obtain ⟨hname, hvalue, hbody⟩ := he
      refine (Part.answer _).andThen fun _ => (Part.declare hname _).andThen fun _ => ?_
      refine (hwalk _ _ _ hvalue).andThen fun _ => (Part.assert _).andThen fun _ => ?_
      exact hwalk _ _ _ hbody
  | cast expr target =>
      rw [Shape.letNames, List.forall_mem_append] at he
      refine (hwalk _ _ _ he.1).andThen fun term => ?_
      have htarget := RefinedTy.letsIn_of_letNames he.2
      rcases target with target | ⟨target, refinement⟩
      · exact part_pure _
      · refine part_clause htarget (fun clause hclause => ?_) (part_pure _)
        exact part_prove hwalk hclause _ _ _

omit hwalk

theorem part_checkWithin (depth : Nat) : PartWalk names (checkWithin env depth) := by
  induction depth with
  | zero => exact fun _ _ _ _ => .answer _
  | succ depth ih => exact part_checkExpr ih henv

theorem part_run {e : Expr} (he : ∀ n ∈ e.letNames, names n) :
    Part names (inSolverScope do let _ ← check env .full ∅ e) :=
  ((part_checkWithin henv _ _ _ e he).andThen fun _ => part_pure ()).scope

end

end Checker

end ContractCheck
