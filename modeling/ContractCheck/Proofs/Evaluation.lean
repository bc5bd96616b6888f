import ContractCheck.Proofs.WellSorted

/-!
What expressions evaluate to, and what is claimed on the way. Operators have their mathematical
meaning, global values and uninterpreted functions are given, and a call of anything else that is
not built in may result in any value of its sort. An evaluation records each contract that it comes
across: those of returns are assumed, those of parameters and casts are required. Every value has
the sort of its expression (`Evaluates.sort_eq`).
-/

namespace ContractCheck

open Smt

variable {carrier : String → Type}

open Classical in
/-- What a built-in operator makes of its operands. -/
noncomputable def Operator.meaning? (z : ByZero) :
    String → List (Value carrier) → Option (Value carrier)
  | "+", [.int a, .int b] => some (.int (a + b))
  | "-", [.int a, .int b] => some (.int (a - b))
  | "*", [.int a, .int b] => some (.int (a * b))
  | "/", [.int a, .int b] => some (.int (z.div a b))
  | "%", [.int a, .int b] => some (.int (z.mod a b))
  | "unary-", [.int a] => some (.int (-a))
  | "<", [.int a, .int b] => some (.bool (decide (a < b)))
  | "<=", [.int a, .int b] => some (.bool (decide (a ≤ b)))
  | ">", [.int a, .int b] => some (.bool (decide (b < a)))
  | ">=", [.int a, .int b] => some (.bool (decide (b ≤ a)))
  | "==", [a, b] => if a.sort = b.sort then some (.bool (decide (a = b))) else none
  | "!=", [a, b] => if a.sort = b.sort then some (.bool (decide (a ≠ b))) else none
  | "&&", [.bool a, .bool b] => some (.bool (a && b))
  | "||", [.bool a, .bool b] => some (.bool (a || b))
  | "=>", [.bool a, .bool b] => some (.bool (!a || b))
  | "!", [.bool a] => some (.bool (!a))
  | _, _ => none

/-- What the global values and the uninterpreted functions are. -/
structure Interpretation (carrier : String → Type) where
  constant : String → Value carrier
  function : String → List (Value carrier) → Value carrier
  byZero : ByZero

namespace Interpretation

/-- Global values and results of uninterpreted functions have their sorts. -/
structure Fits (I : Interpretation carrier) (env : Env) : Prop where
  constant : ∀ name sort, env.valueSort? name = some sort → (I.constant name).sort = sort
  function : ∀ name sig rank, env.get? name = some sig → sig.origin = .uninterpreted →
    sig.rank? = some rank → ∀ args : List (Value carrier),
      args.map Value.sort = rank.domain → (I.function name args).sort = rank.range

/-- A variable that is not bound is a global value. -/
def lookup (I : Interpretation carrier) (scope : NameMap (Value carrier)) (name : String) :
    Value carrier :=
  (scope.get? name).getD (I.constant name)

/-- The variables of a context have values of their sorts. -/
def FitsScope (I : Interpretation carrier) (env : Env) (context : NameMap SolverSort)
    (scope : NameMap (Value carrier)) : Prop :=
  ∀ name sort, env.variableSort? context name = some sort → (I.lookup scope name).sort = sort

end Interpretation

/-- A claim that an evaluation comes across. -/
inductive Finding where
  | assumed (fact : Prop)
  | required (fact : Prop)

/-- All that is assumed is true. -/
def Granted : List Finding → Prop
  | [] => True
  | .assumed fact :: rest => fact ∧ Granted rest
  | .required _ :: rest => Granted rest

/-- All that is required is true, if what was assumed before is. -/
def Sound : List Finding → Prop
  | [] => True
  | .assumed fact :: rest => fact → Sound rest
  | .required fact :: rest => fact ∧ Sound rest

@[simp] theorem granted_append {F G : List Finding} :
    Granted (F ++ G) ↔ Granted F ∧ Granted G := by
  induction F with
  | nil => simp [Granted]
  | cons finding rest ih => cases finding <;> simp [Granted, ih, and_assoc]

theorem sound_append {F G : List Finding} :
    Sound (F ++ G) ↔ Sound F ∧ (Granted F → Sound G) := by
  induction F with
  | nil => simp [Sound, Granted]
  | cons finding rest ih =>
      cases finding with
      | assumed fact =>
          simp only [List.cons_append, Sound, Granted, ih]
          exact ⟨fun h => ⟨fun hfact => (h hfact).1, fun hall => (h hall.1).2 hall.2⟩,
            fun h hfact => ⟨h.1 hfact, fun hrest => h.2 ⟨hfact, hrest⟩⟩⟩
      | required fact => simp only [List.cons_append, Sound, Granted, ih, and_assoc]

/-- What a clause states of its subject, once its expression has a value. -/
def Clause.Holds (subject v : Value carrier) : Clause → Prop
  | .holds _ => v = .bool true
  | .equals _ => subject = v

mutual

/-- Where variables have these values, the expression may evaluate to this value with these
findings. -/
inductive Evaluates (env : Env) (I : Interpretation carrier) :
    NameMap (Value carrier) → Expr → Value carrier → List Finding → Prop where
  | var {scope ty name span} : Evaluates env I scope ⟨ty, .var name, span⟩ (I.lookup scope name) []
  | bool {scope ty b span} : Evaluates env I scope ⟨ty, .bool b, span⟩ (.bool b) []
  | int {scope ty n span} : Evaluates env I scope ⟨ty, .int n, span⟩ (.int n.toInt) []
  | letIn {scope ty name value body span v w F G} (hvalue : Evaluates env I scope value v F)
      (hbody : Evaluates env I (scope.insert name v) body w G) :
      Evaluates env I scope ⟨ty, .letIn name value body, span⟩ w (F ++ G)
  | onTrue {scope ty test a b span v F G} (htest : Evaluates env I scope test (.bool true) F)
      (ha : Evaluates env I scope a v G) :
      Evaluates env I scope ⟨ty, .ite test a b, span⟩ v (F ++ G)
  | onFalse {scope ty test a b span v F G} (htest : Evaluates env I scope test (.bool false) F)
      (hb : Evaluates env I scope b v G) :
      Evaluates env I scope ⟨ty, .ite test a b, span⟩ v (F ++ G)
  | cast {scope ty expr target span v F G} (hexpr : Evaluates env I scope expr v F)
      (hcontract : States env I .required (target.bindIn scope v) v target G) :
      Evaluates env I scope ⟨ty, .cast expr target, span⟩ v (F ++ G)
  /-- The arguments determine the result. -/
  | operator {scope ty callee args span name sig params ret binders vs v F}
      (hcallee : callee.shape = .var name) (hsig : env.get? name = some sig)
      (harrow : sig.ty.ty.arrow? = some (params, ret)) (horigin : sig.origin = .builtin)
      (hargs : EvaluatesArgs env I scope (params.zip args) ∅ binders vs F)
      (hmeaning : Operator.meaning? I.byZero name vs = some v) :
      Evaluates env I scope ⟨ty, .call callee args, span⟩ v F
  /-- Any result of the right sort is possible unless the function is interpreted. -/
  | call {scope ty callee args span name sig params ret binders vs v F G}
      (hcallee : callee.shape = .var name) (hsig : env.get? name = some sig)
      (harrow : sig.ty.ty.arrow? = some (params, ret)) (horigin : sig.origin ≠ .builtin)
      (hargs : EvaluatesArgs env I scope (params.zip args) ∅ binders vs F)
      (hsort : SolverSort.of? ret.ty = some v.sort)
      (hfunction : sig.origin = .uninterpreted → v = I.function name vs)
      (hcontract : States env I .assumed (ret.bindIn binders v) v ret G) :
      Evaluates env I scope ⟨ty, .call callee args, span⟩ v (F ++ G)

/-- Arguments are evaluated in the caller's scope, and what is required of them where the binders
of their parameters are bound. -/
inductive EvaluatesArgs (env : Env) (I : Interpretation carrier) :
    NameMap (Value carrier) → List (RefinedTy × Expr) → NameMap (Value carrier) →
      NameMap (Value carrier) → List (Value carrier) → List Finding → Prop where
  | nil {scope binders} : EvaluatesArgs env I scope [] binders binders [] []
  | cons {scope param arg rest binders binders' v vs F G H}
      (harg : Evaluates env I scope arg v F)
      (hcontract : States env I .required (param.bindIn binders v) v param G)
      (hrest : EvaluatesArgs env I scope rest (param.bindIn binders v) binders' vs H) :
      EvaluatesArgs env I scope ((param, arg) :: rest) binders binders' (v :: vs) (F ++ (G ++ H))

/-- What a refined type states of its subject is found, after what is found in its clause. -/
inductive States (env : Env) (I : Interpretation carrier) :
    (Prop → Finding) → NameMap (Value carrier) → Value carrier → RefinedTy → List Finding →
      Prop where
  | nothing {kind scope subject t} (h : t.contract? = none) :
      States env I kind scope subject t []
  | clause {kind scope subject t binder c v F} (h : t.contract? = some (binder, c))
      (hclause : Evaluates env I scope c.expr v F) :
      States env I kind scope subject t (F ++ [kind (c.Holds subject v)])

end

section

variable {env : Env} {I : Interpretation carrier} {lets : Bool} {context : NameMap SolverSort}

theorem Value.eq_pair_of_sorts {vs : List (Value carrier)} {a b : SolverSort}
    (h : vs.map Value.sort = [a, b]) : ∃ v w, vs = [v, w] ∧ v.sort = a ∧ w.sort = b := by
  obtain ⟨v, rest, rfl, hv, h⟩ := List.map_eq_cons_iff.1 h
  obtain ⟨w, rest, rfl, hw, h⟩ := List.map_eq_cons_iff.1 h
  obtain rfl := List.map_eq_nil_iff.1 h
  exact ⟨v, w, rfl, hv, hw⟩

/-- An operator has a meaning for operands of its sorts, and the result has the sort it should. -/
theorem Operator.exists_meaning (z : ByZero) {name : String} {vs : List (Value carrier)}
    {sort : SolverSort} (h : Operator.resultSort? name (vs.map Value.sort) = some sort) :
    ∃ v, Operator.meaning? z name vs = some v ∧ v.sort = sort := by
  unfold Operator.resultSort? at h
  split at h
  case h_6 hsorts =>
    cases h
    obtain ⟨v, rfl, hv⟩ := List.map_eq_singleton_iff.1 hsorts
    obtain ⟨a, rfl⟩ := Value.eq_int_of_sort hv
    exact ⟨_, rfl, rfl⟩
  case h_16 hsorts =>
    cases h
    obtain ⟨v, rfl, hv⟩ := List.map_eq_singleton_iff.1 hsorts
    obtain ⟨a, rfl⟩ := Value.eq_bool_of_sort hv
    exact ⟨_, rfl, rfl⟩
  case h_11 hsorts | h_12 hsorts =>
    obtain ⟨v, w, rfl, hv, hw⟩ := Value.eq_pair_of_sorts hsorts
    rw [← hv, ← hw] at h
    split at h
    · rename_i hsame
      cases h
      exact ⟨_, if_pos hsame, rfl⟩
    · cases h
  case h_13 hsorts | h_14 hsorts | h_15 hsorts =>
    cases h
    obtain ⟨v, w, rfl, hv, hw⟩ := Value.eq_pair_of_sorts hsorts
    obtain ⟨a, rfl⟩ := Value.eq_bool_of_sort hv
    obtain ⟨b, rfl⟩ := Value.eq_bool_of_sort hw
    exact ⟨_, rfl, rfl⟩
  case h_17 => cases h
  all_goals
    rename_i hsorts
    cases h
    obtain ⟨v, w, rfl, hv, hw⟩ := Value.eq_pair_of_sorts hsorts
    obtain ⟨a, rfl⟩ := Value.eq_int_of_sort hv
    obtain ⟨b, rfl⟩ := Value.eq_int_of_sort hw
    exact ⟨_, rfl, rfl⟩

theorem Operator.sort_of_meaning? {z : ByZero} {name : String} {vs : List (Value carrier)}
    {v : Value carrier} {sort : SolverSort} (h : Operator.meaning? z name vs = some v)
    (hsort : Operator.resultSort? name (vs.map Value.sort) = some sort) : v.sort = sort := by
  obtain ⟨w, hw, hwsort⟩ := Operator.exists_meaning z hsort
  obtain rfl := Option.some.inj (h.symm.trans hw)
  exact hwsort

theorem Interpretation.FitsScope.insert {scope : NameMap (Value carrier)}
    (h : I.FitsScope env context scope) (name : String) (v : Value carrier) :
    I.FitsScope env (context.insert name v.sort) (scope.insert name v) := by
  intro other sort hsort
  unfold Env.variableSort? at hsort
  unfold Interpretation.lookup
  rw [NameMap.get?_insert] at hsort ⊢
  by_cases hother : other = name
  · rw [if_pos hother] at hsort ⊢
    exact Option.some.inj hsort
  · rw [if_neg hother] at hsort ⊢
    exact h other sort hsort

theorem Interpretation.Fits.fitsScope_empty (hI : I.Fits env) : I.FitsScope env ∅ ∅ :=
  fun name sort hsort => hI.constant name sort hsort

theorem Interpretation.FitsScope.bindIn {scope : NameMap (Value carrier)}
    (h : I.FitsScope env context scope) (t : RefinedTy) (v : Value carrier) :
    I.FitsScope env (t.bindIn context v.sort) (t.bindIn scope v) := by
  cases t with
  | plain ty => exact h
  | refined ty refinement => exact h.insert refinement.binder v

mutual

/-- A value has the sort of its expression. -/
theorem Evaluates.sort_eq : ∀ {lets : Bool} {context : NameMap SolverSort}
    {scope : NameMap (Value carrier)} {e : Expr} {v : Value carrier} {F : List Finding}
    {sort : SolverSort}, Evaluates env I scope e v F → e.sort? env lets context = some sort →
      I.FitsScope env context scope → v.sort = sort
  | lets, context, scope, _, _, _, sort, .var, h, hscope => by
      obtain ⟨h, -⟩ := Expr.sort?_eq_some_iff.1 h
      rw [Shape.sort?] at h
      exact hscope _ _ h
  | lets, context, scope, _, _, _, sort, .bool, h, hscope => by
      obtain ⟨h, -⟩ := Expr.sort?_eq_some_iff.1 h
      rw [Shape.sort?] at h
      exact Option.some.inj h
  | lets, context, scope, _, _, _, sort, .int, h, hscope => by
      obtain ⟨h, -⟩ := Expr.sort?_eq_some_iff.1 h
      rw [Shape.sort?] at h
      exact Option.some.inj h
  | lets, context, scope, _, _, _, sort, .letIn hvalue hbody, h, hscope => by
      obtain ⟨h, -⟩ := Expr.sort?_eq_some_iff.1 h
      obtain ⟨-, -, bound, hbound, hrest⟩ := Shape.sort?_letIn_eq_some h
      obtain rfl := hvalue.sort_eq hbound hscope
      exact hbody.sort_eq hrest (hscope.insert _ _)
  | lets, context, scope, _, _, _, sort, .onTrue htest ha, h, hscope => by
      obtain ⟨h, -⟩ := Expr.sort?_eq_some_iff.1 h
      obtain ⟨-, hsort, -⟩ := Shape.sort?_ite_eq_some h
      exact ha.sort_eq hsort hscope
  | lets, context, scope, _, _, _, sort, .onFalse htest hb, h, hscope => by
      obtain ⟨h, -⟩ := Expr.sort?_eq_some_iff.1 h
      obtain ⟨-, -, hsort⟩ := Shape.sort?_ite_eq_some h
      exact hb.sort_eq hsort hscope
  | lets, context, scope, _, _, _, sort, .cast hexpr _, h, hscope => by
      obtain ⟨h, -⟩ := Expr.sort?_eq_some_iff.1 h
      obtain ⟨hsort, -⟩ := Shape.sort?_cast_eq_some_iff.1 h
      exact hexpr.sort_eq hsort hscope
  | lets, context, scope, _, _, _, sort, .operator hcallee hsig harrow horigin hargs hmeaning, h,
      hscope => by
      obtain ⟨h, -⟩ := Expr.sort?_eq_some_iff.1 h
      obtain ⟨name, sig, rank, hcallee', hsig', hrank, hsorts, rfl, hbuiltin⟩ :=
        Shape.sort?_call_eq_some h
      obtain rfl := Shape.var.inj (hcallee.symm.trans hcallee')
      obtain rfl := Option.some.inj (hsig.symm.trans hsig')
      refine Operator.sort_of_meaning? hmeaning ?_
      rw [hargs.sorts_eq (Signature.sorts?_zip harrow hrank hsorts) hscope, hbuiltin horigin]
  | lets, context, scope, _, _, _, sort, .call hcallee hsig harrow horigin hargs hsort hfunction _,
      h, hscope => by
      obtain ⟨h, -⟩ := Expr.sort?_eq_some_iff.1 h
      obtain ⟨name, sig, rank, hcallee', hsig', hrank, hsorts, rfl, hbuiltin⟩ :=
        Shape.sort?_call_eq_some h
      obtain rfl := Shape.var.inj (hcallee.symm.trans hcallee')
      obtain rfl := Option.some.inj (hsig.symm.trans hsig')
      obtain ⟨-, hrange⟩ := Signature.rank?_eq_some harrow hrank
      exact Option.some.inj (hsort.symm.trans hrange)

theorem EvaluatesArgs.sorts_eq : ∀ {lets : Bool} {context : NameMap SolverSort}
    {scope binders binders' : NameMap (Value carrier)} {pairs : List (RefinedTy × Expr)}
    {vs : List (Value carrier)} {F : List Finding} {sorts : List SolverSort},
    EvaluatesArgs env I scope pairs binders binders' vs F →
      Expr.sorts? env lets context (pairs.map (·.2)) = some sorts →
      I.FitsScope env context scope → vs.map Value.sort = sorts
  | lets, context, scope, _, _, _, _, _, sorts, .nil, h, hscope => by
      rw [List.map_nil, Expr.sorts?] at h
      exact Option.some.inj h
  | lets, context, scope, _, _, _, _, _, sorts, .cons harg hcontract hrest, h, hscope => by
      rw [List.map_cons, Expr.sorts?] at h
      obtain ⟨sort, hsort, h⟩ := Option.bind_eq_some_iff.1 h
      obtain ⟨rest, hsorts, rfl⟩ := Option.map_eq_some_iff.1 h
      rw [List.map_cons, harg.sort_eq hsort hscope, hrest.sorts_eq hsorts hscope]

end

end

end ContractCheck
