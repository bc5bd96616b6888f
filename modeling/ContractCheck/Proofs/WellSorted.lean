import ContractCheck.Proofs.SolverNames
import ContractCheck.Proofs.Walk
import Mathlib.Data.List.Forall2

/-!
Which expressions are well-sorted in an environment, as a function that computes the sort of an
expression. Every node has a type of the sort that the node has, variables are bound by an enclosing
`let`, by a contract's binder or by a global value, arguments have the sorts of their parameters,
and built-in operators have their usual ranks. A clause contains no `let`.
-/

namespace ContractCheck

open Smt

/-- The sort of a type with a name. -/
def Ty.sort? (ty : Ty) : Option SolverSort :=
  (SolverSort.of? ty).filter fun sort => sort ≠ .named ""

theorem Ty.sort?_eq_some_iff {ty : Ty} {sort : SolverSort} :
    ty.sort? = some sort ↔ SolverSort.of? ty = some sort ∧ sort ≠ .named "" := by
  rw [Ty.sort?, Option.filter_eq_some_iff, decide_eq_true_eq]

/-- The sort of an operator's result, from the sorts of its operands. -/
def Operator.resultSort? : String → List SolverSort → Option SolverSort
  | "+", [.int, .int] | "-", [.int, .int] | "*", [.int, .int] => some .int
  | "/", [.int, .int] | "%", [.int, .int] | "unary-", [.int] => some .int
  | "<", [.int, .int] | "<=", [.int, .int] | ">", [.int, .int] | ">=", [.int, .int] => some .bool
  | "==", [a, b] | "!=", [a, b] => if a = b then some .bool else none
  | "&&", [.bool, .bool] | "||", [.bool, .bool] | "=>", [.bool, .bool] => some .bool
  | "!", [.bool] => some .bool
  | _, _ => none

namespace Signature

/-- The sorts of a function's parameters and of its result. -/
def rank? (sig : Signature) : Option Rank :=
  match sig.ty.ty.arrow? with
  | none => none
  | some (params, ret) =>
    (params.mapM fun p => SolverSort.of? p.ty).bind fun domain =>
      (SolverSort.of? ret.ty).map fun range => ⟨domain, range⟩

/-- The rank that the solver knows a global value or an uninterpreted function with. -/
def globalRank? (sig : Signature) : Option Rank :=
  match sig.origin with
  | .builtin | .primitive => none
  | .value => (SolverSort.of? sig.ty.ty).map fun sort => ⟨[], sort⟩
  | .uninterpreted => sig.rank?

/-- The sort of a call with arguments of these sorts. -/
def callSort? (name : String) (sig : Signature) (sorts : List SolverSort) : Option SolverSort :=
  sig.rank?.bind fun rank =>
    if rank.domain = sorts ∧
        (sig.origin = .builtin → Operator.resultSort? name sorts = some rank.range) then
      some rank.range
    else none

end Signature

namespace Env

/-- The sort of a global value. -/
def valueSort? (env : Env) (name : String) : Option SolverSort :=
  (env.get? name).bind fun sig =>
    if sig.origin = .value then SolverSort.of? sig.ty.ty else none

/-- The sort of a variable, where these variables are bound. -/
def variableSort? (env : Env) (context : NameMap SolverSort) (name : String) :
    Option SolverSort :=
  (context.get? name).or (env.valueSort? name)

def callSort? (env : Env) (callee : Expr) (sorts : List SolverSort) : Option SolverSort :=
  match callee.shape with
  | .var name => (env.get? name).bind fun sig => sig.callSort? name sorts
  | _ => none

end Env

/-- The binder of a refined type, if there is one, is bound. -/
def RefinedTy.bindIn {α : Type} (t : RefinedTy) (m : NameMap α) (a : α) : NameMap α :=
  match t.refinement? with
  | none => m
  | some refinement => m.insert refinement.binder a

mutual

/-- The sort of an expression, where these variables are bound and a `let` may be allowed. -/
def Expr.sort? (env : Env) (lets : Bool) (context : NameMap SolverSort) :
    Expr → Option SolverSort
  | ⟨ty, shape, _⟩ => (shape.sort? env lets context).filter fun sort => ty.sort? = some sort

def Expr.sorts? (env : Env) (lets : Bool) (context : NameMap SolverSort) :
    List Expr → Option (List SolverSort)
  | [] => some []
  | e :: es =>
    (e.sort? env lets context).bind fun sort =>
      (Expr.sorts? env lets context es).map (sort :: ·)

def Shape.sort? (env : Env) (lets : Bool) (context : NameMap SolverSort) :
    Shape → Option SolverSort
  | .var name => env.variableSort? context name
  | .bool _ => some .bool
  | .int _ => some .int
  | .call callee args => (Expr.sorts? env lets context args).bind (env.callSort? callee)
  | .letIn name value body =>
    if lets = true ∧ isPlainName name = true then
      (value.sort? env lets context).bind fun sort =>
        body.sort? env lets (context.insert name sort)
    else none
  | .ite test onTrue onFalse =>
    if test.sort? env lets context = some .bool then
      (onTrue.sort? env lets context).filter fun sort =>
        onFalse.sort? env lets context = some sort
    else none
  | .lambda _ _ => none
  | .cast expr target =>
    (expr.sort? env lets context).filter fun sort => target.isSorted env context sort

/-- What the refined type states of a value of the sort is well-sorted. -/
def RefinedTy.isSorted (env : Env) (context : NameMap SolverSort) (sort : SolverSort) :
    RefinedTy → Bool
  | .plain _ => true
  | .refined _ refinement => refinement.isSorted env context sort

def Refinement.isSorted (env : Env) (context : NameMap SolverSort) (sort : SolverSort) :
    Refinement → Bool
  | .bind _ => true
  | .holds binder pred => pred.sort? env false (context.insert binder sort) = some .bool
  | .equals binder value => value.sort? env false (context.insert binder sort) = some sort

end

/-- Each contract is well-sorted where its own binder and those before it are bound. -/
def sortedContracts (env : Env) : NameMap SolverSort → List (RefinedTy × SolverSort) → Bool
  | _, [] => true
  | context, (t, sort) :: rest =>
    t.isSorted env context sort && sortedContracts env (t.bindIn context sort) rest

/-- The contracts of a function are well-sorted, unless some parameter has no sort and the function
cannot be called. -/
def Signature.isSorted (env : Env) (sig : Signature) : Bool :=
  match sig.ty.ty.arrow?, sig.rank? with
  | some (params, ret), some rank =>
    sortedContracts env ∅ (params.zip rank.domain ++ [(ret, rank.range)])
  | _, _ => true

namespace Env

def IsSorted (env : Env) : Prop :=
  ∀ name sig, env.get? name = some sig → sig.isSorted env = true

/-- What the solver is to know by name has a plain name. -/
def IsPlain (env : Env) : Prop :=
  ∀ name sig, env.get? name = some sig → sig.globalRank?.isSome = true → isPlainName name = true

end Env

/-- The environment and the expression are well-sorted, the globals have plain names, and no type
lacks a name. -/
structure WellSorted (env : Env) (e : Expr) : Prop where
  expr : (e.sort? env true ∅).isSome = true
  signatures : env.IsSorted
  names : env.IsPlain
  types : "" ∉ (sortsOfRun env e).toList

section

variable (env : Env)

theorem Env.forall_signature_iff (P : String → Signature → Prop) :
    (∀ name sig, env.get? name = some sig → P name sig) ↔
      ∀ entry ∈ env.entries, P entry.1 entry.2 := by
  simp only [NameMap.get?_eq_some_iff, Prod.forall]

instance : Decidable env.IsSorted :=
  decidable_of_iff _ (env.forall_signature_iff fun _ sig => sig.isSorted env = true).symm

instance : Decidable env.IsPlain :=
  decidable_of_iff _ (env.forall_signature_iff fun name sig =>
    sig.globalRank?.isSome = true → isPlainName name = true).symm

theorem wellSorted_iff (e : Expr) : WellSorted env e ↔ (e.sort? env true ∅).isSome = true ∧
    env.IsSorted ∧ env.IsPlain ∧ "" ∉ (sortsOfRun env e).toList :=
  ⟨fun h => ⟨h.expr, h.signatures, h.names, h.types⟩,
    fun ⟨hexpr, hsignatures, hnames, htypes⟩ => ⟨hexpr, hsignatures, hnames, htypes⟩⟩

instance (e : Expr) : Decidable (WellSorted env e) := decidable_of_iff _ (wellSorted_iff env e).symm

end

/-! ### Inversion -/

/-- The sort that a clause's expression has to have. -/
def Clause.sort (subject : SolverSort) : Clause → SolverSort
  | .holds _ => .bool
  | .equals _ => subject

section

variable {env : Env} {lets : Bool} {context : NameMap SolverSort} {sort : SolverSort}

theorem Expr.sort?_eq_some_iff {ty : Ty} {shape : Shape} {span : Option Span} :
    Expr.sort? env lets context ⟨ty, shape, span⟩ = some sort ↔
      shape.sort? env lets context = some sort ∧ ty.sort? = some sort := by
  rw [Expr.sort?, Option.filter_eq_some_iff, decide_eq_true_eq]

theorem Expr.sort?_ty {e : Expr} (h : e.sort? env lets context = some sort) :
    e.ty.sort? = some sort := by
  obtain ⟨ty, shape, span⟩ := e
  exact (Expr.sort?_eq_some_iff.1 h).2

theorem Shape.sort?_call_eq_some {callee : Expr} {args : List Expr}
    (h : (Shape.call callee args).sort? env lets context = some sort) :
    ∃ name sig rank, callee.shape = .var name ∧ env.get? name = some sig ∧
      sig.rank? = some rank ∧ Expr.sorts? env lets context args = some rank.domain ∧
      rank.range = sort ∧
      (sig.origin = .builtin → Operator.resultSort? name rank.domain = some rank.range) := by
  rw [Shape.sort?] at h
  obtain ⟨sorts, hsorts, hcall⟩ := Option.bind_eq_some_iff.1 h
  unfold Env.callSort? at hcall
  split at hcall
  · rename_i name hcallee
    obtain ⟨sig, hsig, hcall⟩ := Option.bind_eq_some_iff.1 hcall
    obtain ⟨rank, hrank, hrange⟩ := Option.bind_eq_some_iff.1 hcall
    split at hrange
    · rename_i hfits
      obtain ⟨rfl, hbuiltin⟩ := hfits
      exact ⟨name, sig, rank, hcallee, hsig, hrank, hsorts, Option.some.inj hrange, hbuiltin⟩
    · cases hrange
  · cases hcall

theorem Shape.sort?_letIn_eq_some {name : String} {value body : Expr}
    (h : (Shape.letIn name value body).sort? env lets context = some sort) :
    lets = true ∧ isPlainName name = true ∧ ∃ bound,
      value.sort? env lets context = some bound ∧
      body.sort? env lets (context.insert name bound) = some sort := by
  rw [Shape.sort?] at h
  split at h
  · rename_i hname
    obtain ⟨bound, hvalue, hbody⟩ := Option.bind_eq_some_iff.1 h
    exact ⟨hname.1, hname.2, bound, hvalue, hbody⟩
  · cases h

theorem Shape.sort?_ite_eq_some {test onTrue onFalse : Expr}
    (h : (Shape.ite test onTrue onFalse).sort? env lets context = some sort) :
    test.sort? env lets context = some .bool ∧ onTrue.sort? env lets context = some sort ∧
      onFalse.sort? env lets context = some sort := by
  rw [Shape.sort?] at h
  split at h
  · rename_i htest
    rw [Option.filter_eq_some_iff, decide_eq_true_eq] at h
    exact ⟨htest, h⟩
  · cases h

theorem Shape.sort?_cast_eq_some_iff {expr : Expr} {target : RefinedTy} :
    (Shape.cast expr target).sort? env lets context = some sort ↔
      expr.sort? env lets context = some sort ∧ target.isSorted env context sort = true := by
  rw [Shape.sort?, Option.filter_eq_some_iff]

theorem RefinedTy.sort?_of_isSorted {t : RefinedTy} {binder : String} {clause : Clause}
    (h : t.isSorted env context sort = true) (hcontract : t.contract? = some (binder, clause)) :
    clause.expr.sort? env false (t.bindIn context sort) = some (clause.sort sort) := by
  cases t with
  | plain ty => cases hcontract
  | refined ty refinement =>
      cases refinement with
      | bind name => cases hcontract
      | holds name pred =>
          cases hcontract
          rw [RefinedTy.isSorted, Refinement.isSorted, decide_eq_true_eq] at h
          exact h
      | equals name value =>
          cases hcontract
          rw [RefinedTy.isSorted, Refinement.isSorted, decide_eq_true_eq] at h
          exact h

/-- The binder of a contract stands for what it was bound to. -/
theorem Bindings.resolve_bindRefined {locals : Bindings} {t : RefinedTy} {binder : String}
    {clause : Clause} (h : t.contract? = some (binder, clause)) (term : Term) :
    (locals.bindRefined t term).resolve binder = term := by
  cases t with
  | plain ty => cases h
  | refined ty refinement =>
      cases refinement with
      | bind name => cases h
      | holds name pred =>
          cases h
          simp [Bindings.bindRefined, RefinedTy.refinement?, Bindings.resolve, Refinement.binder]
      | equals name value =>
          cases h
          simp [Bindings.bindRefined, RefinedTy.refinement?, Bindings.resolve, Refinement.binder]

theorem Signature.rank?_eq_some {sig : Signature} {params : List RefinedTy} {ret : RefinedTy}
    {rank : Rank} (harrow : sig.ty.ty.arrow? = some (params, ret)) (h : sig.rank? = some rank) :
    (params.mapM fun p => SolverSort.of? p.ty) = some rank.domain ∧
      SolverSort.of? ret.ty = some rank.range := by
  unfold Signature.rank? at h
  rw [harrow] at h
  obtain ⟨domain, hdomain, h⟩ := Option.bind_eq_some_iff.1 h
  obtain ⟨range, hrange, rfl⟩ := Option.map_eq_some_iff.1 h
  exact ⟨hdomain, hrange⟩

/-- A global value is declared as a constant of its sort. -/
theorem Env.globalRank?_of_valueSort? {name : String} (h : env.valueSort? name = some sort) :
    ∃ sig, env.get? name = some sig ∧ sig.origin = .value ∧
      sig.globalRank? = some ⟨[], sort⟩ := by
  obtain ⟨sig, hsig, hsort⟩ := Option.bind_eq_some_iff.1 h
  split at hsort
  · rename_i horigin
    refine ⟨sig, hsig, horigin, ?_⟩
    rw [Signature.globalRank?, horigin, hsort]
    rfl
  · cases hsort

theorem forall₂_of_mapM_eq_some {α β : Type} {f : α → Option β} {l : List α} {l' : List β}
    (h : l.mapM f = some l') : List.Forall₂ (fun a b => f a = some b) l l' := by
  induction l generalizing l' with
  | nil =>
      cases h
      exact .nil
  | cons a rest ih =>
      rw [List.mapM_cons] at h
      obtain ⟨b, hb, h⟩ := Option.bind_eq_some_iff.1 h
      obtain ⟨bs, hbs, h⟩ := Option.bind_eq_some_iff.1 h
      cases h
      exact .cons hb (ih hbs)

theorem Expr.length_of_sorts? {es : List Expr} {sorts : List SolverSort}
    (h : Expr.sorts? env lets context es = some sorts) : es.length = sorts.length := by
  induction es generalizing sorts with
  | nil =>
      rw [Expr.sorts?] at h
      cases h
      rfl
  | cons e rest ih =>
      rw [Expr.sorts?] at h
      obtain ⟨sort, -, h⟩ := Option.bind_eq_some_iff.1 h
      obtain ⟨others, hothers, rfl⟩ := Option.map_eq_some_iff.1 h
      rw [List.length_cons, List.length_cons, ih hothers]

/-- A well-sorted call has an argument for each parameter. -/
theorem Signature.sorts?_zip {sig : Signature} {params : List RefinedTy} {ret : RefinedTy}
    {rank : Rank} {args : List Expr} (harrow : sig.ty.ty.arrow? = some (params, ret))
    (hrank : sig.rank? = some rank)
    (hsorts : Expr.sorts? env lets context args = some rank.domain) :
    Expr.sorts? env lets context ((params.zip args).map (·.2)) = some rank.domain := by
  obtain ⟨hdomain, -⟩ := Signature.rank?_eq_some harrow hrank
  have hlength : params.length = args.length := by
    rw [(forall₂_of_mapM_eq_some hdomain).length_eq, Expr.length_of_sorts? hsorts]
  rw [List.map_snd_zip (Nat.le_of_eq hlength.symm)]
  exact hsorts

/-- A well-sorted call has arguments of the sorts of its parameters, whose contracts are well-sorted
in turn. -/
theorem Env.IsSorted.call_inversion (henv : env.IsSorted) {callee : Expr} {args : List Expr}
    {name : String} {sig : Signature} {params : List RefinedTy} {ret : RefinedTy}
    (h : (Shape.call callee args).sort? env lets context = some sort)
    (hcallee : callee.shape = .var name) (hsig : env.get? name = some sig)
    (harrow : sig.ty.ty.arrow? = some (params, ret)) (hlength : params.length = args.length) :
    ∃ rank, sig.rank? = some rank ∧
      Expr.sorts? env lets context ((params.zip args).map (·.2)) = some rank.domain ∧
      sortedContracts env ∅
        (((params.zip args).map (·.1)).zip rank.domain ++ [(ret, rank.range)]) = true ∧
      rank.range = sort := by
  obtain ⟨name', sig', rank, hcallee', hsig', hrank, hsorts, hrange, -⟩ :=
    Shape.sort?_call_eq_some h
  obtain rfl := Shape.var.inj (hcallee.symm.trans hcallee')
  obtain rfl := Option.some.inj (hsig.symm.trans hsig')
  have hsorted := henv name sig hsig
  simp only [Signature.isSorted, harrow, hrank] at hsorted
  refine ⟨rank, hrank, Signature.sorts?_zip harrow hrank hsorts, ?_, hrange⟩
  rw [List.map_fst_zip (Nat.le_of_eq hlength)]
  exact hsorted

end

end ContractCheck
