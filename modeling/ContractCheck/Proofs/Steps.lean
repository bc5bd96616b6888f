import Mathlib.Algebra.GroupWithZero.Nat
import ContractCheck.Proofs.Congruence

/-!
How many steps a walk takes. Each step is one level of the walk, over one expression; a step that
leaves a mark first (`Checker.marking`) makes them countable. A walk with marks goes as it goes
without them, on every course, and the marks on a course are at most as many as the expressions that
the walk can go on to from where it begins, repetitions counted (`Checker.marked_walkOver`).
-/

namespace ContractCheck

/-- The expression of a type's clause, if it has one. -/
def RefinedTy.clauseExprs (t : RefinedTy) : List Expr := (t.clause?.map Clause.expr).toList

namespace RefinedTy

@[simp] theorem clauseExprs_holds (ty : Ty) (binder : String) (pred : Expr) :
    (refined ty (.holds binder pred)).clauseExprs = [pred] := rfl

@[simp] theorem clauseExprs_equals (ty : Ty) (binder : String) (value : Expr) :
    (refined ty (.equals binder value)).clauseExprs = [value] := rfl

end RefinedTy

theorem Signature.clauses_eq_flatMap {sig : Signature} {params : List RefinedTy}
    {ret : RefinedTy} (harrow : sig.ty.ty.arrow? = some (params, ret)) :
    sig.clauses = params.flatMap RefinedTy.clauseExprs ++ ret.clauseExprs := by
  have hmap : ∀ ts : List RefinedTy, (ts.filterMap fun t => t.clause?.map Clause.expr) =
      ts.flatMap RefinedTy.clauseExprs := by
    intro ts
    induction ts with
    | nil => rfl
    | cons t rest ih =>
        rw [List.filterMap_cons, List.flatMap_cons, ih, RefinedTy.clauseExprs]
        cases t.clause?.map Clause.expr <;> rfl
  unfold clauses
  rw [harrow]
  dsimp only
  rw [hmap, List.flatMap_append, List.flatMap_singleton]

/-- The expressions that the walk over an expression goes on to: those inside it that it walks over,
and the clauses of what it calls. -/
def Env.goesOnTo (env : Env) (e : Expr) : List Expr :=
  match e.shape with
  | .call callee args =>
    args ++ callee.shape.calledName.flatMap fun name =>
      ((env.get? name).map Signature.clauses).getD []
  | .letIn _ value body => [value, body]
  | .cast e target => e :: target.clauseExprs
  | .var _ | .bool _ | .int _ | .ite _ _ _ | .lambda _ _ => []

/-- The steps that a walk of so many levels can take at most. -/
def Env.stepsWithin (env : Env) : Nat → Expr → Nat
  | 0, _ => 0
  | depth + 1, e => ((env.goesOnTo e).map (env.stepsWithin depth)).sum + 1

namespace Dialogue

variable {α β : Type}

/-- What is noted at each step. -/
def stepMark : String := "step"

/-- The first dialogue goes as the second, but for step marks, and no course has more of these than
the number says. -/
inductive Marked : Nat → Dialogue α → Dialogue α → Prop where
  | done (n : Nat) (a : α) : Marked n (.done a) (.done a)
  | mark {n : Nat} {d d' : Dialogue α} (h : Marked n d d') : Marked (n + 1) (.note stepMark d) d'
  | note (text : String) {n : Nat} {d d' : Dialogue α} (h : Marked n d d') :
      Marked n (.note text d) (.note text d')
  | act (deed : Deed) {n : Nat} {next next' : Outcome Unit → Dialogue α}
      (h : ∀ outcome, Marked n (next outcome) (next' outcome)) :
      Marked n (.act deed next) (.act deed next')
  | checkSat {n : Nat} {next next' : Outcome String → Dialogue α}
      (h : ∀ outcome, Marked n (next outcome) (next' outcome)) :
      Marked n (.checkSat next) (.checkSat next')

theorem Marked.refl (n : Nat) (d : Dialogue α) : Marked n d d := by
  induction d with
  | done a => exact .done n a
  | note text next ih => exact .note text ih
  | act deed next ih => exact .act deed ih
  | checkSat next ih => exact .checkSat ih

theorem Marked.mono {m n : Nat} {d d' : Dialogue α} (h : Marked m d d') (hle : m ≤ n) :
    Marked n d d' := by
  induction h generalizing n with
  | done m a => exact .done n a
  | @mark m d d' _ ih =>
      obtain ⟨k, rfl⟩ : ∃ k, n = k + 1 := ⟨n - 1, by omega⟩
      exact .mark (ih (by omega))
  | note text _ ih => exact .note text (ih hle)
  | act deed _ ih => exact .act deed fun outcome => ih outcome hle
  | checkSat _ ih => exact .checkSat fun outcome => ih outcome hle

theorem Marked.bind {m n : Nat} {d d' : Dialogue α} (h : Marked m d d')
    {f f' : α → Dialogue β} (hf : ∀ a, Marked n (f a) (f' a)) :
    Marked (m + n) (d.bind f) (d'.bind f') := by
  induction h with
  | done m a => exact (hf a).mono (Nat.le_add_left n m)
  | @mark m d d' _ ih =>
      rw [show m + 1 + n = m + n + 1 by omega]
      exact .mark ih
  | note text _ ih => exact .note text ih
  | act deed _ ih => exact .act deed ih
  | checkSat _ ih => exact .checkSat ih

end Dialogue

namespace Checker

variable {α β : Type}

/-- A part that leaves a mark before it begins. -/
def marking (part : CheckM α) : CheckM α := do
  note Dialogue.stepMark
  part

/-- The walk over `base`: at most so many levels, with `around` put around each of them, and then
`base` for what is further inside. -/
def walkOver (env : Env) (around : CheckM Term → CheckM Term) (base : Walk) : Nat → Walk
  | 0 => base
  | depth + 1 => fun mode locals e =>
    around (checkExpr env (walkOver env around base depth) mode locals e)

/-- The first part is the second with at most so many marks in it. -/
def MarkedPart (n : Nat) (part part' : CheckM α) : Prop :=
  ∀ p, Dialogue.Marked n (part p) (part' p)

/-- The first walk is the second with at most as many marks as the expression costs. -/
def MarkedWalk (cost : Expr → Nat) (walk walk' : Walk) : Prop :=
  ∀ mode locals e, MarkedPart (cost e) (walk mode locals e) (walk' mode locals e)

theorem marked_refl (n : Nat) (part : CheckM α) : MarkedPart n part part :=
  fun p => .refl n (part p)

theorem MarkedPart.mono {m n : Nat} {part part' : CheckM α} (h : MarkedPart m part part')
    (hle : m ≤ n) : MarkedPart n part part' := fun p => (h p).mono hle

theorem MarkedPart.bind {m n : Nat} {part part' : CheckM α} (h : MarkedPart m part part')
    {f f' : α → CheckM β} (hf : ∀ a, MarkedPart n (f a) (f' a)) :
    MarkedPart (m + n) (part >>= f) (part' >>= f') := by
  intro p
  rw [bind_apply, bind_apply]
  refine (h p).bind ?_
  rintro ⟨failure | a, p'⟩
  · exact .done n _
  · exact hf a p'

/-- Marks in what comes after a part that has none. -/
theorem marked_after {n : Nat} (part : CheckM α) {f f' : α → CheckM β}
    (hf : ∀ a, MarkedPart n (f a) (f' a)) : MarkedPart n (part >>= f) (part >>= f') := by
  have h := (marked_refl 0 part).bind hf
  rwa [Nat.zero_add] at h

/-- Marks in what comes before a part that has none. -/
theorem MarkedPart.before {n : Nat} {part part' : CheckM α} (h : MarkedPart n part part')
    (f : α → CheckM β) : MarkedPart n (part >>= f) (part' >>= f) :=
  h.bind (n := 0) fun a => marked_refl 0 (f a)

theorem MarkedPart.adapt {n : Nat} {part part' : CheckM α} (h : MarkedPart n part part')
    (f : Failure → Failure) : MarkedPart n (part.adapt f) (part'.adapt f) := by
  intro p
  rw [adapt_apply, adapt_apply]
  exact (h p).bind (n := 0) fun r => .refl 0 _

theorem MarkedPart.scope {n : Nat} {part part' : CheckM α} (h : MarkedPart n part part') :
    MarkedPart n (inSolverScope part) (inSolverScope part') := by
  intro p
  rw [inSolverScope_apply, inSolverScope_apply]
  refine .act .push fun outcome => ?_
  cases outcome with
  | error failure => exact .refl n _
  | ok u => exact (h p).bind (n := 0) fun r => .refl 0 _

theorem MarkedPart.marking {n : Nat} {part part' : CheckM α} (h : MarkedPart n part part') :
    MarkedPart (n + 1) (marking part) part' := fun p => .mark (h p)

section

variable {cost : Expr → Nat} {walk walk' : Walk} (hwalk : MarkedWalk cost walk walk')
include hwalk

theorem marked_prove (locals : Bindings) (binder : String) (clause : Clause)
    (span : Option Span) : MarkedPart (cost clause.expr) (prove walk locals binder clause span)
      (prove walk' locals binder clause span) := by
  cases clause with
  | holds pred =>
      refine marked_after _ fun _ => marked_after _ fun _ => .scope ?_
      exact (hwalk .full locals pred).before _
  | equals value =>
      refine marked_after _ fun _ => .scope (marked_after _ fun _ => ?_)
      exact (hwalk .full locals value).before _

theorem marked_assume (locals : Bindings) (result : Term) (clause : Clause)
    (span : Option Span) : MarkedPart (cost clause.expr) (assume walk locals result clause span)
      (assume walk' locals result clause span) := by
  cases clause with
  | holds pred => exact marked_after _ fun _ => (hwalk .full locals pred).before _
  | equals value => exact (hwalk .full locals value).before _

/-- Each argument costs its own steps, and each clause of a parameter those of its proof. -/
theorem marked_checkArgs (callee : String) (span : Option Span) (locals : Bindings)
    (pairs : List (RefinedTy × Expr)) (binders : Bindings) :
    MarkedPart (((pairs.map (·.2)).map cost).sum +
        (((pairs.map (·.1)).flatMap RefinedTy.clauseExprs).map cost).sum)
      (checkArgs walk callee span locals pairs binders)
      (checkArgs walk' callee span locals pairs binders) := by
  induction pairs generalizing binders with
  | nil => exact marked_refl _ _
  | cons head rest ih =>
      obtain ⟨param, arg⟩ := head
      have hrest : ∀ binders (term : Term), MarkedPart _
          (checkArgs walk callee span locals rest binders >>= fun r =>
            pure (r.1, term :: r.2))
          (checkArgs walk' callee span locals rest binders >>= fun r =>
            pure (r.1, term :: r.2)) := fun binders term => (ih binders).before _
      have hproved : ∀ binders binder clause, MarkedPart (cost clause.expr)
          (inContext ("precondition of `" ++ callee ++ "`")
            (prove walk binders binder clause (arg.span.or span)))
          (inContext ("precondition of `" ++ callee ++ "`")
            (prove walk' binders binder clause (arg.span.or span))) :=
        fun binders binder clause => (marked_prove hwalk binders binder clause _).adapt _
      simp only [List.map_cons, List.flatMap_cons, List.map_append, List.sum_append,
        List.sum_cons]
      rcases param with ty | ⟨ty, binder | ⟨binder, pred⟩ | ⟨binder, value⟩⟩
      · refine ((hwalk .full locals arg).bind fun term => hrest binders term).mono ?_
        omega
      · refine ((hwalk .simple locals arg).bind fun term => hrest _ term).mono ?_
        omega
      · refine ((hwalk .simple locals arg).bind fun term =>
          (hproved _ binder (.holds pred)).bind fun _ => hrest _ term).mono ?_
        simp only [RefinedTy.clauseExprs_holds, List.map_cons, List.map_nil, List.sum_cons,
          List.sum_nil, Clause.expr]
        omega
      · refine ((hwalk .simple locals arg).bind fun term =>
          (hproved _ binder (.equals value)).bind fun _ => hrest _ term).mono ?_
        simp only [RefinedTy.clauseExprs_equals, List.map_cons, List.map_nil, List.sum_cons,
          List.sum_nil, Clause.expr]
        omega

theorem marked_assumeReturn (callee : String) (ret : RefinedTy) (binders : Bindings)
    (result : Term) (span : Option Span) :
    MarkedPart (ret.clauseExprs.map cost).sum
      (assumeReturn walk callee ret binders result span)
      (assumeReturn walk' callee ret binders result span) := by
  rcases ret with ty | ⟨ty, binder | ⟨binder, pred⟩ | ⟨binder, value⟩⟩
  · exact marked_refl _ _
  · exact marked_refl _ _
  · exact ((marked_assume hwalk _ result (.holds pred) span).adapt _).before _
  · exact ((marked_assume hwalk _ result (.equals value) span).adapt _).before _

theorem marked_checkResult (callee : String) (origin : Origin) (ret : RefinedTy)
    (binders : Bindings) (terms : List Term) (span : Option Span) :
    MarkedPart (ret.clauseExprs.map cost).sum
      (checkResult walk callee origin ret binders terms span)
      (checkResult walk' callee origin ret binders terms span) := by
  refine marked_after _ fun name => ?_
  have hreturn := marked_assumeReturn hwalk callee ret binders (.symbol name) span
  by_cases horigin : origin = .uninterpreted
  · simp only [if_pos horigin]
    exact marked_after _ fun _ => hreturn
  · simp only [if_neg horigin]
    exact hreturn

/-- A call costs the steps of its arguments, and of the contracts of what it calls. -/
theorem marked_checkCall (env : Env) (mode : Mode) (locals : Bindings) (ty : Ty) (callee : Expr)
    (args : List Expr) (span : Option Span) :
    MarkedPart ((env.goesOnTo ⟨ty, .call callee args, span⟩).map cost).sum
      (checkCall env walk mode locals callee args span)
      (checkCall env walk' mode locals callee args span) := by
  unfold checkCall
  rcases hresolve : resolveCall env callee args span with failure | ⟨name, origin, params, ret⟩
  · simp only [ofOutcome_error_bind]
    exact marked_refl _ _
  obtain ⟨hcallee, sig, hsig, -, harrow, hlength⟩ := resolveCall_eq_ok hresolve
  have hcost : ((env.goesOnTo ⟨ty, .call callee args, span⟩).map cost).sum =
      ((args.map cost).sum + ((params.flatMap RefinedTy.clauseExprs).map cost).sum) +
        (ret.clauseExprs.map cost).sum := by
    simp only [Env.goesOnTo, hcallee, Shape.calledName, List.flatMap_singleton, hsig,
      Option.map_some, Option.getD_some, Signature.clauses_eq_flatMap harrow, List.map_append,
      List.sum_append]
    omega
  have hargs := marked_checkArgs hwalk name span locals (params.zip args) ∅
  rw [List.map_snd_zip (Nat.le_of_eq hlength.symm), List.map_fst_zip (Nat.le_of_eq hlength)]
    at hargs
  rw [hcost]
  simp only [ofOutcome_ok_bind]
  refine hargs.bind ?_
  rintro ⟨binders, terms⟩
  by_cases horigin : origin = .builtin
  · simp only [if_pos horigin]
    exact marked_refl _ _
  · simp only [if_neg horigin]
    exact marked_checkResult hwalk name origin ret binders terms span

/-- One level of the walk costs what all that it goes on to costs. -/
theorem marked_checkExpr (env : Env) : MarkedWalk (fun e => ((env.goesOnTo e).map cost).sum)
    (checkExpr env walk) (checkExpr env walk') := by
  rintro mode locals ⟨ty, shape, span⟩
  cases shape with
  | var name => exact marked_refl _ _
  | bool value => exact marked_refl _ _
  | int value => exact marked_refl _ _
  | ite test onTrue onFalse => exact marked_refl _ _
  | lambda params body => exact marked_refl _ _
  | call callee args => exact marked_checkCall hwalk env mode locals ty callee args span
  | letIn name value body =>
      have hvalue := hwalk .full locals value
      have hbody := hwalk mode locals body
      refine marked_after _ fun _ => marked_after _ fun _ => ?_
      exact hvalue.bind fun _ => marked_after _ fun _ => hbody
  | cast e target =>
      have he := hwalk mode locals e
      change MarkedPart (cost e + (target.clauseExprs.map cost).sum) _ _
      refine he.bind fun term => ?_
      rcases target with ty | ⟨ty, binder | ⟨binder, pred⟩ | ⟨binder, value⟩⟩
      · exact marked_refl _ _
      · exact marked_refl _ _
      · exact (marked_prove hwalk _ binder (.holds pred) span).before _
      · exact (marked_prove hwalk _ binder (.equals value) span).before _

end

/-- With a mark at each step, a walk goes as without them, and leaves no more marks than the steps
that so many levels can take. -/
theorem marked_walkOver (env : Env) (base : Walk) (depth : Nat) :
    MarkedWalk (env.stepsWithin depth) (walkOver env marking base depth)
      (walkOver env id base depth) := by
  induction depth with
  | zero => exact fun mode locals e => marked_refl 0 _
  | succ depth ih => exact fun mode locals e => (marked_checkExpr ih env mode locals e).marking

end Checker

end ContractCheck
