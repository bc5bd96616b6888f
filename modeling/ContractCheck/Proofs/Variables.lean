import ContractCheck.Proofs.Congruence
import ContractCheck.Run
import ContractCheck.Solver.Scripted

/-!
Which bindings a walk reads: those of the variables that occur in the expression itself, the
contracts of its casts included, and no others (`Checker.check_eq_of_agree`). The contracts of what
is called are walked with bindings of their own, so they never see those of the caller.
-/

namespace ContractCheck

mutual

/-- The names that occur as variables in an expression, the contracts of its casts included. The
name of a callee is none of them. -/
def Expr.variables : Expr → List String
  | ⟨_, shape, _⟩ => shape.variables

def Expr.variablesAll : List Expr → List String
  | [] => []
  | e :: es => e.variables ++ Expr.variablesAll es

def Shape.variables : Shape → List String
  | .var name => [name]
  | .bool _ | .int _ => []
  | .call _ args => Expr.variablesAll args
  | .letIn _ value body => value.variables ++ body.variables
  | .ite test onTrue onFalse => test.variables ++ onTrue.variables ++ onFalse.variables
  | .lambda _ body => body.variables
  | .cast expr target => expr.variables ++ target.variables

def RefinedTy.variables : RefinedTy → List String
  | .plain _ => []
  | .refined _ refinement => refinement.variables

def Refinement.variables : Refinement → List String
  | .bind _ => []
  | .holds _ pred => pred.variables
  | .equals _ value => value.variables

end

/-- A variable of one of several expressions is one of all of them. -/
theorem Expr.mem_variablesAll {es : List Expr} {e : Expr} (he : e ∈ es) {name : String}
    (hname : name ∈ e.variables) : name ∈ Expr.variablesAll es := by
  induction es with
  | nil => cases he
  | cons first rest ih =>
      rw [Expr.variablesAll, List.mem_append]
      rcases List.mem_cons.1 he with rfl | he
      · exact .inl hname
      · exact .inr (ih he)

/-- The variables of a type are those of its contract. -/
theorem RefinedTy.mem_variables {t : RefinedTy} {binder : String} {clause : Clause}
    (h : t.contract? = some (binder, clause)) {name : String}
    (hname : name ∈ clause.expr.variables) : name ∈ t.variables := by
  rcases t with ty | ⟨ty, _ | ⟨_, pred⟩ | ⟨_, value⟩⟩
  · cases h
  · cases h
  · cases h
    rwa [RefinedTy.variables, Refinement.variables]
  · cases h
    rwa [RefinedTy.variables, Refinement.variables]

/-- The bindings give the variables of the expression the same terms. -/
def Bindings.AgreeOn (locals locals' : Bindings) (e : Expr) : Prop :=
  ∀ name ∈ e.variables, locals.get? name = locals'.get? name

namespace Checker

/-- Agreement on the variables of an expression is agreement on those of all that the walk goes on
to, and no bindings are handed to the contracts of what is called. -/
theorem passesOn_agreeOn (env : Env) : PassesOn Bindings.AgreeOn .keep .keep env env where
  var h := by
    unfold Bindings.resolve
    rw [h _ (List.mem_singleton.2 rfl)]
  expr h name hname := h name (by
    rw [Expr.variables, Shape.variables]
    exact List.mem_append_left _ hname)
  target h binder clause hclause term name hname := by
    rw [NameMap.get?_insert, NameMap.get?_insert]
    by_cases hbinder : name = binder
    · rw [if_pos hbinder, if_pos hbinder]
    · rw [if_neg hbinder, if_neg hbinder]
      apply h
      rw [Expr.variables, Shape.variables]
      exact List.mem_append_right _ (RefinedTy.mem_variables hclause hname)
  value h name hname := h name (by
    rw [Expr.variables, Shape.variables]
    exact List.mem_append_left _ hname)
  body h name hname := h name (by
    rw [Expr.variables, Shape.variables]
    exact List.mem_append_right _ hname)
  arg h arg harg name hname := h name (by
    rw [Expr.variables, Shape.variables]
    exact Expr.mem_variablesAll harg hname)
  callee _ _ _ := rfl
  contracts _ _ _ _ _ _ _ _ := relatesContracts_of_refl (fun _ _ _ _ _ _ _ _ => rfl) ∅

/-- Bindings that agree on the variables of an expression are the same to the walk over it, whatever
they hold for the names that the signatures of its calls mention. -/
theorem checkWithin_eq_of_agree (env : Env) (depth : Nat) (mode : Mode) {locals locals' : Bindings}
    {e : Expr} (h : locals.AgreeOn locals' e) :
    checkWithin env depth mode locals e = checkWithin env depth mode locals' e := by
  have hwalk := sameWalk_scopedWithin (passesOn_agreeOn env) depth
  rw [scopedWithin_keep] at hwalk
  exact hwalk h

section

variable {τ ω : Type} [Transport τ ω]

/-- A walk reads no binding but those of the variables of its own expression. Under bindings that
agree on these it ends in the same term or failure, the same session, what it has sent and noted
included, and the same counts, in every environment and from every state. -/
theorem check_eq_of_agree (env : Env) (mode : Mode) {locals locals' : Bindings} {e : Expr}
    (h : ∀ name ∈ e.variables, locals.get? name = locals'.get? name) (c : Checker τ ω) :
    c.perform (check env mode locals e) = c.perform (check env mode locals' e) := by
  unfold check
  rw [checkWithin_eq_of_agree env _ mode h]

end

/-- The clause of `f` is the global `y`, and both callers bind a `y` of their own. -/
def judged : Env := .ofList
  [("f", .function .primitive [.refined .int (.holds "x" (.var "y" .bool))] (.plain .int))]

def judgedCall : Expr := .call "f" [.int 3] .int

/-- The bindings of a caller that has a `y`. -/
def binding (y : Bool) : Bindings := NameMap.insert ∅ "y" (.bool y)

theorem depthLimit_judged : depthLimit judged judgedCall = 0x100003 := by
  have hf : judged.get? "f" = some
      (.function .primitive [.refined .int (.holds "x" (.var "y" .bool))] (.plain .int)) := rfl
  have hreach : judged.reachDepth judgedCall.calls = 1 := by
    rw [show judgedCall.calls = ["f"] from rfl, Env.reachDepth]
    split
    · rename_i hnone
      rw [hf] at hnone
      cases hnone
    · rename_i sig hsig
      rw [hf] at hsig
      cases hsig
      rw [show Signature.clauseCalls _ ++ [] = [] from rfl, Env.reachDepth]
      rfl
  rw [depthLimit, hreach, show judgedCall.walkDepth = 2 from rfl, circleDepth]

open Scripted in
/-- Neither caller's `y` is what the clause is about. -/
theorem check_eq_of_agree_judged :
    let c : Checker Solver Script :=
      { session := (Session.start { world := { answers := ["unsat"] } }).2 }
    (∀ name ∈ judgedCall.variables, (binding true).get? name = (binding false).get? name) ∧
      (binding true).get? "y" = some (.bool true) ∧
      (binding false).get? "y" = some (.bool false) ∧
      c.perform (check judged .full (binding true) judgedCall) =
        c.perform (check judged .full (binding false) judgedCall) ∧
      "(assert (not y))" ∈
        (c.perform (check judged .full (binding true) judgedCall)).2.session.transcript.toList := by
  intro c
  have hagree : ∀ name ∈ judgedCall.variables,
      (binding true).get? name = (binding false).get? name := fun _ hname => nomatch hname
  refine ⟨hagree, rfl, rfl, check_eq_of_agree judged .full hagree c, ?_⟩
  rw [check, depthLimit_judged]
  decide +kernel

end Checker

end ContractCheck
