import ContractCheck.Env

/-!
Which functions an expression calls, and how deep a walk goes that follows calls into the contracts
of their signatures. `Env.reachDepth` adds up the depths of all contracts that calls lead to; where
no contract leads back to itself, no nesting of contracts is deeper.
-/

namespace ContractCheck

mutual

/-- How deep a walk over the expression goes, the contracts of its calls aside. -/
def Expr.walkDepth : Expr → Nat
  | ⟨_, shape, _⟩ => shape.walkDepth + 1

def Expr.walkDepthAll : List Expr → Nat
  | [] => 0
  | e :: es => max e.walkDepth (Expr.walkDepthAll es)

def Shape.walkDepth : Shape → Nat
  | .var _ | .bool _ | .int _ | .ite _ _ _ | .lambda _ _ => 0
  | .call _ args => Expr.walkDepthAll args
  | .letIn _ value body => max value.walkDepth body.walkDepth
  | .cast expr target => max expr.walkDepth target.walkDepth

def RefinedTy.walkDepth : RefinedTy → Nat
  | .plain _ => 0
  | .refined _ refinement => refinement.walkDepth

def Refinement.walkDepth : Refinement → Nat
  | .bind _ => 0
  | .holds _ pred => pred.walkDepth
  | .equals _ value => value.walkDepth

end

/-- The name that a callee calls. -/
def Shape.calledName : Shape → List String
  | .var name => [name]
  | _ => []

mutual

/-- The names that are called in an expression, those in contracts of its casts included. -/
def Expr.calls : Expr → List String
  | ⟨_, shape, _⟩ => shape.calls

def Expr.callsAll : List Expr → List String
  | [] => []
  | e :: es => e.calls ++ Expr.callsAll es

def Shape.calls : Shape → List String
  | .var _ | .bool _ | .int _ => []
  | .call callee args => callee.shape.calledName ++ callee.calls ++ Expr.callsAll args
  | .letIn _ value body => value.calls ++ body.calls
  | .ite test onTrue onFalse => test.calls ++ onTrue.calls ++ onFalse.calls
  | .lambda _ body => body.calls
  | .cast expr target => expr.calls ++ target.calls

def RefinedTy.calls : RefinedTy → List String
  | .plain _ => []
  | .refined _ refinement => refinement.calls

def Refinement.calls : Refinement → List String
  | .bind _ => []
  | .holds _ pred => pred.calls
  | .equals _ value => value.calls

end

namespace Signature

/-- The expressions of the clauses of a function's parameters and return. -/
def clauses (sig : Signature) : List Expr :=
  match sig.ty.ty.arrow? with
  | none => []
  | some (params, ret) => (params ++ [ret]).filterMap fun t => t.clause?.map Clause.expr

def clauseDepth (sig : Signature) : Nat := Expr.walkDepthAll sig.clauses

def clauseCalls (sig : Signature) : List String := Expr.callsAll sig.clauses

end Signature

namespace Env

/-- The depths of the contracts of all signatures that calls of the given names lead to. -/
def reachDepth (env : Env) : List String → Nat
  | [] => 0
  | name :: names =>
    match _h : env.get? name with
    | none => reachDepth env names
    | some sig => sig.clauseDepth + reachDepth (env.erase name) (sig.clauseCalls ++ names)
termination_by names => (env.entries.length, names.length)
decreasing_by
  · exact .right _ (Nat.lt_succ_self _)
  · exact .left _ _ (NameMap.length_erase_lt _h)

end Env

end ContractCheck
