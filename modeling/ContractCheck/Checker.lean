import ContractCheck.Calls
import ContractCheck.Dialogue
import ContractCheck.Env
import ContractCheck.Smt.FreshNames
import ContractCheck.Smt.SolverSort
import ContractCheck.Smt.Scalar

/-!
The walk over a typed expression. It proves every precondition and every contract of a cast that
it meets, each by refuting the negation in a scope of its own, and assumes the contract of every
call's result. `Checker.check` turns an expression into its solver term, as a dialogue with the
solver that needs no further knowledge of the session.
-/

namespace ContractCheck

/-- How much of a call's result may stay a compound term. -/
inductive Mode where
  /-- Results of calls get names, so that binders can refer to them. -/
  | simple
  /-- Applications of built-in operators stay terms. -/
  | full
deriving DecidableEq, Repr

/-- What a run did. -/
structure Summary where
  /-- The preconditions and contracts of casts that were proved. -/
  obligations : Nat := 0
  /-- The fresh variables that were declared. -/
  fresh : Nat := 0
deriving DecidableEq, Repr, Inhabited

structure Progress where
  names : FreshNames := {}
  summary : Summary := {}
deriving Inhabited

abbrev CheckM := ExceptT Failure (StateT Progress Dialogue)

namespace Checker

variable {α : Type}

def note (text : String) : CheckM Unit := fun progress => .note text (.done (.ok (), progress))

def act (deed : Deed) : CheckM Unit := fun progress =>
  .act deed fun outcome => .done (outcome, progress)

def write (command : Command) : CheckM Unit := act (.write command)

def assert (term : Term) : CheckM Unit := write (.assert term)

def checkSat : CheckM String := fun progress =>
  .checkSat fun outcome => .done (outcome, progress)

def ofOutcome (outcome : Outcome α) : CheckM α := fun progress => .done (outcome, progress)

def inSolverScope (body : CheckM α) : CheckM α := inScope (act .push) (act .pop) body

def located (span : Option Span) (body : CheckM α) : CheckM α := body.adapt (·.locate span)

def inContext (context : String) (body : CheckM α) : CheckM α := body.adapt (·.withContext context)

def nextName (tag : Char) : CheckM String := fun progress =>
  let (name, names) := progress.names.next tag
  .done (.ok name, { progress with names })

def updateSummary (f : Summary → Summary) : CheckM Unit := fun progress =>
  .done (.ok (), { progress with summary := f progress.summary })

/-- Declares a new variable of the type's sort. -/
def fresh (ty : Ty) : CheckM String := do
  let sort ← ofOutcome (SolverSort.of ty)
  let name ← nextName sort.tag
  write (.declareConst name sort.display)
  updateSummary fun s => { s with fresh := s.fresh + 1 }
  return name

/-- A predicate has to have the type of booleans. -/
def requireBool (pred : Expr) (span : Option Span) : CheckM Unit :=
  if pred.ty.isBool then pure ()
  else ofOutcome (.error (.locate (.of .notScalar
    ("refinement `" ++ pred.display ++ "` is not scalar: has type `" ++ pred.ty.display ++ "`"))
    (pred.span.or span)))

/-- How expressions inside the one at hand are turned into terms. -/
abbrev Walk := Mode → Bindings → Expr → CheckM Term

/-- Proves `goal` by refuting its negation. -/
def refute (goal : Term) (obligation : String) (span : Option Span) : CheckM Unit := do
  assert (.not goal)
  let answer ← checkSat
  note ("`" ++ obligation ++ "`: " ++ answer)
  if answer = "unsat" then updateSummary fun s => { s with obligations := s.obligations + 1 }
  else ofOutcome (.error (.locate (.refuted answer obligation) span))

/-- Proves a clause about `binder`, in a scope of its own. -/
def prove (walk : Walk) (locals : Bindings) (binder : String) (clause : Clause)
    (span : Option Span) : CheckM Unit :=
  match clause with
  | .holds pred => do
    requireBool pred span
    note ("proving `" ++ pred.display ++ "`")
    inSolverScope do
      let goal ← walk .full locals pred
      refute goal pred.display span
  | .equals value => do
    let obligation := binder ++ " == " ++ value.display
    note ("proving `" ++ obligation ++ "`")
    inSolverScope do
      let _ ← ofOutcome ((SolverSort.of value.ty).located (value.span.or span))
      let term ← walk .full locals value
      refute (.eq (locals.resolve binder) term) obligation span

/-- Assumes a clause about a result that its binder is already bound to. -/
def assume (walk : Walk) (locals : Bindings) (result : Term) (clause : Clause)
    (span : Option Span) : CheckM Unit :=
  match clause with
  | .holds pred => do
    requireBool pred span
    let fact ← walk .full locals pred
    assert fact
  | .equals value => do
    let term ← walk .full locals value
    assert (.eq result term)

/-- The terms of a call's arguments, with the binders of its parameters bound to them. Arguments
live in the caller's scope and the parameters' clauses in the callee's. -/
def checkArgs (walk : Walk) (callee : String) (span : Option Span) (locals : Bindings) :
    List (RefinedTy × Expr) → Bindings → CheckM (Bindings × List Term)
  | [], binders => pure (binders, [])
  | (param, arg) :: rest, binders =>
    match param.refinement? with
    | none => do
      let term ← walk .full locals arg
      let (binders, terms) ← checkArgs walk callee span locals rest binders
      return (binders, term :: terms)
    | some refinement => do
      let term ← walk .simple locals arg
      let binders := binders.insert refinement.binder term
      match refinement.clause? with
      | none => pure ()
      | some clause =>
        inContext ("precondition of `" ++ callee ++ "`")
          (prove walk binders refinement.binder clause (arg.span.or span))
      let (binders, terms) ← checkArgs walk callee span locals rest binders
      return (binders, term :: terms)

/-- What a call of a signature that is not built in answers: a fresh variable, about which the
signature's return contract is assumed. -/
def checkResult (walk : Walk) (callee : String) (origin : Origin) (ret : RefinedTy)
    (binders : Bindings) (terms : List Term) (span : Option Span) : CheckM Term := do
  let name ← located span (fresh ret.ty)
  let result := Term.symbol name
  if origin = .uninterpreted then
    assert (.eq result (if terms.isEmpty then .symbol callee else .apply callee terms))
  match ret.refinement? with
  | none => pure ()
  | some refinement =>
    match refinement.clause? with
    | none => pure ()
    | some clause =>
      inContext ("postcondition of `" ++ callee ++ "`")
        (assume walk (binders.insert refinement.binder result) result clause span)
  return result

/-- The parameters and the return type of a callee, once it is known to fit the call. -/
def resolveCall (env : Env) (callee : Expr) (args : List Expr) (span : Option Span) :
    Outcome (String × Origin × List RefinedTy × RefinedTy) :=
  match callee.shape with
  | .var name =>
    match env.get? name with
    | none =>
      .error (.locate (.of .unbound ("unbound symbol `" ++ name ++ "`")) (callee.span.or span))
    | some sig =>
      match sig.ty.ty.arrow? with
      | none => .error (.locate (.of .notAFunction
          ("symbol `" ++ name ++ "` is not a function: has type `" ++ sig.ty.display ++ "`"))
          (callee.span.or span))
      | some (params, ret) =>
        if params.length = args.length then .ok (name, sig.origin, params, ret)
        else .error (.locate (Operator.wrongCount name params.length args.length) span)
  | _ => .error (.locate (.unsupported
      ("unsupported callee `" ++ callee.display ++ "`: only named functions can be called"))
      (callee.span.or span))

def checkCall (env : Env) (walk : Walk) (mode : Mode) (locals : Bindings) (callee : Expr)
    (args : List Expr) (span : Option Span) : CheckM Term := do
  let (name, origin, params, ret) ← ofOutcome (resolveCall env callee args span)
  let (binders, terms) ← checkArgs walk name span locals (params.zip args) ∅
  if origin = .builtin then
    let term ← ofOutcome ((Operator.apply name terms).located span)
    match mode with
    | .full => return term
    | .simple =>
      let var ← located span (fresh ret.ty)
      assert (.eq (.symbol var) term)
      return .symbol var
  else checkResult walk name origin ret binders terms span

/-- One level of the walk. -/
def checkExpr (env : Env) (walk : Walk) : Walk := fun mode locals e =>
  match e.shape with
  | .var _ | .bool _ | .int _ => ofOutcome (e.toTerm locals)
  | .cast expr target => do
    let term ← walk mode locals expr
    match target.refinement? with
    | none => pure ()
    | some refinement =>
      match refinement.clause? with
      | none => pure ()
      | some clause =>
        prove walk (locals.insert refinement.binder term) refinement.binder clause e.span
    return term
  | .letIn name value body => do
    let sort ← ofOutcome ((SolverSort.of value.ty).located (value.span.or e.span))
    write (.declareConst name sort.display)
    let term ← walk .full locals value
    assert (.eq (.symbol name) term)
    walk mode locals body
  | .call callee args => checkCall env walk mode locals callee args e.span
  | .ite _ _ _ => ofOutcome (.error (.locate
      (.unsupported "unsupported expression shape: conditional") e.span))
  | .lambda _ _ => ofOutcome (.error (.locate
      (.unsupported "unsupported expression shape: function literal") e.span))

def depthExceeded : Failure := .of .tooDeep "contracts call each other without end"

/-- The walk, at most `depth` levels deep. -/
def checkWithin (env : Env) : Nat → Walk
  | 0 => fun _ _ _ => ofOutcome (.error depthExceeded)
  | depth + 1 => checkExpr env (checkWithin env depth)

/-- How deep contracts that call each other in a circle are followed. -/
def circleDepth : Nat := 0x100000

/-- The depth of an expression and of all contracts that its calls lead to bounds the walk unless
contracts call each other in a circle. -/
def depthLimit (env : Env) (e : Expr) : Nat :=
  e.walkDepth + env.reachDepth e.calls + circleDepth

/-- The solver term of an expression, with all obligations met on the way discharged. -/
def check (env : Env) (mode : Mode) (locals : Bindings) (e : Expr) : CheckM Term :=
  checkWithin env (depthLimit env e) mode locals e

end Checker

end ContractCheck
