import ContractCheck.Checker

/-!
Verification runs. A run declares what the environment and the expression mention, checks the
expression in one scope that is left again whatever happens, and succeeds only once the solver has
processed every command. A verifier repeats runs in one environment.
-/

namespace ContractCheck

/-- The uninterpreted sorts that a run may mention. -/
def sortsOfRun (env : Env) (e : Expr) : NameSet :=
  .ofNames (env.entries.flatMap (fun entry => entry.2.ty.sortsUsed) ++ e.sortsUsed)

/-- How a global is made known to the solver. -/
inductive GlobalDeclaration where
  /-- The key and the line of a declaration. -/
  | declare (key : String) (command : Command)
  /-- A value whose type has no sort. -/
  | omit (name : String)
  /-- The solver does not know the name. -/
  | none

/-- The declaration that an entry of an environment asks for. -/
def Signature.globalDeclaration (name : String) (sig : Signature) : Outcome GlobalDeclaration :=
  match sig.origin with
  | .builtin | .primitive => .ok .none
  | .value =>
    match SolverSort.of? sig.ty.ty with
    | some sort => .ok (.declare ("const " ++ name) (.declareConst name sort.display))
    | none => .ok (.omit name)
  | .uninterpreted =>
    match sig.ty.ty.arrow? with
    | none => .error (.of .notAFunction
        ("uninterpreted symbol `" ++ name ++ "` is not a function"))
    | some (params, ret) =>
      Outcome.withContext (do
        let domain ← params.mapM fun p => SolverSort.of p.ty
        let range ← SolverSort.of ret.ty
        return .declare ("fun " ++ name)
          (.declareFun name (domain.map SolverSort.display) range.display))
        ("while declaring `" ++ name ++ "`")

namespace Session

variable {τ ω : Type} [Transport τ ω]

def declareSorts : List String → SessionM τ ω Unit
  | [] => pure ()
  | name :: rest => do
    declareGlobal ("sort " ++ name) (Command.declareSort name).line
    declareSorts rest

def declareSignatures : List (String × Signature) → SessionM τ ω Unit
  | [] => pure ()
  | (name, sig) :: rest => do
    match ← (liftExcept (sig.globalDeclaration name) : SessionM τ ω GlobalDeclaration) with
    | .declare key command => declareGlobal key command.line
    | .omit name => modify (·.record .debug ("`" ++ name ++ "` has no solver sort, not declared"))
    | .none => pure ()
    declareSignatures rest

/-- Declares the sorts, functions and values that a run may mention and that are not in force. -/
def declareGlobals (env : Env) (e : Expr) : SessionM τ ω Unit := do
  declareSorts (sortsOfRun env e).toList
  declareSignatures env.entries

end Session

/-- A checker in the middle of its work. -/
structure Checker (τ ω : Type) where
  session : Session τ ω
  progress : Progress := {}

namespace Checker

variable {τ ω α : Type} [Transport τ ω]

/-- Carries out a part of a walk. -/
def perform (part : CheckM α) (c : Checker τ ω) : Outcome α × Checker τ ω :=
  let ((outcome, progress), session) := c.session.hold (part c.progress)
  (outcome, { session, progress })

/-- The dialogue of a run: the expression is checked in a scope of its own. -/
def runDialogue (env : Env) (e : Expr) : Dialogue (Outcome Unit × Progress) :=
  (inSolverScope do let _ ← check env .full ∅ e) {}

end Checker

namespace Session

variable {τ ω : Type} [Transport τ ω]

def runChecker (env : Env) (e : Expr) : SessionM τ ω Summary := fun s =>
  let ((outcome, progress), s) := s.hold (Checker.runDialogue env e)
  (outcome.map fun () => progress.summary, s)

/-- Verifies an expression. -/
def prove (env : Env) (e : Expr) : SessionM τ ω Summary := do
  start
  declareGlobals env e
  let summary ← runChecker env e
  sync
  return summary

end Session

/-- A session bound to one environment, for many expressions in a row. -/
structure Verifier (τ ω : Type) where
  session : Session τ ω
  env : Env

namespace Verifier

variable {τ ω : Type} [Transport τ ω]

/-- A run that fails stops the solver, so that the next one launches another. -/
def verify (e : Expr) (v : Verifier τ ω) : Outcome Summary × Verifier τ ω :=
  match Session.prove v.env e v.session with
  | (.ok summary, session) => (.ok summary, { v with session })
  | (.error f, session) =>
    (.error f, { v with
      session := session.stopQuietly "while stopping solver after a failed run" })

/-- Stops the solver and reports an abnormal exit or open scopes. -/
def finish (v : Verifier τ ω) : Outcome Unit × Session τ ω := Session.stop v.session

end Verifier

end ContractCheck
