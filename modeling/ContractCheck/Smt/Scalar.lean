import ContractCheck.Display
import ContractCheck.Failure
import ContractCheck.NameMap
import ContractCheck.Smt.SExpr

/-!
Solver terms of scalar expressions: variables, literals and the built-in operators. Operators with
a precondition are left to the checker, which proves it first.
-/

namespace ContractCheck

/-- The solver terms that the names in scope stand for. -/
abbrev Bindings := NameMap Term

namespace Operator

/-- The solver symbols of the built-in operators. Inequality is the negation of its symbol. -/
def symbols : List (String × String) := [
  ("+", "+"), ("-", "-"), ("*", "*"), ("/", "div"), ("%", "mod"),
  ("<", "<"), ("<=", "<="), (">", ">"), (">=", ">="), ("==", "="), ("!=", "="),
  ("&&", "and"), ("||", "or"), ("=>", "=>"), ("!", "not"), ("unary-", "-")]

def symbol? (name : String) : Option String := symbols.lookup name

def isBuiltin (name : String) : Bool := (symbol? name).isSome

/-- Whether applying the operator has a precondition. -/
def isGuarded (name : String) : Bool := name == "/" || name == "%"

def wrongCount (name : String) (expected actual : Nat) : Failure :=
  .of .arity ("`" ++ name ++ "` expects " ++ toString expected ++ " argument(s), got " ++
    toString actual)

/-- The application of a built-in operator to the terms of its arguments. -/
def apply (name : String) (args : List Term) : Outcome Term :=
  match symbol? name with
  | none => .error (.unsupported ("`" ++ name ++ "` is not a builtin"))
  | some symbol =>
    if name = "unary-" then
      match args with
      | [a] => .ok (.apply symbol [a])
      | _ => .error (wrongCount name 1 args.length)
    else if name = "!=" then
      match args with
      | [a, b] => .ok (.not (.apply symbol [a, b]))
      | _ => .error (wrongCount name 2 args.length)
    else
      match args with
      | [] => .error (.of .arity ("`" ++ name ++ "` applied to no arguments"))
      | _ :: _ => .ok (.apply symbol args)

/-- An operator applies its symbol, and inequality negates that. -/
theorem apply_eq_ok {name : String} {args : List Term} {applied : Term}
    (h : apply name args = .ok applied) : ∃ symbol, symbol? name = some symbol ∧
      (applied = .apply symbol args ∨ applied = .not (.apply symbol args)) := by
  unfold apply at h
  cases hsymbol : symbol? name with
  | none =>
      rw [hsymbol] at h
      cases h
  | some symbol =>
      simp only [hsymbol] at h
      refine ⟨symbol, rfl, ?_⟩
      split at h
      · split at h
        · cases h
          exact .inl rfl
        · cases h
      · split at h
        · split at h
          · cases h
            exact .inr rfl
          · cases h
        · split at h
          · cases h
          · cases h
            exact .inl rfl

end Operator

namespace Bindings

/-- A name that is not bound refers to a global declaration and stands for itself. -/
def resolve (locals : Bindings) (name : String) : Term :=
  (locals.get? name).getD (.symbol name)

/-- The term of a variable or a literal. -/
def leaf? (locals : Bindings) (e : Expr) : Option Term :=
  match e.shape with
  | .var name => some (locals.resolve name)
  | .bool b => some (.bool b)
  | .int n => some (.int n)
  | _ => none

end Bindings

mutual

/-- The solver term of a scalar expression. -/
def Expr.toTerm (locals : Bindings) : Expr → Outcome Term
  | ⟨ty, shape, span⟩ =>
    match shape with
    | .var name => .ok (locals.resolve name)
    | .bool b => .ok (.bool b)
    | .int n => .ok (.int n)
    | .call callee args =>
      match callee.shape with
      | .var name =>
        if !Operator.isBuiltin name then
          .error (.locate (.unsupported
            ("`" ++ name ++ "` is not a builtin and cannot be translated directly")) span)
        else if Operator.isGuarded name then
          .error (.locate (.unsupported
            ("`" ++ name ++ "` has a precondition and must go through the contract checker")) span)
        else
          match Expr.toTerms locals args with
          | .error failure => .error failure
          | .ok terms => (Operator.apply name terms).located span
      | _ => .error (.locate (.unsupported
          ("cannot translate call of `" ++ callee.display ++ "`")) span)
    | _ => .error (.locate (.unsupported
        ("cannot translate `" ++ Expr.display ⟨ty, shape, span⟩ ++ "`")) span)

def Expr.toTerms (locals : Bindings) : List Expr → Outcome (List Term)
  | [] => .ok []
  | e :: es =>
    match e.toTerm locals with
    | .error failure => .error failure
    | .ok term =>
      match Expr.toTerms locals es with
      | .error failure => .error failure
      | .ok terms => .ok (term :: terms)

end

end ContractCheck
