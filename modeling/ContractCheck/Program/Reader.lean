import ContractCheck.Json.Fields
import ContractCheck.Json.Parser
import ContractCheck.Program

/-!
Programs from JSON. Every reader is given how many arrays and objects deep it may go, and each
array or object that it enters takes one off; values that are ignored are not entered. That limit
is also what makes the recursion end.
-/

namespace ContractCheck

open Json (nullable? optional?)

/-- How deep arrays and objects may nest in what is read. -/
def readingDepth : Nat := 127

/-- A natural number of 64 bits. -/
def word64? (j : Json) : Option UInt64 :=
  (j.intIn? 0 0xffffffffffffffff).map fun n => .ofNat n.toNat

/-- A natural number of 32 bits. -/
def word32? (j : Json) : Option UInt32 := (j.intIn? 0 0xffffffff).map fun n => .ofNat n.toNat

/-- An integer of 64 bits. -/
def int64? (j : Json) : Option Int64 :=
  (j.intIn? (-0x8000000000000000) 0x7fffffffffffffff).map Int64.ofInt

def Span.read? : Nat → Json → Option Span
  | 0, _ => none
  | _ + 1, j => do
    let [some start, some len] ← j.fields? ["start", "len"] | none
    return ⟨← word64? start, ← word64? len⟩

mutual

def Ty.read? : Nat → Json → Option Ty
  | 0, _ => none
  | depth + 1, j => do
    match ← j.variant? with
    | ("con", j) => return .con (← j.text?)
    | ("var", j) => return .var (← word32? j)
    | ("app", j) =>
      match depth with
      | depth + 2 =>
        let [some name, some args] ← j.fields? ["name", "args"] | none
        return .app (← name.text?) (← (← args.items?).mapM (Ty.read? depth))
      | _ => none
    | ("arrow", j) =>
      match depth with
      | depth + 2 =>
        let [some params, some ret] ← j.fields? ["params", "ret"] | none
        return .arrow (← (← params.items?).mapM (RefinedTy.read? depth))
          (← RefinedTy.read? (depth + 1) ret)
      | _ => none
    | _ => none

def RefinedTy.read? : Nat → Json → Option RefinedTy
  | 0, _ => none
  | depth + 1, j => do
    let [some ty, refinement] ← j.fields? ["ty", "refinement"] | none
    return .ofRefinement? (← Ty.read? depth ty)
      (← nullable? (Refinement.read? depth) refinement)

def Refinement.read? : Nat → Json → Option Refinement
  | 0, _ => none
  | depth + 1, j => do
    let [some binder, clause] ← j.fields? ["binder", "clause"] | none
    return .ofClause? (← binder.text?) (← nullable? (Clause.read? depth) clause)

def Clause.read? : Nat → Json → Option Clause
  | 0, _ => none
  | depth + 1, j => do
    match ← j.variant? with
    | ("holds", j) => return .holds (← Expr.read? depth j)
    | ("equals", j) => return .equals (← Expr.read? depth j)
    | _ => none

def Expr.read? : Nat → Json → Option Expr
  | 0, _ => none
  | depth + 1, j => do
    let [some ty, some shape, span] ← j.fields? ["ty", "kind", "span"] | none
    return ⟨← Ty.read? depth ty, ← Shape.read? depth shape, ← nullable? (Span.read? depth) span⟩

def Shape.read? : Nat → Json → Option Shape
  | 0, _ => none
  | depth + 1, j => do
    match ← j.variant? with
    | ("var", j) => return .var (← j.text?)
    | ("bool", j) => return .bool (← j.bool?)
    | ("int", j) => return .int (← int64? j)
    | ("call", j) =>
      match depth with
      | depth + 2 =>
        let [some callee, some args] ← j.fields? ["callee", "args"] | none
        return .call (← Expr.read? (depth + 1) callee)
          (← (← args.items?).mapM (Expr.read? depth))
      | _ => none
    | ("let", j) =>
      match depth with
      | depth + 1 =>
        let [some name, some value, some body] ← j.fields? ["name", "value", "body"] | none
        return .letIn (← name.text?) (← Expr.read? depth value) (← Expr.read? depth body)
      | _ => none
    | ("if", j) =>
      match depth with
      | depth + 1 =>
        let [some test, some onTrue, some onFalse] ← j.fields? ["cond", "then", "els"] | none
        return .ite (← Expr.read? depth test) (← Expr.read? depth onTrue)
          (← Expr.read? depth onFalse)
      | _ => none
    | ("lambda", j) =>
      match depth with
      | depth + 2 =>
        let [some params, some body] ← j.fields? ["params", "body"] | none
        return .lambda (← (← params.items?).mapM Json.text?) (← Expr.read? (depth + 1) body)
      | _ => none
    | ("cast", j) =>
      match depth with
      | depth + 1 =>
        let [some expr, some ty, contract] ← j.fields? ["expr", "ty", "contract"] | none
        return .cast (← Expr.read? depth expr)
          (.ofRefinement? (← Ty.read? depth ty) (← nullable? (Refinement.read? depth) contract))
      | _ => none
    | _ => none

end

def Origin.ofName? : String → Option Origin
  | "builtin" => some .builtin
  | "uninterpreted" => some .uninterpreted
  | "primitive" => some .primitive
  | "value" => some .value
  | _ => none

/-- An origin is its name, or a variant of that name that holds null. -/
def Origin.read? : Nat → Json → Option Origin
  | _, .str text => text.bind Origin.ofName?
  | _ + 1, .obj [(some name, .null)] => Origin.ofName? name
  | _, _ => none

def Signature.read? : Nat → Json → Option Signature
  | 0, _ => none
  | depth + 1, j => do
    let [some origin, some ty] ← j.fields? ["origin", "ty"] | none
    return ⟨← Origin.read? depth origin, ← RefinedTy.read? depth ty⟩

/-- Of several signatures with one name the last one counts. -/
def Env.read? : Nat → Json → Option Env
  | depth + 1, .obj members => do
    let entries ← members.mapM fun (name, j) => return (← name, ← Signature.read? depth j)
    return .ofList entries
  | _, _ => none

def Program.read? : Nat → Json → Option Program
  | 0, _ => none
  | depth + 1, j => do
    let [source, signatures, some expr] ← j.fields? ["source", "signatures", "expr"] | none
    return ⟨← nullable? Json.text? source, ← optional? ∅ (Env.read? depth) signatures,
      ← Expr.read? depth expr⟩

/-- The program that a text spells. -/
def Program.parse (text : String) : Option Program :=
  (Json.parse text).bind (Program.read? readingDepth)

end ContractCheck
