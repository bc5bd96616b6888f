import ContractCheck.Json.Writer
import ContractCheck.Program

/-!
Programs as JSON. Every field is written, the members of an object in the order of their names.
-/

namespace ContractCheck

open Json (record ofString ofOption)

def Span.toJson (s : Span) : Json :=
  record [("len", .ofNat s.len.toNat), ("start", .ofNat s.start.toNat)]

mutual

def Ty.toJson : Ty → Json
  | .con name => record [("con", ofString name)]
  | .app name args =>
    record [("app", record [("args", .arr (Ty.toJsonAll args)), ("name", ofString name)])]
  | .arrow params ret => record [("arrow",
      record [("params", .arr (RefinedTy.toJsonAll params)), ("ret", ret.toJson)])]
  | .var id => record [("var", .ofNat id.toNat)]

def Ty.toJsonAll : List Ty → List Json
  | [] => []
  | t :: ts => t.toJson :: Ty.toJsonAll ts

def RefinedTy.toJson : RefinedTy → Json
  | .plain ty => record [("refinement", .null), ("ty", ty.toJson)]
  | .refined ty refinement => record [("refinement", refinement.toJson), ("ty", ty.toJson)]

def RefinedTy.toJsonAll : List RefinedTy → List Json
  | [] => []
  | t :: ts => t.toJson :: RefinedTy.toJsonAll ts

def Refinement.toJson : Refinement → Json
  | .bind binder => record [("binder", ofString binder), ("clause", .null)]
  | .holds binder pred =>
    record [("binder", ofString binder), ("clause", record [("holds", pred.toJson)])]
  | .equals binder value =>
    record [("binder", ofString binder), ("clause", record [("equals", value.toJson)])]

def Expr.toJson : Expr → Json
  | ⟨ty, shape, span⟩ =>
    record [("kind", shape.toJson), ("span", ofOption Span.toJson span), ("ty", ty.toJson)]

def Expr.toJsonAll : List Expr → List Json
  | [] => []
  | e :: es => e.toJson :: Expr.toJsonAll es

def Shape.toJson : Shape → Json
  | .var name => record [("var", ofString name)]
  | .bool b => record [("bool", .bool b)]
  | .int n => record [("int", .int n.toInt)]
  | .call callee args =>
    record [("call", record [("args", .arr (Expr.toJsonAll args)), ("callee", callee.toJson)])]
  | .letIn name value body => record [("let",
      record [("body", body.toJson), ("name", ofString name), ("value", value.toJson)])]
  | .ite test onTrue onFalse => record [("if",
      record [("cond", test.toJson), ("els", onFalse.toJson), ("then", onTrue.toJson)])]
  | .lambda params body => record [("lambda",
      record [("body", body.toJson), ("params", .arr (params.map ofString))])]
  | .cast expr (.plain ty) => record [("cast",
      record [("contract", .null), ("expr", expr.toJson), ("ty", ty.toJson)])]
  | .cast expr (.refined ty refinement) => record [("cast",
      record [("contract", refinement.toJson), ("expr", expr.toJson), ("ty", ty.toJson)])]

end

def Signature.toJson (sig : Signature) : Json :=
  record [("origin", ofString sig.origin.name), ("ty", sig.ty.toJson)]

def Env.toJson (env : Env) : Json :=
  record (env.entries.map fun (name, sig) => (name, sig.toJson))

def Program.toJson (p : Program) : Json :=
  record [("expr", p.expr.toJson), ("signatures", Env.toJson p.signatures),
    ("source", ofOption ofString p.source)]

/-- The written form of a program. -/
def Program.write (p : Program) : String := p.toJson.render

end ContractCheck
