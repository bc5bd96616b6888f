import ContractCheck.Syntax
import ContractCheck.Text.Alphanumeric

/-!
The text of types and expressions as a reader of the checked language writes them: binary operators
stand between their operands in parentheses, refined types in braces.
-/

namespace ContractCheck

/-- A name that is written between its two operands: it has neither letters nor digits nor `_`. -/
def isOperator (name : String) : Bool :=
  !name.isEmpty && name.toList.all fun c => !Text.isAlphanumeric c && c != '_'

def commaSeparated (texts : List String) : String := ", ".intercalate texts

/-- The text of a call, from its callee and the texts of callee and arguments. -/
def callText (callee : Shape) (calleeText : String) (args : List String) : String :=
  match callee, args with
  | .var "unary-", [x] => "-" ++ x
  | .var "!", [x] => "!" ++ x
  | .var name, [a, b] =>
    if isOperator name then "(" ++ a ++ " " ++ name ++ " " ++ b ++ ")"
    else calleeText ++ "(" ++ commaSeparated [a, b] ++ ")"
  | _, args => calleeText ++ "(" ++ commaSeparated args ++ ")"

mutual

def Ty.display : Ty → String
  | .con name => name
  | .app name [] => name
  | .app name (arg :: args) =>
    name ++ "<" ++ commaSeparated (arg.display :: Ty.displayAll args) ++ ">"
  | .arrow params ret =>
    "(" ++ commaSeparated (RefinedTy.displayAll params) ++ ") -> " ++ ret.display
  | .var id => "'t" ++ toString id.toNat

def Ty.displayAll : List Ty → List String
  | [] => []
  | t :: ts => t.display :: Ty.displayAll ts

def RefinedTy.display : RefinedTy → String
  | .plain ty => ty.display
  | .refined ty (.bind binder) => binder ++ ": " ++ ty.display
  | .refined ty (.holds binder pred) =>
    "\x7b" ++ binder ++ ": " ++ ty.display ++ " | " ++ pred.display ++ "\x7d"
  | .refined ty (.equals binder value) =>
    "\x7b" ++ binder ++ ": " ++ ty.display ++ " = " ++ value.display ++ "\x7d"

def RefinedTy.displayAll : List RefinedTy → List String
  | [] => []
  | t :: ts => t.display :: RefinedTy.displayAll ts

def Expr.display : Expr → String
  | ⟨_, shape, _⟩ => shape.display

def Expr.displayAll : List Expr → List String
  | [] => []
  | e :: es => e.display :: Expr.displayAll es

def Shape.display : Shape → String
  | .var name => name
  | .bool value => if value then "true" else "false"
  | .int value => toString value.toInt
  | .call callee args => callText callee.shape callee.display (Expr.displayAll args)
  | .letIn name value body => "let " ++ name ++ " = " ++ value.display ++ " in " ++ body.display
  | .ite test onTrue onFalse =>
    "if " ++ test.display ++ " then " ++ onTrue.display ++ " else " ++ onFalse.display
  | .lambda params body => "fun (" ++ commaSeparated params ++ ") -> " ++ body.display
  | .cast expr target => "(" ++ expr.display ++ " : " ++ target.display ++ ")"

end

end ContractCheck
