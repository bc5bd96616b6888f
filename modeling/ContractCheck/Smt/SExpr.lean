/-!
S-expressions, the form of solver terms and commands, and the text that stands for them.
-/

namespace ContractCheck

inductive SExpr where
  /-- The text is written as it stands. -/
  | atom (text : String)
  | list (items : List SExpr)
deriving Inhabited

namespace SExpr

mutual

def render : SExpr → String
  | .atom text => text
  | .list items => "(" ++ renderItems items ++ ")"

def renderItems : List SExpr → String
  | [] => ""
  | [item] => item.render
  | item :: next :: rest => item.render ++ " " ++ renderItems (next :: rest)

end

/-- The application of a symbol. -/
def apply (head : String) (args : List SExpr) : SExpr := .list (.atom head :: args)

end SExpr

/-- A solver term. -/
abbrev Term := SExpr

namespace Term

def symbol (name : String) : Term := .atom name

def not (t : Term) : Term := .apply "not" [t]

def eq (a b : Term) : Term := .apply "=" [a, b]

def bool (b : Bool) : Term := .atom (if b then "true" else "false")

/-- The solver has no negative literals: they are written as negated ones. -/
def int (n : Int64) : Term :=
  let digits : Term := .atom (toString n.toInt.natAbs)
  if n.toInt < 0 then .apply "-" [digits] else digits

end Term

end ContractCheck
