import ContractCheck.Env

/-!
Programs: an expression to verify, with the signatures that it needs beyond the prelude.
-/

namespace ContractCheck

structure Program where
  /-- The text that spans point into. -/
  source : Option String
  signatures : Env
  expr : Expr

/-- The prelude with the program's own signatures, which win. -/
def Program.env (p : Program) : Env := prelude.union p.signatures

end ContractCheck
