import ContractCheck.Display
import ContractCheck.Failure
import ContractCheck.NameMap

/-!
The solver sorts of types. Integers and booleans have the solver's own sorts; every other named or
applied type has an uninterpreted sort, whose name is the type's text in lower case.
-/

namespace ContractCheck

inductive SolverSort where
  | int
  | bool
  /-- An uninterpreted sort. -/
  | named (name : String)
deriving DecidableEq, Repr

/-- In lower case, with `_` for all that is neither an ASCII letter nor an ASCII digit. A name in
lower case is never that of a sort of the solver's own. -/
def sortIdentifier (name : String) : String :=
  String.ofList (name.toList.map fun c => if c.isAlphanum then c.toLower else '_')

mutual

def Ty.sortName : Ty → String
  | .con name => sortIdentifier name
  | .app name args => sortIdentifier name ++ Ty.sortSuffix args
  | .arrow _ _ => "fun"
  | .var id => "t" ++ toString id.toNat

def Ty.sortSuffix : List Ty → String
  | [] => ""
  | t :: ts => "_" ++ t.sortName ++ Ty.sortSuffix ts

end

namespace SolverSort

def of? (ty : Ty) : Option SolverSort :=
  if ty.isInt then some .int
  else if ty.isBool then some .bool
  else match ty with
    | .con _ | .app _ _ => some (.named ty.sortName)
    | .arrow _ _ | .var _ => none

def of (ty : Ty) : Outcome SolverSort :=
  match of? ty with
  | some sort => .ok sort
  | none => .error (.of .notScalar ("type `" ++ ty.display ++ "` has no solver sort"))

def display : SolverSort → String
  | .int => "Int"
  | .bool => "Bool"
  | .named name => name

/-- The letter that marks fresh variables of the sort. -/
def tag : SolverSort → Char
  | .int => 'i'
  | .bool => 'b'
  | .named name =>
    match name.toList with
    | c :: _ => if c.isAlpha then c.toLower else 'o'
    | [] => 'o'

def named? : SolverSort → Option String
  | .named name => some name
  | _ => none

end SolverSort

/-- The uninterpreted sort of a type that is neither a function nor open. -/
def Ty.ownSort (ty : Ty) : List String := ((SolverSort.of? ty).bind SolverSort.named?).toList

mutual

/-- The uninterpreted sorts that a type mentions, in its refinements too, with repetitions. The
arguments of an applied type have no sorts of their own. -/
def Ty.sortsUsed : Ty → List String
  | .con name => Ty.ownSort (.con name)
  | .app name args => Ty.ownSort (.app name args)
  | .arrow params ret => RefinedTy.sortsUsedAll params ++ ret.sortsUsed
  | .var _ => []

def RefinedTy.sortsUsed : RefinedTy → List String
  | .plain ty => ty.sortsUsed
  | .refined ty refinement => ty.sortsUsed ++ refinement.sortsUsed

def RefinedTy.sortsUsedAll : List RefinedTy → List String
  | [] => []
  | t :: ts => t.sortsUsed ++ RefinedTy.sortsUsedAll ts

def Refinement.sortsUsed : Refinement → List String
  | .bind _ => []
  | .holds _ pred => pred.sortsUsed
  | .equals _ value => value.sortsUsed

def Expr.sortsUsed : Expr → List String
  | ⟨ty, shape, _⟩ => ty.sortsUsed ++ shape.sortsUsed

def Expr.sortsUsedAll : List Expr → List String
  | [] => []
  | e :: es => e.sortsUsed ++ Expr.sortsUsedAll es

def Shape.sortsUsed : Shape → List String
  | .var _ | .bool _ | .int _ => []
  | .call callee args => callee.sortsUsed ++ Expr.sortsUsedAll args
  | .letIn _ value body => value.sortsUsed ++ body.sortsUsed
  | .ite test onTrue onFalse => test.sortsUsed ++ onTrue.sortsUsed ++ onFalse.sortsUsed
  | .lambda _ body => body.sortsUsed
  | .cast expr target => expr.sortsUsed ++ target.sortsUsed

end

def NameSet.ofNames (names : List String) : NameSet := names.foldl NameSet.add ∅

end ContractCheck
