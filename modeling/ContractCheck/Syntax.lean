/-!
Typed expressions whose types carry refinements. A refinement names a value (its binder) and may
state a contract about it: a predicate that holds of it, or a term that it equals. Expressions,
types and refinements contain each other, since a cast has a contract and a contract is an
expression.
-/

namespace ContractCheck

/-- A range of bytes in the text that an expression was elaborated from. -/
structure Span where
  start : UInt64
  len : UInt64
deriving DecidableEq, Repr, Inhabited

mutual

inductive Ty where
  /-- A named type such as `int`. -/
  | con (name : String)
  /-- A type applied to others, such as `array<int>`. -/
  | app (name : String) (args : List Ty)
  /-- A function type. The refinement of a parameter may mention the binders before it. -/
  | arrow (params : List RefinedTy) (ret : RefinedTy)
  /-- A type that inference left open. -/
  | var (id : UInt32)

inductive RefinedTy where
  | plain (ty : Ty)
  | refined (ty : Ty) (refinement : Refinement)

inductive Refinement where
  /-- The value only gets a name, which later contracts may use. -/
  | bind (binder : String)
  | holds (binder : String) (pred : Expr)
  | equals (binder : String) (value : Expr)

structure Expr where
  ty : Ty
  shape : Shape
  span : Option Span

inductive Shape where
  | var (name : String)
  | bool (value : Bool)
  | int (value : Int64)
  | call (callee : Expr) (args : List Expr)
  | letIn (name : String) (value body : Expr)
  | ite (test onTrue onFalse : Expr)
  | lambda (params : List String) (body : Expr)
  /-- An ascription. The contract of its target, if there is one, is to be proved. -/
  | cast (expr : Expr) (target : RefinedTy)

end

namespace Ty

def int : Ty := .con "int"

def bool : Ty := .con "bool"

def isInt : Ty → Bool
  | .con name => name == "int"
  | _ => false

def isBool : Ty → Bool
  | .con name => name == "bool"
  | _ => false

def arrow? : Ty → Option (List RefinedTy × RefinedTy)
  | .arrow params ret => some (params, ret)
  | _ => none

instance : Inhabited Ty := ⟨int⟩

theorem arrow?_eq_some_iff {t : Ty} {params : List RefinedTy} {ret : RefinedTy} :
    t.arrow? = some (params, ret) ↔ t = .arrow params ret := by
  cases t <;> simp [arrow?]

end Ty

/-- What a refinement states about its binder. -/
inductive Clause where
  | holds (pred : Expr)
  | equals (value : Expr)

def Clause.expr : Clause → Expr
  | .holds pred => pred
  | .equals value => value

namespace Refinement

def binder : Refinement → String
  | .bind binder => binder
  | .holds binder _ => binder
  | .equals binder _ => binder

def clause? : Refinement → Option Clause
  | .bind _ => none
  | .holds _ pred => some (.holds pred)
  | .equals _ value => some (.equals value)

def ofClause? (binder : String) : Option Clause → Refinement
  | none => .bind binder
  | some (.holds pred) => .holds binder pred
  | some (.equals value) => .equals binder value

@[simp] theorem binder_ofClause? (binder : String) (clause : Option Clause) :
    (ofClause? binder clause).binder = binder := by
  rcases clause with _ | _ | _ <;> rfl

@[simp] theorem clause?_ofClause? (binder : String) (clause : Option Clause) :
    (ofClause? binder clause).clause? = clause := by
  rcases clause with _ | _ | _ <;> rfl

@[simp] theorem ofClause?_clause? (r : Refinement) : ofClause? r.binder r.clause? = r := by
  cases r <;> rfl

end Refinement

namespace RefinedTy

def ty : RefinedTy → Ty
  | .plain ty => ty
  | .refined ty _ => ty

def refinement? : RefinedTy → Option Refinement
  | .plain _ => none
  | .refined _ refinement => some refinement

def clause? (t : RefinedTy) : Option Clause := t.refinement?.bind (·.clause?)

def ofRefinement? (ty : Ty) : Option Refinement → RefinedTy
  | none => .plain ty
  | some refinement => .refined ty refinement

@[simp] theorem ty_ofRefinement? (ty : Ty) (refinement : Option Refinement) :
    (ofRefinement? ty refinement).ty = ty := by
  cases refinement <;> rfl

@[simp] theorem refinement?_ofRefinement? (ty : Ty) (refinement : Option Refinement) :
    (ofRefinement? ty refinement).refinement? = refinement := by
  cases refinement <;> rfl

@[simp] theorem ofRefinement?_refinement? (t : RefinedTy) :
    ofRefinement? t.ty t.refinement? = t := by
  cases t <;> rfl

end RefinedTy

namespace Expr

def withSpan (e : Expr) (span : Span) : Expr := { e with span := some span }

def var (name : String) (ty : Ty) : Expr := ⟨ty, .var name, none⟩

def int (value : Int64) : Expr := ⟨.int, .int value, none⟩

def bool (value : Bool) : Expr := ⟨.bool, .bool value, none⟩

instance : Inhabited Expr := ⟨bool true⟩

/-- A call of a named function, which gets the plain arrow of its arguments as its type. -/
def call (callee : String) (args : List Expr) (ty : Ty) : Expr :=
  ⟨ty, .call (var callee (.arrow (args.map fun a => .plain a.ty) (.plain ty))) args, none⟩

def letIn (name : String) (value body : Expr) : Expr := ⟨body.ty, .letIn name value body, none⟩

def cast (expr : Expr) (target : RefinedTy) : Expr := ⟨target.ty, .cast expr target, none⟩

/-- The name of the callee if the expression calls a plain variable. -/
def calleeName? (e : Expr) : Option String :=
  match e.shape with
  | .call callee _ =>
    match callee.shape with
    | .var name => some name
    | _ => none
  | _ => none

end Expr

/-- Where a signature comes from, which decides how calls to it are modelled. -/
inductive Origin where
  /-- An operator that the solver has too. -/
  | builtin
  /-- An opaque function that the solver knows by name; its contracts are all that is known. -/
  | uninterpreted
  /-- An opaque operation that the solver does not know; it is modelled by its contracts. -/
  | primitive
  /-- A global value, which the solver knows as a constant. -/
  | value
deriving DecidableEq, Repr, Inhabited

def Origin.name : Origin → String
  | .builtin => "builtin"
  | .uninterpreted => "uninterpreted"
  | .primitive => "primitive"
  | .value => "value"

structure Signature where
  origin : Origin
  ty : RefinedTy

namespace Signature

def function (origin : Origin) (params : List RefinedTy) (ret : RefinedTy) : Signature :=
  ⟨origin, .plain (.arrow params ret)⟩

def value (ty : Ty) : Signature := ⟨.value, .plain ty⟩

end Signature

end ContractCheck
