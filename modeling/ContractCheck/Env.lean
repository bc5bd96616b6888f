import ContractCheck.NameMap
import ContractCheck.Syntax

/-!
Environments, which give names their signatures, and the prelude that every program starts with:
built-in operators, uninterpreted symbols, and the primitive operations of arrays and pairs.
-/

namespace ContractCheck

abbrev Env := NameMap Signature

namespace Prelude

def array : Ty := .app "array" [.int]

def pair : Ty := .app "pair" [.int, .int]

def int (name : String) : Expr := .var name .int

def infixed (name : String) (a b : Expr) (ty : Ty) : Expr := .call name [a, b] ty

def length (name : String) : Expr := .call "length" [.var name array] .int

def bound (name : String) (ty : Ty) : RefinedTy := .refined ty (.bind name)

def holds (name : String) (ty : Ty) (pred : Expr) : RefinedTy := .refined ty (.holds name pred)

def natural (name : String) : RefinedTy :=
  holds name .int (infixed ">=" (int name) (.int 0) .bool)

def nonzero (name : String) : RefinedTy :=
  holds name .int (infixed "!=" (int name) (.int 0) .bool)

/-- An index `i` of the array `a`. -/
def indexOf (i a : String) : RefinedTy :=
  holds i .int (infixed "&&" (infixed "<=" (.int 0) (int i) .bool)
    (infixed "<" (int i) (length a) .bool) .bool)

def sameLength (r a : String) : RefinedTy :=
  holds r array (infixed "==" (length r) (length a) .bool)

def ints (count : Nat) : List RefinedTy := List.replicate count (.plain .int)

def bools (count : Nat) : List RefinedTy := List.replicate count (.plain .bool)

def arithmetic : List (String × Signature) :=
  ["+", "-", "*"].map (·, .function .builtin (ints 2) (.plain .int))

def division : List (String × Signature) :=
  ["/", "%"].map (·, .function .builtin [.plain .int, nonzero "y"] (.plain .int))

def comparisons : List (String × Signature) :=
  ["<", "<=", ">", ">=", "==", "!="].map (·, .function .builtin (ints 2) (.plain .bool))

def connectives : List (String × Signature) :=
  ["&&", "||", "=>"].map (·, .function .builtin (bools 2) (.plain .bool))

def unary : List (String × Signature) := [
  ("!", .function .builtin (bools 1) (.plain .bool)),
  ("unary-", .function .builtin (ints 1) (.plain .int))]

def uninterpreted : List (String × Signature) := [
  ("length", .function .uninterpreted [.plain array] (natural "n")),
  ("prime", .function .uninterpreted (ints 1) (.plain .bool)),
  ("fst", .function .uninterpreted [.plain pair] (.plain .int)),
  ("snd", .function .uninterpreted [.plain pair] (.plain .int))]

def primitives : List (String × Signature) := [
  ("alloc", .function .primitive [natural "n"]
    (holds "a" array (infixed "==" (length "a") (int "n") .bool))),
  ("get", .function .primitive [bound "a" array, indexOf "i" "a"] (.plain .int)),
  ("set", .function .primitive [bound "a" array, indexOf "i" "a", .plain .int]
    (sameLength "r" "a")),
  ("copy", .function .primitive [bound "a" array] (sameLength "r" "a")),
  ("pair", .function .primitive [bound "x" .int, bound "y" .int]
    (holds "p" pair (infixed "&&"
      (infixed "==" (.call "fst" [.var "p" pair] .int) (int "x") .bool)
      (infixed "==" (.call "snd" [.var "p" pair] .int) (int "y") .bool) .bool))),
  ("succ", .function .primitive [bound "x" .int]
    (.refined .int (.equals "r" (infixed "+" (int "x") (.int 1) .int)))),
  ("max", .function .primitive [bound "x" .int, bound "y" .int]
    (holds "m" .int (infixed "&&" (infixed ">=" (int "m") (int "x") .bool)
      (infixed ">=" (int "m") (int "y") .bool) .bool)))]

end Prelude

def prelude : Env :=
  .ofList (Prelude.arithmetic ++ Prelude.division ++ Prelude.comparisons ++ Prelude.connectives ++
    Prelude.unary ++ Prelude.uninterpreted ++ Prelude.primitives)

end ContractCheck
