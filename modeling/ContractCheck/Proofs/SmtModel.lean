import ContractCheck.Proofs.CommandReader
import ContractCheck.Proofs.Replies
import ContractCheck.Smt.SolverSort
import Mathlib.Data.List.Forall2

/-!
What the lines of a run mean to a solver. The lines are read as commands, the commands build a
stack of scopes with declarations and assertions, and a model of such a stack interprets what is
declared in it, nothing else, and makes all assertions true. A model that interprets a new constant
too agrees with the model that it extends on every term that has a value there
(`Model.eval_of_extends`).
-/

namespace ContractCheck

namespace Smt

/-- A value of a sort. What the elements of an opaque sort are is left open. -/
inductive Value (carrier : String → Type) where
  | int (n : Int)
  | bool (b : Bool)
  | element (sort : String) (x : carrier sort)

variable {carrier : String → Type}

def Value.sort : Value carrier → SolverSort
  | .int _ => .int
  | .bool _ => .bool
  | .element sort _ => .named sort

@[simp] theorem Value.sort_int (n : Int) : (Value.int n : Value carrier).sort = .int := rfl

@[simp] theorem Value.sort_bool (b : Bool) : (Value.bool b : Value carrier).sort = .bool := rfl

theorem Value.eq_int_of_sort {v : Value carrier} (h : v.sort = .int) : ∃ n, v = .int n := by
  cases v with
  | int n => exact ⟨n, rfl⟩
  | bool b => cases h
  | element sort x => cases h

theorem Value.eq_bool_of_sort {v : Value carrier} (h : v.sort = .bool) : ∃ b, v = .bool b := by
  cases v with
  | int n => cases h
  | bool b => exact ⟨b, rfl⟩
  | element sort x => cases h

/-- What a division by zero gives is left open too. -/
structure ByZero where
  quotient : Int → Int
  remainder : Int → Int

namespace ByZero

/-- Euclidean division. -/
def div (z : ByZero) (a b : Int) : Int := if b = 0 then z.quotient a else a / b

def mod (z : ByZero) (a b : Int) : Int := if b = 0 then z.remainder a else a % b

end ByZero

/-- The symbols of the theories of booleans and integers. -/
def theorySymbols : List String := [
  "true", "false", "not", "=>", "and", "or", "xor", "=", "distinct", "ite",
  "-", "+", "*", "div", "mod", "abs", "<=", "<", ">=", ">", "divisible"]

open Classical in
/-- The application of a symbol of the theories. Those that no run uses have no meaning here. -/
noncomputable def theoryApply (z : ByZero) :
    String → List (Value carrier) → Option (Value carrier)
  | "not", [.bool a] => some (.bool (!a))
  | "and", [.bool a, .bool b] => some (.bool (a && b))
  | "or", [.bool a, .bool b] => some (.bool (a || b))
  | "=>", [.bool a, .bool b] => some (.bool (!a || b))
  | "=", [a, b] => if a.sort = b.sort then some (.bool (decide (a = b))) else none
  | "-", [.int a] => some (.int (-a))
  | "-", [.int a, .int b] => some (.int (a - b))
  | "+", [.int a, .int b] => some (.int (a + b))
  | "*", [.int a, .int b] => some (.int (a * b))
  | "div", [.int a, .int b] => some (.int (z.div a b))
  | "mod", [.int a, .int b] => some (.int (z.mod a b))
  | "<=", [.int a, .int b] => some (.bool (decide (a ≤ b)))
  | "<", [.int a, .int b] => some (.bool (decide (a < b)))
  | ">=", [.int a, .int b] => some (.bool (decide (a ≥ b)))
  | ">", [.int a, .int b] => some (.bool (decide (a > b)))
  | _, _ => none

/-- The number that a word of digits stands for. -/
def numeral? (text : String) : Option Nat :=
  if text.toList ≠ [] ∧ text.toList.all Char.isDigit then
    some (Nat.ofDigitChars 10 text.toList 0)
  else none

theorem numeral?_toString (n : Nat) : numeral? (toString n) = some n := by
  have hdigits : (toString n).toList = Nat.toDigits 10 n := by
    rw [Nat.toString_eq_repr, Nat.toList_repr]
  have hall : (Nat.toDigits 10 n).all Char.isDigit = true :=
    List.all_eq_true.2 fun c hc => Nat.isDigit_of_mem_toDigits (by decide) (by decide) hc
  rw [numeral?, hdigits, if_pos ⟨Nat.toDigits_ne_nil, hall⟩, Nat.ofDigitChars_ten_toDigits]

theorem mem_theorySymbols {z : ByZero} {head : String} {args : List (Value carrier)}
    {v : Value carrier} (h : theoryApply z head args = some v) :
    head ∈ theorySymbols ∧ args ≠ [] := by
  unfold theoryApply at h
  split at h
  case h_16 => cases h
  all_goals exact ⟨by decide, List.cons_ne_nil _ _⟩

/-- Values of terms under an assignment to the symbols. Literals and the symbols of the theories
mean what they should, and all else is left open. -/
structure Valuation (carrier : String → Type) where
  value : Term → Option (Value carrier)
  byZero : ByZero
  bool : ∀ b, value (.bool b) = some (.bool b)
  numeral : ∀ n : Nat, value (.atom (toString n)) = some (.int n)
  theory : ∀ {head : String} {args : List Term} {vs : List (Value carrier)} {v : Value carrier},
    List.Forall₂ (fun t w => value t = some w) args vs → theoryApply byZero head vs = some v →
      value (.apply head args) = some v

/-- A literal means its number, down to the least one. -/
theorem Valuation.int (V : Valuation carrier) (n : Int64) :
    V.value (.int n) = some (.int n.toInt) := by
  have hnumeral := V.numeral n.toInt.natAbs
  unfold Term.int
  by_cases hneg : n.toInt < 0
  · have hminus : theoryApply V.byZero "-" [.int n.toInt.natAbs] =
        some (.int (-n.toInt.natAbs) : Value carrier) := rfl
    rw [if_pos hneg, V.theory (.cons hnumeral .nil) hminus]
    congr 2
    omega
  · rw [if_neg hneg, hnumeral]
    congr 2
    omega

/-- A symbol of a run's own: it is no symbol of the theories and no number. -/
structure IsOwn (name : String) : Prop where
  theory : name ∉ theorySymbols
  numeral : numeral? name = none

/-- An interpretation of symbols over the carriers. -/
structure Model (carrier : String → Type) where
  symbol : String → List (Value carrier) → Option (Value carrier)
  byZero : ByZero

namespace Model

variable {M M' : Model carrier}

/-- A word alone is a truth value, a number or a constant. -/
def word (M : Model carrier) (text : String) : Option (Value carrier) :=
  if text = "true" then some (.bool true)
  else if text = "false" then some (.bool false)
  else match numeral? text with
    | some n => some (.int n)
    | none => M.symbol text []

noncomputable def application (M : Model carrier) (head : String) (args : List (Value carrier)) :
    Option (Value carrier) :=
  if head ∈ theorySymbols then theoryApply M.byZero head args else M.symbol head args

mutual

/-- The value of a term; it has none if it is ill-sorted or mentions what is not interpreted. -/
noncomputable def eval (M : Model carrier) : Term → Option (Value carrier)
  | .atom text => M.word text
  | .list items => M.evalList items

noncomputable def evalList (M : Model carrier) : List Term → Option (Value carrier)
  | .atom head :: arg :: args => (M.evalAll (arg :: args)).bind (M.application head)
  | _ => none

noncomputable def evalAll (M : Model carrier) : List Term → Option (List (Value carrier))
  | [] => some []
  | t :: ts => (M.eval t).bind fun v => (M.evalAll ts).map (v :: ·)

end

theorem eval_apply {head : String} {args : List Term} (hne : args ≠ []) :
    M.eval (.apply head args) = (M.evalAll args).bind (M.application head) := by
  cases args with
  | nil => exact absurd rfl hne
  | cons arg args => rw [SExpr.apply, eval, evalList]

theorem evalAll_cons_eq_some {t : Term} {ts : List Term} {v : Value carrier}
    {vs : List (Value carrier)} (h : M.eval t = some v) (hs : M.evalAll ts = some vs) :
    M.evalAll (t :: ts) = some (v :: vs) := by
  rw [evalAll, h, hs]
  rfl

@[simp] theorem evalAll_nil : M.evalAll [] = some [] := by
  rw [evalAll]

theorem eval_unary {head : String} {t : Term} {a : Value carrier} (h : M.eval t = some a) :
    M.eval (.apply head [t]) = M.application head [a] := by
  rw [eval_apply (List.cons_ne_nil _ _), evalAll_cons_eq_some h evalAll_nil, Option.bind_some]

theorem eval_binary {head : String} {t t' : Term} {a b : Value carrier} (h : M.eval t = some a)
    (h' : M.eval t' = some b) : M.eval (.apply head [t, t']) = M.application head [a, b] := by
  rw [eval_apply (List.cons_ne_nil _ _),
    evalAll_cons_eq_some h (evalAll_cons_eq_some h' evalAll_nil), Option.bind_some]

theorem application_own {name : String} (h : IsOwn name) (args : List (Value carrier)) :
    M.application name args = M.symbol name args := by
  rw [application, if_neg h.theory]

theorem eval_symbol {name : String} (h : IsOwn name) :
    M.eval (.symbol name) = M.symbol name [] := by
  have htrue : name ≠ "true" := by
    rintro rfl
    exact h.theory (by decide)
  have hfalse : name ≠ "false" := by
    rintro rfl
    exact h.theory (by decide)
  rw [Term.symbol, eval, word, if_neg htrue, if_neg hfalse, h.numeral]

@[simp] theorem eval_bool (b : Bool) : M.eval (.bool b) = some (.bool b) := by
  cases b with
  | true => rw [Term.bool, if_pos rfl, eval, word, if_pos rfl]
  | false => rw [Term.bool, if_neg Bool.false_ne_true, eval, word, if_neg (by decide), if_pos rfl]

theorem eval_numeral (n : Nat) : M.eval (.atom (toString n)) = some (.int n) := by
  have hword : ∀ text, numeral? text = none → toString n ≠ text := by
    rintro text h rfl
    rw [numeral?_toString] at h
    cases h
  rw [eval, word, if_neg (hword _ rfl), if_neg (hword _ rfl), numeral?_toString]

theorem evalAll_eq_some_iff {ts : List Term} {vs : List (Value carrier)} :
    M.evalAll ts = some vs ↔ List.Forall₂ (fun t v => M.eval t = some v) ts vs := by
  induction ts generalizing vs with
  | nil => simp [eq_comm]
  | cons t rest ih =>
      rw [evalAll, Option.bind_eq_some_iff, List.forall₂_cons_left_iff]
      simp only [Option.map_eq_some_iff, ih]
      constructor
      · rintro ⟨v, hv, us, hus, rfl⟩
        exact ⟨v, us, hv, hus, rfl⟩
      · rintro ⟨v, us, hv, hus, rfl⟩
        exact ⟨v, hv, us, hus, rfl⟩

/-- The values that a model gives to terms. -/
noncomputable def valuation (M : Model carrier) : Valuation carrier where
  value := M.eval
  byZero := M.byZero
  bool := M.eval_bool
  numeral := M.eval_numeral
  theory {head args vs v} hargs hv := by
    obtain ⟨hhead, hne⟩ := mem_theorySymbols hv
    have happlication : M.application head vs = theoryApply M.byZero head vs := if_pos hhead
    cases hargs with
    | nil => exact absurd rfl hne
    | cons harg hrest =>
        rw [eval_apply (List.cons_ne_nil _ _), evalAll_eq_some_iff.2 (.cons harg hrest),
          Option.bind_some, happlication, hv]

@[simp] theorem eval_int (n : Int64) : M.eval (.int n) = some (.int n.toInt) := M.valuation.int n

theorem eval_not {t : Term} {a : Bool} (h : M.eval t = some (.bool a)) :
    M.eval (.not t) = some (.bool (!a)) := by
  rw [Term.not, eval_unary h]
  rfl

open Classical in
theorem eval_eq {t t' : Term} {a b : Value carrier} (h : M.eval t = some a)
    (h' : M.eval t' = some b) (hsort : a.sort = b.sort) :
    M.eval (.eq t t') = some (.bool (decide (a = b))) := by
  have heq : M.application "=" [a, b] =
      if a.sort = b.sort then some (.bool (decide (a = b))) else none := rfl
  rw [Term.eq, eval_binary h h', heq, if_pos hsort]

theorem eval_eq_self {t t' : Term} {a : Value carrier} (h : M.eval t = some a)
    (h' : M.eval t' = some a) : M.eval (.eq t t') = some (.bool true) := by
  classical
  rw [eval_eq h h' rfl, decide_eq_true rfl]

/-- The second model interprets all that the first one does, and in the same way. -/
structure Extends (M M' : Model carrier) : Prop where
  symbol : ∀ name args v, M.symbol name args = some v → M'.symbol name args = some v
  byZero : M'.byZero = M.byZero

theorem Extends.refl (M : Model carrier) : M.Extends M := ⟨fun _ _ _ h => h, rfl⟩

theorem Extends.trans {M'' : Model carrier} (h : M.Extends M') (h' : M'.Extends M'') :
    M.Extends M'' :=
  ⟨fun _ _ _ hv => h'.symbol _ _ _ (h.symbol _ _ _ hv), h'.byZero.trans h.byZero⟩

theorem Extends.word (h : M.Extends M') {text : String} {v : Value carrier}
    (hv : M.word text = some v) : M'.word text = some v := by
  unfold Model.word at hv ⊢
  split
  · rwa [if_pos ‹_›] at hv
  · rw [if_neg ‹_›] at hv
    split
    · rwa [if_pos ‹_›] at hv
    · rw [if_neg ‹_›] at hv
      cases hnumeral : numeral? text with
      | some n =>
          rw [hnumeral] at hv
          exact hv
      | none =>
          rw [hnumeral] at hv
          exact h.symbol _ _ _ hv

theorem Extends.application (h : M.Extends M') {head : String} {args : List (Value carrier)}
    {v : Value carrier} (hv : M.application head args = some v) :
    M'.application head args = some v := by
  unfold Model.application at hv ⊢
  split
  · rwa [if_pos ‹_›, ← h.byZero] at hv
  · rw [if_neg ‹_›] at hv
    exact h.symbol _ _ _ hv

mutual

theorem eval_of_extends (h : M.Extends M') :
    ∀ {t : Term} {v : Value carrier}, M.eval t = some v → M'.eval t = some v
  | .atom text, v, hv => by
      rw [eval] at hv ⊢
      exact h.word hv
  | .list items, v, hv => by
      rw [eval] at hv ⊢
      exact evalList_of_extends h hv

theorem evalList_of_extends (h : M.Extends M') :
    ∀ {items : List Term} {v : Value carrier}, M.evalList items = some v →
      M'.evalList items = some v
  | .atom head :: arg :: args, v, hv => by
      rw [evalList] at hv ⊢
      obtain ⟨vs, hvs, hv⟩ := Option.bind_eq_some_iff.1 hv
      rw [evalAll_of_extends h hvs, Option.bind_some]
      exact h.application hv
  | [], v, hv => by simp [evalList] at hv
  | [.atom head], v, hv => by simp [evalList] at hv
  | .list items :: args, v, hv => by simp [evalList] at hv

theorem evalAll_of_extends (h : M.Extends M') :
    ∀ {ts : List Term} {vs : List (Value carrier)}, M.evalAll ts = some vs →
      M'.evalAll ts = some vs
  | [], vs, hvs => by
      rw [evalAll] at hvs ⊢
      exact hvs
  | t :: ts, vs, hvs => by
      rw [evalAll] at hvs
      obtain ⟨v, hv, hvs⟩ := Option.bind_eq_some_iff.1 hvs
      obtain ⟨rest, hrest, rfl⟩ := Option.map_eq_some_iff.1 hvs
      exact evalAll_cons_eq_some (eval_of_extends h hv) (evalAll_of_extends h hrest)

end

end Model

end Smt

end ContractCheck
