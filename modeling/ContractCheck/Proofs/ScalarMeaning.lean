import ContractCheck.Proofs.OneCommand
import ContractCheck.Proofs.PureTerms
import ContractCheck.Proofs.Simulation
import ContractCheck.Proofs.TermText

/-!
What the terms of scalar expressions mean. An expression has a term if it is built of variables,
literals and operators without a precondition, in a number of arguments that fits
(`Expr.exists_toTerm_iff`). If it is well-sorted, its text is read as one S-expression, and that has
the value of the expression under every assignment to the symbols, where each variable has the value
of the term that it is bound to (`Expr.toTerm_keeps_meaning`).
-/

namespace ContractCheck

open Smt

namespace Operator

/-- The operator may be applied to so many terms. -/
def Takes (name : String) (count : Nat) : Prop :=
  if name = "unary-" then count = 1 else if name = "!=" then count = 2 else 0 < count

theorem exists_apply_iff {name : String} (hbuiltin : isBuiltin name = true) {args : List Term} :
    (∃ t, apply name args = .ok t) ↔ Takes name args.length := by
  obtain ⟨symbol, hsymbol⟩ := Option.isSome_iff_exists.1 hbuiltin
  unfold apply Takes
  simp only [hsymbol]
  split
  · rcases args with _ | ⟨a, _ | ⟨b, rest⟩⟩ <;> simp
  · split
    · rcases args with _ | ⟨a, _ | ⟨b, _ | ⟨c, rest⟩⟩⟩ <;> simp
    · cases args <;> simp

theorem isGuarded_eq_false_iff {name : String} :
    isGuarded name = false ↔ name ≠ "/" ∧ name ≠ "%" := by
  simp [isGuarded]

end Operator

/-- Variables, literals, and applications of operators without a precondition. -/
inductive Expr.IsScalar : Expr → Prop where
  | var {ty : Ty} {name : String} {span : Option Span} : IsScalar ⟨ty, .var name, span⟩
  | bool {ty : Ty} {b : Bool} {span : Option Span} : IsScalar ⟨ty, .bool b, span⟩
  | int {ty : Ty} {n : Int64} {span : Option Span} : IsScalar ⟨ty, .int n, span⟩
  | operator {ty : Ty} {callee : Expr} {args : List Expr} {span : Option Span} {name : String}
      (hcallee : callee.shape = .var name) (hbuiltin : Operator.isBuiltin name = true)
      (hquotient : name ≠ "/") (hremainder : name ≠ "%")
      (hcount : Operator.Takes name args.length) (hargs : ∀ arg ∈ args, IsScalar arg) :
      IsScalar ⟨ty, .call callee args, span⟩

section

variable {locals : Bindings}

theorem Expr.length_toTerms : ∀ {es : List Expr} {terms : List Term},
    Expr.toTerms locals es = .ok terms → terms.length = es.length
  | [], _, h => by
      rw [Expr.toTerms] at h
      cases h
      rfl
  | e :: es, _, h => by
      obtain ⟨first, rest, -, hrest, rfl⟩ := Expr.toTerms_cons_eq_ok_iff.1 h
      rw [List.length_cons, List.length_cons, Expr.length_toTerms hrest]

mutual

theorem Expr.isScalar_of_toTerm : ∀ {e : Expr} {t : Term}, e.toTerm locals = .ok t → e.IsScalar
  | ⟨_, .var _, _⟩, _, _ => .var
  | ⟨_, .bool _, _⟩, _, _ => .bool
  | ⟨_, .int _, _⟩, _, _ => .int
  | ⟨_, .call callee args, _⟩, _, h => by
      obtain ⟨name, terms, hcallee, hbuiltin, hguarded, hterms, happly⟩ :=
        Expr.toTerm_call_eq_ok_iff.1 h
      obtain ⟨hquotient, hremainder⟩ := Operator.isGuarded_eq_false_iff.1 hguarded
      have hcount := (Operator.exists_apply_iff hbuiltin).1 ⟨_, happly⟩
      rw [Expr.length_toTerms hterms] at hcount
      exact .operator hcallee hbuiltin hquotient hremainder hcount (Expr.isScalar_of_toTerms hterms)
  | ⟨_, .letIn _ _ _, _⟩, _, h | ⟨_, .ite _ _ _, _⟩, _, h | ⟨_, .lambda _ _, _⟩, _, h
  | ⟨_, .cast _ _, _⟩, _, h => by cases h

theorem Expr.isScalar_of_toTerms : ∀ {es : List Expr} {terms : List Term},
    Expr.toTerms locals es = .ok terms → ∀ e ∈ es, e.IsScalar
  | [], _, _ => List.forall_mem_nil _
  | e :: es, _, h => by
      obtain ⟨first, rest, hfirst, hrest, -⟩ := Expr.toTerms_cons_eq_ok_iff.1 h
      exact List.forall_mem_cons.2
        ⟨Expr.isScalar_of_toTerm hfirst, Expr.isScalar_of_toTerms hrest⟩

end

theorem Expr.exists_toTerms {es : List Expr} (h : ∀ e ∈ es, ∃ t, e.toTerm locals = .ok t) :
    ∃ terms, Expr.toTerms locals es = .ok terms := by
  induction es with
  | nil => exact ⟨[], by rw [Expr.toTerms]⟩
  | cons e es ih =>
      obtain ⟨⟨t, ht⟩, hrest⟩ := List.forall_mem_cons.1 h
      obtain ⟨terms, hterms⟩ := ih hrest
      exact ⟨t :: terms, Expr.toTerms_cons_eq_ok_iff.2 ⟨t, terms, ht, hterms, rfl⟩⟩

/-- The expressions that have terms. -/
theorem Expr.exists_toTerm_iff {e : Expr} : (∃ t, e.toTerm locals = .ok t) ↔ e.IsScalar := by
  refine ⟨?_, fun h => ?_⟩
  · rintro ⟨t, h⟩
    exact Expr.isScalar_of_toTerm h
  induction h with
  | var => exact ⟨_, rfl⟩
  | bool => exact ⟨_, rfl⟩
  | int => exact ⟨_, rfl⟩
  | @operator ty callee args span name hcallee hbuiltin hquotient hremainder hcount hargs ih =>
      obtain ⟨terms, hterms⟩ := Expr.exists_toTerms ih
      rw [← Expr.length_toTerms hterms] at hcount
      obtain ⟨t, happly⟩ := (Operator.exists_apply_iff hbuiltin).2 hcount
      exact ⟨t, Expr.toTerm_call_eq_ok_iff.2 ⟨name, terms, hcallee, hbuiltin,
        Operator.isGuarded_eq_false_iff.2 ⟨hquotient, hremainder⟩, hterms, happly⟩⟩

end

/-- Terms whose texts are read as these. -/
def Reading (terms readings : List Term) : Prop :=
  List.Forall₂ (fun t u => SExpr.parse? t.render = some u) terms readings

theorem Term.parse?_bool (b : Bool) : SExpr.parse? (Term.bool b).render = some (Term.bool b) := by
  have htrue : isSymbol "true" = true := by decide
  have hfalse : isSymbol "false" = true := by decide
  cases b with
  | true => exact SExpr.parse?_symbol htrue
  | false => exact SExpr.parse?_symbol hfalse

theorem Term.parse?_int (n : Int64) : SExpr.parse? (Term.int n).render = some (Term.int n) := by
  have hdigits : SExpr.parse? (SExpr.atom (toString n.toInt.natAbs)).render =
      some (.atom (toString n.toInt.natAbs)) := by
    rw [SExpr.render]
    exact SExpr.parse?_symbol (isSymbol_toString _)
  have hminus : isSymbol "-" = true := by decide
  unfold Term.int
  split
  · exact SExpr.parse?_apply hminus (.cons hdigits .nil)
  · exact hdigits

/-- The application of an operator is read as its application to what its operands are read as. -/
theorem Operator.exists_reading {name : String} {terms readings : List Term} {t : Term}
    (happly : apply name terms = .ok t) (hread : Reading terms readings) :
    ∃ u, apply name readings = .ok u ∧ SExpr.parse? t.render = some u := by
  have hall : ∀ entry ∈ symbols, isSymbol entry.2 = true := by decide
  have hnot : isSymbol "not" = true := by decide
  unfold apply at happly ⊢
  cases hsymbol : symbol? name with
  | none =>
      rw [hsymbol] at happly
      cases happly
  | some symbol =>
      have happlied := SExpr.parse?_apply
        (hall (name, symbol) (NameMap.mem_of_lookup_eq_some hsymbol)) hread
      simp only [hsymbol] at happly ⊢
      split at happly
      · rename_i hname
        rw [if_pos hname]
        split at happly
        · obtain ⟨u, _, -, ⟨⟩, rfl⟩ := List.forall₂_cons_left_iff.1 hread
          cases happly
          exact ⟨_, rfl, happlied⟩
        · cases happly
      · rename_i hname
        rw [if_neg hname]
        split at happly
        · rename_i hname
          rw [if_pos hname]
          split at happly
          · obtain ⟨u, _, -, hrest, rfl⟩ := List.forall₂_cons_left_iff.1 hread
            obtain ⟨u', _, -, ⟨⟩, rfl⟩ := List.forall₂_cons_left_iff.1 hrest
            cases happly
            exact ⟨_, rfl, SExpr.parse?_apply hnot (.cons happlied .nil)⟩
          · cases happly
        · rename_i hname
          rw [if_neg hname]
          cases hread with
          | nil => cases happly
          | cons hfirst hrest =>
              cases happly
              exact ⟨_, rfl, happlied⟩

/-- How the parts of scalar expressions are interpreted. -/
structure ScalarAlgebra (α : Type) where
  var : String → Option α
  bool : Bool → α
  int : Int64 → α
  operator : String → List α → Option α

mutual

/-- What a scalar expression comes to. -/
def Expr.fold? {α : Type} (A : ScalarAlgebra α) : Expr → Option α
  | ⟨_, shape, _⟩ =>
    match shape with
    | .var name => A.var name
    | .bool b => some (A.bool b)
    | .int n => some (A.int n)
    | .call callee args =>
      match callee.shape with
      | .var name => (Expr.foldAll? A args).bind (A.operator name)
      | _ => none
    | _ => none

def Expr.foldAll? {α : Type} (A : ScalarAlgebra α) : List Expr → Option (List α)
  | [] => some []
  | e :: es => (e.fold? A).bind fun a => (Expr.foldAll? A es).map (a :: ·)

end

theorem Expr.foldAll?_eq_some_iff {α : Type} {A : ScalarAlgebra α} {es : List Expr} {as : List α} :
    Expr.foldAll? A es = some as ↔ List.Forall₂ (fun e a => e.fold? A = some a) es as := by
  induction es generalizing as with
  | nil => simp [Expr.foldAll?, eq_comm]
  | cons e es ih =>
      rw [Expr.foldAll?, Option.bind_eq_some_iff, List.forall₂_cons_left_iff]
      simp only [Option.map_eq_some_iff, ih]
      constructor
      · rintro ⟨a, ha, as, has, rfl⟩
        exact ⟨a, as, ha, has, rfl⟩
      · rintro ⟨a, as, ha, has, rfl⟩
        exact ⟨a, ha, as, has, rfl⟩

theorem Expr.fold?_call {α : Type} {A : ScalarAlgebra α} {ty : Ty} {callee : Expr}
    {args : List Expr} {span : Option Span} {name : String} (hcallee : callee.shape = .var name) :
    Expr.fold? A ⟨ty, .call callee args, span⟩ = (Expr.foldAll? A args).bind (A.operator name) := by
  rw [Expr.fold?]
  simp only [hcallee]

/-- The sort of a scalar expression whose operators have the operands that they should have, where
variables have these sorts. -/
def Expr.scalarSort? (sorts : String → Option SolverSort) : Expr → Option SolverSort :=
  Expr.fold? ⟨sorts, fun _ => .bool, fun _ => .int, Operator.resultSort?⟩

variable {carrier : String → Type}

/-- The value of a scalar expression over the integers, where variables have these values. -/
noncomputable def Expr.value? (z : ByZero) (values : String → Option (Value carrier)) :
    Expr → Option (Value carrier) :=
  Expr.fold? ⟨values, .bool, fun n => .int n.toInt, Operator.meaning? z⟩

namespace Smt.Valuation

/-- The value of a variable is that of the term it stands for, as the text of this is read. -/
def lookup (V : Valuation carrier) (locals : Bindings) (name : String) : Option (Value carrier) :=
  (SExpr.parse? (locals.resolve name).render).bind V.value

/-- Variables have values of their sorts. -/
def Fits (V : Valuation carrier) (locals : Bindings) (sorts : String → Option SolverSort) : Prop :=
  ∀ name sort, sorts name = some sort → ∃ v, V.lookup locals name = some v ∧ v.sort = sort

end Smt.Valuation

/-- Wherever variables have values of their sorts, the term has the value of the expression. -/
def Expr.Means (locals : Bindings) (e : Expr) (u : Term) : Prop :=
  ∀ (carrier : String → Type) (V : Valuation carrier) (sorts : String → Option SolverSort)
    (sort : SolverSort), V.Fits locals sorts → e.scalarSort? sorts = some sort →
      ∃ v, e.value? V.byZero (V.lookup locals) = some v ∧ v.sort = sort ∧ V.value u = some v

section

variable {locals : Bindings}

theorem Bindings.exists_parse?_resolve
    (hlocals : locals.Within fun t => isSingle t.render = true) {name : String}
    (hname : isSymbol name = true) :
    ∃ u, SExpr.parse? (locals.resolve name).render = some u := by
  refine SExpr.exists_parse?_iff.2 (hlocals.resolve ?_)
  rw [Term.symbol, SExpr.render]
  exact isSingle_of_isSymbol hname

/-- The operands of an operator have values if each of them does. -/
theorem Expr.Means.operands {es : List Expr} {us : List Term}
    (h : List.Forall₂ (Expr.Means locals) es us) (V : Valuation carrier)
    {sorts : String → Option SolverSort} (hfits : V.Fits locals sorts) {operands : List SolverSort}
    (hsorts : List.Forall₂ (fun e sort => e.scalarSort? sorts = some sort) es operands) :
    ∃ vs, List.Forall₂ (fun e v => e.value? V.byZero (V.lookup locals) = some v) es vs ∧
      vs.map Value.sort = operands ∧ List.Forall₂ (fun u v => V.value u = some v) us vs := by
  induction h generalizing operands with
  | nil =>
      cases hsorts
      exact ⟨[], .nil, rfl, .nil⟩
  | cons hmeans _ ih =>
      obtain ⟨sort, rest, hsort, hrest, rfl⟩ := List.forall₂_cons_left_iff.1 hsorts
      obtain ⟨v, hvalue, rfl, hv⟩ := hmeans carrier V sorts sort hfits hsort
      obtain ⟨vs, hvalues, rfl, hvs⟩ := ih hrest
      exact ⟨v :: vs, .cons hvalue hvalues, rfl, .cons hv hvs⟩

theorem Expr.Means.call {ty : Ty} {callee : Expr} {args : List Expr} {span : Option Span}
    {name : String} (hcallee : callee.shape = .var name) {us : List Term} {u : Term}
    (hargs : List.Forall₂ (Expr.Means locals) args us) (happly : Operator.apply name us = .ok u) :
    Expr.Means locals ⟨ty, .call callee args, span⟩ u := by
  intro carrier V sorts sort hfits hsort
  rw [Expr.scalarSort?, Expr.fold?_call hcallee, Option.bind_eq_some_iff] at hsort
  obtain ⟨operands, hoperands, hresult⟩ := hsort
  obtain ⟨vs, hvalues, rfl, hvs⟩ :=
    Expr.Means.operands hargs V hfits (Expr.foldAll?_eq_some_iff.1 hoperands)
  obtain ⟨v, hmeaning, hv⟩ := Operator.exists_meaning V.byZero hresult
  refine ⟨v, ?_, hv, V.operator happly hvs hmeaning⟩
  rw [Expr.value?, Expr.fold?_call hcallee, Expr.foldAll?_eq_some_iff.2 hvalues, Option.bind_some]
  exact hmeaning

mutual

/-- The text of a term is read as something that has the value of the expression. -/
theorem Expr.exists_reading (hlocals : locals.Within fun t => isSingle t.render = true) :
    ∀ {e : Expr} {t : Term}, e.toTerm locals = .ok t → e.isSymbolic = true →
      ∃ u, SExpr.parse? t.render = some u ∧ e.Means locals u
  | ⟨_, .var name, _⟩, _, h, he => by
      cases h
      have hname : isSymbol name = true :=
        Expr.isSymbolic_iff.1 he name (by simp [Expr.names, Shape.names])
      obtain ⟨u, hu⟩ := Bindings.exists_parse?_resolve hlocals hname
      refine ⟨u, hu, fun carrier V sorts sort hfits hsort => ?_⟩
      obtain ⟨v, hlookup, hv⟩ := hfits name sort hsort
      refine ⟨v, hlookup, hv, ?_⟩
      rwa [Smt.Valuation.lookup, hu, Option.bind_some] at hlookup
  | ⟨_, .bool b, _⟩, _, h, _ => by
      cases h
      refine ⟨_, Term.parse?_bool b, fun carrier V sorts sort _ hsort => ?_⟩
      cases hsort
      exact ⟨_, rfl, rfl, V.bool b⟩
  | ⟨_, .int n, _⟩, _, h, _ => by
      cases h
      refine ⟨_, Term.parse?_int n, fun carrier V sorts sort _ hsort => ?_⟩
      cases hsort
      exact ⟨_, rfl, rfl, V.int n⟩
  | ⟨ty, .call callee args, span⟩, t, h, he => by
      obtain ⟨name, terms, hcallee, -, -, hterms, happly⟩ := Expr.toTerm_call_eq_ok_iff.1 h
      rw [Expr.isSymbolic_iff, Expr.names, Shape.names] at he
      obtain ⟨us, hread, hmeans⟩ := Expr.exists_readings hlocals hterms he
      obtain ⟨u, happly', hu⟩ := Operator.exists_reading happly hread
      exact ⟨u, hu, .call hcallee hmeans happly'⟩
  | ⟨_, .letIn _ _ _, _⟩, _, h, _ | ⟨_, .ite _ _ _, _⟩, _, h, _ | ⟨_, .lambda _ _, _⟩, _, h, _
  | ⟨_, .cast _ _, _⟩, _, h, _ => by cases h

theorem Expr.exists_readings (hlocals : locals.Within fun t => isSingle t.render = true) :
    ∀ {es : List Expr} {terms : List Term}, Expr.toTerms locals es = .ok terms →
      (∀ name ∈ Expr.namesAll es, isSymbol name = true) →
        ∃ us, Reading terms us ∧ List.Forall₂ (Expr.Means locals) es us
  | [], _, h, _ => by
      rw [Expr.toTerms] at h
      cases h
      exact ⟨[], .nil, .nil⟩
  | e :: es, _, h, he => by
      obtain ⟨first, rest, hfirst, hrest, rfl⟩ := Expr.toTerms_cons_eq_ok_iff.1 h
      rw [Expr.namesAll, List.forall_mem_append] at he
      obtain ⟨u, hu, hmeans⟩ := Expr.exists_reading hlocals hfirst (Expr.isSymbolic_iff.2 he.1)
      obtain ⟨us, hus, hmeansAll⟩ := Expr.exists_readings hlocals hrest he.2
      exact ⟨u :: us, .cons hu hus, .cons hmeans hmeansAll⟩

end

/-- The translation of scalar expressions accepts its grammar and keeps the meaning. Where names are
bound to single S-expressions, an expression has a term if and only if it is scalar. If its names
are symbols, the text of that term is read as one S-expression. Whatever the symbols are assigned,
if the expression is well-sorted, that has the value of the expression, where each variable has the
value that the text of its term is read with. -/
theorem Expr.toTerm_keeps_meaning (hlocals : locals.Within fun t => isSingle t.render = true)
    (e : Expr) :
    ((∃ t, e.toTerm locals = .ok t) ↔ e.IsScalar) ∧
    ∀ t, e.toTerm locals = .ok t → e.isSymbolic = true →
      ∃ u, SExpr.parse? t.render = some u ∧
        ∀ (carrier : String → Type) (V : Valuation carrier) (sorts : String → Option SolverSort)
          (sort : SolverSort), V.Fits locals sorts → e.scalarSort? sorts = some sort →
            ∃ v, e.value? V.byZero (V.lookup locals) = some v ∧ v.sort = sort ∧
              V.value u = some v :=
  ⟨Expr.exists_toTerm_iff, fun _ h he => Expr.exists_reading hlocals h he⟩

end

/-- `-x != -9223372036854775808 + y`. -/
def opposite : Expr := .call "!="
  [.call "unary-" [.var "x" .int] .int, .call "+" [.int (-9223372036854775808), .var "y" .int] .int]
  .bool

/-- The model in which `y` is this number. -/
def modelOf (y : Int) : Model fun _ => Unit where
  symbol name _ := if name = "y" then some (.int y) else none
  byZero := ⟨id, id⟩

theorem Expr.toTerm_keeps_meaning_opposite :
    let locals : Bindings := .ofList [("x", .atom "(*  y 2)")]
    ∃ t u, opposite.toTerm locals = .ok t ∧
      t.render = "(not (= (- (*  y 2)) (+ (- 9223372036854775808) y)))" ∧
      SExpr.parse? t.render = some u ∧
      ∀ y : Int,
        (modelOf y).eval u = some (.bool (decide (-(y * 2) ≠ -9223372036854775808 + y))) := by
  intro locals
  have hlocals : locals.Within fun t => isSingle t.render = true := by
    refine Bindings.Within.empty.insert "x" ?_
    decide +kernel
  obtain ⟨hscalar, hmeaning⟩ := Expr.toTerm_keeps_meaning hlocals opposite
  obtain ⟨u, hu, hvalue⟩ := hmeaning _ rfl (by decide +kernel)
  refine ⟨_, u, rfl, by decide +kernel, hu, fun y => ?_⟩
  let V := (modelOf y).valuation
  have hown : IsOwn "y" := ⟨by decide, by decide +kernel⟩
  have hy : V.value (.atom "y") = some (.int y) := by
    change (modelOf y).eval (.symbol "y") = _
    rw [Model.eval_symbol hown]
    rfl
  have htwice : V.value (.apply "*" [.atom "y", .atom "2"]) = some (.int (y * 2)) :=
    V.theory (.cons hy (.cons (V.numeral 2) .nil)) rfl
  have hread : SExpr.parse? (locals.resolve "x").render =
      some (.apply "*" [.atom "y", .atom "2"]) := by
    change SExpr.parse? "(*  y 2)" = _
    cbv
  have hread' : SExpr.parse? (locals.resolve "y").render = some (.atom "y") := by
    change SExpr.parse? "y" = _
    cbv
  have hlookup : V.lookup locals "x" = some (.int (y * 2)) := by
    rw [Smt.Valuation.lookup, hread, Option.bind_some, htwice]
  have hlookup' : V.lookup locals "y" = some (.int y) := by
    rw [Smt.Valuation.lookup, hread', Option.bind_some, hy]
  let sorts : String → Option SolverSort := fun name =>
    if name = "x" ∨ name = "y" then some .int else none
  have hfits : V.Fits locals sorts := by
    intro name sort hsort
    obtain ⟨hname, hsort⟩ := Option.ite_none_right_eq_some.1 hsort
    cases hsort
    rcases hname with rfl | rfl
    · exact ⟨_, hlookup, rfl⟩
    · exact ⟨_, hlookup', rfl⟩
  obtain ⟨v, hv, -, heval⟩ := hvalue _ V sorts .bool hfits (by decide +kernel)
  have hleast : (-9223372036854775808 : Int64).toInt = -9223372036854775808 := by decide
  have hnegated : Operator.meaning? V.byZero "unary-" [.int (y * 2)] =
      some (.int (-(y * 2)) : Value fun _ => Unit) := rfl
  have hsum : Operator.meaning? V.byZero "+" [.int (-9223372036854775808), .int y] =
      some (.int (-9223372036854775808 + y) : Value fun _ => Unit) := rfl
  have hdiffer : ∀ a b : Int, Operator.meaning? V.byZero "!=" [.int a, .int b] =
      some (.bool (decide (a ≠ b)) : Value fun _ => Unit) := by
    intro a b
    classical
    change (if SolverSort.int = SolverSort.int then some (.bool (decide (Value.int a ≠ .int b)))
      else none : Option (Value fun _ => Unit)) = _
    rw [if_pos rfl]
    simp only [ne_eq, Value.int.injEq]
  have hvalue : opposite.value? V.byZero (V.lookup locals) =
      some (.bool (decide (-(y * 2) ≠ -9223372036854775808 + y))) := by
    rw [opposite, Expr.value?, Expr.call, Expr.fold?_call rfl]
    simp only [Expr.foldAll?, Expr.call, Expr.fold?, Expr.var, Expr.int, hlookup, hlookup', hleast,
      Option.bind_some, Option.map_some, hnegated, hsum, hdiffer]
  rw [← hvalue, hv]
  exact heval

end ContractCheck
