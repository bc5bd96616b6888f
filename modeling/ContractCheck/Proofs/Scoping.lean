import ContractCheck.Proofs.Frames
import ContractCheck.Proofs.Legibility
import Mathlib.Data.List.TakeWhile

/-!
Which variables are in scope, in an expression and in what is sent for it. In a scoped expression
each variable is bound by a `let` or by the binder of a contract, or is a global value that has a
sort (`Expr.isScoped`). A term is grounded in the lines that stand in the open scopes if each of its
words is a literal, a symbol of the built-in operators, or declared by one of them
(`SExpr.GroundedIn`).
-/

namespace ContractCheck

mutual

/-- Each variable of the expression is among the bound names or is a global value that has a sort,
and names that a `let` binds are words. -/
def Expr.isScoped (env : Env) (bound : List String) : Expr → Bool
  | ⟨_, shape, _⟩ => shape.isScoped env bound

def Expr.areScoped (env : Env) (bound : List String) : List Expr → Bool
  | [] => true
  | e :: es => e.isScoped env bound && Expr.areScoped env bound es

/-- A name that is called is none of the variables. Of shapes that are not supported nothing is
required. -/
def Shape.isScoped (env : Env) (bound : List String) : Shape → Bool
  | .bool _ | .int _ | .ite _ _ _ | .lambda _ _ => true
  | .var name => bound.contains name || (env.valueSort? name).isSome
  | .call _ args => Expr.areScoped env bound args
  | .letIn name value body => decide (SExpr.IsWord name) &&
      (value.isScoped env (name :: bound) && body.isScoped env (name :: bound))
  | .cast expr target => expr.isScoped env bound && target.isScoped env bound

def RefinedTy.isScoped (env : Env) (bound : List String) : RefinedTy → Bool
  | .plain _ => true
  | .refined _ refinement => refinement.isScoped env bound

def Refinement.isScoped (env : Env) (bound : List String) : Refinement → Bool
  | .bind _ => true
  | .holds binder pred => pred.isScoped env (binder :: bound)
  | .equals binder value => value.isScoped env (binder :: bound)

end

/-- The binder of a refined type, if there is one. -/
def RefinedTy.binders (t : RefinedTy) : List String := t.refinement?.toList.map (·.binder)

/-- Each contract is scoped where its own binder and those before it are bound. -/
def scopedContracts (env : Env) : List String → List RefinedTy → Bool
  | _, [] => true
  | bound, t :: rest => t.isScoped env bound && scopedContracts env (t.binders ++ bound) rest

def Signature.isScoped (env : Env) (sig : Signature) : Bool :=
  match sig.ty.ty.arrow? with
  | none => true
  | some (params, ret) => scopedContracts env [] (params ++ [ret])

/-- The solver may have to know the signature by name. -/
def Signature.IsGlobal (sig : Signature) : Prop :=
  sig.origin = .value ∨ sig.origin = .uninterpreted

instance (sig : Signature) : Decidable sig.IsGlobal := inferInstanceAs (Decidable (_ ∨ _))

/-- The expression and the contracts of the environment are scoped, and the globals have names that
are words. -/
structure Scoped (env : Env) (e : Expr) : Prop where
  expr : e.isScoped env [] = true
  signatures : ∀ name sig, env.get? name = some sig → sig.isScoped env = true
  names : ∀ name sig, env.get? name = some sig → sig.IsGlobal → SExpr.IsWord name

section

variable (env : Env) (e : Expr)

theorem scoped_iff : Scoped env e ↔ e.isScoped env [] = true ∧
    (∀ entry ∈ env.entries, entry.2.isScoped env = true) ∧
    ∀ entry ∈ env.entries, entry.2.IsGlobal → SExpr.IsWord entry.1 := by
  have hsignatures := env.forall_signature_iff fun _ sig => sig.isScoped env = true
  have hnames := env.forall_signature_iff fun name sig => sig.IsGlobal → SExpr.IsWord name
  exact ⟨fun h => ⟨h.expr, hsignatures.1 h.signatures, hnames.1 h.names⟩,
    fun ⟨hexpr, h, h'⟩ => ⟨hexpr, hsignatures.2 h, hnames.2 h'⟩⟩

instance : Decidable (Scoped env e) := decidable_of_iff _ (scoped_iff env e).symm

end

section

variable {env : Env} {bound : List String}

theorem Expr.isScoped_of_mem {es : List Expr} (h : Expr.areScoped env bound es = true) {e : Expr}
    (he : e ∈ es) : e.isScoped env bound = true := by
  induction es with
  | nil => cases he
  | cons first rest ih =>
      rw [Expr.areScoped, Bool.and_eq_true] at h
      rcases List.mem_cons.1 he with rfl | he
      · exact h.1
      · exact ih h.2 he

/-- A clause is scoped where its binder is bound as well. -/
theorem Refinement.isScoped_clause {r : Refinement} {clause : Clause}
    (h : r.isScoped env bound = true) (hclause : r.clause? = some clause) :
    clause.expr.isScoped env (r.binder :: bound) = true := by
  cases r with
  | bind binder => cases hclause
  | holds binder pred =>
      cases hclause
      rwa [Refinement.isScoped] at h
  | equals binder value =>
      cases hclause
      rwa [Refinement.isScoped] at h

end

mutual

/-- The words of an S-expression. -/
def SExpr.words : SExpr → List String
  | .atom text => [text]
  | .list items => SExpr.wordsAll items

def SExpr.wordsAll : List SExpr → List String
  | [] => []
  | item :: rest => item.words ++ SExpr.wordsAll rest

end

theorem SExpr.mem_wordsAll {items : List SExpr} {word : String} :
    word ∈ SExpr.wordsAll items ↔ ∃ item ∈ items, word ∈ item.words := by
  induction items with
  | nil => simp [SExpr.wordsAll]
  | cons item rest ih => simp [SExpr.wordsAll, ih]

theorem SExpr.mem_words_apply {head word : String} {args : List SExpr} :
    word ∈ (SExpr.apply head args).words ↔ word = head ∨ ∃ arg ∈ args, word ∈ arg.words := by
  rw [SExpr.apply, SExpr.words, SExpr.wordsAll, SExpr.words, List.mem_append, List.mem_singleton,
    SExpr.mem_wordsAll]

/-- A truth value or a numeral. -/
def IsLiteral (word : String) : Prop :=
  word = "true" ∨ word = "false" ∨ ∃ n : Nat, word = toString n

/-- Some line that stands in an open scope declares the name. -/
def DeclaredIn (st : List (List String)) (name : String) : Prop :=
  ∃ line ∈ st.flatten, Scripted.declaredName? line = some name

/-- What a word may stand for in a term. -/
def KnownIn (st : List (List String)) (word : String) : Prop :=
  IsLiteral word ∨ (∃ operator, Operator.symbol? operator = some word) ∨ DeclaredIn st word

/-- The term can be read back, and all its words are known. -/
structure SExpr.GroundedIn (t : SExpr) (st : List (List String)) : Prop where
  legible : t.Legible
  known : ∀ word ∈ t.words, KnownIn st word

section

variable {st st' : List (List String)} {name : String}

theorem DeclaredIn.mono (h : DeclaredIn st name) (hgrown : Grown st st') : DeclaredIn st' name := by
  obtain ⟨line, hline, hname⟩ := h
  exact ⟨line, hgrown.flatten hline, hname⟩

theorem KnownIn.mono (h : KnownIn st name) (hgrown : Grown st st') : KnownIn st' name :=
  h.imp_right fun h => h.imp_right fun h => h.mono hgrown

theorem SExpr.GroundedIn.mono {t : SExpr} (h : t.GroundedIn st) (hgrown : Grown st st') :
    t.GroundedIn st' :=
  ⟨h.legible, fun word hword => (h.known word hword).mono hgrown⟩

/-- What is declared outside is declared in a new scope. -/
theorem DeclaredIn.push (h : DeclaredIn st name) : DeclaredIn ([] :: st) name := h

theorem SExpr.GroundedIn.push {t : SExpr} (h : t.GroundedIn st) : t.GroundedIn ([] :: st) :=
  ⟨h.legible, fun word hword => h.known word hword⟩

/-- A declaration that was sent stands in the innermost scope. -/
theorem declaredIn_standing {c : Command} (hname : c.declared? = some name)
    (hword : SExpr.IsWord name) (hst : st ≠ []) : DeclaredIn (standing st c.line) name := by
  have hfirst : Scripted.firstWord name = name :=
    Scripted.firstWord_eq_self fun c hc => (hword.2 c hc).1
  have hdeclared : Scripted.declaredName? c.line = some name := by
    rw [Scripted.declaredName?_line_declare hname, hfirst]
  obtain ⟨scope, rest, rfl⟩ := List.exists_cons_of_ne_nil hst
  refine ⟨c.line, ?_, hdeclared⟩
  rw [standing_of_isFlat (isFlat_of_declaredName? hdeclared), hdeclared, if_pos (.inl rfl)]
  exact List.mem_flatten.2 ⟨_, List.mem_cons_self, List.mem_cons_self⟩

namespace Term

theorem grounded_symbol (hword : SExpr.IsWord name) (h : DeclaredIn st name) :
    (Term.symbol name).GroundedIn st := by
  refine ⟨.atom hword, fun word hmem => ?_⟩
  rw [Term.symbol, SExpr.words, List.mem_singleton] at hmem
  rw [hmem]
  exact .inr (.inr h)

theorem grounded_apply {head : String} {args : List Term} (hword : SExpr.IsWord head)
    (hhead : KnownIn st head) (hargs : ∀ arg ∈ args, arg.GroundedIn st) :
    (SExpr.apply head args).GroundedIn st := by
  refine ⟨.apply hword fun arg harg => (hargs arg harg).legible, fun word hmem => ?_⟩
  rcases SExpr.mem_words_apply.1 hmem with rfl | ⟨arg, harg, hmem⟩
  · exact hhead
  · exact (hargs arg harg).known word hmem

theorem grounded_operator {operator head : String} {args : List Term}
    (hoperator : Operator.symbol? operator = some head)
    (hargs : ∀ arg ∈ args, arg.GroundedIn st) : (SExpr.apply head args).GroundedIn st :=
  grounded_apply (Operator.isWord_of_symbol? hoperator) (.inr (.inl ⟨operator, hoperator⟩)) hargs

theorem grounded_not {t : Term} (h : t.GroundedIn st) : (Term.not t).GroundedIn st := by
  have hoperator : Operator.symbol? "!" = some "not" := rfl
  refine grounded_operator hoperator fun arg harg => ?_
  rwa [List.mem_singleton.1 harg]

theorem grounded_eq {a b : Term} (ha : a.GroundedIn st) (hb : b.GroundedIn st) :
    (Term.eq a b).GroundedIn st := by
  have hoperator : Operator.symbol? "==" = some "=" := rfl
  refine grounded_operator hoperator (List.forall_mem_cons.2 ⟨ha, fun arg harg => ?_⟩)
  rwa [List.mem_singleton.1 harg]

theorem grounded_bool (b : Bool) : (Term.bool b).GroundedIn st := by
  refine ⟨Term.legible_bool b, fun word hmem => .inl ?_⟩
  rw [Term.bool, SExpr.words, List.mem_singleton] at hmem
  cases b
  · exact .inr (.inl hmem)
  · exact .inl hmem

theorem grounded_int (n : Int64) : (Term.int n).GroundedIn st := by
  have hdigits : ∀ word ∈ [toString n.toInt.natAbs], KnownIn st word := by
    intro word hmem
    exact .inl (.inr (.inr ⟨_, List.mem_singleton.1 hmem⟩))
  refine ⟨Term.legible_int n, fun word hmem => ?_⟩
  unfold Term.int at hmem
  split at hmem
  · rcases SExpr.mem_words_apply.1 hmem with rfl | ⟨arg, harg, hmem⟩
    · have hoperator : Operator.symbol? "-" = some "-" := rfl
      exact .inr (.inl ⟨"-", hoperator⟩)
    · rw [List.mem_singleton.1 harg, SExpr.words] at hmem
      exact hdigits word hmem
  · rw [SExpr.words] at hmem
    exact hdigits word hmem

end Term

theorem Operator.grounded_of_apply {operator : String} {terms : List Term} {applied : Term}
    (h : Operator.apply operator terms = .ok applied) (hterms : ∀ t ∈ terms, t.GroundedIn st) :
    applied.GroundedIn st := by
  obtain ⟨symbol, hsymbol, rfl | rfl⟩ := apply_eq_ok h
  · exact Term.grounded_operator hsymbol hterms
  · exact Term.grounded_not (Term.grounded_operator hsymbol hterms)

/-- The globals that terms may mention are declared. -/
structure Env.StandsIn (env : Env) (st : List (List String)) : Prop where
  nonempty : st ≠ []
  value : ∀ name, (env.valueSort? name).isSome = true → (Term.symbol name).GroundedIn st
  function : ∀ name sig, env.get? name = some sig → sig.origin = .uninterpreted →
    SExpr.IsWord name ∧ DeclaredIn st name

theorem Env.StandsIn.mono {env : Env} (h : env.StandsIn st) (hgrown : Grown st st') :
    env.StandsIn st' where
  nonempty := hgrown.ne_nil
  value name hname := (h.value name hname).mono hgrown
  function name sig hsig horigin :=
    (h.function name sig hsig horigin).imp_right fun h => h.mono hgrown

theorem Env.StandsIn.push {env : Env} (h : env.StandsIn st) : env.StandsIn ([] :: st) where
  nonempty := List.cons_ne_nil [] st
  value name hname := (h.value name hname).push
  function name sig hsig horigin :=
    (h.function name sig hsig horigin).imp_right fun h => h.push

/-- What the bound names stand for is grounded. -/
structure Bindings.GroundedIn (locals : Bindings) (bound : List String)
    (st : List (List String)) : Prop where
  terms : ∀ name t, locals.get? name = some t → t.GroundedIn st
  names : ∀ name ∈ bound, (locals.resolve name).GroundedIn st

theorem Bindings.grounded_empty : Bindings.GroundedIn ∅ [] st where
  terms _ _ h := nomatch h
  names _ h := nomatch h

namespace Bindings.GroundedIn

variable {locals : Bindings} {bound : List String}

theorem mono (h : locals.GroundedIn bound st) (hgrown : Grown st st') :
    locals.GroundedIn bound st' :=
  ⟨fun name t ht => (h.terms name t ht).mono hgrown,
    fun name hname => (h.names name hname).mono hgrown⟩

theorem push (h : locals.GroundedIn bound st) : locals.GroundedIn bound ([] :: st) :=
  ⟨fun name t ht => (h.terms name t ht).push, fun name hname => (h.names name hname).push⟩

/-- A binder stands for a grounded term. -/
theorem insert (h : locals.GroundedIn bound st) (binder : String) {t : Term}
    (ht : t.GroundedIn st) :
    GroundedIn (NameMap.insert locals binder t) (binder :: bound) st := by
  refine ⟨fun name t' hfound => ?_, fun name hname => ?_⟩
  · rw [NameMap.get?_insert] at hfound
    split at hfound
    · cases hfound
      exact ht
    · exact h.terms name t' hfound
  · unfold Bindings.resolve
    rw [NameMap.get?_insert]
    split
    · exact ht
    · rename_i hne
      exact h.names name ((List.mem_cons.1 hname).resolve_left hne)

/-- A `let` declares its name, unless that is the binder of a contract as well. -/
theorem letIn (h : locals.GroundedIn bound st) {name : String}
    (hname : (Term.symbol name).GroundedIn st) : locals.GroundedIn (name :: bound) st := by
  refine ⟨h.terms, fun other hother => ?_⟩
  rcases List.mem_cons.1 hother with rfl | hother
  · unfold Bindings.resolve
    cases hfound : locals.get? other with
    | none => exact hname
    | some t => exact h.terms other t hfound
  · exact h.names other hother

/-- Each variable of a scoped expression stands for a grounded term. -/
theorem resolve {env : Env} (h : locals.GroundedIn bound st) (henv : env.StandsIn st)
    {name : String} (hname : (Shape.var name).isScoped env bound = true) :
    (locals.resolve name).GroundedIn st := by
  rw [Shape.isScoped, Bool.or_eq_true, List.contains_iff_mem] at hname
  rcases hname with hbound | hvalue
  · exact h.names name hbound
  · unfold Bindings.resolve
    cases hfound : locals.get? name with
    | none => exact henv.value name hvalue
    | some t => exact h.terms name t hfound

end Bindings.GroundedIn

end

end ContractCheck
