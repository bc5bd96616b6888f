import ContractCheck.Proofs.Events
import ContractCheck.Proofs.Reach
import ContractCheck.Solver.Scripted

/-!
Scalar expressions. What can be translated without the solver is checked without the solver, into
the same term; and an expression that is checked without a line sent is, its casts aside, one that
can be translated, into the same term (`Checker.check_eq_toTerm`).
-/

namespace ContractCheck

mutual

/-- The expression with each cast in it replaced by the expression inside. -/
def Expr.withoutCasts : Expr → Expr
  | ⟨ty, shape, span⟩ =>
    match shape with
    | .cast e _ => e.withoutCasts
    | .call callee args => ⟨ty, .call callee.withoutCasts (Expr.withoutCastsAll args), span⟩
    | .letIn name value body => ⟨ty, .letIn name value.withoutCasts body.withoutCasts, span⟩
    | .ite test onTrue onFalse =>
      ⟨ty, .ite test.withoutCasts onTrue.withoutCasts onFalse.withoutCasts, span⟩
    | .lambda params body => ⟨ty, .lambda params body.withoutCasts, span⟩
    | .var name => ⟨ty, .var name, span⟩
    | .bool value => ⟨ty, .bool value, span⟩
    | .int value => ⟨ty, .int value, span⟩

def Expr.withoutCastsAll : List Expr → List Expr
  | [] => []
  | e :: es => e.withoutCasts :: Expr.withoutCastsAll es

end

/-- A variable has no casts. -/
theorem Expr.shape_withoutCasts {e : Expr} {name : String} (h : e.shape = .var name) :
    e.withoutCasts.shape = .var name := by
  obtain ⟨ty, shape, span⟩ := e
  cases h
  rfl

/-- The arguments are as many as the parameters of the function, if it is one. -/
def Env.fitsCall (env : Env) (callee : Shape) (count : Nat) : Bool :=
  match callee with
  | .var name =>
    match (env.get? name).bind (·.ty.ty.arrow?) with
    | some (params, _) => params.length == count
    | none => true
  | _ => true

mutual

/-- Each call in the expression, those in contracts of its casts included, has as many arguments as
its function has parameters. -/
def Expr.callsFit (env : Env) : Expr → Bool
  | ⟨_, shape, _⟩ => shape.callsFit env

def Expr.callsFitAll (env : Env) : List Expr → Bool
  | [] => true
  | e :: es => e.callsFit env && Expr.callsFitAll env es

def Shape.callsFit (env : Env) : Shape → Bool
  | .var _ | .bool _ | .int _ => true
  | .call callee args => env.fitsCall callee.shape args.length && callee.callsFit env &&
    Expr.callsFitAll env args
  | .letIn _ value body => value.callsFit env && body.callsFit env
  | .ite test onTrue onFalse => test.callsFit env && onTrue.callsFit env && onFalse.callsFit env
  | .lambda _ body => body.callsFit env
  | .cast e target => e.callsFit env && target.callsFit env

def RefinedTy.callsFit (env : Env) : RefinedTy → Bool
  | .plain _ => true
  | .refined _ refinement => refinement.callsFit env

def Refinement.callsFit (env : Env) : Refinement → Bool
  | .bind _ => true
  | .holds _ pred => pred.callsFit env
  | .equals _ value => value.callsFit env

end

/-- A built-in operator whose arguments get no names and have nothing to fulfil. -/
def Signature.isUnconditional (sig : Signature) : Bool :=
  match sig.ty.ty.arrow? with
  | some (params, _) => sig.origin = .builtin && params.all (·.refinement?.isNone)
  | none => false

/-- One of the arguments has something to fulfil. -/
def Signature.isConditional (sig : Signature) : Bool :=
  match sig.ty.ty.arrow? with
  | some (params, _) => params.any (·.contract?.isSome)
  | none => false

theorem Signature.isUnconditional_iff {sig : Signature} : sig.isUnconditional = true ↔
    ∃ params ret, sig.ty.ty.arrow? = some (params, ret) ∧ sig.origin = .builtin ∧
      ∀ param ∈ params, param.refinement? = none := by
  unfold isUnconditional
  split
  · rename_i params ret harrow
    simp [harrow]
  · rename_i harrow
    simp [harrow]

theorem Signature.isConditional_iff {sig : Signature} {params : List RefinedTy}
    {ret : RefinedTy} (harrow : sig.ty.ty.arrow? = some (params, ret)) :
    sig.isConditional = true ↔ ∃ param ∈ params, param.contract?.isSome = true := by
  rw [isConditional, harrow]
  exact List.any_eq_true

/-- The operators that have terms are those of the prelude without conditions. -/
theorem prelude_of_operator {name : String} (hbuiltin : Operator.isBuiltin name = true)
    (hguarded : Operator.isGuarded name = false) :
    ∃ sig, prelude.get? name = some sig ∧ sig.isUnconditional = true := by
  have hall : Operator.symbols.all (fun entry => Operator.isGuarded entry.1 ||
      (prelude.get? entry.1).any Signature.isUnconditional) = true := by decide +kernel
  obtain ⟨symbol, hsymbol⟩ := Option.isSome_iff_exists.1 hbuiltin
  have hentry := List.all_eq_true.1 hall _ (NameMap.mem_of_lookup_eq_some hsymbol)
  rw [Bool.or_eq_true, hguarded, Option.any_eq_true] at hentry
  exact hentry.resolve_left Bool.false_ne_true

/-- What is built in to the prelude and has no conditions is an operator that has terms. -/
theorem operator_of_prelude {name : String} {sig : Signature} (hsig : prelude.get? name = some sig)
    (horigin : sig.origin = .builtin) : sig.isConditional = true ∨
      (Operator.isBuiltin name = true ∧ Operator.isGuarded name = false ∧
        sig.isUnconditional = true) := by
  have hall : prelude.entries.all (fun entry => decide (entry.2.origin ≠ .builtin) ||
      (entry.2.isConditional || (Operator.isBuiltin entry.1 && (!Operator.isGuarded entry.1 &&
        entry.2.isUnconditional)))) = true := by decide +kernel
  have hentry := List.all_eq_true.1 hall _ (NameMap.get?_eq_some_iff.1 hsig)
  simpa [horigin] using hentry

theorem Expr.toTerm_call_eq_ok_iff {locals : Bindings} {ty : Ty} {callee : Expr}
    {args : List Expr} {span : Option Span} {t : Term} :
    Expr.toTerm locals ⟨ty, .call callee args, span⟩ = .ok t ↔ ∃ name terms,
      callee.shape = .var name ∧ Operator.isBuiltin name = true ∧
      Operator.isGuarded name = false ∧ Expr.toTerms locals args = .ok terms ∧
      Operator.apply name terms = .ok t := by
  constructor
  · intro h
    rw [Expr.toTerm] at h
    split at h
    · rename_i name hcallee
      by_cases hbuiltin : Operator.isBuiltin name = true
      · by_cases hguarded : Operator.isGuarded name = true
        · simp [hbuiltin, hguarded] at h
        · simp only [hbuiltin, hguarded, Bool.not_true, Bool.false_eq_true, if_false] at h
          split at h
          · cases h
          · rename_i terms hterms
            exact ⟨name, terms, hcallee, hbuiltin, by simpa using hguarded, hterms,
              Outcome.located_eq_ok_iff.1 h⟩
      · simp [hbuiltin] at h
    · cases h
  · rintro ⟨name, terms, hcallee, hbuiltin, hguarded, hterms, happly⟩
    rw [Expr.toTerm, hcallee]
    simp only [hbuiltin, hguarded, hterms, Bool.not_true, Bool.false_eq_true, if_false]
    exact Outcome.located_eq_ok_iff.2 happly

theorem Expr.toTerms_cons_eq_ok_iff {locals : Bindings} {e : Expr} {es : List Expr}
    {terms : List Term} : Expr.toTerms locals (e :: es) = .ok terms ↔ ∃ first rest,
      e.toTerm locals = .ok first ∧ Expr.toTerms locals es = .ok rest ∧ terms = first :: rest := by
  rw [Expr.toTerms]
  cases e.toTerm locals with
  | error failure => simp
  | ok first =>
      cases Expr.toTerms locals es with
      | error failure => simp
      | ok rest => simp [eq_comm]

theorem Expr.callsFit_of_mem {env : Env} {es : List Expr} (h : Expr.callsFitAll env es = true)
    {e : Expr} (he : e ∈ es) : e.callsFit env = true := by
  induction es with
  | nil => cases he
  | cons first rest ih =>
      rw [Expr.callsFitAll, Bool.and_eq_true] at h
      rcases List.mem_cons.1 he with rfl | he
      · exact h.1
      · exact ih h.2 he

/-- A call that fits a function's signature finds it. -/
theorem Checker.resolveCall_of_fitsCall {env : Env} {callee : Expr} {args : List Expr}
    {name : String} {sig : Signature} {params : List RefinedTy} {ret : RefinedTy}
    (hfits : env.fitsCall callee.shape args.length = true) (hcallee : callee.shape = .var name)
    (hsig : env.get? name = some sig) (harrow : sig.ty.ty.arrow? = some (params, ret))
    (span : Option Span) :
    params.length = args.length ∧
      resolveCall env callee args span = .ok (name, sig.origin, params, ret) := by
  have hlength : params.length = args.length := by
    simpa [Env.fitsCall, hcallee, hsig, harrow] using hfits
  refine ⟨hlength, ?_⟩
  unfold resolveCall
  simp only [hcallee, hsig, harrow, if_pos hlength]

namespace Checker

variable {locals : Bindings}

theorem checkArgs_of_toTerms {walk : Walk} {pairs : List (RefinedTy × Expr)}
    (hplain : ∀ a ∈ pairs, a.1.refinement? = none)
    (hwalk : ∀ a ∈ pairs, ∀ t, a.2.toTerm locals = .ok t → walk .full locals a.2 = pure t)
    {terms : List Term} (h : Expr.toTerms locals (pairs.map (·.2)) = .ok terms) (callee : String)
    (span : Option Span) (binders : Bindings) :
    checkArgs walk callee span locals pairs binders = pure (binders, terms) := by
  induction pairs generalizing terms with
  | nil =>
      cases h
      rfl
  | cons head rest ih =>
      obtain ⟨param, arg⟩ := head
      obtain ⟨hparam, hrest⟩ := List.forall_mem_cons.1 hplain
      obtain ⟨harg, hargs⟩ := List.forall_mem_cons.1 hwalk
      obtain ⟨first, others, hfirst, hothers, rfl⟩ := Expr.toTerms_cons_eq_ok_iff.1 h
      have hparam : param.refinement? = none := hparam
      rw [checkArgs, hparam]
      dsimp only
      rw [harg first hfirst, pure_bind, ih hrest hargs hothers, pure_bind]

/-- What has a term is checked into it, and nothing is asked of the solver. -/
theorem checkWithin_of_toTerm {depth : Nat} {e : Expr} (hdepth : e.walkDepth ≤ depth)
    (hfits : e.callsFit prelude = true) {t : Term} (h : e.toTerm locals = .ok t) :
    checkWithin prelude depth .full locals e = pure t := by
  induction depth generalizing e t with
  | zero => exact absurd e.walkDepth_pos (Nat.not_lt.2 hdepth)
  | succ depth ih =>
      have hleaf : ofOutcome (e.toTerm locals) = pure t := by
        rw [h]
        rfl
      rw [checkWithin, checkExpr]
      obtain ⟨ty, shape, span⟩ := e
      cases shape with
      | var name => exact hleaf
      | bool value => exact hleaf
      | int value => exact hleaf
      | letIn name value body => cases h
      | ite test onTrue onFalse => cases h
      | lambda params body => cases h
      | cast e target => cases h
      | call callee args =>
          obtain ⟨name, terms, hcallee, hbuiltin, hguarded, hterms, happly⟩ :=
            Expr.toTerm_call_eq_ok_iff.1 h
          obtain ⟨sig, hsig, hunconditional⟩ := prelude_of_operator hbuiltin hguarded
          obtain ⟨params, ret, harrow, horigin, hplain⟩ :=
            Signature.isUnconditional_iff.1 hunconditional
          rw [Expr.callsFit, Shape.callsFit, Bool.and_eq_true, Bool.and_eq_true] at hfits
          obtain ⟨hlength, hresolve⟩ :=
            resolveCall_of_fitsCall hfits.1.1 hcallee hsig harrow span
          rw [Expr.walkDepth, Shape.walkDepth] at hdepth
          have hwalk : ∀ a ∈ params.zip args, ∀ t, a.2.toTerm locals = .ok t →
              checkWithin prelude depth .full locals a.2 = pure t := by
            intro a ha t ht
            have harg := (List.of_mem_zip ha).2
            have hle := Expr.walkDepth_le_walkDepthAll harg
            exact ih (by omega) (Expr.callsFit_of_mem hfits.2 harg) ht
          have hargs : Expr.toTerms locals ((params.zip args).map (·.2)) = .ok terms := by
            rw [List.map_snd_zip (Nat.le_of_eq hlength.symm)]
            exact hterms
          have hpairs : ∀ a ∈ params.zip args, a.1.refinement? = none := fun a ha =>
            hplain a.1 (List.of_mem_zip ha).1
          have happlied : (Operator.apply name terms).located span = .ok t :=
            Outcome.located_eq_ok_iff.2 happly
          dsimp only
          rw [checkCall, hresolve, ofOutcome_ok_bind]
          dsimp only
          rw [checkArgs_of_toTerms hpairs hwalk hargs, pure_bind]
          dsimp only
          rw [if_pos horigin, happlied, ofOutcome_ok_bind]

theorem checkExpr_call (env : Env) (walk : Walk) (mode : Mode) (ty : Ty) (callee : Expr)
    (args : List Expr) (span : Option Span) :
    checkExpr env walk mode locals ⟨ty, .call callee args, span⟩ =
      checkCall env walk mode locals callee args span := rfl

theorem not_provesContract_nil {walk : Walk} {t : RefinedTy} {p p' : Progress}
    (h : ProvesContract walk locals t p [] p') : t.contract? = none := by
  unfold ProvesContract at h
  split at h
  · assumption
  · obtain ⟨-, inner, term, p₁, -, hcommands, -⟩ := h
    cases hcommands

/-- Arguments that need no commands have nothing to fulfil. -/
theorem contract?_of_accepts_checkArgs {walk : Walk} {callee : String} {span : Option Span}
    {pairs : List (RefinedTy × Expr)} {binders : Bindings} {p p' : Progress}
    {r : Bindings × List Term}
    (h : Accepts (checkArgs walk callee span locals pairs binders) p [] r p') :
    ∀ a ∈ pairs, a.1.contract? = none := by
  induction pairs generalizing binders p r with
  | nil => exact fun a ha => nomatch ha
  | cons head rest ih =>
      obtain ⟨param, arg⟩ := head
      obtain ⟨first, term, p₁, second, p₂, third, terms, -, hcontract, hrest, hcommands, -⟩ :=
        accepts_checkArgs_cons h
      obtain ⟨-, rfl, rfl⟩ : first = [] ∧ second = [] ∧ third = [] := by
        simpa using hcommands
      exact List.forall_mem_cons.2 ⟨not_provesContract_nil hcontract, ih hrest⟩

theorem toTerms_of_accepts_checkArgs {walk : Walk} {pairs : List (RefinedTy × Expr)}
    (hplain : ∀ a ∈ pairs, a.1.refinement? = none)
    (hwalk : ∀ e p t p', Accepts (walk .full locals e) p [] t p' →
      e.withoutCasts.toTerm locals = .ok t)
    {callee : String} {span : Option Span} {binders : Bindings} {p p' : Progress}
    {r : Bindings × List Term}
    (h : Accepts (checkArgs walk callee span locals pairs binders) p [] r p') :
    Expr.toTerms locals (Expr.withoutCastsAll (pairs.map (·.2))) = .ok r.2 := by
  induction pairs generalizing binders p r with
  | nil =>
      obtain ⟨-, rfl, -⟩ := accepts_checkArgs_nil h
      rfl
  | cons head rest ih =>
      obtain ⟨param, arg⟩ := head
      obtain ⟨hparam, hrest⟩ := List.forall_mem_cons.1 hplain
      obtain ⟨first, term, p₁, second, p₂, third, terms, harg, -, hothers, hcommands, hterms⟩ :=
        accepts_checkArgs_cons h
      obtain ⟨rfl, rfl, rfl⟩ : first = [] ∧ second = [] ∧ third = [] := by
        simpa using hcommands
      have hparam : param.refinement? = none := hparam
      have hmode : Mode.ofParam param = .full := by
        rw [Mode.ofParam, hparam]
      rw [hmode] at harg
      rw [List.map_cons, Expr.withoutCastsAll]
      exact Expr.toTerms_cons_eq_ok_iff.2 ⟨term, terms, hwalk arg p term p₁ harg,
        ih hrest hothers, hterms⟩

/-- A walk that needs no commands ends in the term that the expression has without its casts. -/
theorem toTerm_of_accepts {depth : Nat} {e : Expr} {p p' : Progress} {t : Term}
    (h : Accepts (checkWithin prelude depth .full locals e) p [] t p') :
    e.withoutCasts.toTerm locals = .ok t := by
  induction depth generalizing e p t p' with
  | zero =>
      obtain ⟨-, hfails, -⟩ := accepts_ofOutcome_iff.1 h
      cases hfails
  | succ depth ih =>
      rw [checkWithin] at h
      obtain ⟨ty, shape, span⟩ := e
      cases shape with
      | var name => exact (accepts_ofOutcome_iff.1 h).2.1
      | bool value => exact (accepts_ofOutcome_iff.1 h).2.1
      | int value => exact (accepts_ofOutcome_iff.1 h).2.1
      | ite test onTrue onFalse => exact absurd h not_accepts_checkExpr_ite
      | lambda params body => exact absurd h not_accepts_checkExpr_lambda
      | letIn name value body =>
          obtain ⟨sort, first, term, p₁, second, -, -, -, hcommands⟩ := accepts_checkExpr_letIn h
          cases hcommands
      | cast e target =>
          obtain ⟨first, p₁, second, he, -, hcommands⟩ := accepts_checkExpr_cast h
          obtain ⟨rfl, -⟩ : first = [] ∧ second = [] := by simpa using hcommands
          rw [Expr.withoutCasts]
          exact ih he
      | call callee args =>
          rw [checkExpr_call] at h
          obtain ⟨name, sig, params, ret, first, binders, terms, p₁, second, hcallee, hsig, harrow,
            hlength, hargs, hcommands, hresult⟩ := accepts_checkCall h
          obtain ⟨rfl, rfl⟩ : first = [] ∧ second = [] := by simpa using hcommands
          rcases hresult with ⟨horigin, applied, happly, happlied⟩ | ⟨-, hresult⟩
          · obtain ⟨-, rfl, -⟩ := happlied
            have hcontracts : ∀ param ∈ params, param.contract? = none := by
              rw [← List.map_fst_zip (Nat.le_of_eq hlength), List.forall_mem_map]
              exact contract?_of_accepts_checkArgs hargs
            obtain ⟨hbuiltin, hguarded, hunconditional⟩ :=
              (operator_of_prelude hsig horigin).resolve_left fun hconditional => by
                obtain ⟨param, hparam, hcontract⟩ :=
                  (Signature.isConditional_iff harrow).1 hconditional
                rw [hcontracts param hparam] at hcontract
                cases hcontract
            obtain ⟨_, _, harrow', -, hplain⟩ := Signature.isUnconditional_iff.1 hunconditional
            cases harrow.symm.trans harrow'
            have hpairs : ∀ a ∈ params.zip args, a.1.refinement? = none := fun a ha =>
              hplain a.1 (List.of_mem_zip ha).1
            have hterms := toTerms_of_accepts_checkArgs hpairs (fun _ _ _ _ => ih) hargs
            rw [List.map_snd_zip (Nat.le_of_eq hlength.symm)] at hterms
            rw [Expr.withoutCasts]
            exact Expr.toTerm_call_eq_ok_iff.2 ⟨name, terms, Expr.shape_withoutCasts hcallee,
              hbuiltin, hguarded, hterms, happly⟩
          · obtain ⟨sort, rest, result, -, -, -, -, hcommands⟩ := accepts_checkResult hresult
            exact absurd hcommands (List.cons_ne_nil _ _).symm

theorem strict_checkWithin (env : Env) (depth : Nat) (mode : Mode) (locals : Bindings)
    (e : Expr) : StrictPart (checkWithin env depth mode locals e) :=
  have hpart : Part (fun _ => True) (checkWithin env depth mode locals e) :=
    part_checkWithin (fun _ _ => trivial) depth mode locals e fun _ _ => trivial
  strict_of_part hpart

section

variable {τ ω : Type} [Transport τ ω]

/-- Translation and check agree, in every session, started or not. An expression that has a term,
and whose calls have as many arguments as their functions have parameters, is checked into that
term, and nothing changes: no line is sent, and session, fresh names and counts stay. And what is
checked into a term without a line sent has this term once its casts are taken away. -/
theorem check_eq_toTerm (locals : Bindings) (e : Expr) (t : Term) (c : Checker τ ω) :
    (e.toTerm locals = .ok t → e.callsFit prelude = true →
      c.perform (check prelude .full locals e) = (.ok t, c)) ∧
    ∀ c', c.perform (check prelude .full locals e) = (.ok t, c') →
      c'.session.transcript = c.session.transcript →
        e.withoutCasts.toTerm locals = .ok t := by
  have hdepth : e.walkDepth ≤ depthLimit prelude e := by
    unfold depthLimit
    omega
  unfold check
  generalize depthLimit prelude e = depth at hdepth ⊢
  constructor
  · intro h hfits
    rw [checkWithin_of_toTerm hdepth hfits h]
    rfl
  · intro c' h hunsent
    have hstrict := strict_checkWithin prelude depth .full locals e c.progress
    have haccepts : Accepts (checkWithin prelude depth .full locals e) c.progress [] t
        c'.progress := Session.favourable_of_unsent hstrict (hold_of_perform h) hunsent
    exact toTerm_of_accepts haccepts

end

/-- `x + 1` -/
def successor : Expr := .call "+" [.var "x" .int, .int 1] .int

/-- The same in a cast that states nothing. -/
def ascribedSuccessor : Expr := .cast successor (.refined .int (.bind "y"))

def freshArgument : Bindings := NameMap.insert ∅ "x" (.symbol "_i0")

open Scripted in
theorem check_eq_toTerm_successor :
    let c : Checker Solver Script := { session := { world := {} } }
    let t : Term := .apply "+" [Term.symbol "_i0", Term.int 1]
    (successor.toTerm freshArgument = .ok t ∧ successor.callsFit prelude = true ∧
      c.perform (check prelude .full freshArgument successor) = (.ok t, c)) ∧
    ∃ c', c.perform (check prelude .full freshArgument ascribedSuccessor) = (.ok t, c') ∧
      c'.session.transcript = c.session.transcript ∧
      ascribedSuccessor.withoutCasts.toTerm freshArgument = .ok t := by
  intro c t
  have hterm : successor.toTerm freshArgument = .ok t := rfl
  have hfits : successor.callsFit prelude = true := by decide +kernel
  have hcheck : check prelude .full freshArgument ascribedSuccessor = pure t := by
    obtain ⟨depth, hdepth, hle⟩ : ∃ depth,
        depthLimit prelude ascribedSuccessor = depth + 1 ∧ successor.walkDepth ≤ depth := by
      refine ⟨successor.walkDepth + prelude.reachDepth ascribedSuccessor.calls + circleDepth, ?_,
        ?_⟩
      · rw [depthLimit, show ascribedSuccessor.walkDepth = successor.walkDepth + 1 from rfl]
        omega
      · omega
    have hinside := checkWithin_of_toTerm hle hfits hterm
    rw [check, hdepth, checkWithin]
    change (checkWithin prelude depth .full freshArgument successor >>= fun term => pure term) = _
    rw [bind_pure, hinside]
  have hperform : c.perform (check prelude .full freshArgument ascribedSuccessor) = (.ok t, c) := by
    rw [hcheck]
    rfl
  have hpure := (check_eq_toTerm freshArgument successor t c).1
  have hback := (check_eq_toTerm freshArgument ascribedSuccessor t c).2
  exact ⟨⟨hterm, hfits, hpure hterm hfits⟩, c, hperform, rfl, hback c hperform rfl⟩

end Checker

end ContractCheck
