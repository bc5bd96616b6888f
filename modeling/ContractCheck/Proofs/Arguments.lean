import ContractCheck.Proofs.Congruence
import ContractCheck.Proofs.Events
import ContractCheck.Proofs.Level

/-!
What a call has proved of its arguments by the time it is carried through to a result. Argument by
argument, the clause of the parameter has been refuted in negated form, in a scope of its own that
has been left, about the very term that the result is then made of (`Checker.carriesThrough`).
-/

namespace ContractCheck

/-- The binders of the parameters stand for the terms of the arguments. -/
def Bindings.bindAll (binders : Bindings) : List RefinedTy → List Term → Bindings
  | param :: params, term :: terms => (binders.bindRefined param term).bindAll params terms
  | _, _ => binders

/-- Where a clause is stated, its binder stands for the argument's term. -/
theorem Bindings.resolve_bindRefined_contract (binders : Bindings) {param : RefinedTy}
    {binder : String} {clause : Clause} (h : param.contract? = some (binder, clause))
    (term : Term) : (binders.bindRefined param term).resolve binder = term := by
  have hbinder : ∀ ty (r : Refinement), param = .refined ty r → r.binder = binder →
      (binders.bindRefined param term).resolve binder = term := by
    rintro ty r rfl rfl
    rw [bindRefined, RefinedTy.refinement?]
    exact (resolve_insert binders r.binder r.binder term).trans (if_pos rfl)
  rcases param with ty | ⟨ty, _ | ⟨_, pred⟩ | ⟨_, value⟩⟩
  · cases h
  · cases h
  · cases h
    exact hbinder _ _ rfl rfl
  · cases h
    exact hbinder _ _ rfl rfl

namespace Checker

/-- All went well with an argument: its walk ended in the term, and if its parameter has a clause,
the negation of the clause, in which the binder stands for that term, was refuted in a scope of its
own. -/
def ProvesArgument (walk : Walk) (locals binders : Bindings) (param : RefinedTy) (arg : Expr)
    (term : Term) (commands : List Command) : Prop :=
  ∃ p own p₁ proof, Accepts (walk (.ofParam param) locals arg) p own term p₁ ∧
    commands = own ++ proof ∧
    match param.contract? with
    | none => proof = []
    | some (binder, clause) => binders.resolve binder = term ∧ ∃ inner goal p₂,
      Accepts (walk .full binders clause.expr) p₁ inner goal p₂ ∧
      proof = .push :: (inner ++ [.assert (.not (clause.goal term goal)), .checkSat, .pop])

/-- What the result of a call is made of, if all went well: the application of the operator that it
calls to the terms; or a variable, with the commands that introduce it. -/
def YieldsResult (mode : Mode) (name : String) (origin : Origin) (ret : RefinedTy)
    (terms : List Term) (commands : List Command) (t : Term) : Prop :=
  match origin, mode with
  | .builtin, .full => Operator.apply name terms = .ok t ∧ commands = []
  | .builtin, .simple => ∃ applied var sort, Operator.apply name terms = .ok applied ∧
    t = .symbol var ∧ SolverSort.of? ret.ty = some sort ∧
    commands = [.declareConst var sort.display, .assert (.eq t applied)]
  | .uninterpreted, _ => ∃ var sort assumed, t = .symbol var ∧ SolverSort.of? ret.ty = some sort ∧
    commands = .declareConst var sort.display ::
      .assert (.eq t (application name terms)) :: assumed
  | _, _ => ∃ var sort assumed, t = .symbol var ∧ SolverSort.of? ret.ty = some sort ∧
    commands = .declareConst var sort.display :: assumed

section

variable {walk : Walk} {locals : Bindings}

theorem provesArgument_of_provesContract {binders : Bindings} {param : RefinedTy} {arg : Expr}
    {term : Term} {own proof : List Command} {p p₁ p₂ : Progress}
    (harg : Accepts (walk (.ofParam param) locals arg) p own term p₁)
    (hproof : ProvesContract walk (binders.bindRefined param term) param p₁ proof p₂) :
    ProvesArgument walk locals (binders.bindRefined param term) param arg term (own ++ proof) := by
  refine ⟨p, own, p₁, proof, harg, rfl, ?_⟩
  unfold ProvesContract at hproof
  cases hcontract : param.contract? with
  | none =>
      rw [hcontract] at hproof
      exact hproof.1
  | some contract =>
      obtain ⟨binder, clause⟩ := contract
      rw [hcontract] at hproof
      obtain ⟨-, inner, goal, p₃, hclause, hcommands, -⟩ := hproof
      have hterm := Bindings.resolve_bindRefined_contract binders hcontract term
      refine ⟨hterm, inner, goal, p₃, hclause, ?_⟩
      rw [hcommands, hterm, refutation]
      simp

/-- The arguments of a call, one after the other. -/
theorem accepts_checkArgs {callee : String} {span : Option Span} {pairs : List (RefinedTy × Expr)}
    {binders : Bindings} {p p' : Progress} {commands : List Command} {r : Bindings × List Term}
    (h : Accepts (checkArgs walk callee span locals pairs binders) p commands r p') :
    ∃ segments : List (List Command), commands = segments.flatten ∧ segments.length = pairs.length ∧
      r.2.length = pairs.length ∧
      ∀ i param arg term segment, pairs[i]? = some (param, arg) → r.2[i]? = some term →
        segments[i]? = some segment → ProvesArgument walk locals
          (binders.bindAll ((pairs.map (·.1)).take (i + 1)) (r.2.take (i + 1)))
          param arg term segment := by
  induction pairs generalizing binders p commands r with
  | nil =>
      obtain ⟨rfl, rfl, -⟩ := accepts_checkArgs_nil h
      exact ⟨[], rfl, rfl, rfl, fun _ _ _ _ _ hpair => nomatch hpair⟩
  | cons head rest ih =>
      obtain ⟨param, arg⟩ := head
      obtain ⟨own, term, p₁, proof, p₂, others, terms, harg, hproof, hrest, rfl, hterms⟩ :=
        accepts_checkArgs_cons h
      obtain ⟨segments, rfl, hsegments, hlength, hproved⟩ := ih hrest
      refine ⟨(own ++ proof) :: segments, ?_, ?_, ?_, ?_⟩
      · rw [List.flatten_cons, List.append_assoc]
      · rw [List.length_cons, hsegments, List.length_cons]
      · rw [hterms, List.length_cons, hlength, List.length_cons]
      · intro i param' arg' term' segment hpair hterm hsegment
        rw [hterms] at hterm ⊢
        cases i with
        | zero =>
            cases hpair
            cases hterm
            cases hsegment
            exact provesArgument_of_provesContract harg hproof
        | succ i => exact hproved i param' arg' term' segment hpair hterm hsegment

theorem yieldsResult_of_accepts {mode : Mode} {name : String} {origin : Origin} {ret : RefinedTy}
    {binders : Bindings} {terms : List Term} {span : Option Span} {p p' : Progress}
    {commands : List Command} {t : Term}
    (h : (origin = .builtin ∧ AppliesOperator mode name ret terms p commands t p') ∨
      (origin ≠ .builtin ∧
        Accepts (checkResult walk name origin ret binders terms span) p commands t p')) :
    YieldsResult mode name origin ret terms commands t := by
  rcases h with ⟨rfl, applied, happly, hmode⟩ | ⟨horigin, hresult⟩
  · cases mode with
    | full =>
        obtain ⟨rfl, rfl, -⟩ := hmode
        exact ⟨happly, rfl⟩
    | simple =>
        obtain ⟨sort, var, hsort, -, rfl, rfl, -⟩ := hmode
        exact ⟨applied, var, sort, happly, rfl, hsort, rfl⟩
  · obtain ⟨sort, assumed, var, hsort, -, rfl, -, rfl⟩ := accepts_checkResult hresult
    unfold resultDefinition
    cases origin with
    | builtin => exact absurd rfl horigin
    | uninterpreted => exact ⟨var, sort, assumed, rfl, hsort, rfl⟩
    | primitive => exact ⟨var, sort, assumed, rfl, hsort, rfl⟩
    | value => exact ⟨var, sort, assumed, rfl, hsort, rfl⟩

end

/-- A call is carried through to the term: argument by argument, what its parameter states is proved
of the argument's term, with the binders so far standing for the terms so far; all scopes of these
proofs are left; and only then comes the result, which is made of the same terms. -/
def CarriesThrough (env : Env) (walk : Walk) (mode : Mode) (locals : Bindings) (callee : Expr)
    (args : List Expr) (t : Term) (commands : List Command) : Prop :=
  ∃ name sig params ret terms rest, ∃ segments : List (List Command),
    callee.shape = .var name ∧ env.get? name = some sig ∧
    sig.ty.ty.arrow? = some (params, ret) ∧ params.length = args.length ∧
    terms.length = args.length ∧ segments.length = args.length ∧
    commands = segments.flatten ++ rest ∧ Level segments.flatten ∧
    (∀ i param arg term segment, params[i]? = some param → args[i]? = some arg →
      terms[i]? = some term → segments[i]? = some segment →
        ProvesArgument walk locals (Bindings.bindAll ∅ (params.take (i + 1)) (terms.take (i + 1)))
          param arg term segment) ∧
    YieldsResult mode name sig.origin ret terms rest t

theorem carriesThrough_of_accepts {env : Env} {walk : Walk} (hlevel : LevelWalk walk)
    {mode : Mode} {locals : Bindings} {callee : Expr} {args : List Expr} {span : Option Span}
    {p p' : Progress} {commands : List Command} {t : Term}
    (h : Accepts (checkCall env walk mode locals callee args span) p commands t p') :
    CarriesThrough env walk mode locals callee args t commands := by
  obtain ⟨name, sig, params, ret, first, binders, terms, p₁, rest, hcallee, hsig, harrow,
    hlength, hargs, rfl, hresult⟩ := accepts_checkCall h
  obtain ⟨segments, hflatten, hsegments, hterms, hproved⟩ := accepts_checkArgs hargs
  have hfirst : Level first := level_checkArgs hlevel hargs
  have hzip : (params.zip args).length = args.length := by
    rw [List.length_zip, hlength, Nat.min_self]
  rw [List.map_fst_zip (Nat.le_of_eq hlength)] at hproved
  rw [hflatten] at hfirst ⊢
  refine ⟨name, sig, params, ret, terms, rest, segments, hcallee, hsig, harrow, hlength,
    hterms.trans hzip, hsegments.trans hzip, rfl, hfirst, ?_, yieldsResult_of_accepts hresult⟩
  intro i param arg term segment hparam harg hterm hsegment
  exact hproved i param arg term segment (List.getElem?_zip_eq_some.2 ⟨hparam, harg⟩) hterm hsegment

theorem strict_checkCall (env : Env) (depth : Nat) (mode : Mode) (locals : Bindings)
    (callee : Expr) (args : List Expr) (span : Option Span) :
    StrictPart (checkCall env (checkWithin env depth) mode locals callee args span) := by
  have henv : ∀ n ∈ env.letNames, (fun _ => True) n := fun _ _ => trivial
  exact strict_of_part (part_checkCall (part_checkWithin henv depth) henv mode locals callee
    (fun _ _ _ _ => trivial) span)

/-- Whenever a call ends in a term, in whatever session, it was carried through to it. -/
theorem events_of_checkCall {τ ω : Type} [Transport τ ω] {env : Env} {depth : Nat} {mode : Mode}
    {locals : Bindings} {callee : Expr} {args : List Expr} {span : Option Span}
    {c c' : Checker τ ω} {t : Term}
    (h : c.perform (checkCall env (checkWithin env depth) mode locals callee args span) =
      (.ok t, c')) :
    ∃ commands, CarriesThrough env (checkWithin env depth) mode locals callee args t commands ∧
      c.session.events (checkCall env (checkWithin env depth) mode locals callee args span
        c.progress) = commands.map Event.favourable := by
  obtain ⟨hresult, hevents⟩ :=
    Session.events_of_strict (strict_checkCall env depth mode locals callee args span c.progress)
      (hold_of_perform h)
  exact ⟨_, carriesThrough_of_accepts (level_checkWithin env depth) (Prod.ext rfl hresult), hevents⟩

end Checker

end ContractCheck
