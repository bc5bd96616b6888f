import ContractCheck.Proofs.Evaluation

/-!
How the commands of a walk follow an evaluation. As long as every command can be trusted, a model of
what is asserted so far is extended step by step: a fresh variable gets the value of its call, a
`let` constant that of its value, and each assertion that is not a negated goal is then true. A
negated goal would be true too if its goal were false, so each goal that is refuted is a claim that
the evaluation requires and that holds (`simulates_checkWithin`).
-/

namespace ContractCheck

open Smt

variable {carrier : String → Type}

open Classical in
/-- The solver's term for an operator has the operator's meaning. -/
theorem Smt.Valuation.operator (V : Valuation carrier) {name : String} {terms : List Term}
    {applied : Term} {vs : List (Value carrier)} {v : Value carrier}
    (happly : Operator.apply name terms = .ok applied)
    (hterms : List.Forall₂ (fun t w => V.value t = some w) terms vs)
    (hmeaning : Operator.meaning? V.byZero name vs = some v) : V.value applied = some v := by
  unfold Operator.meaning? at hmeaning
  split at hmeaning
  case h_6 | h_16 =>
    obtain ⟨t, _, -, ⟨⟩, rfl⟩ := List.forall₂_cons_right_iff.1 hterms
    cases hmeaning
    cases happly
    exact V.theory hterms rfl
  case h_11 =>
    obtain ⟨t, _, -, hrest, rfl⟩ := List.forall₂_cons_right_iff.1 hterms
    obtain ⟨t', _, -, ⟨⟩, rfl⟩ := List.forall₂_cons_right_iff.1 hrest
    cases happly
    exact V.theory hterms hmeaning
  case h_12 =>
    obtain ⟨t, _, -, hrest, rfl⟩ := List.forall₂_cons_right_iff.1 hterms
    obtain ⟨t', _, -, ⟨⟩, rfl⟩ := List.forall₂_cons_right_iff.1 hrest
    split at hmeaning
    · rename_i a b hsort
      cases hmeaning
      cases happly
      have heq : V.value (.eq t t') = some (.bool (decide (a = b))) :=
        V.theory hterms (if_pos hsort)
      rw [decide_not]
      exact V.theory (.cons heq .nil) rfl
    · cases hmeaning
  case h_17 => cases hmeaning
  all_goals
    obtain ⟨t, _, -, hrest, rfl⟩ := List.forall₂_cons_right_iff.1 hterms
    obtain ⟨t', _, -, ⟨⟩, rfl⟩ := List.forall₂_cons_right_iff.1 hrest
    cases hmeaning
    cases happly
    exact V.theory hterms rfl

theorem Operator.eval_of_apply {M : Model carrier} {name : String} {terms : List Term}
    {applied : Term} {vs : List (Value carrier)} {v : Value carrier}
    (happly : Operator.apply name terms = .ok applied) (hterms : M.evalAll terms = some vs)
    (hmeaning : Operator.meaning? M.byZero name vs = some v) : M.eval applied = some v :=
  M.valuation.operator happly (Model.evalAll_eq_some_iff.1 hterms) hmeaning

/-- The model interprets the globals as they are. -/
structure Knows (env : Env) (I : Interpretation carrier) (M : Model carrier) : Prop where
  constant : ∀ name sort, env.valueSort? name = some sort →
    IsOwn name ∧ M.symbol name [] = some (I.constant name)
  function : ∀ name sig rank, env.get? name = some sig → sig.origin = .uninterpreted →
    sig.rank? = some rank → IsOwn name ∧ ∀ vs : List (Value carrier),
      vs.map Value.sort = rank.domain → M.symbol name vs = some (I.function name vs)
  byZero : M.byZero = I.byZero

/-- The variables of a context have terms with the values that they have in a scope. -/
structure Agrees (env : Env) (I : Interpretation carrier) (M : Model carrier) (locals : Bindings)
    (context : NameMap SolverSort) (scope : NameMap (Value carrier)) : Prop where
  sorts : I.FitsScope env context scope
  eval : ∀ name sort, env.variableSort? context name = some sort →
    M.eval (locals.resolve name) = some (I.lookup scope name)

section

variable {env : Env} {I : Interpretation carrier} {M M' : Model carrier} {locals : Bindings}
  {context : NameMap SolverSort} {scope : NameMap (Value carrier)}

theorem Knows.extend (h : Knows env I M) (hext : M.Extends M') : Knows env I M' where
  constant name sort hsort := (h.constant name sort hsort).imp_right (hext.symbol _ _ _)
  function name sig rank hsig horigin hrank :=
    (h.function name sig rank hsig horigin hrank).imp_right
      fun hvs vs hsorts => hext.symbol _ _ _ (hvs vs hsorts)
  byZero := hext.byZero.trans h.byZero

theorem Agrees.extend (h : Agrees env I M locals context scope) (hext : M.Extends M') :
    Agrees env I M' locals context scope :=
  ⟨h.sorts, fun name sort hsort => Model.eval_of_extends hext (h.eval name sort hsort)⟩

/-- Where nothing is bound there are only global values. -/
theorem Knows.agrees (h : Knows env I M) (hI : I.Fits env) : Agrees env I M ∅ ∅ ∅ where
  sorts := hI.fitsScope_empty
  eval name sort hsort := by
    obtain ⟨hown, hsymbol⟩ := h.constant name sort hsort
    change M.eval (.symbol name) = some (I.constant name)
    rw [Model.eval_symbol hown, hsymbol]

/-- A binder stands for a term. -/
theorem Agrees.bindIn (h : Agrees env I M locals context scope) (t : RefinedTy) {term : Term}
    {v : Value carrier} (hterm : M.eval term = some v) :
    Agrees env I M (locals.bindRefined t term) (t.bindIn context v.sort) (t.bindIn scope v) := by
  refine ⟨h.sorts.bindIn t v, fun name sort hsort => ?_⟩
  cases t with
  | plain ty => exact h.eval name sort hsort
  | refined ty refinement =>
      simp only [Bindings.bindRefined, RefinedTy.bindIn, RefinedTy.refinement?] at hsort ⊢
      unfold Env.variableSort? at hsort
      unfold Bindings.resolve Interpretation.lookup
      rw [NameMap.get?_insert] at hsort ⊢
      rw [NameMap.get?_insert]
      by_cases hname : name = refinement.binder
      · rw [if_pos hname, if_pos hname]
        exact hterm
      · rw [if_neg hname] at hsort
        rw [if_neg hname, if_neg hname]
        exact h.eval name sort hsort

/-- A `let` constant stands for itself. -/
theorem Agrees.letIn (h : Agrees env I M ∅ context scope) {name : String} {v : Value carrier}
    (hname : IsOwn name) (hv : M.symbol name [] = some v) :
    Agrees env I M ∅ (context.insert name v.sort) (scope.insert name v) := by
  refine ⟨h.sorts.insert name v, fun other sort hsort => ?_⟩
  unfold Env.variableSort? at hsort
  unfold Interpretation.lookup
  rw [NameMap.get?_insert] at hsort ⊢
  by_cases hother : other = name
  · rw [if_pos hother, hother]
    change M.eval (.symbol name) = some v
    rw [Model.eval_symbol hname, hv]
  · rw [if_neg hother] at hsort ⊢
    exact h.eval other sort hsort

end

/-- The findings are sound, and if what they assume is granted, a model of the stack extends to one
of the stack that the commands lead to, with this property. -/
def Realizes (M : Model carrier) (st : Stack) (commands : List Command) (F : List Finding)
    (post : Model carrier → Prop) : Prop :=
  Sound F ∧ (Granted F → ∃ M', M.Extends M' ∧ M'.Satisfies (st.afterAll commands).entries ∧
    post M')

section

variable {M : Model carrier} {st : Stack} {F G : List Finding} {post : Model carrier → Prop}

theorem realizes_nil (hM : M.Satisfies st.entries) (hpost : post M) :
    Realizes M st [] [] post :=
  ⟨trivial, fun _ => ⟨M, .refl M, hM, hpost⟩⟩

/-- One part after the other, the second from the model that the first leads to. -/
theorem Realizes.append {first second : List Command} {mid : Model carrier → Prop}
    (h : Realizes M st first F mid)
    (hrest : ∀ M', M.Extends M' → M'.Satisfies (st.afterAll first).entries → mid M' →
      Realizes M' (st.afterAll first) second G post) :
    Realizes M st (first ++ second) (F ++ G) post := by
  obtain ⟨hsound, hmodel⟩ := h
  constructor
  · refine sound_append.2 ⟨hsound, fun hgranted => ?_⟩
    obtain ⟨M', hext, hM', hmid⟩ := hmodel hgranted
    exact (hrest M' hext hM' hmid).1
  · intro hgranted
    obtain ⟨hF, hG⟩ := granted_append.1 hgranted
    obtain ⟨M', hext, hM', hmid⟩ := hmodel hF
    obtain ⟨M'', hext', hM'', hpost⟩ := (hrest M' hext hM' hmid).2 hG
    rw [Stack.afterAll_append]
    exact ⟨M'', hext.trans hext', hM'', hpost⟩

theorem Realizes.imp {commands : List Command} {mid : Model carrier → Prop}
    (h : Realizes M st commands F mid) (himp : ∀ M', M.Extends M' → mid M' → post M') :
    Realizes M st commands F post := by
  refine ⟨h.1, fun hgranted => ?_⟩
  obtain ⟨M', hext, hM', hmid⟩ := h.2 hgranted
  exact ⟨M', hext, hM', himp M' hext hmid⟩

/-- A new constant gets whatever value of its sort is wanted. -/
theorem realizes_declareConst {name : String} {sort : SolverSort} {v : Value carrier}
    (hM : M.Satisfies st.entries) (htrusted : TrustedAt st (.declareConst name sort.display))
    (hsort : sort.IsWritable) (hv : v.sort = sort) :
    Realizes M st [.declareConst name sort.display] [] fun M' =>
      M'.symbol name [] = some v := by
  have hnew : ∀ entry ∈ st.entries, entry.name? ≠ some name := fun entry hentry hname =>
    htrusted.1 name rfl (Stack.declares_iff.2 ⟨entry, hentry, hname⟩)
  have hafter : (st.afterAll [.declareConst name sort.display]).entries =
      .symbol name ⟨[], v.sort⟩ :: st.entries := by
    change Entry.symbol name ⟨[], sortOf sort.display⟩ :: st.entries = _
    rw [hsort.sortOf, hv]
  refine ⟨trivial, fun _ => ⟨M.withConstant name v, hM.extends_withConstant hnew v, ?_,
    Model.withConstant_self name v⟩⟩
  rw [hafter]
  exact Model.satisfies_withConstant hM hnew v

theorem realizes_assert {t : Term} (hM : M.Satisfies st.entries)
    (ht : M.eval t = some (.bool true)) (hpost : post M) : Realizes M st [.assert t] [] post :=
  ⟨trivial, fun _ => ⟨M, .refl M, hM.assert ht, hpost⟩⟩

/-- A goal whose negation is refuted is true, and what led to it is forgotten. -/
theorem realizes_refutation [∀ sort, Nonempty (carrier sort)] {inner : List Command} {goal : Term}
    {fact : Prop} (hlevel : Level inner) (hM : M.Satisfies st.entries)
    (htrusted : Trusted st (.push :: (inner ++ Checker.refutation goal ++ [.pop])))
    (h : Realizes M st.push inner F fun M' =>
      ∃ b, M'.eval goal = some (.bool b) ∧ (b = true ↔ fact)) :
    Realizes M st (.push :: (inner ++ Checker.refutation goal ++ [.pop]))
      (F ++ [.required fact]) fun _ => True := by
  have hscope : st.afterAll (.push :: (inner ++ Checker.refutation goal ++ [.pop])) = st :=
    Stack.afterAll_scope (hlevel.append (Checker.level_refutation goal)) st
  obtain ⟨-, hrest⟩ := htrusted
  obtain ⟨hrest, -⟩ := trusted_append.1 hrest
  obtain ⟨-, -, ⟨-, hcheck⟩, -⟩ := trusted_append.1 hrest
  have hfact : Granted F → fact := by
    intro hgranted
    obtain ⟨M', -, hM', b, hgoal, hiff⟩ := h.2 hgranted
    cases b with
    | true => exact hiff.1 rfl
    | false =>
        have hnot : M'.eval (.not goal) = some (.bool true) := Model.eval_not hgoal
        exact absurd ⟨carrier, inferInstance, M', hM'.assert hnot⟩ (hcheck rfl)
  refine ⟨sound_append.2 ⟨h.1, fun hgranted => ⟨hfact hgranted, trivial⟩⟩, fun _ => ?_⟩
  rw [hscope]
  exact ⟨M, .refl M, hM, trivial⟩

end

namespace Checker

/-- The favourable courses of the walk follow evaluations. Where a `let` is allowed, nothing is
bound but `let` constants. -/
def Simulates (env : Env) (I : Interpretation carrier) (walk : Walk) : Prop :=
  ∀ ⦃mode locals e p commands t p'⦄, Accepts (walk mode locals e) p commands t p' →
    ∀ ⦃lets context sort scope v F M st⦄, e.sort? env lets context = some sort →
      (lets = true → locals = ∅) → Evaluates env I scope e v F → Knows env I M →
      M.Satisfies st.entries → Agrees env I M locals context scope → Trusted st commands →
      Realizes M st commands F fun M' => M'.eval t = some v

section

variable {env : Env} {I : Interpretation carrier} {walk : Walk} {M : Model carrier} {st : Stack}
  {locals : Bindings} {context : NameMap SolverSort} {scope : NameMap (Value carrier)}

/-- A clause's goal is true iff what the clause states of its subject holds. -/
theorem eval_goal {clause : Clause} {subject term : Term} {v w : Value carrier}
    (hsubject : M.eval subject = some v) (hterm : M.eval term = some w)
    (hsort : w.sort = clause.sort v.sort) :
    ∃ b, M.eval (clause.goal subject term) = some (.bool b) ∧ (b = true ↔ clause.Holds v w) := by
  classical
  cases clause with
  | holds pred =>
      obtain ⟨b, rfl⟩ := Value.eq_bool_of_sort hsort
      exact ⟨b, hterm, by simp [Clause.Holds]⟩
  | equals value =>
      have heq := Model.eval_eq hsubject hterm hsort.symm
      exact ⟨_, heq, by simp [Clause.Holds]⟩

variable (hwalk : Simulates env I walk) (hlevel : LevelWalk walk)
include hwalk hlevel

theorem realizes_provesContract [∀ sort, Nonempty (carrier sort)] {t : RefinedTy} {term : Term}
    {p p' : Progress} {commands : List Command} {v : Value carrier} {F : List Finding}
    (h : ProvesContract walk (locals.bindRefined t term) t p commands p')
    (hsorted : t.isSorted env context v.sort = true)
    (hstates : States env I .required (t.bindIn scope v) v t F) (hknows : Knows env I M)
    (hM : M.Satisfies st.entries) (hagrees : Agrees env I M locals context scope)
    (hterm : M.eval term = some v) (htrusted : Trusted st commands) :
    Realizes M st commands F fun _ => True := by
  have hbound := hagrees.bindIn t hterm
  unfold ProvesContract at h
  cases hstates with
  | nothing hnone =>
      rw [hnone] at h
      obtain ⟨rfl, -⟩ := h
      exact realizes_nil hM trivial
  | @clause _ _ _ _ binder clause w F hcontract hclause =>
      rw [hcontract] at h
      obtain ⟨-, inner, result, p₁, hinner, rfl, -⟩ := h
      have hsort := RefinedTy.sort?_of_isSorted hsorted hcontract
      have htrusted' : Trusted st.push inner := by
        obtain ⟨-, hrest⟩ := htrusted
        obtain ⟨hrest, -⟩ := trusted_append.1 hrest
        exact (trusted_append.1 hrest).1
      have hpush : M.Satisfies st.push.entries := hM
      have hrealizes :=
        hwalk hinner hsort (fun h => nomatch h) hclause hknows hpush hbound htrusted'
      rw [Bindings.resolve_bindRefined hcontract] at htrusted ⊢
      refine realizes_refutation (hlevel hinner) hM htrusted (hrealizes.imp ?_)
      intro M' hext hresult
      exact eval_goal (Model.eval_of_extends hext hterm) hresult
        (hclause.sort_eq hsort hbound.sorts)

omit hlevel in
theorem realizes_assumesContract {t : RefinedTy} {result : Term} {p p' : Progress}
    {commands : List Command} {v : Value carrier} {F : List Finding}
    (h : AssumesContract walk (locals.bindRefined t result) result t p commands p')
    (hsorted : t.isSorted env context v.sort = true)
    (hstates : States env I .assumed (t.bindIn scope v) v t F) (hknows : Knows env I M)
    (hM : M.Satisfies st.entries) (hagrees : Agrees env I M locals context scope)
    (hresult : M.eval result = some v) (htrusted : Trusted st commands) :
    Realizes M st commands F fun _ => True := by
  have hbound := hagrees.bindIn t hresult
  unfold AssumesContract at h
  cases hstates with
  | nothing hnone =>
      rw [hnone] at h
      obtain ⟨rfl, -⟩ := h
      exact realizes_nil hM trivial
  | @clause _ _ _ _ binder clause w F hcontract hclause =>
      rw [hcontract] at h
      obtain ⟨-, inner, term, hinner, rfl⟩ := h
      have hsort := RefinedTy.sort?_of_isSorted hsorted hcontract
      obtain ⟨htrusted', -⟩ := trusted_append.1 htrusted
      have hrealizes := hwalk hinner hsort (fun h => nomatch h) hclause hknows hM hbound htrusted'
      -- The fact is true once it is granted, and is asserted only then.
      refine ⟨sound_append.2 ⟨hrealizes.1, fun _ _ => trivial⟩, fun hgranted => ?_⟩
      obtain ⟨hF, hfact, -⟩ := granted_append.1 hgranted
      obtain ⟨M', hext, hM', hterm⟩ := hrealizes.2 hF
      obtain ⟨b, hgoal, hiff⟩ := eval_goal (Model.eval_of_extends hext hresult) hterm
        (hclause.sort_eq hsort hbound.sorts)
      obtain rfl := hiff.2 hfact
      refine ⟨M', hext, ?_, trivial⟩
      rw [Stack.afterAll_append]
      exact hM'.assert hgoal

/-- The arguments of a call have the values that they evaluate to, and the binders of the
parameters stand for them. -/
theorem realizes_checkArgs [∀ sort, Nonempty (carrier sort)] {lets : Bool} {callee : String}
    {span : Option Span} {pairs : List (RefinedTy × Expr)} {binders : Bindings}
    {p p' : Progress} {commands : List Command} {r : Bindings × List Term}
    {sorts : List SolverSort} {rest : List (RefinedTy × SolverSort)}
    {inner : NameMap SolverSort} {bound bound' : NameMap (Value carrier)}
    {vs : List (Value carrier)} {F : List Finding}
    (h : Accepts (checkArgs walk callee span locals pairs binders) p commands r p')
    (hsorts : Expr.sorts? env lets context (pairs.map (·.2)) = some sorts)
    (hcontracts : sortedContracts env inner ((pairs.map (·.1)).zip sorts ++ rest) = true)
    (hlets : lets = true → locals = ∅) (hargs : EvaluatesArgs env I scope pairs bound bound' vs F)
    (hknows : Knows env I M) (hM : M.Satisfies st.entries)
    (hagrees : Agrees env I M locals context scope) (hinner : Agrees env I M binders inner bound)
    (htrusted : Trusted st commands) :
    Realizes M st commands F fun M' => M'.evalAll r.2 = some vs ∧
      ∃ inner', sortedContracts env inner' rest = true ∧ Agrees env I M' r.1 inner' bound' := by
  induction pairs generalizing M st binders p commands r sorts inner bound vs F with
  | nil =>
      obtain ⟨rfl, rfl, -⟩ := accepts_checkArgs_nil h
      cases hargs
      exact realizes_nil hM ⟨Model.evalAll_nil, inner, hcontracts, hinner⟩
  | cons head others ih =>
      obtain ⟨param, arg⟩ := head
      obtain ⟨first, term, p₁, second, p₂, third, terms, hfirst, hsecond, hthird, rfl, hr⟩ :=
        accepts_checkArgs_cons h
      rw [List.map_cons, Expr.sorts?] at hsorts
      obtain ⟨sort, hsort, hsorts⟩ := Option.bind_eq_some_iff.1 hsorts
      obtain ⟨sorts, hothers, rfl⟩ := Option.map_eq_some_iff.1 hsorts
      rw [List.map_cons, List.zip_cons_cons, List.cons_append, sortedContracts,
        Bool.and_eq_true] at hcontracts
      obtain ⟨hcontract, hcontracts⟩ := hcontracts
      obtain ⟨htrusted₁, htrusted⟩ := trusted_append.1 htrusted
      obtain ⟨htrusted₂, htrusted₃⟩ := trusted_append.1 htrusted
      cases hargs with
      | @cons _ _ _ _ _ _ v vs F G H harg hstates hrest =>
          obtain rfl := harg.sort_eq hsort hagrees.sorts
          refine (hwalk hfirst hsort hlets harg hknows hM hagrees htrusted₁).append ?_
          intro M₁ hext₁ hM₁ hterm
          have hknows₁ := hknows.extend hext₁
          refine (realizes_provesContract hwalk hlevel hsecond hcontract hstates hknows₁ hM₁
            (hinner.extend hext₁) hterm htrusted₂).append ?_
          intro M₂ hext₂ hM₂ _
          have hterm₂ := Model.eval_of_extends hext₂ hterm
          have hinner₂ := ((hinner.extend hext₁).extend hext₂).bindIn param hterm₂
          refine (ih hthird hothers hcontracts hrest (hknows₁.extend hext₂) hM₂
            ((hagrees.extend hext₁).extend hext₂) hinner₂ htrusted₃).imp ?_
          rintro M₃ hext₃ ⟨hterms, hbinders⟩
          refine ⟨?_, hbinders⟩
          rw [hr]
          exact Model.evalAll_cons_eq_some (Model.eval_of_extends hext₃ hterm₂) hterms

omit hwalk hlevel in
theorem eval_application {callee : String} {terms : List Term} {vs : List (Value carrier)}
    (hcallee : IsOwn callee) (hterms : M.evalAll terms = some vs) :
    M.eval (application callee terms) = M.symbol callee vs := by
  cases terms with
  | nil =>
      rw [Model.evalAll_nil] at hterms
      obtain rfl := Option.some.inj hterms
      exact Model.eval_symbol hcallee
  | cons t ts =>
      have happlication : application callee (t :: ts) = .apply callee (t :: ts) := rfl
      rw [happlication, Model.eval_apply (List.cons_ne_nil t ts), hterms, Option.bind_some,
        Model.application_own hcallee]

omit hwalk hlevel in
/-- An uninterpreted function's result is what the function gives. -/
theorem realizes_resultDefinition {callee : String} {sig : Signature} {rank : Rank}
    {terms : List Term} {result : Term} {vs : List (Value carrier)} {v : Value carrier}
    (hsig : env.get? callee = some sig) (hrank : sig.rank? = some rank)
    (hsorts : vs.map Value.sort = rank.domain)
    (hfunction : sig.origin = .uninterpreted → v = I.function callee vs) (hknows : Knows env I M)
    (hM : M.Satisfies st.entries) (hterms : M.evalAll terms = some vs)
    (hresult : M.eval result = some v) :
    Realizes M st (resultDefinition sig.origin callee terms result) [] fun _ => True := by
  unfold resultDefinition
  split
  · rename_i horigin
    obtain ⟨hown, hvs⟩ := hknows.function callee sig rank hsig horigin hrank
    have happlied : M.eval (application callee terms) = some v := by
      rw [eval_application hown hterms, hvs vs hsorts, hfunction horigin]
    exact realizes_assert hM (Model.eval_eq_self hresult happlied) trivial
  · exact realizes_nil hM trivial

omit hwalk hlevel in
theorem realizes_appliesOperator {mode : Mode} {name : String} {ret : RefinedTy}
    {terms : List Term} {p p' : Progress} {commands : List Command} {t : Term}
    {vs : List (Value carrier)} {v : Value carrier}
    (h : AppliesOperator mode name ret terms p commands t p')
    (hret : SolverSort.of? ret.ty = some v.sort) (hsort : v.sort ≠ .named "")
    (hmeaning : Operator.meaning? I.byZero name vs = some v) (hknows : Knows env I M)
    (hM : M.Satisfies st.entries) (hterms : M.evalAll terms = some vs)
    (htrusted : Trusted st commands) :
    Realizes M st commands [] fun M' => M'.eval t = some v := by
  obtain ⟨applied, happly, hmode⟩ := h
  rw [← hknows.byZero] at hmeaning
  have happlied := Operator.eval_of_apply happly hterms hmeaning
  cases mode with
  | full =>
      obtain ⟨rfl, rfl, -⟩ := hmode
      exact realizes_nil hM happlied
  | simple =>
      obtain ⟨sort, var, hof, rfl, rfl, rfl, -⟩ := hmode
      obtain rfl := Option.some.inj (hret.symm.trans hof)
      have hown := isOwn_of_isPlainName (isPlainName_next p.names v.sort)
      obtain ⟨hdeclare, -⟩ := htrusted
      refine (realizes_declareConst hM hdeclare (SolverSort.isWritable_of_of? hof hsort)
        rfl).append ?_
      intro M' hext hM' hvar
      have hresult : M'.eval (.symbol (p.names.next v.sort.tag).1) = some v := by
        rw [Model.eval_symbol hown, hvar]
      have heq := Model.eval_eq_self hresult (Model.eval_of_extends hext happlied)
      exact realizes_assert hM' heq hresult

omit hlevel in
theorem realizes_checkResult {callee : String} {sig : Signature} {rank : Rank}
    {params : List RefinedTy} {ret : RefinedTy} {binders : Bindings} {terms : List Term}
    {span : Option Span} {p p' : Progress} {commands : List Command} {t : Term}
    {vs : List (Value carrier)} {v : Value carrier} {F : List Finding}
    (h : Accepts (checkResult walk callee sig.origin ret binders terms span) p commands t p')
    (hsig : env.get? callee = some sig) (hrank : sig.rank? = some rank)
    (harrow : sig.ty.ty.arrow? = some (params, ret)) (hsorts : vs.map Value.sort = rank.domain)
    (hsorted : sortedContracts env context [(ret, rank.range)] = true)
    (hret : SolverSort.of? ret.ty = some v.sort) (hsort : v.sort ≠ .named "")
    (hfunction : sig.origin = .uninterpreted → v = I.function callee vs)
    (hstates : States env I .assumed (ret.bindIn scope v) v ret F) (hknows : Knows env I M)
    (hM : M.Satisfies st.entries) (hagrees : Agrees env I M binders context scope)
    (hterms : M.evalAll terms = some vs) (htrusted : Trusted st commands) :
    Realizes M st commands F fun M' => M'.eval t = some v := by
  obtain ⟨sort, rest, name, hof, rfl, rfl, hassumes, rfl⟩ := accepts_checkResult h
  obtain rfl := Option.some.inj (hret.symm.trans hof)
  have hrange : rank.range = v.sort := by
    obtain ⟨-, hrange⟩ := Signature.rank?_eq_some harrow hrank
    exact Option.some.inj (hrange.symm.trans hret)
  have hcontract : ret.isSorted env context v.sort = true := by
    rw [sortedContracts, sortedContracts, Bool.and_true, hrange] at hsorted
    exact hsorted
  have hown := isOwn_of_isPlainName (isPlainName_next p.names v.sort)
  obtain ⟨hdeclare, htrusted⟩ := htrusted
  obtain ⟨-, htrusted⟩ := trusted_append.1 htrusted
  refine (realizes_declareConst hM hdeclare (SolverSort.isWritable_of_of? hof hsort)
    rfl).append ?_
  intro M₁ hext₁ hM₁ hname
  have hresult : M₁.eval (.symbol (p.names.next v.sort.tag).1) = some v := by
    rw [Model.eval_symbol hown, hname]
  have hknows₁ := hknows.extend hext₁
  refine (realizes_resultDefinition hsig hrank hsorts hfunction hknows₁ hM₁ ?_ hresult).append ?_
  · exact Model.evalAll_of_extends hext₁ hterms
  intro M₂ hext₂ hM₂ _
  have hresult₂ := Model.eval_of_extends hext₂ hresult
  refine (realizes_assumesContract hwalk hassumes hcontract hstates (hknows₁.extend hext₂) hM₂
    ((hagrees.extend hext₁).extend hext₂) hresult₂ htrusted).imp ?_
  intro M₃ hext₃ _
  exact Model.eval_of_extends hext₃ hresult₂

theorem realizes_checkCall [∀ sort, Nonempty (carrier sort)] (hI : I.Fits env)
    (henv : env.IsSorted) {mode : Mode}
    {lets : Bool} {ty : Ty} {callee : Expr} {args : List Expr} {span espan : Option Span}
    {p p' : Progress} {commands : List Command} {t : Term} {sort : SolverSort}
    {v : Value carrier} {F : List Finding}
    (h : Accepts (checkCall env walk mode locals callee args span) p commands t p')
    (hsort : Expr.sort? env lets context ⟨ty, .call callee args, espan⟩ = some sort)
    (hlets : lets = true → locals = ∅)
    (heval : Evaluates env I scope ⟨ty, .call callee args, espan⟩ v F) (hknows : Knows env I M)
    (hM : M.Satisfies st.entries) (hagrees : Agrees env I M locals context scope)
    (htrusted : Trusted st commands) : Realizes M st commands F fun M' => M'.eval t = some v := by
  have hv := heval.sort_eq hsort hagrees.sorts
  obtain ⟨hcall, hty⟩ := Expr.sort?_eq_some_iff.1 hsort
  obtain ⟨-, hnamed⟩ := Ty.sort?_eq_some_iff.1 hty
  rw [← hv] at hnamed
  obtain ⟨name, sig, params, ret, first, binders, terms, p₁, second, hcallee, hsig, harrow,
    hlength, hargs, rfl, hresult⟩ := accepts_checkCall h
  obtain ⟨rank, hrank, hpairs, hcontracts, hrange⟩ :=
    henv.call_inversion hcall hcallee hsig harrow hlength
  have hret : SolverSort.of? ret.ty = some v.sort := by
    rw [(Signature.rank?_eq_some harrow hrank).2, hrange, hv]
  obtain ⟨htrusted₁, htrusted₂⟩ := trusted_append.1 htrusted
  cases heval with
  | operator hcallee'' hsig'' harrow' horigin hevals hmeaning =>
      obtain rfl := Shape.var.inj (hcallee.symm.trans hcallee'')
      obtain rfl := Option.some.inj (hsig.symm.trans hsig'')
      cases harrow.symm.trans harrow'
      rcases hresult with ⟨-, happlies⟩ | ⟨hne, -⟩
      · rw [← List.append_nil F]
        refine (realizes_checkArgs hwalk hlevel hargs hpairs hcontracts hlets hevals hknows hM
          hagrees (hknows.agrees hI) htrusted₁).append ?_
        rintro M' hext hM' ⟨hterms, -⟩
        exact realizes_appliesOperator happlies hret hnamed hmeaning (hknows.extend hext) hM'
          hterms htrusted₂
      · exact absurd horigin hne
  | call hcallee'' hsig'' harrow' horigin hevals hvsort hfunction hstates =>
      obtain rfl := Shape.var.inj (hcallee.symm.trans hcallee'')
      obtain rfl := Option.some.inj (hsig.symm.trans hsig'')
      cases harrow.symm.trans harrow'
      rcases hresult with ⟨hbuiltin, -⟩ | ⟨-, hchecked⟩
      · exact absurd hbuiltin horigin
      · have hvs := hevals.sorts_eq hpairs hagrees.sorts
        refine (realizes_checkArgs hwalk hlevel hargs hpairs hcontracts hlets hevals hknows hM
          hagrees (hknows.agrees hI) htrusted₁).append ?_
        rintro M' hext hM' ⟨hterms, inner, hsorted, hinner⟩
        exact realizes_checkResult hwalk hchecked hsig hrank harrow hvs hsorted hret hnamed
          hfunction hstates (hknows.extend hext) hM' hinner hterms htrusted₂

theorem simulates_checkExpr [∀ sort, Nonempty (carrier sort)] (hI : I.Fits env)
    (henv : env.IsSorted) :
    Simulates env I (checkExpr env walk) := by
  rintro mode locals ⟨ty, shape, span⟩ p commands t p' h lets context sort scope v F M st hsort
    hlets heval hknows hM hagrees htrusted
  obtain ⟨hshape, -⟩ := Expr.sort?_eq_some_iff.1 hsort
  cases shape with
  | var name =>
      obtain ⟨rfl, hleaf, -⟩ := accepts_checkExpr_leaf (.inl ⟨name, rfl⟩) h
      obtain rfl := Option.some.inj hleaf
      cases heval
      rw [Shape.sort?] at hshape
      exact realizes_nil hM (hagrees.eval name sort hshape)
  | bool value =>
      obtain ⟨rfl, hleaf, -⟩ := accepts_checkExpr_leaf (.inr (.inl ⟨value, rfl⟩)) h
      obtain rfl := Option.some.inj hleaf
      cases heval
      exact realizes_nil hM (Model.eval_bool value)
  | int value =>
      obtain ⟨rfl, hleaf, -⟩ := accepts_checkExpr_leaf (.inr (.inr ⟨value, rfl⟩)) h
      obtain rfl := Option.some.inj hleaf
      cases heval
      exact realizes_nil hM (Model.eval_int value)
  | ite test onTrue onFalse => exact absurd h not_accepts_checkExpr_ite
  | lambda params body => exact absurd h not_accepts_checkExpr_lambda
  | cast expr target =>
      obtain ⟨first, p₁, second, hfirst, hproof, rfl⟩ := accepts_checkExpr_cast h
      obtain ⟨hexpr, hcontract⟩ := Shape.sort?_cast_eq_some_iff.1 hshape
      obtain ⟨htrusted₁, htrusted₂⟩ := trusted_append.1 htrusted
      cases heval with
      | cast hvalue hstates =>
          obtain rfl := hvalue.sort_eq hexpr hagrees.sorts
          refine (hwalk hfirst hexpr hlets hvalue hknows hM hagrees htrusted₁).append ?_
          intro M' hext hM' hterm
          refine (realizes_provesContract hwalk hlevel hproof hcontract hstates
            (hknows.extend hext) hM' (hagrees.extend hext) hterm htrusted₂).imp ?_
          intro M'' hext' _
          exact Model.eval_of_extends hext' hterm
  | letIn name value body =>
      obtain ⟨bound, first, term, p₁, second, hof, hvalue, hbody, rfl⟩ := accepts_checkExpr_letIn h
      obtain ⟨rfl, hname, sort', hvsort, hbsort⟩ := Shape.sort?_letIn_eq_some hshape
      obtain rfl := hlets rfl
      have hown := isOwn_of_isPlainName hname
      cases heval with
      | @letIn _ _ _ _ _ _ w v F G hveval hbeval =>
          obtain rfl := hveval.sort_eq hvsort hagrees.sorts
          obtain ⟨hdeclare, htrusted⟩ := htrusted
          obtain ⟨htrusted₁, -, htrusted₂⟩ := trusted_append.1 htrusted
          obtain ⟨hvof, hnamed⟩ := Ty.sort?_eq_some_iff.1 (Expr.sort?_ty hvsort)
          obtain rfl := Option.some.inj (hvof.symm.trans hof)
          refine (realizes_declareConst hM hdeclare (SolverSort.isWritable_of_of? hof hnamed)
            rfl).append ?_
          intro M₁ hext₁ hM₁ hconstant
          have hknows₁ := hknows.extend hext₁
          have hagrees₁ := hagrees.extend hext₁
          refine (hwalk hvalue hvsort (fun _ => rfl) hveval hknows₁ hM₁ hagrees₁
            htrusted₁).append ?_
          intro M₂ hext₂ hM₂ hterm
          have hsymbol := hext₂.symbol _ _ _ hconstant
          have hequal : M₂.eval (.eq (.symbol name) term) = some (.bool true) := by
            refine Model.eval_eq_self ?_ hterm
            rw [Model.eval_symbol hown, hsymbol]
          have hasserted : Realizes M₂ _ [.assert (.eq (.symbol name) term)] [] fun M' =>
              M'.symbol name [] = some w := realizes_assert hM₂ hequal hsymbol
          refine hasserted.append ?_
          intro M₃ hext₃ hM₃ hbound
          have hagrees₃ := ((hagrees₁.extend hext₂).extend hext₃).letIn hown hbound
          exact hwalk hbody hbsort (fun _ => rfl) hbeval
            ((hknows₁.extend hext₂).extend hext₃) hM₃ hagrees₃ htrusted₂
  | call callee args =>
      exact realizes_checkCall hwalk hlevel hI henv h hsort hlets heval hknows hM hagrees htrusted

end

theorem simulates_checkWithin [∀ sort, Nonempty (carrier sort)] {env : Env}
    {I : Interpretation carrier} (hI : I.Fits env)
    (henv : env.IsSorted) (depth : Nat) :
    Simulates env I (checkWithin env depth) := by
  induction depth with
  | zero =>
      intro mode locals e p commands t p' h
      cases h
  | succ depth ih => exact simulates_checkExpr ih (level_checkWithin env depth) hI henv

end Checker

end ContractCheck
