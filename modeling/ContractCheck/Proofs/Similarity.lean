import ContractCheck.Proofs.Congruence
import ContractCheck.Proofs.Courses
import Mathlib.Data.List.Forall2

/-!
Two walks that go the same way but for names and terms. At one point the first may give a name to a
term that the second leaves as it is. Up to there they do the same; from there on the numbers of
their fresh variables and the terms of their assertions differ, and nothing else
(`Dialogue.Similar`). What terms the names in scope stand for makes no other difference to a walk,
so two walks over one expression are similar whatever is bound in each (`Checker.akin_checkWithin`).
-/

namespace ContractCheck

/-- A variable that is declared as a name for a term. -/
structure Naming where
  var : String
  sort : SolverSort
  term : Term

def Naming.commands (x : Naming) : List Command :=
  [.declareConst x.var x.sort.display, .assert (.eq (.symbol x.var) x.term)]

/-- How far two walks are apart: the names that each was given so far, and what the first alone has
named. -/
structure Gap where
  names : FreshNames
  names' : FreshNames
  naming : Option Naming

namespace Gap

def none (names : FreshNames) : Gap := ⟨names, names, .none⟩

/-- Each declares a fresh variable. -/
def fresh (gap : Gap) (sort : SolverSort) : Gap :=
  ⟨(gap.names.next sort.tag).2, (gap.names'.next sort.tag).2, gap.naming⟩

/-- The first alone declares a fresh variable, as a name for the term. -/
def name (gap : Gap) (sort : SolverSort) (term : Term) : Gap :=
  ⟨(gap.names.next sort.tag).2, gap.names', some ⟨(gap.names.next sort.tag).1, sort, term⟩⟩

/-- Until the first names something, the two were given the same names. -/
def IsOrderly (gap : Gap) : Prop := gap.naming = .none → gap.names = gap.names'

theorem IsOrderly.fresh {gap : Gap} (h : gap.IsOrderly) (sort : SolverSort) :
    (gap.fresh sort).IsOrderly := by
  intro hnaming
  unfold Gap.fresh
  rw [h hnaming]

end Gap

namespace Dialogue

variable {α α' β β' : Type}

/-- Where every command is accepted and both get the same answers, the dialogues do the same, but
for the variable that the first may name a term with, and after that for the names of fresh
variables and the terms of assertions. Of each end the postcondition holds. -/
inductive Similar (lets : String → Prop) (post : α → α' → Gap → Prop) :
    Gap → Dialogue α → Dialogue α' → Prop where
  | done {gap : Gap} {a : α} {a' : α'} (h : post a a' gap) :
      Similar lets post gap (.done a) (.done a')
  | note {gap : Gap} (text : String) {d : Dialogue α} {d' : Dialogue α'}
      (h : Similar lets post gap d d') : Similar lets post gap (.note text d) (.note text d')
  | declare {gap : Gap} {name : String} (hname : lets name) (sort : String)
      {next : Outcome Unit → Dialogue α} {next' : Outcome Unit → Dialogue α'}
      (h : Similar lets post gap (next (.ok ())) (next' (.ok ()))) :
      Similar lets post gap (.act (.write (.declareConst name sort)) next)
        (.act (.write (.declareConst name sort)) next')
  | fresh {gap : Gap} (sort : SolverSort)
      {next : Outcome Unit → Dialogue α} {next' : Outcome Unit → Dialogue α'}
      (h : Similar lets post (gap.fresh sort) (next (.ok ())) (next' (.ok ()))) :
      Similar lets post gap
        (.act (.write (.declareConst (gap.names.next sort.tag).1 sort.display)) next)
        (.act (.write (.declareConst (gap.names'.next sort.tag).1 sort.display)) next')
  | assert {gap : Gap} {term term' : Term} (hterm : gap.naming = none → term = term')
      {next : Outcome Unit → Dialogue α} {next' : Outcome Unit → Dialogue α'}
      (h : Similar lets post gap (next (.ok ())) (next' (.ok ()))) :
      Similar lets post gap (.act (.write (.assert term)) next)
        (.act (.write (.assert term')) next')
  | push {gap : Gap} {next : Outcome Unit → Dialogue α} {next' : Outcome Unit → Dialogue α'}
      (h : Similar lets post gap (next (.ok ())) (next' (.ok ()))) :
      Similar lets post gap (.act .push next) (.act .push next')
  | pop {gap : Gap} {next : Outcome Unit → Dialogue α} {next' : Outcome Unit → Dialogue α'}
      (h : Similar lets post gap (next (.ok ())) (next' (.ok ()))) :
      Similar lets post gap (.act .pop next) (.act .pop next')
  | checkSat {gap : Gap} {next : Outcome String → Dialogue α} {next' : Outcome String → Dialogue α'}
      (h : ∀ outcome, Similar lets post gap (next outcome) (next' outcome)) :
      Similar lets post gap (.checkSat next) (.checkSat next')
  | name {gap : Gap} (hgap : gap.naming = none) (sort : SolverSort) (term : Term)
      {next next₁ : Outcome Unit → Dialogue α} {d' : Dialogue α'}
      (hnext : next (.ok ()) =
        .act (.write (.assert (.eq (.symbol (gap.names.next sort.tag).1) term))) next₁)
      (h : Similar lets post (gap.name sort term) (next₁ (.ok ())) d') :
      Similar lets post gap
        (.act (.write (.declareConst (gap.names.next sort.tag).1 sort.display)) next) d'

variable {lets : String → Prop} {post : α → α' → Gap → Prop} {post' : β → β' → Gap → Prop}

/-- Dialogues that are similar go on to be so if what follows at each of their ends is. -/
theorem Similar.bind {gap : Gap} {d : Dialogue α} {d' : Dialogue α'}
    (h : d.Similar lets post gap d') {f : α → Dialogue β} {f' : α' → Dialogue β'}
    (hf : ∀ a a' gap', post a a' gap' → (f a).Similar lets post' gap' (f' a')) :
    (d.bind f).Similar lets post' gap (d'.bind f') := by
  induction h with
  | done h => exact hf _ _ _ h
  | note text _ ih => exact .note text ih
  | declare hname sort _ ih => exact .declare hname sort ih
  | fresh sort _ ih => exact .fresh sort ih
  | assert hterm _ ih => exact .assert hterm ih
  | push _ ih => exact .push ih
  | pop _ ih => exact .pop ih
  | checkSat _ ih => exact .checkSat ih
  | @name gap hgap sort term next next₁ d' hnext _ ih =>
      have hbind : (next (.ok ())).bind f = .act (.write (.assert (.eq
          (.symbol (gap.names.next sort.tag).1) term))) fun outcome => (next₁ outcome).bind f := by
        rw [hnext]
        rfl
      exact .name hgap sort term hbind ih

theorem Similar.mono {gap : Gap} {d : Dialogue α} {d' : Dialogue α'}
    (h : d.Similar lets post gap d') {post₁ : α → α' → Gap → Prop}
    (hpost : ∀ a a' gap', post a a' gap' → post₁ a a' gap') : d.Similar lets post₁ gap d' := by
  rw [← bind_done d, ← bind_done d']
  exact h.bind fun a a' gap' ha => .done (hpost a a' gap' ha)

end Dialogue

/-- Both are answers and related, or both are the same failure. -/
def Outcome.Matches {α α' : Type} (V : α → α' → Prop) : Outcome α → Outcome α' → Prop
  | .ok a, .ok a' => V a a'
  | .error failure, .error failure' => failure = failure'
  | _, _ => False

theorem Outcome.Matches.mapError {α α' : Type} {V : α → α' → Prop} {outcome : Outcome α}
    {outcome' : Outcome α'} (h : outcome.Matches V outcome') (f : Failure → Failure) :
    Outcome.Matches V (outcome.mapError f) (outcome'.mapError f) := by
  cases outcome <;> cases outcome'
  · exact congrArg f h
  · exact h
  · exact h
  · exact h

theorem Outcome.matches_self {α : Type} (outcome : Outcome α) :
    outcome.Matches (fun _ _ => True) outcome := by
  cases outcome with
  | error failure => exact rfl
  | ok a => trivial

/-- Whether an operator can be applied depends on the number of its arguments alone. -/
theorem Operator.matches_apply (name : String) {terms terms' : List Term}
    (h : terms.length = terms'.length) :
    (Operator.apply name terms).Matches (fun _ _ => True) (Operator.apply name terms') := by
  unfold Operator.apply
  cases Operator.symbol? name with
  | none => exact rfl
  | some symbol =>
      simp only
      split
      · rcases terms with _ | ⟨a, _ | ⟨b, rest⟩⟩ <;>
          rcases terms' with _ | ⟨a', _ | ⟨b', rest'⟩⟩ <;> simp_all [Outcome.Matches]
      · split
        · rcases terms with _ | ⟨a, _ | ⟨b, _ | ⟨c, rest⟩⟩⟩ <;>
            rcases terms' with _ | ⟨a', _ | ⟨b', _ | ⟨c', rest'⟩⟩⟩ <;> simp_all [Outcome.Matches]
        · cases terms <;> cases terms' <;> simp_all [Outcome.Matches]

namespace Checker

variable {α α' β β' : Type}

/-- As many obligations were counted for the one as for the other, and one fresh variable more. -/
structure OneAhead (p p' : Progress) : Prop where
  obligations : p.summary.obligations = p'.summary.obligations
  fresh : p.summary.fresh = p'.summary.fresh + 1

/-- The end of two walks of which the first alone has named something: they answer what is so
related, or fail alike. -/
structure Ends (x : Naming) (V : α → α' → Prop) (r : Outcome α × Progress)
    (r' : Outcome α' × Progress) (gap : Gap) : Prop where
  gap : gap = ⟨r.2.names, r'.2.names, some x⟩
  ahead : OneAhead r.2 r'.2
  outcomes : Outcome.Matches V r.1 r'.1

/-- Once the first walk has named something, these parts of the walks do the same but for names and
terms. -/
def Akin (lets : String → Prop) (x : Naming) (V : α → α' → Prop) (part : CheckM α)
    (part' : CheckM α') : Prop :=
  ∀ p p', OneAhead p p' → (part p : Dialogue (Outcome α × Progress)).Similar lets (Ends x V)
    ⟨p.names, p'.names, some x⟩ (part' p')

section

variable {lets : String → Prop} {x : Naming} {U : α → α' → Prop} {V : β → β' → Prop}

theorem akin_ofOutcome {outcome : Outcome α} {outcome' : Outcome α'}
    (h : outcome.Matches U outcome') : Akin lets x U (ofOutcome outcome) (ofOutcome outcome') :=
  fun _ _ hp => .done ⟨rfl, hp, h⟩

theorem akin_pure {a : α} {a' : α'} (h : U a a') : Akin lets x U (pure a) (pure a') :=
  akin_ofOutcome h

theorem akin_note (text : String) :
    Akin lets x (fun _ _ => True) (Checker.note text) (Checker.note text) :=
  fun _ _ hp => .note text (.done ⟨rfl, hp, trivial⟩)

theorem akin_declare {name : String} (hname : lets name) (sort : String) :
    Akin lets x (fun _ _ => True) (write (.declareConst name sort))
      (write (.declareConst name sort)) :=
  fun _ _ hp => .declare hname sort (.done ⟨rfl, hp, trivial⟩)

theorem akin_assert (term term' : Term) :
    Akin lets x (fun _ _ => True) (Checker.assert term) (Checker.assert term') :=
  fun _ _ hp =>
    .assert (fun hnone => absurd hnone (Option.some_ne_none x)) (.done ⟨rfl, hp, trivial⟩)

theorem akin_bind {part : CheckM α} {part' : CheckM α'} {f : α → CheckM β} {f' : α' → CheckM β'}
    (h : Akin lets x U part part') (hf : ∀ a a', U a a' → Akin lets x V (f a) (f' a')) :
    Akin lets x V (part >>= f) (part' >>= f') := by
  intro p p' hp
  rw [bind_apply, bind_apply]
  refine (h p p' hp).bind ?_
  rintro ⟨outcome, q⟩ ⟨outcome', q'⟩ gap ⟨rfl, hq, hmatches⟩
  cases outcome <;> cases outcome'
  · exact .done ⟨rfl, hq, hmatches⟩
  · exact hmatches.elim
  · exact hmatches.elim
  · exact hf _ _ hmatches q q' hq

theorem akin_adapt {part : CheckM α} {part' : CheckM α'} (h : Akin lets x U part part')
    (f : Failure → Failure) : Akin lets x U (part.adapt f) (part'.adapt f) := by
  intro p p' hp
  rw [adapt_apply, adapt_apply]
  refine (h p p' hp).bind ?_
  rintro ⟨outcome, q⟩ ⟨outcome', q'⟩ gap ⟨rfl, hq, hmatches⟩
  exact .done ⟨rfl, hq, hmatches.mapError f⟩

theorem akin_inSolverScope {part : CheckM α} {part' : CheckM α'} (h : Akin lets x U part part') :
    Akin lets x U (inSolverScope part) (inSolverScope part') := by
  intro p p' hp
  rw [inSolverScope_apply, inSolverScope_apply]
  refine .push ((h p p' hp).bind ?_)
  rintro ⟨outcome, q⟩ ⟨outcome', q'⟩ gap ⟨rfl, hq, hmatches⟩
  refine .pop (.done ⟨rfl, hq, ?_⟩)
  cases outcome <;> cases outcome' <;> exact hmatches

theorem akin_fresh (ty : Ty) : Akin lets x (fun _ _ => True) (fresh ty) (fresh ty) := by
  unfold Checker.fresh
  refine akin_bind (akin_ofOutcome (U := fun sort sort' => sort = sort') ?_) ?_
  · cases SolverSort.of ty <;> rfl
  rintro sort _ rfl p p' hp
  refine .fresh sort (.done ⟨rfl, ⟨hp.obligations, ?_⟩, trivial⟩)
  exact congrArg (· + 1) hp.fresh

theorem akin_refute (goal goal' : Term) (obligation : String) (span : Option Span) :
    Akin lets x (fun _ _ => True) (refute goal obligation span)
      (refute goal' obligation span) := by
  intro p p' hp
  rw [refute_apply, refute_apply]
  refine .assert (fun hnone => absurd hnone (Option.some_ne_none x)) (.checkSat fun outcome => ?_)
  cases outcome with
  | error failure => exact .done ⟨rfl, hp, rfl⟩
  | ok answer =>
      refine .note _ ?_
      by_cases hunsat : answer = "unsat"
      · simp only [if_pos hunsat]
        exact .done ⟨rfl, ⟨congrArg (· + 1) hp.obligations, hp.fresh⟩, trivial⟩
      · simp only [if_neg hunsat]
        exact .done ⟨rfl, hp, rfl⟩

theorem akin_requireBool (pred : Expr) (span : Option Span) :
    Akin lets x (fun _ _ => True) (requireBool pred span) (requireBool pred span) := by
  unfold requireBool
  split
  · exact akin_pure trivial
  · exact akin_ofOutcome rfl

end

/-- The walk does the same but for names and terms, whatever is bound. -/
def AkinWalk (lets : String → Prop) (x : Naming) (walk : Walk) : Prop :=
  ∀ mode locals locals' (e : Expr), (∀ n ∈ e.letNames, lets n) →
    Akin lets x (fun _ _ => True) (walk mode locals e) (walk mode locals' e)

section

variable {lets : String → Prop} {x : Naming} {V : β → β' → Prop}

/-- What is done about the clause of a refinement, if it has one, before the rest. -/
theorem akin_clause {ty : Ty} {r : Refinement} (hr : (RefinedTy.refined ty r).LetsIn lets)
    {act act' : Clause → CheckM Unit}
    (hact : ∀ clause, (∀ n ∈ clause.expr.letNames, lets n) →
      Akin lets x (fun _ _ => True) (act clause) (act' clause))
    {rest : CheckM β} {rest' : CheckM β'} (hrest : Akin lets x V rest rest') :
    Akin lets x V
      (match r.clause? with
        | none => rest
        | some clause => act clause >>= fun _ => rest)
      (match r.clause? with
        | none => rest'
        | some clause => act' clause >>= fun _ => rest') := by
  cases r with
  | bind binder => exact hrest
  | holds binder pred => exact akin_bind (hact _ (hr _ rfl)) fun _ _ _ => hrest
  | equals binder value => exact akin_bind (hact _ (hr _ rfl)) fun _ _ _ => hrest

variable {walk : Walk} (hwalk : AkinWalk lets x walk)
include hwalk

theorem akin_prove {clause : Clause} (hclause : ∀ n ∈ clause.expr.letNames, lets n)
    (locals locals' : Bindings) (binder : String) (span : Option Span) :
    Akin lets x (fun _ _ => True) (prove walk locals binder clause span)
      (prove walk locals' binder clause span) := by
  cases clause with
  | holds pred =>
      refine akin_bind (akin_requireBool _ _) fun _ _ _ => akin_bind (akin_note _) fun _ _ _ => ?_
      exact akin_inSolverScope (akin_bind (hwalk _ _ _ _ hclause) fun _ _ _ =>
        akin_refute _ _ _ _)
  | equals value =>
      refine akin_bind (akin_note _) fun _ _ _ => akin_inSolverScope ?_
      refine akin_bind (akin_ofOutcome (Outcome.matches_self _)) fun _ _ _ => ?_
      exact akin_bind (hwalk _ _ _ _ hclause) fun _ _ _ => akin_refute _ _ _ _

theorem akin_assume {clause : Clause} (hclause : ∀ n ∈ clause.expr.letNames, lets n)
    (locals locals' : Bindings) (result result' : Term) (span : Option Span) :
    Akin lets x (fun _ _ => True) (assume walk locals result clause span)
      (assume walk locals' result' clause span) := by
  cases clause with
  | holds pred =>
      refine akin_bind (akin_requireBool _ _) fun _ _ _ => ?_
      exact akin_bind (hwalk _ _ _ _ hclause) fun _ _ _ => akin_assert _ _
  | equals value => exact akin_bind (hwalk _ _ _ _ hclause) fun _ _ _ => akin_assert _ _

/-- Arguments have terms, each walk its own, and there are as many in both. -/
theorem akin_checkArgs (callee : String) (span : Option Span) (locals locals' : Bindings)
    {args : List (RefinedTy × Expr)}
    (hargs : ∀ a ∈ args, a.1.LetsIn lets ∧ ∀ n ∈ a.2.letNames, lets n)
    (binders binders' : Bindings) :
    Akin lets x (fun r r' => r.2.length = r'.2.length)
      (checkArgs walk callee span locals args binders)
      (checkArgs walk callee span locals' args binders') := by
  induction args generalizing binders binders' with
  | nil => exact akin_pure rfl
  | cons head rest ih =>
      obtain ⟨param, arg⟩ := head
      obtain ⟨⟨hparam, harg⟩, hrest⟩ := List.forall_mem_cons.1 hargs
      have hothers : ∀ (term term' : Term) (bound bound' : Bindings),
          Akin lets x (fun r r' => r.2.length = r'.2.length)
            (checkArgs walk callee span locals rest bound >>= fun r =>
              (pure (r.1, term :: r.2) : CheckM (Bindings × List Term)))
            (checkArgs walk callee span locals' rest bound' >>= fun r =>
              (pure (r.1, term' :: r.2) : CheckM (Bindings × List Term))) :=
        fun term term' bound bound' =>
          akin_bind (ih hrest bound bound') fun _ _ hlength =>
            akin_pure (congrArg (· + 1) hlength)
      rcases param with ty | ⟨ty, refinement⟩
      · exact akin_bind (hwalk _ _ _ _ harg) fun _ _ _ => hothers _ _ _ _
      · refine akin_bind (hwalk _ _ _ _ harg) fun term term' _ => ?_
        refine akin_clause hparam (fun clause hclause => ?_) (hothers term term' _ _)
        exact akin_adapt (akin_prove hwalk hclause _ _ _ _) _

theorem akin_assumeReturn (callee : String) {ret : RefinedTy} (hret : ret.LetsIn lets)
    (binders binders' : Bindings) (result result' : Term) (span : Option Span) :
    Akin lets x (fun _ _ => True) (assumeReturn walk callee ret binders result span)
      (assumeReturn walk callee ret binders' result' span) := by
  rcases ret with ty | ⟨ty, r⟩
  · exact akin_pure trivial
  · refine akin_clause hret (fun clause hclause => ?_) (akin_pure trivial)
    exact akin_adapt (akin_assume hwalk hclause _ _ _ _ _) _

theorem akin_checkResult (callee : String) (origin : Origin) {ret : RefinedTy}
    (hret : ret.LetsIn lets) (binders binders' : Bindings) (terms terms' : List Term)
    (span : Option Span) :
    Akin lets x (fun _ _ => True) (checkResult walk callee origin ret binders terms span)
      (checkResult walk callee origin ret binders' terms' span) := by
  refine akin_bind (akin_adapt (akin_fresh _) _) fun name name' _ => ?_
  have hcontract := akin_assumeReturn hwalk callee hret binders binders' (.symbol name)
    (.symbol name') span
  by_cases horigin : origin = .uninterpreted
  · simp only [if_pos horigin]
    exact akin_bind (akin_assert _ _) fun _ _ _ => hcontract
  · simp only [if_neg horigin]
    exact hcontract

omit hwalk in
theorem akin_applyOperator (mode : Mode) (name : String) (ret : RefinedTy)
    {terms terms' : List Term} (h : terms.length = terms'.length) (span : Option Span) :
    Akin lets x (fun _ _ => True) (applyOperator mode name ret terms span)
      (applyOperator mode name ret terms' span) := by
  refine akin_bind (akin_ofOutcome ((Operator.matches_apply name h).mapError _)) fun _ _ _ => ?_
  cases mode with
  | full => exact akin_pure trivial
  | simple =>
      refine akin_bind (akin_adapt (akin_fresh _) _) fun _ _ _ => ?_
      exact akin_bind (akin_assert _ _) fun _ _ _ => akin_pure trivial

variable {env : Env} (henv : ∀ n ∈ env.letNames, lets n)
include henv

theorem akin_checkCall (mode : Mode) (locals locals' : Bindings) (callee : Expr)
    {args : List Expr} (hargs : ∀ arg ∈ args, ∀ n ∈ arg.letNames, lets n) (span : Option Span) :
    Akin lets x (fun _ _ => True) (checkCall env walk mode locals callee args span)
      (checkCall env walk mode locals' callee args span) := by
  unfold checkCall
  rcases hresolve : resolveCall env callee args span with failure | ⟨name, origin, params, ret⟩
  · exact akin_ofOutcome rfl
  obtain ⟨-, sig, hsig, -, harrow, -⟩ := resolveCall_eq_ok hresolve
  have hpairs := Env.letsIn_zip henv hsig harrow hargs
  rw [ofOutcome_ok_bind, ofOutcome_ok_bind]
  refine akin_bind (akin_checkArgs hwalk name span locals locals' hpairs ∅ ∅) ?_
  rintro ⟨binders, terms⟩ ⟨binders', terms'⟩ hlength
  by_cases horigin : origin = .builtin
  · simp only [if_pos horigin]
    exact akin_applyOperator mode name ret hlength span
  · simp only [if_neg horigin]
    have hret := Env.letsIn henv hsig harrow
      (List.mem_append_right params (List.mem_singleton_self ret))
    exact akin_checkResult hwalk name origin hret _ _ _ _ _

theorem akin_checkExpr : AkinWalk lets x (checkExpr env walk) := by
  rintro mode locals locals' ⟨ty, shape, span⟩ he
  rw [Expr.letNames] at he
  cases shape with
  | var name => exact akin_ofOutcome trivial
  | bool value => exact akin_ofOutcome trivial
  | int value => exact akin_ofOutcome trivial
  | ite test onTrue onFalse => exact akin_ofOutcome rfl
  | lambda params body => exact akin_ofOutcome rfl
  | call callee args =>
      rw [Shape.letNames, List.forall_mem_append] at he
      exact akin_checkCall hwalk henv _ _ _ _ (fun arg harg => Expr.forall_letNamesAll he.2 harg) _
  | letIn name value body =>
      rw [Shape.letNames, List.forall_mem_cons, List.forall_mem_append] at he
      obtain ⟨hname, hvalue, hbody⟩ := he
      refine akin_bind (akin_ofOutcome (U := fun sort sort' => sort = sort') ?_) ?_
      · cases (SolverSort.of value.ty).located (value.span.or span) <;> rfl
      rintro sort _ rfl
      refine akin_bind (akin_declare hname _) fun _ _ _ => ?_
      refine akin_bind (hwalk _ _ _ _ hvalue) fun _ _ _ => akin_bind (akin_assert _ _) ?_
      exact fun _ _ _ => hwalk _ _ _ _ hbody
  | cast expr target =>
      rw [Shape.letNames, List.forall_mem_append] at he
      refine akin_bind (hwalk _ _ _ _ he.1) fun term term' _ => ?_
      have htarget := RefinedTy.letsIn_of_letNames he.2
      rcases target with target | ⟨target, refinement⟩
      · exact akin_pure trivial
      · refine akin_clause htarget (fun clause hclause => ?_) (akin_pure trivial)
        exact akin_prove hwalk hclause _ _ _ _

omit hwalk

/-- What is bound makes no difference to a walk but in the names and terms. -/
theorem akin_checkWithin (depth : Nat) : AkinWalk lets x (checkWithin env depth) := by
  induction depth with
  | zero => exact fun _ _ _ _ _ => akin_ofOutcome rfl
  | succ depth ih => exact akin_checkExpr ih henv

end

end Checker

end ContractCheck
