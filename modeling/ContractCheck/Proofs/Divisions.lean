import Mathlib.Data.List.Forall2
import ContractCheck.Proofs.Arguments
import ContractCheck.Proofs.PureTerms

/-!
Divisions and what has been proved before them. A term may divide by what a term in scope divides
by, and by what has been proved not to be zero; each part of a walk keeps to this on every course
(`Checker.Heedful`), so that the solver is sent no other division, and no other is in a walk's
result (`Checker.proved_is_used`).
-/

namespace ContractCheck

/-- The divisor of a list that is a division. -/
def SExpr.ownDivisor : List SExpr → List SExpr
  | [.atom head, _, b] => if head = "div" ∨ head = "mod" then [b] else []
  | _ => []

mutual

/-- What the term divides by, in any of its parts: the `b` of each `(div a b)` and `(mod a b)`. -/
def SExpr.divisors : SExpr → List SExpr
  | .atom _ => []
  | .list items => SExpr.ownDivisor items ++ SExpr.divisorsAll items

def SExpr.divisorsAll : List SExpr → List SExpr
  | [] => []
  | t :: ts => t.divisors ++ SExpr.divisorsAll ts

end

namespace SExpr

theorem mem_divisorsAll {b : SExpr} {ts : List SExpr} :
    b ∈ divisorsAll ts ↔ ∃ t ∈ ts, b ∈ t.divisors := by
  induction ts with
  | nil => simp [divisorsAll]
  | cons t rest ih => simp [divisorsAll, ih]

/-- What an application divides by, its arguments do, or it is itself a division. -/
theorem mem_divisors_apply {head : String} {args : List SExpr} {b : SExpr}
    (h : b ∈ (apply head args).divisors) : b ∈ divisorsAll args ∨
      ((head = "div" ∨ head = "mod") ∧ ∃ a, args = [a, b]) := by
  rw [apply, divisors, List.mem_append, divisorsAll, divisors, List.nil_append] at h
  rcases h with hown | hargs
  · right
    match args with
    | [] => cases hown
    | [a] => cases hown
    | [a, b'] =>
        rw [ownDivisor] at hown
        split at hown
        · rename_i hhead
          obtain rfl := List.mem_singleton.1 hown
          exact ⟨hhead, a, rfl⟩
        · cases hown
    | a :: b' :: c :: rest => cases hown
  · exact .inl hargs

end SExpr

/-- The negation of the goal was asserted, and the check that followed answered `unsat`. -/
def RefutedIn (goal : Term) (past : List Event) : Prop :=
  ∃ before after, past = before ++
    .did (.write (.assert (.not goal))) (.ok ()) :: .answered (.ok "unsat") :: after

/-- That the term is zero was refuted: `(not (not (= b 0)))`. -/
def NonzeroIn (b : Term) (past : List Event) : Prop := RefutedIn (.not (.eq b (.int 0))) past

theorem RefutedIn.mono {goal : Term} {past later : List Event} (h : RefutedIn goal past)
    (hlater : past <+: later) : RefutedIn goal later := by
  obtain ⟨before, after, rfl⟩ := h
  obtain ⟨more, rfl⟩ := hlater
  exact ⟨before, after ++ more, by simp⟩

/-- Whatever the term divides by is given, or was proved not to be zero. -/
def SExpr.GuardedIn (given : Term → Prop) (past : List Event) (t : Term) : Prop :=
  ∀ b ∈ t.divisors, given b ∨ NonzeroIn b past

def Bindings.GuardedIn (given : Term → Prop) (past : List Event) (locals : Bindings) : Prop :=
  ∀ name t, locals.get? name = some t → t.GuardedIn given past

/-- If the event sends a term, it divides by what the past allows. -/
def Event.Heeds (given : Term → Prop) (past : List Event) : Event → Prop
  | .did (.write (.assert t)) _ => t.GuardedIn given past
  | _ => True

/-- Each event heeds those before it. -/
def Heeded (given : Term → Prop) : List Event → List Event → Prop
  | _, [] => True
  | past, event :: rest => event.Heeds given past ∧ Heeded given (past ++ [event]) rest

section

variable {given : Term → Prop} {past later : List Event}

theorem SExpr.GuardedIn.mono {t : Term} (h : t.GuardedIn given past) (hlater : past <+: later) :
    t.GuardedIn given later := fun b hb => (h b hb).imp_right (·.mono hlater)

theorem Bindings.GuardedIn.mono {locals : Bindings} (h : locals.GuardedIn given past)
    (hlater : past <+: later) : locals.GuardedIn given later :=
  fun name t ht => (h name t ht).mono hlater

theorem guardedIn_symbol (name : String) : (Term.symbol name).GuardedIn given past :=
  fun _ hb => nomatch hb

theorem guardedIn_bool (b : Bool) : (Term.bool b).GuardedIn given past :=
  fun _ hb => nomatch hb

theorem SExpr.guardedIn_apply {head : String} {args : List Term} (hdiv : head ≠ "div")
    (hmod : head ≠ "mod") (h : ∀ t ∈ args, SExpr.GuardedIn given past t) :
    (SExpr.apply head args).GuardedIn given past := by
  intro b hb
  rcases mem_divisors_apply hb with hb | ⟨hhead, -⟩
  · obtain ⟨t, ht, hb⟩ := mem_divisorsAll.1 hb
    exact h t ht b hb
  · rcases hhead with rfl | rfl
    · exact absurd rfl hdiv
    · exact absurd rfl hmod

theorem guardedIn_int (n : Int64) : (Term.int n).GuardedIn given past := by
  unfold Term.int
  dsimp only
  split
  · refine SExpr.guardedIn_apply (by decide) (by decide) fun t ht => ?_
    obtain rfl := List.mem_singleton.1 ht
    exact fun _ hb => nomatch hb
  · exact fun _ hb => nomatch hb

theorem guardedIn_not {t : Term} (h : t.GuardedIn given past) :
    (Term.not t).GuardedIn given past := by
  refine SExpr.guardedIn_apply (by decide) (by decide) fun s hs => ?_
  obtain rfl := List.mem_singleton.1 hs
  exact h

theorem guardedIn_eq {s t : Term} (hs : s.GuardedIn given past) (ht : t.GuardedIn given past) :
    (Term.eq s t).GuardedIn given past := by
  apply SExpr.guardedIn_apply (by decide) (by decide)
  exact List.forall_mem_cons.2 ⟨hs, List.forall_mem_singleton.2 ht⟩

theorem Bindings.GuardedIn.insert {locals : Bindings} (h : locals.GuardedIn given past)
    {t : Term} (ht : t.GuardedIn given past) (name : String) :
    Bindings.GuardedIn given past (NameMap.insert locals name t) := by
  intro other s hs
  rw [NameMap.get?_insert] at hs
  split at hs
  · obtain rfl := Option.some.inj hs
    exact ht
  · exact h other s hs

theorem Bindings.GuardedIn.resolve {locals : Bindings} (h : locals.GuardedIn given past)
    (name : String) : (locals.resolve name).GuardedIn given past := by
  unfold Bindings.resolve
  cases hname : locals.get? name with
  | none => exact guardedIn_symbol name
  | some t => exact h name t hname

theorem Clause.guardedIn_goal {subject term : Term} (hsubject : subject.GuardedIn given past)
    (hterm : term.GuardedIn given past) (clause : Clause) :
    (clause.goal subject term).GuardedIn given past := by
  cases clause with
  | holds pred => exact hterm
  | equals value => exact guardedIn_eq hsubject hterm

theorem heeded_append {first second : List Event} (hfirst : Heeded given past first)
    (hsecond : Heeded given (past ++ first) second) : Heeded given past (first ++ second) := by
  induction first generalizing past with
  | nil => rwa [List.append_nil] at hsecond
  | cons event rest ih =>
      refine ⟨hfirst.1, ih hfirst.2 ?_⟩
      rwa [List.append_assoc]

/-- A term that was sent divides by what the events before it allow. -/
theorem Heeded.of_split {before after : List Event} {event : Event}
    (h : Heeded given past (before ++ event :: after)) : event.Heeds given (past ++ before) := by
  induction before generalizing past with
  | nil =>
      rw [List.append_nil]
      exact h.1
  | cons first rest ih =>
      have hrest := ih h.2
      rwa [List.append_assoc] at hrest

/-- What the application of an operator divides by, its arguments do, unless it is a division. -/
theorem Operator.mem_divisors_of_apply {name : String} {args : List Term} {applied b : Term}
    (h : Operator.apply name args = .ok applied) (hb : b ∈ applied.divisors) :
    b ∈ SExpr.divisorsAll args ∨ (Operator.isGuarded name = true ∧ ∃ a, args = [a, b]) := by
  obtain ⟨symbol, hsymbol, happlied⟩ := Operator.apply_eq_ok h
  have hdivision : symbol = "div" ∨ symbol = "mod" → Operator.isGuarded name = true := by
    have hall : Operator.symbols.all (fun entry => Operator.isGuarded entry.1 ||
        (entry.2 != "div" && entry.2 != "mod")) = true := by decide +kernel
    have hentry := List.all_eq_true.1 hall _ (NameMap.mem_of_lookup_eq_some hsymbol)
    rintro (rfl | rfl) <;> simpa using hentry
  have hinside : b ∈ (SExpr.apply symbol args).divisors := by
    rcases happlied with rfl | rfl
    · exact hb
    · rcases SExpr.mem_divisors_apply hb with hb | ⟨hhead, -⟩
      · obtain ⟨t, ht, hb⟩ := SExpr.mem_divisorsAll.1 hb
        rwa [List.mem_singleton.1 ht] at hb
      · exact absurd hhead (by decide)
  exact (SExpr.mem_divisors_apply hinside).imp_right fun ⟨hhead, hargs⟩ => ⟨hdivision hhead, hargs⟩

end

/-- The environment has the signatures of the prelude for division and for inequality, and the
solver symbols of division name no function of its own. -/
structure Env.GuardsDivisions (env : Env) : Prop where
  division : ∀ name, Operator.isGuarded name = true → env.get? name = prelude.get? name
  inequality : env.get? "!=" = prelude.get? "!="
  uninterpreted : ∀ name sig, env.get? name = some sig → sig.origin = .uninterpreted →
    name ≠ "div" ∧ name ≠ "mod"

theorem get?_prelude_of_isGuarded {name : String} (h : Operator.isGuarded name = true) :
    prelude.get? name =
      some (.function .builtin [.plain .int, Prelude.nonzero "y"] (.plain .int)) := by
  have hname : name = "/" ∨ name = "%" := by simpa [Operator.isGuarded] using h
  rcases hname with rfl | rfl <;> rfl

theorem guardsDivisions_prelude : Env.GuardsDivisions prelude where
  division _ _ := rfl
  inequality := rfl
  uninterpreted := by
    have hall : prelude.entries.all (fun entry => decide (entry.2.origin ≠ .uninterpreted) ||
        (entry.1 != "div" && entry.1 != "mod")) = true := by decide +kernel
    intro name sig hsig horigin
    have hentry := List.all_eq_true.1 hall _ (NameMap.get?_eq_some_iff.1 hsig)
    simpa [horigin] using hentry

namespace Checker

variable {α β : Type} {given : Term → Prop} {past : List Event}

/-- The part can end in the value. -/
def Yields (part : CheckM α) (a : α) : Prop :=
  ∃ p events p', Dialogue.Course (part p) events (.ok a, p')

/-- After such a past each course of the part heeds what has happened, and if it ends in a value
then `post` holds of it and of all that has happened by then. -/
def Heedful (given : Term → Prop) (past : List Event) (part : CheckM α)
    (post : List Event → α → Prop) : Prop :=
  ∀ p events r p', Dialogue.Course (part p) events (r, p') →
    Heeded given past events ∧ ∀ a, r = .ok a → post (past ++ events) a

/-- What holds goes on to hold. -/
def Lasts (post : List Event → α → Prop) : Prop :=
  ∀ ⦃past later a⦄, past <+: later → post past a → post later a

theorem Heedful.imp {part : CheckM α} {post post' : List Event → α → Prop}
    (h : Heedful given past part post) (himp : ∀ later a, past <+: later → post later a →
      post' later a) : Heedful given past part post' := by
  intro p events r p' hcourse
  obtain ⟨hheeded, hpost⟩ := h p events r p' hcourse
  exact ⟨hheeded, fun a ha => himp _ a (List.prefix_append _ _) (hpost a ha)⟩

theorem heedful_ofOutcome {outcome : Outcome α} {post : List Event → α → Prop}
    (h : ∀ a, outcome = .ok a → post past a) : Heedful given past (ofOutcome outcome) post := by
  intro p events r p' hcourse
  cases hcourse
  refine ⟨trivial, fun a ha => ?_⟩
  rw [List.append_nil]
  exact h a ha

theorem heedful_answer (outcome : Outcome α) :
    Heedful given past (ofOutcome outcome) fun _ _ => True :=
  heedful_ofOutcome fun _ _ => trivial

theorem heedful_pure {a : α} {post : List Event → α → Prop} (h : post past a) :
    Heedful given past (pure a) post := by
  refine @heedful_ofOutcome _ _ _ (.ok a) post fun b hb => ?_
  obtain rfl := Except.ok.inj hb
  exact h

theorem heedful_error {failure : Failure} {post : List Event → α → Prop} :
    Heedful given past (ofOutcome (.error failure)) post :=
  heedful_ofOutcome fun _ ha => nomatch ha

theorem Heedful.bind {part : CheckM α} {f : α → CheckM β} {post : List Event → α → Prop}
    {post' : List Event → β → Prop} (h : Heedful given past part post)
    (hf : ∀ a later, past <+: later → Yields part a → post later a →
      Heedful given later (f a) post') : Heedful given past (part >>= f) post' := by
  intro p events r p' hcourse
  rw [bind_apply, Dialogue.course_bind_iff] at hcourse
  obtain ⟨first, ⟨outcome, p₁⟩, second, hfirst, hsecond, rfl⟩ := hcourse
  obtain ⟨hheeded, hpost⟩ := h p first outcome p₁ hfirst
  cases outcome with
  | error failure =>
      cases hsecond
      rw [List.append_nil]
      exact ⟨hheeded, fun _ hb => nomatch hb⟩
  | ok a =>
      obtain ⟨hrest, hpost'⟩ := hf a (past ++ first) (List.prefix_append _ _)
        ⟨p, first, p₁, hfirst⟩ (hpost a rfl) p₁ second r p' hsecond
      refine ⟨heeded_append hheeded hrest, fun b hb => ?_⟩
      rw [← List.append_assoc]
      exact hpost' b hb

theorem Heedful.adapt {part : CheckM α} {post : List Event → α → Prop}
    (h : Heedful given past part post) (f : Failure → Failure) :
    Heedful given past (part.adapt f) post := by
  intro p events r p' hcourse
  rw [adapt_apply, Dialogue.course_bind_iff] at hcourse
  obtain ⟨first, ⟨outcome, p₁⟩, second, hfirst, hsecond, rfl⟩ := hcourse
  obtain ⟨hheeded, hpost⟩ := h p first outcome p₁ hfirst
  cases hsecond
  rw [List.append_nil]
  exact ⟨hheeded, fun a ha => hpost a (Outcome.mapError_eq_ok_iff.1 ha)⟩

theorem Heedful.scope {body : CheckM α} {post : List Event → α → Prop} (hlasts : Lasts post)
    (h : ∀ later, past <+: later → Heedful given later body post) :
    Heedful given past (inSolverScope body) post := by
  intro p events r p' hcourse
  rw [inSolverScope_apply] at hcourse
  cases hcourse with
  | act _ outcome hcourse =>
      cases outcome with
      | error failure =>
          cases hcourse
          exact ⟨⟨trivial, trivial⟩, fun _ ha => nomatch ha⟩
      | ok u =>
          obtain ⟨inner, ⟨ended, p₁⟩, last, hinner, hlast, rfl⟩ :=
            Dialogue.course_bind_iff.1 hcourse
          obtain ⟨hheeded, hpost⟩ := h (past ++ [.did .push (.ok ())]) (List.prefix_append _ _) p
            inner ended p₁ hinner
          cases hlast with
          | act _ leaving hdone =>
              cases hdone
              refine ⟨⟨trivial, heeded_append hheeded ⟨trivial, trivial⟩⟩, fun a ha => ?_⟩
              cases ended with
              | error failure => cases ha
              | ok a' =>
                  cases leaving with
                  | error failure => cases ha
                  | ok u =>
                      cases ha
                      refine hlasts ?_ (hpost a rfl)
                      exact ⟨[.did .pop (.ok ())], by simp⟩

theorem heedful_note (text : String) : Heedful given past (note text) fun _ _ => True := by
  intro p events r p' hcourse
  cases hcourse with
  | note _ hcourse =>
      cases hcourse
      exact ⟨trivial, fun _ _ => trivial⟩

theorem heedful_write {command : Command}
    (h : ∀ outcome, Event.Heeds given past (.did (.write command) outcome)) :
    Heedful given past (write command) fun _ _ => True := by
  intro p events r p' hcourse
  cases hcourse with
  | act _ outcome hcourse =>
      cases hcourse
      exact ⟨⟨h _, trivial⟩, fun _ _ => trivial⟩

theorem heedful_assert {t : Term} (h : t.GuardedIn given past) :
    Heedful given past (assert t) fun _ _ => True := heedful_write fun _ => h

theorem heedful_declare (name sort : String) :
    Heedful given past (write (.declareConst name sort)) fun _ _ => True :=
  heedful_write fun _ => trivial

theorem heedful_nextName (tag : Char) : Heedful given past (nextName tag) fun _ _ => True := by
  intro p events r p' hcourse
  cases hcourse
  exact ⟨trivial, fun _ _ => trivial⟩

theorem heedful_updateSummary (f : Summary → Summary) :
    Heedful given past (updateSummary f) fun _ _ => True := by
  intro p events r p' hcourse
  cases hcourse
  exact ⟨trivial, fun _ _ => trivial⟩

theorem heedful_fresh (ty : Ty) : Heedful given past (fresh ty) fun _ _ => True := by
  have hsort : Heedful given past (ofOutcome (SolverSort.of ty)) fun _ _ => True :=
    heedful_ofOutcome fun _ _ => trivial
  refine hsort.bind fun sort _ _ _ _ => (heedful_nextName _).bind fun name _ _ _ _ => ?_
  refine (heedful_declare _ _).bind fun _ _ _ _ _ => ?_
  exact (heedful_updateSummary _).bind fun _ _ _ _ _ => heedful_pure trivial

/-- What is not refuted is a failure. -/
theorem heedful_refute {goal : Term} (h : goal.GuardedIn given past) (obligation : String)
    (span : Option Span) :
    Heedful given past (refute goal obligation span) fun later _ => RefutedIn goal later := by
  intro p events r p' hcourse
  rw [refute_apply] at hcourse
  cases hcourse with
  | act _ asserted hcourse =>
      have hheeds : Event.Heeds given past (.did (.write (.assert (.not goal))) asserted) :=
        guardedIn_not h
      cases asserted with
      | error failure =>
          cases hcourse
          exact ⟨⟨hheeds, trivial⟩, fun _ ha => nomatch ha⟩
      | ok u =>
          cases hcourse with
          | checkSat answered hcourse =>
              cases answered with
              | error failure =>
                  cases hcourse
                  exact ⟨⟨hheeds, trivial, trivial⟩, fun _ ha => nomatch ha⟩
              | ok answer =>
                  cases hcourse with
                  | note _ hcourse =>
                      by_cases hanswer : answer = "unsat"
                      · subst hanswer
                        rw [if_pos rfl] at hcourse
                        cases hcourse
                        exact ⟨⟨hheeds, trivial, trivial⟩, fun _ _ => ⟨past, [], rfl⟩⟩
                      · rw [if_neg hanswer] at hcourse
                        cases hcourse
                        exact ⟨⟨hheeds, trivial, trivial⟩, fun _ ha => nomatch ha⟩

/-- The walk heeds the past wherever the bindings do, and so does the term that it ends in. -/
def HeedfulWalk (walk : Walk) : Prop :=
  ∀ ⦃given past mode locals e⦄, locals.GuardedIn given past →
    Heedful given past (walk mode locals e) fun later t => t.GuardedIn given later

/-- What has been shown of an argument: its term heeds the past, and what its parameter states was
refuted in negated form about that term. -/
def Established (walk : Walk) (given : Term → Prop) (past : List Event) (param : RefinedTy)
    (term : Term) : Prop :=
  term.GuardedIn given past ∧ ∀ binder clause, param.contract? = some (binder, clause) →
    ∃ binders goal, Bindings.resolve binders binder = term ∧
      Yields (walk .full binders clause.expr) goal ∧ RefutedIn (clause.goal term goal) past

theorem Established.mono {walk : Walk} {param : RefinedTy} {term : Term} {later : List Event}
    (h : Established walk given past param term) (hlater : past <+: later) :
    Established walk given later param term := by
  refine ⟨h.1.mono hlater, fun binder clause hcontract => ?_⟩
  obtain ⟨binders, goal, hterm, hgoal, hrefuted⟩ := h.2 binder clause hcontract
  exact ⟨binders, goal, hterm, hgoal, hrefuted.mono hlater⟩

theorem guardedIn_of_established {walk : Walk} {pairs : List (RefinedTy × Expr)}
    {terms : List Term}
    (h : List.Forall₂ (fun a t => Established walk given past a.1 t) pairs terms) :
    ∀ t ∈ terms, t.GuardedIn given past := by
  induction h with
  | nil => exact fun t ht => nomatch ht
  | cons hterm _ ih => exact List.forall_mem_cons.2 ⟨hterm.1, ih⟩

theorem heedful_requireBool (pred : Expr) (span : Option Span) :
    Heedful given past (requireBool pred span) fun _ _ => True := by
  unfold requireBool
  split
  · exact heedful_pure trivial
  · exact heedful_error

section

variable {walk : Walk} (hwalk : HeedfulWalk walk)
include hwalk

theorem heedful_prove {locals : Bindings} (hlocals : locals.GuardedIn given past)
    (binder : String) (clause : Clause) (span : Option Span) :
    Heedful given past (prove walk locals binder clause span) fun later _ =>
      ∃ goal, Yields (walk .full locals clause.expr) goal ∧
        RefutedIn (clause.goal (locals.resolve binder) goal) later := by
  have hlasts : Lasts fun later (_ : Unit) => ∃ goal, Yields (walk .full locals clause.expr) goal ∧
      RefutedIn (clause.goal (locals.resolve binder) goal) later := by
    rintro _ later _ hlater ⟨goal, hgoal, hrefuted⟩
    exact ⟨goal, hgoal, hrefuted.mono hlater⟩
  -- The goal may divide by whatever the walk over the clause has proved not to be zero.
  have hrefute : ∀ {past : List Event} (obligation : String), locals.GuardedIn given past →
      Heedful given past (do
        let term ← walk .full locals clause.expr
        refute (clause.goal (locals.resolve binder) term) obligation span) fun later _ =>
        ∃ goal, Yields (walk .full locals clause.expr) goal ∧
          RefutedIn (clause.goal (locals.resolve binder) goal) later := by
    intro past obligation hlocals
    refine (hwalk hlocals).bind fun term later hlater hyields hterm => ?_
    have hgoal := clause.guardedIn_goal ((hlocals.mono hlater).resolve binder) hterm
    exact (heedful_refute hgoal obligation span).imp fun _ _ _ hrefuted => ⟨term, hyields, hrefuted⟩
  cases clause with
  | holds pred =>
      refine (heedful_requireBool _ _).bind fun _ later hlater _ _ => ?_
      refine (heedful_note _).bind fun _ last hlast _ _ => ?_
      exact .scope hlasts fun inside hinside =>
        hrefute _ (hlocals.mono ((hlater.trans hlast).trans hinside))
  | equals value =>
      refine (heedful_note _).bind fun _ later hlater _ _ => ?_
      refine .scope hlasts fun inside hinside => ?_
      refine (heedful_answer _).bind fun _ last hlast _ _ => ?_
      exact hrefute _ (hlocals.mono ((hlater.trans hinside).trans hlast))

theorem heedful_assume {locals : Bindings} (hlocals : locals.GuardedIn given past)
    {result : Term} (hresult : result.GuardedIn given past) (clause : Clause)
    (span : Option Span) : Heedful given past (assume walk locals result clause span)
      fun _ _ => True := by
  cases clause with
  | holds pred =>
      refine (heedful_requireBool _ _).bind fun _ later hlater _ _ => ?_
      exact (hwalk (hlocals.mono hlater)).bind fun _ _ _ _ hfact => heedful_assert hfact
  | equals value =>
      refine (hwalk hlocals).bind fun _ later hlater _ hterm => ?_
      exact heedful_assert (guardedIn_eq (hresult.mono hlater) hterm)

theorem heedful_checkArgs {locals : Bindings} (hlocals : locals.GuardedIn given past)
    {binders : Bindings} (hbinders : binders.GuardedIn given past) (callee : String)
    (span : Option Span) (pairs : List (RefinedTy × Expr)) :
    Heedful given past (checkArgs walk callee span locals pairs binders) fun later r =>
      r.1.GuardedIn given later ∧
        List.Forall₂ (fun a t => Established walk given later a.1 t) pairs r.2 := by
  induction pairs generalizing binders past with
  | nil => exact heedful_pure ⟨hbinders, .nil⟩
  | cons head rest ih =>
      obtain ⟨param, arg⟩ := head
      have hrest : ∀ {later : List Event} {binders : Bindings} {term : Term}, past <+: later →
          binders.GuardedIn given later → Established walk given later param term →
          Heedful given later (checkArgs walk callee span locals rest binders >>= fun r =>
            pure (r.1, term :: r.2)) fun last r => r.1.GuardedIn given last ∧
              List.Forall₂ (fun a t => Established walk given last a.1 t)
                ((param, arg) :: rest) r.2 := by
        intro later binders term hlater hbinders hterm
        refine (ih (hlocals.mono hlater) hbinders).bind fun r last hlast _ hr => ?_
        exact heedful_pure ⟨hr.1, .cons (hterm.mono hlast) hr.2⟩
      have hproved : ∀ {later : List Event} {binders : Bindings} {binder : String}
          {clause : Clause} {term : Term}, past <+: later → binders.GuardedIn given later →
          term.GuardedIn given later → param.contract? = some (binder, clause) →
          Heedful given later (inContext ("precondition of `" ++ callee ++ "`")
              (prove walk (binders.insert binder term) binder clause (arg.span.or span)) >>=
            fun _ => checkArgs walk callee span locals rest (binders.insert binder term) >>=
              fun r => pure (r.1, term :: r.2)) fun last r => r.1.GuardedIn given last ∧
              List.Forall₂ (fun a t => Established walk given last a.1 t)
                ((param, arg) :: rest) r.2 := by
        intro later binders binder clause term hlater hbinders hterm hcontract
        have hbound := hbinders.insert hterm binder
        have hprove := (heedful_prove hwalk hbound binder clause (arg.span.or span)).adapt
          (·.withContext ("precondition of `" ++ callee ++ "`"))
        refine hprove.bind fun _ last hlast _ hgoal => ?_
        refine hrest (hlater.trans hlast) (hbound.mono hlast) ⟨hterm.mono hlast, ?_⟩
        intro binder' clause' hcontract'
        cases hcontract.symm.trans hcontract'
        obtain ⟨goal, hyields, hrefuted⟩ := hgoal
        have hself : (Bindings.resolve (binders.insert binder term) binder) = term := by
          rw [Bindings.resolve_insert, if_pos rfl]
        rw [hself] at hrefuted
        exact ⟨_, goal, hself, hyields, hrefuted⟩
      have hplain : ∀ {later : List Event} {term : Term}, param.contract? = none →
          term.GuardedIn given later → Established walk given later param term := by
        intro later term hnone hterm
        refine ⟨hterm, fun binder clause hcontract => ?_⟩
        rw [hnone] at hcontract
        cases hcontract
      rcases param with ty | ⟨ty, binder | ⟨binder, pred⟩ | ⟨binder, value⟩⟩
      · exact (hwalk hlocals).bind fun term later hlater _ hterm =>
          hrest hlater (hbinders.mono hlater) (hplain rfl hterm)
      · exact (hwalk hlocals).bind fun term later hlater _ hterm =>
          hrest hlater ((hbinders.mono hlater).insert hterm binder) (hplain rfl hterm)
      · exact (hwalk hlocals).bind fun term later hlater _ hterm =>
          hproved hlater (hbinders.mono hlater) hterm rfl
      · exact (hwalk hlocals).bind fun term later hlater _ hterm =>
          hproved hlater (hbinders.mono hlater) hterm rfl

theorem heedful_assumeReturn {binders : Bindings} (hbinders : binders.GuardedIn given past)
    {result : Term} (hresult : result.GuardedIn given past) (callee : String) (ret : RefinedTy)
    (span : Option Span) : Heedful given past (assumeReturn walk callee ret binders result span)
      fun later t => t.GuardedIn given later := by
  have hassume : ∀ binder clause, Heedful given past (do
      inContext ("postcondition of `" ++ callee ++ "`")
        (assume walk (binders.insert binder result) result clause span)
      pure result) fun later t => t.GuardedIn given later := by
    intro binder clause
    have hclause := (heedful_assume hwalk (hbinders.insert hresult binder) hresult clause
      span).adapt (·.withContext ("postcondition of `" ++ callee ++ "`"))
    exact hclause.bind fun _ _ hlater _ _ => heedful_pure (hresult.mono hlater)
  rcases ret with ty | ⟨ty, binder | ⟨binder, pred⟩ | ⟨binder, value⟩⟩
  · exact heedful_pure hresult
  · exact heedful_pure hresult
  · exact hassume binder (.holds pred)
  · exact hassume binder (.equals value)

theorem heedful_checkResult {binders : Bindings} (hbinders : binders.GuardedIn given past)
    {callee : String} {origin : Origin}
    (hcallee : origin = .uninterpreted → callee ≠ "div" ∧ callee ≠ "mod") (ret : RefinedTy)
    {terms : List Term} (hterms : ∀ t ∈ terms, t.GuardedIn given past) (span : Option Span) :
    Heedful given past (checkResult walk callee origin ret binders terms span)
      fun later t => t.GuardedIn given later := by
  refine ((heedful_fresh ret.ty).adapt (·.locate span)).bind fun name later hlater _ _ => ?_
  have hreturn : ∀ {last : List Event}, later <+: last → Heedful given last
      (assumeReturn walk callee ret binders (.symbol name) span)
      fun later t => t.GuardedIn given later := fun hlast =>
    heedful_assumeReturn hwalk (hbinders.mono (hlater.trans hlast)) (guardedIn_symbol name) callee
      ret span
  by_cases horigin : origin = .uninterpreted
  · simp only [if_pos horigin]
    have happlied : SExpr.GuardedIn given later
        (if terms.isEmpty then .symbol callee else .apply callee terms) := by
      split
      · exact guardedIn_symbol callee
      · exact SExpr.guardedIn_apply (hcallee horigin).1 (hcallee horigin).2
          fun t ht => (hterms t ht).mono hlater
    exact (heedful_assert (guardedIn_eq (guardedIn_symbol name) happlied)).bind
      fun _ _ hlast _ _ => hreturn hlast
  · simp only [if_neg horigin]
    exact hreturn (List.prefix_refl later)

omit hwalk

theorem heedful_applyOperator (mode : Mode) {name : String} (ret : RefinedTy)
    {terms : List Term} (h : ∀ applied, Operator.apply name terms = .ok applied →
      applied.GuardedIn given past) (span : Option Span) :
    Heedful given past (applyOperator mode name ret terms span)
      fun later t => t.GuardedIn given later := by
  have happly : Heedful given past (ofOutcome ((Operator.apply name terms).located span))
      fun later t => t.GuardedIn given later :=
    heedful_ofOutcome fun applied happlied => h applied (Outcome.located_eq_ok_iff.1 happlied)
  refine happly.bind fun applied later hlater _ happlied => ?_
  cases mode with
  | full => exact heedful_pure happlied
  | simple =>
      refine ((heedful_fresh ret.ty).adapt (·.locate span)).bind fun var last hlast _ _ => ?_
      have hdefines := guardedIn_eq (guardedIn_symbol var) (happlied.mono hlast)
      exact (heedful_assert hdefines).bind fun _ _ _ _ _ => heedful_pure (guardedIn_symbol var)

end

section

variable {env : Env}

theorem accepts_checkWithin_leaf {depth : Nat} {mode : Mode} {locals : Bindings} {e : Expr}
    {p p' : Progress} {commands : List Command} {t : Term}
    (hleaf : (∃ name, e.shape = .var name) ∨ (∃ b, e.shape = .bool b) ∨ ∃ n, e.shape = .int n)
    (h : Accepts (checkWithin env depth mode locals e) p commands t p') :
    locals.leaf? e = some t := by
  cases depth with
  | zero => cases (accepts_ofOutcome_iff.1 h).2.1
  | succ depth => exact (accepts_checkExpr_leaf hleaf h).2.1

/-- The clause of a divisor states that it is not zero. -/
theorem yields_nonzero (henv : env.get? "!=" = prelude.get? "!=") {depth : Nat}
    {binders : Bindings} {goal : Term}
    (h : Yields (checkWithin env depth .full binders
      (Prelude.infixed "!=" (Prelude.int "y") (.int 0) .bool)) goal) :
    goal = .not (.eq (binders.resolve "y") (.int 0)) := by
  obtain ⟨p, events, p', hcourse⟩ := h
  have hstrict := strict_checkWithin env depth .full binders
    (Prelude.infixed "!=" (Prelude.int "y") (.int 0) .bool) p
  have haccepts := (hstrict.of_course hcourse).1
  cases depth with
  | zero => cases (accepts_ofOutcome_iff.1 (show Accepts _ p _ goal p' from
      Prod.ext rfl haccepts)).2.1
  | succ depth =>
      have hcall : Accepts (checkCall env (checkWithin env depth) .full binders
          (.var "!=" (.arrow [.plain .int, .plain .int] (.plain .bool)))
          [Prelude.int "y", .int 0] none) p _ goal p' := Prod.ext rfl haccepts
      obtain ⟨name, sig, params, ret, first, _, terms, p₁, second, hcallee, hsig, harrow, -, hargs,
        -, hresult⟩ := accepts_checkCall hcall
      cases hcallee
      have hprelude : prelude.get? "!=" =
          some (.function .builtin (Prelude.ints 2) (.plain .bool)) := rfl
      rw [henv, hprelude] at hsig
      cases hsig
      cases harrow
      obtain ⟨own, y, p₂, _, p₃, others, rest, hy, -, hrest, -, rfl⟩ := accepts_checkArgs_cons hargs
      obtain ⟨own', zero, p₄, _, p₅, others', rest', hzero, -, hnil, -, hterms⟩ :=
        accepts_checkArgs_cons hrest
      obtain ⟨-, hempty, -⟩ := accepts_checkArgs_nil hnil
      cases hempty
      cases hterms
      cases accepts_checkWithin_leaf (.inl ⟨"y", rfl⟩) hy
      cases accepts_checkWithin_leaf (.inr (.inr ⟨0, rfl⟩)) hzero
      rcases hresult with ⟨-, applied, happly, -, rfl, -⟩ | ⟨horigin, -⟩
      · cases happly
        rfl
      · exact absurd rfl horigin

variable (henv : env.GuardsDivisions)
include henv

/-- The divisor of a division has been proved not to be zero. -/
theorem nonzeroIn_of_established {given : Term → Prop} {past : List Event} {depth : Nat}
    {term : Term} (h : Established (checkWithin env depth) given past (Prelude.nonzero "y") term) :
    NonzeroIn term past := by
  obtain ⟨binders, goal, hterm, hyields, hrefuted⟩ := h.2 "y" _ rfl
  rw [yields_nonzero henv.inequality hyields, hterm] at hrefuted
  exact hrefuted

/-- What a built-in operator is applied to heeds the past, its divisor included. -/
theorem guardedIn_of_apply {given : Term → Prop} {past : List Event} {depth : Nat} {name : String}
    {sig : Signature} {params : List RefinedTy} {ret : RefinedTy} {args : List Expr}
    {terms : List Term} (hsig : env.get? name = some sig)
    (harrow : sig.ty.ty.arrow? = some (params, ret))
    (hterms : List.Forall₂ (fun a t => Established (checkWithin env depth) given past a.1 t)
      (params.zip args) terms)
    {applied : Term} (happly : Operator.apply name terms = .ok applied) :
    applied.GuardedIn given past := by
  intro b hb
  rcases Operator.mem_divisors_of_apply happly hb with hb | ⟨hguarded, a, rfl⟩
  · obtain ⟨t, ht, hb⟩ := SExpr.mem_divisorsAll.1 hb
    exact guardedIn_of_established hterms t ht b hb
  · rw [henv.division name hguarded, get?_prelude_of_isGuarded hguarded] at hsig
    cases hsig
    cases harrow
    match args, hterms with
    | _ :: _ :: _, .cons _ (.cons hdivisor .nil) =>
        exact .inr (nonzeroIn_of_established henv hdivisor)

theorem heedful_checkCall {given : Term → Prop} {past : List Event} {depth : Nat}
    (hwalk : HeedfulWalk (checkWithin env depth)) (mode : Mode) {locals : Bindings}
    (hlocals : locals.GuardedIn given past) (callee : Expr) (args : List Expr)
    (span : Option Span) :
    Heedful given past (checkCall env (checkWithin env depth) mode locals callee args span)
      fun later t => t.GuardedIn given later := by
  unfold checkCall
  rcases hresolve : resolveCall env callee args span with failure | ⟨name, origin, params, ret⟩
  · rw [ofOutcome_error_bind]
    exact heedful_error
  obtain ⟨-, sig, hsig, rfl, harrow, -⟩ := resolveCall_eq_ok hresolve
  have hempty : Bindings.GuardedIn given past ∅ := fun _ _ h => nomatch h
  simp only [ofOutcome_ok_bind]
  refine (heedful_checkArgs hwalk hlocals hempty name span (params.zip args)).bind
    fun checked later _ _ hchecked => ?_
  obtain ⟨binders, terms⟩ := checked
  obtain ⟨hbinders, hterms⟩ := hchecked
  by_cases horigin : sig.origin = .builtin
  · simp only [if_pos horigin]
    exact heedful_applyOperator mode ret
      (fun _ happly => guardedIn_of_apply henv hsig harrow hterms happly) span
  · simp only [if_neg horigin]
    exact heedful_checkResult hwalk hbinders (henv.uninterpreted name sig hsig) ret
      (guardedIn_of_established hterms) span

theorem heedful_checkExpr {depth : Nat} (hwalk : HeedfulWalk (checkWithin env depth)) :
    HeedfulWalk (checkExpr env (checkWithin env depth)) := by
  rintro given past mode locals ⟨ty, shape, span⟩ hlocals
  cases shape with
  | var name => exact heedful_pure (hlocals.resolve name)
  | bool value => exact heedful_pure (guardedIn_bool value)
  | int value => exact heedful_pure (guardedIn_int value)
  | ite test onTrue onFalse => exact heedful_error
  | lambda params body => exact heedful_error
  | call callee args => exact heedful_checkCall henv hwalk mode hlocals callee args span
  | letIn name value body =>
      have hsort : Heedful given past (ofOutcome ((SolverSort.of value.ty).located
          (value.span.or span))) fun _ _ => True := heedful_ofOutcome fun _ _ => trivial
      refine hsort.bind fun sort later hlater _ _ => ?_
      refine (heedful_declare _ _).bind fun _ last hlast _ _ => ?_
      have hlocals := hlocals.mono (hlater.trans hlast)
      refine (hwalk hlocals).bind fun term more hmore _ hterm => ?_
      refine (heedful_assert (guardedIn_eq (guardedIn_symbol name) hterm)).bind
        fun _ end' hend _ _ => ?_
      exact hwalk (hlocals.mono (hmore.trans hend))
  | cast e target =>
      refine (hwalk hlocals).bind fun term later hlater _ hterm => ?_
      have hprove : ∀ binder clause, Heedful given later (do
          prove (checkWithin env depth) (locals.insert binder term) binder clause span
          return term) fun last t => t.GuardedIn given last := fun binder clause =>
        (heedful_prove hwalk ((hlocals.mono hlater).insert hterm binder) binder clause span).bind
          fun _ _ hlast _ _ => heedful_pure (hterm.mono hlast)
      rcases target with ty | ⟨ty, binder | ⟨binder, pred⟩ | ⟨binder, value⟩⟩
      · exact heedful_pure hterm
      · exact heedful_pure hterm
      · exact hprove binder (.holds pred)
      · exact hprove binder (.equals value)

theorem heedful_checkWithin (depth : Nat) : HeedfulWalk (checkWithin env depth) := by
  induction depth with
  | zero => exact fun _ _ _ _ _ _ => heedful_error
  | succ depth ih => exact heedful_checkExpr henv ih

end

end Checker

section

variable {given : Term → Prop} {past : List Event} {locals : Bindings}

theorem Expr.guardedIn_of_toTerms {es : List Expr} {terms : List Term}
    (he : ∀ e ∈ es, ∀ t, e.toTerm locals = .ok t → t.GuardedIn given past)
    (h : Expr.toTerms locals es = .ok terms) : ∀ t ∈ terms, t.GuardedIn given past := by
  induction es generalizing terms with
  | nil =>
      cases h
      exact fun _ ht => nomatch ht
  | cons e rest ih =>
      obtain ⟨he, hrest⟩ := List.forall_mem_cons.1 he
      obtain ⟨first, others, hfirst, hothers, rfl⟩ := Expr.toTerms_cons_eq_ok_iff.1 h
      exact List.forall_mem_cons.2 ⟨he first hfirst, ih hrest hothers⟩

/-- A translation divides by nothing but what the terms in scope divide by. -/
theorem Expr.guardedIn_of_toTerm {depth : Nat} {e : Expr} (hdepth : e.walkDepth ≤ depth)
    (hlocals : locals.GuardedIn given past) {t : Term} (h : e.toTerm locals = .ok t) :
    t.GuardedIn given past := by
  induction depth generalizing e t with
  | zero => exact absurd e.walkDepth_pos (Nat.not_lt.2 hdepth)
  | succ depth ih =>
      obtain ⟨ty, shape, span⟩ := e
      cases shape with
      | var name =>
          cases h
          exact hlocals.resolve name
      | bool value =>
          cases h
          exact guardedIn_bool value
      | int value =>
          cases h
          exact guardedIn_int value
      | letIn name value body => cases h
      | ite test onTrue onFalse => cases h
      | lambda params body => cases h
      | cast e target => cases h
      | call callee args =>
          obtain ⟨name, terms, -, -, hguarded, hterms, happly⟩ := Expr.toTerm_call_eq_ok_iff.1 h
          rw [Expr.walkDepth, Shape.walkDepth] at hdepth
          have hargs : ∀ arg ∈ args, ∀ s, arg.toTerm locals = .ok s → s.GuardedIn given past := by
            intro arg harg s hs
            have hle := Expr.walkDepth_le_walkDepthAll harg
            exact ih (by omega) hs
          intro b hb
          rcases Operator.mem_divisors_of_apply happly hb with hb | ⟨hdivision, -⟩
          · obtain ⟨s, hs, hb⟩ := SExpr.mem_divisorsAll.1 hb
            exact Expr.guardedIn_of_toTerms hargs hterms s hs b hb
          · rw [hguarded] at hdivision
            cases hdivision

end

/-- A term in scope divides by this. -/
def Bindings.Divides (locals : Bindings) (b : Term) : Prop :=
  ∃ name t, locals.get? name = some t ∧ b ∈ t.divisors

theorem Bindings.guardedIn_divides (locals : Bindings) (past : List Event) :
    locals.GuardedIn locals.Divides past := fun name t ht _ hb => .inl ⟨name, t, ht, hb⟩

namespace Checker

section

variable {τ ω : Type} [Transport τ ω]

/-- What is proved is what is used. A call that ends in a term, in whatever session and under
whatever environment, was carried through to it: in the order of the parameters, the negation of
what each states about its argument's term was refuted in a scope of its own, all these scopes were
left, and then the result was made of these very terms. In particular, where divisions are guarded
as by the prelude, a term that is sent to the solver, or that a walk ends in, divides by what terms
in scope divide by, and otherwise only by what had been proved not to be zero by then, also in runs
that fail later. And a translation has no divisions of its own. -/
theorem proved_is_used :
    (∀ (env : Env) (depth : Nat) (mode : Mode) (locals : Bindings) (callee : Expr)
      (args : List Expr) (span : Option Span) (c c' : Checker τ ω) (t : Term),
      c.perform (checkCall env (checkWithin env depth) mode locals callee args span) =
        (.ok t, c') →
      ∃ commands, CarriesThrough env (checkWithin env depth) mode locals callee args t commands ∧
        c.session.events (checkCall env (checkWithin env depth) mode locals callee args span
          c.progress) = commands.map Event.favourable) ∧
    (∀ env : Env, env.GuardsDivisions →
      ∀ (depth : Nat) (mode : Mode) (locals : Bindings) (e : Expr) (c : Checker τ ω) (b : Term),
      (∀ before t outcome after,
        c.session.events (checkWithin env depth mode locals e c.progress) =
          before ++ .did (.write (.assert t)) outcome :: after →
        b ∈ t.divisors → locals.Divides b ∨ NonzeroIn b before) ∧
      ∀ t c', c.perform (checkWithin env depth mode locals e) = (.ok t, c') →
        b ∈ t.divisors → locals.Divides b ∨
          NonzeroIn b (c.session.events (checkWithin env depth mode locals e c.progress))) ∧
    ∀ (locals : Bindings) (e : Expr) (t : Term), e.toTerm locals = .ok t →
      ∀ b ∈ t.divisors, locals.Divides b := by
  refine ⟨fun env depth mode locals callee args span c c' t h => events_of_checkCall h, ?_, ?_⟩
  · intro env henv depth mode locals e c b
    have hcourse := Session.course_events (checkWithin env depth mode locals e c.progress) c.session
    obtain ⟨hheeded, hresult⟩ := heedful_checkWithin henv depth (locals.guardedIn_divides [])
      _ _ _ _ hcourse
    constructor
    · intro before t outcome after hsplit hb
      rw [hsplit] at hheeded
      exact hheeded.of_split b hb
    · intro t c' h hb
      rw [hold_of_perform h] at hresult
      exact hresult t rfl b hb
  · intro locals e t h b hb
    have hguarded := Expr.guardedIn_of_toTerm (Nat.le_refl _) (locals.guardedIn_divides []) h b hb
    exact hguarded.resolve_right fun ⟨before, after, hnil⟩ => by simp at hnil

end

def slash : Expr := .var "/" (.arrow (Prelude.ints 2) (.plain .int))

/-- `7 / 2` -/
def half : Expr := ⟨.int, .call slash [.int 7, .int 2], none⟩

def halfTerm : Term := .apply "div" [Term.int 7, Term.int 2]

open Scripted in
/-- A session with a solver that refutes one thing. -/
def refuting : Checker Solver Script :=
  { session := (Session.start { world := { answers := ["unsat"] } }).2 }

/-- `x` stands for the result. -/
def scopeOfHalf : Bindings := NameMap.insert ∅ "x" halfTerm

/-- The solver refutes that the divisor is zero; and the result, bound to a name, brings its divisor
into scope. -/
theorem proved_is_used_half :
    (∃ c' commands, refuting.perform (checkCall prelude (checkWithin prelude 2) .full ∅ slash
          [.int 7, .int 2] none) = (.ok halfTerm, c') ∧
        CarriesThrough prelude (checkWithin prelude 2) .full ∅ slash [.int 7, .int 2] halfTerm
          commands) ∧
      prelude.GuardsDivisions ∧ Term.int 2 ∈ halfTerm.divisors ∧
      NonzeroIn (Term.int 2)
        (refuting.session.events (checkWithin prelude 3 .full ∅ half refuting.progress)) ∧
      successor.toTerm scopeOfHalf = .ok (.apply "+" [halfTerm, Term.int 1]) ∧
      scopeOfHalf.Divides (Term.int 2) := by
  obtain ⟨hcalls, hdivisions, hscalars⟩ := @proved_is_used Scripted.Solver Scripted.Script _
  have hdivisor : Term.int 2 ∈ halfTerm.divisors := List.mem_singleton_self _
  obtain ⟨called, hcall⟩ : ∃ called, refuting.perform (checkCall prelude (checkWithin prelude 2)
      .full ∅ slash [.int 7, .int 2] none) = (.ok halfTerm, called) := ⟨_, Prod.ext rfl rfl⟩
  obtain ⟨ended, hhalf⟩ : ∃ ended,
      refuting.perform (checkWithin prelude 3 .full ∅ half) = (.ok halfTerm, ended) :=
    ⟨_, Prod.ext rfl rfl⟩
  obtain ⟨commands, hcarries, -⟩ := hcalls _ _ _ _ _ _ _ _ _ _ hcall
  have hnone : ¬ Bindings.Divides ∅ (Term.int 2) := fun ⟨_, _, hget, _⟩ => nomatch hget
  have hproved := (hdivisions prelude guardsDivisions_prelude 3 .full ∅ half refuting
    (Term.int 2)).2 halfTerm ended hhalf hdivisor
  have hterm : successor.toTerm scopeOfHalf = .ok (.apply "+" [halfTerm, Term.int 1]) := rfl
  have hdivides := hscalars scopeOfHalf successor _ hterm (Term.int 2)
    (List.mem_append_right _ (SExpr.mem_divisorsAll.2 ⟨halfTerm, by simp, hdivisor⟩))
  exact ⟨⟨called, commands, hcall, hcarries⟩, guardsDivisions_prelude, hdivisor,
    hproved.resolve_left hnone, hterm, hdivides⟩

end Checker

end ContractCheck
