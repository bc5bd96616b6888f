import ContractCheck.Proofs.Favourable
import ContractCheck.Proofs.Parts
import ContractCheck.Run

/-!
The favourable course of a walk, function by function: which commands it sends and what it answers
when the solver accepts every command and refutes every negated goal. Each lemma says all that the
function can then have done, in terms of the walk over the expressions inside. Every walk is strict
(`strict_runDialogue`), so this is what happened whenever a walk succeeded.
-/

namespace ContractCheck

theorem Outcome.mapError_eq_ok_iff {α : Type} {outcome : Outcome α} {f : Failure → Failure}
    {a : α} : Except.mapError f outcome = .ok a ↔ outcome = .ok a := by
  cases outcome with
  | error failure =>
      constructor <;>
        · intro h
          cases h
  | ok b => exact Iff.rfl

/-- To say where a failure occurred does not make a success. -/
theorem Outcome.located_eq_ok_iff {α : Type} {outcome : Outcome α} {span : Option Span} {a : α} :
    outcome.located span = .ok a ↔ outcome = .ok a := mapError_eq_ok_iff

theorem SolverSort.of_eq_ok_iff {ty : Ty} {sort : SolverSort} :
    SolverSort.of ty = .ok sort ↔ SolverSort.of? ty = some sort := by
  unfold SolverSort.of
  cases SolverSort.of? ty <;> simp

/-- What is to be true of a clause's subject, once the clause's expression has a term. -/
def Clause.goal (subject term : Term) : Clause → Term
  | .holds _ => term
  | .equals _ => .eq subject term

/-- The predicate of a clause has the type of booleans. -/
def Clause.IsScalar : Clause → Prop
  | .holds pred => pred.ty.isBool = true
  | .equals _ => True

/-- The binder and the clause of a refined type that states something. -/
def RefinedTy.contract? : RefinedTy → Option (String × Clause)
  | .plain _ => none
  | .refined _ (.bind _) => none
  | .refined _ (.holds binder pred) => some (binder, .holds pred)
  | .refined _ (.equals binder value) => some (binder, .equals value)

/-- Arguments for parameters with a binder get names. -/
def Mode.ofParam (param : RefinedTy) : Mode :=
  match param.refinement? with
  | none => .full
  | some _ => .simple

/-- The binder of a parameter or a return, if there is one, stands for the term. -/
def Bindings.bindRefined (locals : Bindings) (param : RefinedTy) (term : Term) : Bindings :=
  match param.refinement? with
  | none => locals
  | some refinement => locals.insert refinement.binder term

namespace Checker

variable {τ ω α β : Type}

/-- The favourable course of a part of a walk sends these commands and ends in this answer. -/
def Accepts (part : CheckM α) (p : Progress) (commands : List Command) (a : α) (p' : Progress) :
    Prop :=
  (part p).favourable = (commands, (.ok a, p'))

theorem bind_apply (part : CheckM α) (f : α → CheckM β) (p : Progress) :
    (part >>= f) p = Dialogue.bind (part p) fun r =>
      match r with
      | (.ok a, p') => f a p'
      | (.error failure, p') => .done (.error failure, p') := by
  change (ExceptT.bind part f) p = _
  simp only [ExceptT.bind, ExceptT.mk, bind, StateT.bind]
  congr 1
  funext r
  rcases r with ⟨_ | _, _⟩ <;> rfl

theorem accepts_bind_iff {part : CheckM α} {f : α → CheckM β} {p p' : Progress}
    {commands : List Command} {b : β} :
    Accepts (part >>= f) p commands b p' ↔ ∃ first a p₁ second,
      Accepts part p first a p₁ ∧ Accepts (f a) p₁ second b p' ∧ commands = first ++ second := by
  have hbind := Dialogue.favourable_bind (part p) fun r =>
    match r with
    | (.ok a, p') => f a p'
    | (.error failure, p') => .done (.error failure, p')
  unfold Accepts
  rw [bind_apply]
  rw [Dialogue.bind_eq, hbind]
  rcases hpart : (part p).favourable with ⟨first, failure | a, p₁⟩
  · simp [Dialogue.favourable]
  · constructor
    · intro h
      obtain ⟨hcommands, hresult⟩ := Prod.mk.inj h
      exact ⟨first, a, p₁, (f a p₁).favourable.1, rfl, Prod.ext rfl hresult, hcommands.symm⟩
    · rintro ⟨_, _, _, second, h, hrest, rfl⟩
      simp only [Prod.mk.injEq, Except.ok.injEq] at h
      obtain ⟨rfl, rfl, rfl⟩ := h
      rw [hrest]

@[simp] theorem accepts_pure_iff {a b : α} {p p' : Progress} {commands : List Command} :
    Accepts (pure a) p commands b p' ↔ commands = [] ∧ b = a ∧ p' = p := by
  change ([], (Except.ok a, p)) = (commands, (Except.ok b, p')) ↔ _
  simp [eq_comm]

@[simp] theorem accepts_ofOutcome_iff {outcome : Outcome α} {a : α} {p p' : Progress}
    {commands : List Command} :
    Accepts (ofOutcome outcome) p commands a p' ↔ commands = [] ∧ outcome = .ok a ∧ p' = p := by
  change ([], (outcome, p)) = (commands, (Except.ok a, p')) ↔ _
  simp [eq_comm]

@[simp] theorem accepts_note_iff {text : String} {p p' : Progress} {commands : List Command}
    {u : Unit} : Accepts (note text) p commands u p' ↔ commands = [] ∧ p' = p := by
  change ([], (Except.ok (), p)) = (commands, (Except.ok u, p')) ↔ _
  simp [eq_comm]

@[simp] theorem accepts_write_iff {command : Command} {p p' : Progress}
    {commands : List Command} {u : Unit} :
    Accepts (write command) p commands u p' ↔ commands = [command] ∧ p' = p := by
  change ([command], (Except.ok (), p)) = (commands, (Except.ok u, p')) ↔ _
  simp [eq_comm]

@[simp] theorem accepts_updateSummary_iff {f : Summary → Summary} {p p' : Progress}
    {commands : List Command} {u : Unit} :
    Accepts (updateSummary f) p commands u p' ↔
      commands = [] ∧ p' = { p with summary := f p.summary } := by
  change ([], (Except.ok (), _)) = (commands, (Except.ok u, p')) ↔ _
  simp [eq_comm]

@[simp] theorem accepts_nextName_iff {tag : Char} {name : String} {p p' : Progress}
    {commands : List Command} :
    Accepts (nextName tag) p commands name p' ↔ commands = [] ∧ name = (p.names.next tag).1 ∧
      p' = { p with names := (p.names.next tag).2 } := by
  change ([], (Except.ok _, _)) = (commands, (Except.ok name, p')) ↔ _
  simp [FreshNames.next, eq_comm]

theorem adapt_apply (part : CheckM α) (f : Failure → Failure) (p : Progress) :
    (part.adapt f) p = Dialogue.bind (part p) fun r => .done (r.1.mapError f, r.2) := rfl

theorem accepts_adapt_iff {part : CheckM α} {f : Failure → Failure} {p p' : Progress}
    {commands : List Command} {a : α} :
    Accepts (part.adapt f) p commands a p' ↔ Accepts part p commands a p' := by
  have hbind := Dialogue.favourable_bind (part p) fun r =>
    (.done (r.1.mapError f, r.2) : Dialogue (Outcome α × Progress))
  unfold Accepts
  rw [adapt_apply]
  rw [Dialogue.bind_eq, hbind]
  rcases (part p).favourable with ⟨first, failure | a, p₁⟩ <;>
    simp [Dialogue.favourable, Outcome.mapError_eq_ok_iff]

@[simp] theorem accepts_located_iff {span : Option Span} {part : CheckM α} {p p' : Progress}
    {commands : List Command} {a : α} :
    Accepts (located span part) p commands a p' ↔ Accepts part p commands a p' :=
  accepts_adapt_iff

@[simp] theorem accepts_inContext_iff {context : String} {part : CheckM α} {p p' : Progress}
    {commands : List Command} {a : α} :
    Accepts (inContext context part) p commands a p' ↔ Accepts part p commands a p' :=
  accepts_adapt_iff

/-- A scope is left after its body, whatever that ended in. -/
theorem inSolverScope_apply (body : CheckM α) (p : Progress) :
    (inSolverScope body) p = Dialogue.act .push fun
      | .error failure => .done (.error failure, p)
      | .ok _ => Dialogue.bind (body p) fun r => .act .pop fun leaving =>
          .done (Outcome.settle r.1 leaving, r.2) := by
  change Dialogue.act .push _ = _
  congr 1
  funext entering
  cases entering with
  | error failure => rfl
  | ok u =>
      change Dialogue.bind (Dialogue.bind (body p) fun r => .done (Except.ok r.1, r.2)) _ = _
      rw [Dialogue.bind_assoc]
      rfl

theorem perform_bind [Transport τ ω] (part : CheckM α) (f : α → CheckM β) (c : Checker τ ω) :
    c.perform (part >>= f) = match c.perform part with
      | (.ok a, c') => c'.perform (f a)
      | (.error failure, c') => (.error failure, c') := by
  unfold perform
  rw [bind_apply, Dialogue.bind_eq, Session.hold_bind]
  rcases Session.hold (part c.progress) c.session with ⟨⟨failure | a, p⟩, s⟩ <;> rfl

theorem perform_adapt [Transport τ ω] (part : CheckM α) (f : Failure → Failure) (c : Checker τ ω) :
    c.perform (part.adapt f) = ((c.perform part).1.mapError f, (c.perform part).2) := by
  unfold perform
  rw [adapt_apply, Dialogue.bind_eq, Session.hold_bind]
  rfl

theorem perform_inSolverScope [Transport τ ω] (part : CheckM α) (c : Checker τ ω) :
    c.perform (inSolverScope part) = match c.perform (act .push) with
      | (.error failure, c₁) => (.error failure, c₁)
      | (.ok (), c₁) =>
        (Outcome.settle (c₁.perform part).1 ((c₁.perform part).2.perform (act .pop)).1,
          ((c₁.perform part).2.perform (act .pop)).2) := by
  unfold perform
  rw [inSolverScope_apply]
  simp only [Session.hold, act]
  rcases Session.perform .push c.session with ⟨failure | u, s₁⟩
  · rfl
  · simp only
    rw [Dialogue.bind_eq, Session.hold_bind]
    rfl

theorem accepts_inSolverScope_iff {body : CheckM α} {p p' : Progress} {commands : List Command}
    {a : α} : Accepts (inSolverScope body) p commands a p' ↔
      ∃ inner, Accepts body p inner a p' ∧ commands = .push :: (inner ++ [.pop]) := by
  have hbind := Dialogue.favourable_bind (body p) fun r =>
    (.act .pop fun leaving => .done (Outcome.settle r.1 leaving, r.2) :
      Dialogue (Outcome α × Progress))
  unfold Accepts
  rw [inSolverScope_apply]
  simp only [Dialogue.favourable]
  rw [Dialogue.bind_eq, hbind]
  rcases (body p).favourable with ⟨inner, failure | a, p₁⟩
  · simp [Dialogue.favourable, Outcome.settle]
  · simp only [Dialogue.favourable, Outcome.settle, Prod.mk.injEq, Except.ok.injEq]
    constructor
    · rintro ⟨rfl, rfl, rfl⟩
      exact ⟨inner, ⟨rfl, rfl, rfl⟩, rfl⟩
    · rintro ⟨_, ⟨rfl, rfl, rfl⟩, rfl⟩
      exact ⟨rfl, rfl, rfl⟩

theorem accepts_requireBool_iff {pred : Expr} {span : Option Span} {p p' : Progress}
    {commands : List Command} {u : Unit} :
    Accepts (requireBool pred span) p commands u p' ↔
      pred.ty.isBool = true ∧ commands = [] ∧ p' = p := by
  unfold requireBool
  by_cases h : pred.ty.isBool = true <;> simp [h]

theorem accepts_fresh {ty : Ty} {name : String} {p p' : Progress} {commands : List Command}
    (h : Accepts (fresh ty) p commands name p') : ∃ sort, SolverSort.of? ty = some sort ∧
      name = (p.names.next sort.tag).1 ∧ commands = [.declareConst name sort.display] ∧
      p' = ⟨(p.names.next sort.tag).2, { p.summary with fresh := p.summary.fresh + 1 }⟩ := by
  unfold fresh SolverSort.of at h
  simp only [accepts_bind_iff, accepts_ofOutcome_iff, accepts_nextName_iff, accepts_write_iff,
    accepts_updateSummary_iff, accepts_pure_iff] at h
  obtain ⟨_, sort, _, _, ⟨rfl, hsort, rfl⟩, ⟨_, _, _, _, ⟨rfl, rfl, rfl⟩, ⟨_, _, _, _, ⟨rfl, rfl⟩,
    ⟨_, _, _, _, ⟨rfl, rfl⟩, ⟨rfl, rfl, rfl⟩, rfl⟩, rfl⟩, rfl⟩, rfl⟩ := h
  cases hof : SolverSort.of? ty with
  | none => simp [hof] at hsort
  | some found =>
      rw [hof] at hsort
      cases hsort
      exact ⟨sort, rfl, rfl, rfl, rfl⟩

/-- The commands that refute a goal's negation. -/
def refutation (goal : Term) : List Command := [.assert (.not goal), .checkSat]

theorem refute_apply (goal : Term) (obligation : String) (span : Option Span) (p : Progress) :
    (refute goal obligation span) p = .act (.write (.assert (.not goal))) fun
      | .error failure => .done (.error failure, p)
      | .ok _ => .checkSat fun
        | .error failure => .done (.error failure, p)
        | .ok answer => .note ("`" ++ obligation ++ "`: " ++ answer)
          ((if answer = "unsat" then updateSummary fun s =>
              { s with obligations := s.obligations + 1 }
            else ofOutcome (.error (.locate (.refuted answer obligation) span))) p) := by
  change Dialogue.act _ _ = _
  congr 1
  funext asserted
  cases asserted with
  | error failure => rfl
  | ok u =>
      change Dialogue.checkSat _ = _
      congr 1
      funext answered
      cases answered with
      | error failure => rfl
      | ok answer => rfl

theorem accepts_refute {goal : Term} {obligation : String} {span : Option Span} {u : Unit}
    {p p' : Progress} {commands : List Command}
    (h : Accepts (refute goal obligation span) p commands u p') : commands = refutation goal ∧
      p' = { p with summary := { p.summary with obligations := p.summary.obligations + 1 } } := by
  unfold Accepts at h
  rw [refute_apply] at h
  simp only [Dialogue.favourable, if_true] at h
  obtain ⟨rfl, hresult⟩ := Prod.mk.inj h
  cases hresult
  exact ⟨rfl, rfl⟩

variable {walk : Walk}

/-- The favourable course of proving a clause. -/
def Proves (walk : Walk) (locals : Bindings) (binder : String) (clause : Clause) (p : Progress)
    (commands : List Command) (p' : Progress) : Prop :=
  clause.IsScalar ∧ ∃ inner term p₁, Accepts (walk .full locals clause.expr) p inner term p₁ ∧
    commands = .push ::
      (inner ++ refutation (clause.goal (locals.resolve binder) term) ++ [.pop]) ∧
    p' = { p₁ with summary := { p₁.summary with obligations := p₁.summary.obligations + 1 } }

/-- The favourable course of assuming a clause. -/
def Assumes (walk : Walk) (locals : Bindings) (result : Term) (clause : Clause) (p : Progress)
    (commands : List Command) (p' : Progress) : Prop :=
  clause.IsScalar ∧ ∃ inner term, Accepts (walk .full locals clause.expr) p inner term p' ∧
    commands = inner ++ [.assert (clause.goal result term)]

/-- The favourable course of proving what a refined type states, if it states something. -/
def ProvesContract (walk : Walk) (locals : Bindings) (t : RefinedTy) (p : Progress)
    (commands : List Command) (p' : Progress) : Prop :=
  match t.contract? with
  | none => commands = [] ∧ p' = p
  | some (binder, clause) => Proves walk locals binder clause p commands p'

/-- The favourable course of assuming what a refined type states, if it states something. -/
def AssumesContract (walk : Walk) (locals : Bindings) (result : Term) (t : RefinedTy)
    (p : Progress) (commands : List Command) (p' : Progress) : Prop :=
  match t.contract? with
  | none => commands = [] ∧ p' = p
  | some (_, clause) => Assumes walk locals result clause p commands p'

theorem accepts_prove {locals : Bindings} {binder : String} {clause : Clause}
    {span : Option Span} {p p' : Progress} {commands : List Command} {u : Unit}
    (h : Accepts (prove walk locals binder clause span) p commands u p') :
    Proves walk locals binder clause p commands p' := by
  cases clause with
  | holds pred =>
      simp only [prove, accepts_bind_iff, accepts_requireBool_iff, accepts_note_iff,
        accepts_inSolverScope_iff] at h
      obtain ⟨_, _, _, _, ⟨hbool, rfl, rfl⟩, ⟨_, _, _, _, ⟨rfl, rfl⟩,
        ⟨_, ⟨inner, term, p₁, second, hwalk, hrefute, rfl⟩, rfl⟩, rfl⟩, rfl⟩ := h
      obtain ⟨rfl, rfl⟩ := accepts_refute hrefute
      exact ⟨hbool, inner, term, p₁, hwalk, rfl, rfl⟩
  | equals value =>
      simp only [prove, accepts_bind_iff, accepts_note_iff, accepts_ofOutcome_iff,
        accepts_inSolverScope_iff] at h
      obtain ⟨_, _, _, _, ⟨rfl, rfl⟩, ⟨_, ⟨_, _, _, _, ⟨rfl, _, rfl⟩,
        ⟨inner, term, p₁, second, hwalk, hrefute, rfl⟩, rfl⟩, rfl⟩, rfl⟩ := h
      obtain ⟨rfl, rfl⟩ := accepts_refute hrefute
      exact ⟨trivial, inner, term, p₁, hwalk, rfl, rfl⟩

theorem accepts_assume {locals : Bindings} {result : Term} {clause : Clause}
    {span : Option Span} {p p' : Progress} {commands : List Command} {u : Unit}
    (h : Accepts (assume walk locals result clause span) p commands u p') :
    Assumes walk locals result clause p commands p' := by
  cases clause with
  | holds pred =>
      simp only [assume, assert, accepts_bind_iff, accepts_requireBool_iff, accepts_write_iff] at h
      obtain ⟨_, _, _, _, ⟨hbool, rfl, rfl⟩, ⟨inner, term, _, _, hwalk, ⟨rfl, rfl⟩, rfl⟩, rfl⟩ := h
      exact ⟨hbool, inner, term, hwalk, rfl⟩
  | equals value =>
      simp only [assume, assert, accepts_bind_iff, accepts_write_iff] at h
      obtain ⟨inner, term, _, _, hwalk, ⟨rfl, rfl⟩, rfl⟩ := h
      exact ⟨trivial, inner, term, hwalk, rfl⟩

theorem accepts_checkArgs_nil {callee : String} {span : Option Span} {locals binders : Bindings}
    {p p' : Progress} {commands : List Command} {r : Bindings × List Term}
    (h : Accepts (checkArgs walk callee span locals [] binders) p commands r p') :
    commands = [] ∧ r = (binders, []) ∧ p' = p := by
  simpa [checkArgs] using h

theorem accepts_checkArgs_cons {callee : String} {span : Option Span} {locals binders : Bindings}
    {param : RefinedTy} {arg : Expr} {rest : List (RefinedTy × Expr)} {p p' : Progress}
    {commands : List Command} {r : Bindings × List Term}
    (h : Accepts (checkArgs walk callee span locals ((param, arg) :: rest) binders)
      p commands r p') :
    ∃ first term p₁ second p₂ third terms,
      Accepts (walk (.ofParam param) locals arg) p first term p₁ ∧
      ProvesContract walk (binders.bindRefined param term) param p₁ second p₂ ∧
      Accepts (checkArgs walk callee span locals rest (binders.bindRefined param term))
        p₂ third (r.1, terms) p' ∧
      commands = first ++ (second ++ third) ∧ r.2 = term :: terms := by
  cases param with
  | plain ty =>
      simp only [checkArgs, RefinedTy.refinement?, accepts_bind_iff, accepts_pure_iff] at h
      obtain ⟨first, term, p₁, _, hwalk, ⟨third, ⟨binders', terms⟩, p₂, _, hrest,
        ⟨rfl, rfl, rfl⟩, rfl⟩, rfl⟩ := h
      exact ⟨first, term, p₁, [], p₁, third, terms, hwalk, ⟨rfl, rfl⟩, hrest, by simp, rfl⟩
  | refined ty refinement =>
      cases refinement with
      | bind binder =>
          simp only [checkArgs, RefinedTy.refinement?, Refinement.clause?, accepts_bind_iff,
            accepts_pure_iff] at h
          obtain ⟨first, term, p₁, _, hwalk, ⟨third, ⟨binders', terms⟩, p₂, _, hrest,
            ⟨rfl, rfl, rfl⟩, rfl⟩, rfl⟩ := h
          exact ⟨first, term, p₁, [], p₁, third, terms, hwalk, ⟨rfl, rfl⟩, hrest, by simp, rfl⟩
      | holds binder pred =>
          simp only [checkArgs, RefinedTy.refinement?, Refinement.clause?, accepts_bind_iff,
            accepts_pure_iff, accepts_inContext_iff] at h
          obtain ⟨first, term, p₁, _, hwalk, ⟨second, _, p₂, _, hprove,
            ⟨third, ⟨binders', terms⟩, p₃, _, hrest, ⟨rfl, rfl, rfl⟩, rfl⟩, rfl⟩, rfl⟩ := h
          exact ⟨first, term, p₁, second, p₂, third, terms, hwalk, accepts_prove hprove, hrest,
            by simp, rfl⟩
      | equals binder value =>
          simp only [checkArgs, RefinedTy.refinement?, Refinement.clause?, accepts_bind_iff,
            accepts_pure_iff, accepts_inContext_iff] at h
          obtain ⟨first, term, p₁, _, hwalk, ⟨second, _, p₂, _, hprove,
            ⟨third, ⟨binders', terms⟩, p₃, _, hrest, ⟨rfl, rfl, rfl⟩, rfl⟩, rfl⟩, rfl⟩ := h
          exact ⟨first, term, p₁, second, p₂, third, terms, hwalk, accepts_prove hprove, hrest,
            by simp, rfl⟩

/-- The application of an uninterpreted function. Without arguments it is a mere symbol. -/
def application (callee : String) (terms : List Term) : Term :=
  if terms.isEmpty then .symbol callee else .apply callee terms

/-- What is asserted of a result because of where its function comes from. -/
def resultDefinition (origin : Origin) (callee : String) (terms : List Term) (result : Term) :
    List Command :=
  if origin = .uninterpreted then [.assert (.eq result (application callee terms))] else []

theorem accepts_assumeReturn {callee : String} {ret : RefinedTy} {binders : Bindings}
    {result : Term} {span : Option Span} {p p' : Progress} {commands : List Command} {t : Term}
    (h : Accepts (assumeReturn walk callee ret binders result span) p commands t p') :
    t = result ∧
      AssumesContract walk (binders.bindRefined ret result) result ret p commands p' := by
  have hassume : ∀ clause binder,
      Accepts (do
        inContext ("postcondition of `" ++ callee ++ "`")
          (assume walk (binders.insert binder result) result clause span)
        pure result) p commands t p' →
      t = result ∧ Assumes walk (binders.insert binder result) result clause p commands p' := by
    intro clause binder h
    simp only [accepts_bind_iff, accepts_inContext_iff, accepts_pure_iff] at h
    obtain ⟨first, _, _, _, hclause, ⟨rfl, rfl, rfl⟩, rfl⟩ := h
    refine ⟨rfl, ?_⟩
    rw [List.append_nil]
    exact accepts_assume hclause
  cases ret with
  | plain ty =>
      obtain ⟨rfl, rfl, rfl⟩ := accepts_pure_iff.1 h
      exact ⟨rfl, rfl, rfl⟩
  | refined ty refinement =>
      cases refinement with
      | bind binder =>
          obtain ⟨rfl, rfl, rfl⟩ := accepts_pure_iff.1 h
          exact ⟨rfl, rfl, rfl⟩
      | holds binder pred => exact hassume (.holds pred) binder h
      | equals binder value => exact hassume (.equals value) binder h

theorem accepts_checkResult {callee : String} {origin : Origin} {ret : RefinedTy}
    {binders : Bindings} {terms : List Term} {span : Option Span} {p p' : Progress}
    {commands : List Command} {t : Term}
    (h : Accepts (checkResult walk callee origin ret binders terms span) p commands t p') :
    ∃ sort rest name, SolverSort.of? ret.ty = some sort ∧
      name = (p.names.next sort.tag).1 ∧ t = .symbol name ∧
      AssumesContract walk (binders.bindRefined ret (.symbol name)) (.symbol name) ret
        ⟨(p.names.next sort.tag).2, { p.summary with fresh := p.summary.fresh + 1 }⟩ rest p' ∧
      commands = .declareConst name sort.display ::
        (resultDefinition origin callee terms (.symbol name) ++ rest) := by
  simp only [checkResult, accepts_bind_iff, accepts_located_iff] at h
  obtain ⟨_, name, p₁, second, hfresh, hrest, rfl⟩ := h
  obtain ⟨sort, hsort, hname, rfl, rfl⟩ := accepts_fresh hfresh
  unfold resultDefinition
  split at hrest
  · rename_i horigin
    simp only [assert, accepts_bind_iff, accepts_write_iff] at hrest
    obtain ⟨_, _, _, rest, ⟨rfl, rfl⟩, hassume, rfl⟩ := hrest
    obtain ⟨rfl, hcontract⟩ := accepts_assumeReturn hassume
    exact ⟨sort, rest, name, hsort, hname, rfl, hcontract, by rw [if_pos horigin]; rfl⟩
  · rename_i horigin
    obtain ⟨rfl, hcontract⟩ := accepts_assumeReturn hrest
    exact ⟨sort, second, name, hsort, hname, rfl, hcontract, by rw [if_neg horigin]; rfl⟩

/-- The favourable course of what follows the arguments of a call of a built-in operator. -/
def AppliesOperator (mode : Mode) (name : String) (ret : RefinedTy) (terms : List Term)
    (p : Progress) (commands : List Command) (t : Term) (p' : Progress) : Prop :=
  ∃ applied, Operator.apply name terms = .ok applied ∧
    match mode with
    | .full => commands = [] ∧ t = applied ∧ p' = p
    | .simple => ∃ sort var, SolverSort.of? ret.ty = some sort ∧
      var = (p.names.next sort.tag).1 ∧ t = .symbol var ∧
      commands = [.declareConst var sort.display, .assert (.eq (.symbol var) applied)] ∧
      p' = ⟨(p.names.next sort.tag).2, { p.summary with fresh := p.summary.fresh + 1 }⟩

theorem accepts_checkCall {env : Env} {mode : Mode} {locals : Bindings} {callee : Expr}
    {args : List Expr} {span : Option Span} {p p' : Progress} {commands : List Command} {t : Term}
    (h : Accepts (checkCall env walk mode locals callee args span) p commands t p') :
    ∃ name sig params ret first binders terms p₁ second,
      callee.shape = .var name ∧ env.get? name = some sig ∧
      sig.ty.ty.arrow? = some (params, ret) ∧ params.length = args.length ∧
      Accepts (checkArgs walk name span locals (params.zip args) ∅) p first (binders, terms) p₁ ∧
      commands = first ++ second ∧
      ((sig.origin = .builtin ∧ AppliesOperator mode name ret terms p₁ second t p') ∨
        (sig.origin ≠ .builtin ∧
          Accepts (checkResult walk name sig.origin ret binders terms span) p₁ second t p')) := by
  simp only [checkCall, accepts_bind_iff, accepts_ofOutcome_iff] at h
  obtain ⟨_, ⟨name, origin, params, ret⟩, _, _, ⟨rfl, hresolve, rfl⟩,
    ⟨first, ⟨binders, terms⟩, p₁, second, hargs, hrest, rfl⟩, rfl⟩ := h
  obtain ⟨hcallee, sig, hsig, rfl, harrow, hlength⟩ := resolveCall_eq_ok hresolve
  refine ⟨name, sig, params, ret, first, binders, terms, p₁, second, hcallee, hsig, harrow,
    hlength, hargs, rfl, ?_⟩
  simp only at hrest
  split at hrest
  · rename_i horigin
    refine .inl ⟨horigin, ?_⟩
    simp only [accepts_bind_iff, accepts_ofOutcome_iff] at hrest
    obtain ⟨_, applied, _, last, ⟨rfl, happly, rfl⟩, hmode, rfl⟩ := hrest
    have happlied := Outcome.located_eq_ok_iff.1 happly
    refine ⟨applied, happlied, ?_⟩
    cases mode with
    | full =>
        obtain ⟨rfl, rfl, rfl⟩ := accepts_pure_iff.1 hmode
        exact ⟨rfl, rfl, rfl⟩
    | simple =>
        simp only [assert, accepts_bind_iff, accepts_located_iff, accepts_write_iff,
          accepts_pure_iff] at hmode
        obtain ⟨_, var, _, _, hfresh, ⟨_, _, _, _, ⟨rfl, rfl⟩, ⟨rfl, rfl, rfl⟩, rfl⟩, rfl⟩ := hmode
        obtain ⟨sort, hsort, hvar, rfl, rfl⟩ := accepts_fresh hfresh
        exact ⟨sort, var, hsort, hvar, rfl, rfl, rfl⟩
  · rename_i horigin
    exact .inr ⟨horigin, hrest⟩

theorem accepts_checkExpr_cast {env : Env} {mode : Mode} {locals : Bindings} {ty : Ty}
    {expr : Expr} {target : RefinedTy} {span : Option Span} {p p' : Progress}
    {commands : List Command} {t : Term}
    (h : Accepts (checkExpr env walk mode locals ⟨ty, .cast expr target, span⟩) p commands t p') :
    ∃ first p₁ second, Accepts (walk mode locals expr) p first t p₁ ∧
      ProvesContract walk (locals.bindRefined target t) target p₁ second p' ∧
      commands = first ++ second := by
  simp only [checkExpr, accepts_bind_iff] at h
  obtain ⟨first, term, p₁, second, hwalk, hrest, rfl⟩ := h
  have hprove : ∀ clause binder,
      Accepts (do
        prove walk (locals.insert binder term) binder clause span
        pure term) p₁ second t p' →
      term = t ∧ Proves walk (locals.insert binder term) binder clause p₁ second p' := by
    intro clause binder h
    simp only [accepts_bind_iff, accepts_pure_iff] at h
    obtain ⟨_, _, _, _, hclause, ⟨rfl, rfl, rfl⟩, rfl⟩ := h
    refine ⟨rfl, ?_⟩
    rw [List.append_nil]
    exact accepts_prove hclause
  cases target with
  | plain target =>
      obtain ⟨rfl, rfl, rfl⟩ := accepts_pure_iff.1 hrest
      exact ⟨first, _, [], hwalk, ⟨rfl, rfl⟩, rfl⟩
  | refined target refinement =>
      cases refinement with
      | bind binder =>
          obtain ⟨rfl, rfl, rfl⟩ := accepts_pure_iff.1 hrest
          exact ⟨first, _, [], hwalk, ⟨rfl, rfl⟩, rfl⟩
      | holds binder pred =>
          obtain ⟨rfl, hclause⟩ := hprove (.holds pred) binder hrest
          exact ⟨first, p₁, second, hwalk, hclause, rfl⟩
      | equals binder value =>
          obtain ⟨rfl, hclause⟩ := hprove (.equals value) binder hrest
          exact ⟨first, p₁, second, hwalk, hclause, rfl⟩

theorem accepts_checkExpr_letIn {env : Env} {mode : Mode} {locals : Bindings} {ty : Ty}
    {name : String} {value body : Expr} {span : Option Span} {p p' : Progress}
    {commands : List Command} {t : Term}
    (h : Accepts (checkExpr env walk mode locals ⟨ty, .letIn name value body, span⟩)
      p commands t p') :
    ∃ sort first term p₁ second, SolverSort.of? value.ty = some sort ∧
      Accepts (walk .full locals value) p first term p₁ ∧
      Accepts (walk mode locals body) p₁ second t p' ∧
      commands = .declareConst name sort.display ::
        (first ++ .assert (.eq (.symbol name) term) :: second) := by
  simp only [checkExpr, assert, accepts_bind_iff, accepts_ofOutcome_iff, accepts_write_iff] at h
  obtain ⟨_, sort, _, _, ⟨rfl, hsort, rfl⟩, ⟨_, _, _, _, ⟨rfl, rfl⟩,
    ⟨first, term, _, _, hvalue, ⟨_, _, _, second, ⟨rfl, rfl⟩, hbody, rfl⟩, rfl⟩, rfl⟩, rfl⟩ := h
  refine ⟨sort, first, term, _, second, ?_, hvalue, hbody, rfl⟩
  exact SolverSort.of_eq_ok_iff.1 (Outcome.located_eq_ok_iff.1 hsort)

theorem accepts_checkExpr_leaf {env : Env} {mode : Mode} {locals : Bindings} {e : Expr}
    {p p' : Progress} {commands : List Command} {t : Term}
    (hleaf : (∃ name, e.shape = .var name) ∨ (∃ b, e.shape = .bool b) ∨ ∃ n, e.shape = .int n)
    (h : Accepts (checkExpr env walk mode locals e) p commands t p') :
    commands = [] ∧ locals.leaf? e = some t ∧ p' = p := by
  obtain ⟨ty, shape, span⟩ := e
  rcases hleaf with ⟨name, rfl⟩ | ⟨b, rfl⟩ | ⟨n, rfl⟩ <;>
    simpa [checkExpr, Expr.toTerm, Bindings.leaf?] using h

theorem not_accepts_checkExpr_ite {env : Env} {mode : Mode} {locals : Bindings} {ty : Ty}
    {test onTrue onFalse : Expr} {span : Option Span} {p p' : Progress}
    {commands : List Command} {t : Term} :
    ¬ Accepts (checkExpr env walk mode locals ⟨ty, .ite test onTrue onFalse, span⟩)
      p commands t p' := by
  simp [checkExpr]

theorem not_accepts_checkExpr_lambda {env : Env} {mode : Mode} {locals : Bindings} {ty : Ty}
    {params : List String} {body : Expr} {span : Option Span} {p p' : Progress}
    {commands : List Command} {t : Term} :
    ¬ Accepts (checkExpr env walk mode locals ⟨ty, .lambda params body, span⟩)
      p commands t p' := by
  simp [checkExpr]

/-- The part fails on every course but its favourable one. -/
def StrictPart (part : CheckM α) : Prop :=
  ∀ p, (part p : Dialogue (Outcome α × Progress)).Strict

theorem strict_bind {part : CheckM α} {f : α → CheckM β} (h : StrictPart part)
    (hf : ∀ a, StrictPart (f a)) : StrictPart (part >>= f) := by
  intro p
  rw [bind_apply]
  refine Dialogue.Strict.bind (h p) ?_ ?_
  · rintro ⟨failure | a, p'⟩
    · trivial
    · exact hf a p'
  · rintro ⟨failure | a, p'⟩ hr
    · exact fun b h => nomatch h
    · exact absurd rfl (hr a)

theorem strict_pure (a : α) : StrictPart (pure a) := fun _ => trivial

theorem strict_ofOutcome (outcome : Outcome α) : StrictPart (ofOutcome outcome) := fun _ => trivial

theorem strict_note (text : String) : StrictPart (note text) := fun _ => trivial

theorem strict_nextName (tag : Char) : StrictPart (nextName tag) := fun _ => trivial

theorem strict_updateSummary (f : Summary → Summary) : StrictPart (updateSummary f) :=
  fun _ => trivial

theorem strict_write {command : Command} (hplain : command.IsPlain) :
    StrictPart (write command) :=
  fun _ => ⟨hplain, trivial, fun _ _ h => nomatch h⟩

theorem strict_adapt {part : CheckM α} (h : StrictPart part) (f : Failure → Failure) :
    StrictPart (part.adapt f) := by
  intro p
  rw [adapt_apply]
  refine Dialogue.Strict.bind (h p) (fun _ => trivial) ?_
  rintro ⟨failure | a, p'⟩ hr
  · exact fun b h => nomatch h
  · exact absurd rfl (hr a)

theorem strict_inSolverScope {body : CheckM α} (h : StrictPart body) :
    StrictPart (inSolverScope body) := by
  intro p
  rw [inSolverScope_apply]
  refine ⟨trivial, ?_, fun _ _ h => nomatch h⟩
  refine Dialogue.Strict.bind (h p) ?_ ?_
  · rintro ⟨failure | a, p'⟩
    · exact ⟨trivial, trivial, fun _ _ h => nomatch h⟩
    · exact ⟨trivial, trivial, fun _ _ h => nomatch h⟩
  · rintro ⟨failure | a, p'⟩ hr outcome
    · exact fun _ h => nomatch h
    · exact absurd rfl (hr a)

theorem strict_fresh (ty : Ty) : StrictPart (fresh ty) :=
  strict_bind (strict_ofOutcome _) fun _ => strict_bind (strict_nextName _) fun _ =>
    strict_bind (strict_write trivial) fun _ =>
      strict_bind (strict_updateSummary _) fun _ => strict_pure _

theorem strict_refute (goal : Term) (obligation : String) (span : Option Span) :
    StrictPart (refute goal obligation span) := by
  refine strict_bind (strict_write trivial) fun _ p => ⟨?_, ?_⟩
  · trivial
  · intro outcome hne
    rcases outcome with failure | answer
    · exact fun _ h => nomatch h
    · have hanswer : answer ≠ "unsat" := fun h => hne (h ▸ rfl)
      change Dialogue.Doomed (Dialogue.note _ _)
      simp only [if_neg hanswer]
      exact fun _ h => nomatch h

/-- Whatever a walk is put together from, it fails unless it takes its favourable course. -/
theorem strict_of_part {names : String → Prop} {part : CheckM α} (h : Part names part) :
    StrictPart part := by
  induction h with
  | answer outcome => exact strict_ofOutcome outcome
  | note text => exact strict_note text
  | fresh ty => exact strict_fresh ty
  | declare hname sort => exact strict_write trivial
  | assert term => exact strict_write trivial
  | refute goal obligation span => exact strict_refute goal obligation span
  | andThen _ _ ih ihf => exact strict_bind ih ihf
  | adapt _ f _ ih => exact strict_adapt ih f
  | scope _ ih => exact strict_inSolverScope ih

theorem strict_runDialogue (env : Env) (e : Expr) : (runDialogue env e).Strict := by
  have hpart : Part (fun _ => True) (inSolverScope do let _ ← check env .full ∅ e) :=
    part_run (fun _ _ => trivial) (fun _ _ => trivial)
  exact strict_of_part hpart {}

end Checker

end ContractCheck
