import ContractCheck.Proofs.Courses

/-!
How a walk ends that does not prove an obligation. An answer other than `unsat` to a check, or none,
is a failure, and after a failure a walk does nothing but leave the scopes that it is in
(`Dialogue.Unwinds`). So a walk gives up at the first such answer (`Checker.givesUp_of_part`), and
the kind of its failure tells what was read.
-/

namespace ContractCheck

/-- A failure of this kind. -/
def Outcome.FailsWith {α : Type} (fault : Fault) (outcome : Outcome α) : Prop :=
  ∃ failure, outcome = .error failure ∧ failure.fault = fault

namespace Dialogue

variable {β : Type}

/-- So many scopes are left and nothing else is done, as long as lines can be sent. What the
dialogue ends in is as `ends` says. -/
inductive Unwinds (ends : β → Prop) : Nat → Dialogue β → Prop where
  | done {b : β} (h : ends b) : Unwinds ends 0 (.done b)
  | note {height : Nat} (text : String) {next : Dialogue β} (h : Unwinds ends height next) :
      Unwinds ends height (.note text next)
  | pop {height : Nat} {next : Outcome Unit → Dialogue β}
      (h : Unwinds ends height (next (.ok ()))) : Unwinds ends (height + 1) (.act .pop next)

/-- In so many open scopes, as long as lines can be sent, the dialogue unwinds once a check has
another answer than `unsat`. What it then ends in depends on the kind of the failure. -/
inductive GivesUp (ends : Fault → β → Prop) : Nat → Dialogue β → Prop where
  | done (b : β) : GivesUp ends 0 (.done b)
  | note {height : Nat} (text : String) {next : Dialogue β} (h : GivesUp ends height next) :
      GivesUp ends height (.note text next)
  | write {height : Nat} (c : Command) (hplain : c.IsPlain) {next : Outcome Unit → Dialogue β}
      (h : GivesUp ends height (next (.ok ()))) : GivesUp ends height (.act (.write c) next)
  | push {height : Nat} {next : Outcome Unit → Dialogue β}
      (h : GivesUp ends (height + 1) (next (.ok ()))) : GivesUp ends height (.act .push next)
  | pop {height : Nat} {next : Outcome Unit → Dialogue β}
      (h : GivesUp ends height (next (.ok ()))) : GivesUp ends (height + 1) (.act .pop next)
  | checkSat {height : Nat} {next : Outcome String → Dialogue β}
      (hunsat : GivesUp ends height (next (.ok "unsat")))
      (hrefuted : ∀ answer, answer ≠ "unsat" →
        Unwinds (ends (.refuted answer)) height (next (.ok answer)))
      (hfailed : ∀ failure, Unwinds (ends failure.fault) height (next (.error failure))) :
      GivesUp ends height (.checkSat next)

theorem Unwinds.givesUp {ends : β → Prop} {ends' : Fault → β → Prop} {height : Nat}
    {d : Dialogue β} (h : d.Unwinds ends height) : d.GivesUp ends' height := by
  induction h with
  | done _ => exact .done _
  | note text _ ih => exact .note text ih
  | pop _ ih => exact .pop ih

end Dialogue

namespace Checker

variable {α β : Type}

/-- Whatever goes on with what the part ends in, and unwinds if this is a failure, gives up with the
part before it. -/
def GivesUp (part : CheckM α) : Prop :=
  ∀ {β : Type} (ends : Fault → β → Prop) (height : Nat)
    (next : Outcome α × Progress → Dialogue β),
    (∀ failure p, (next (.error failure, p)).Unwinds (ends failure.fault) height) →
    (∀ a p, (next (.ok a, p)).GivesUp ends height) →
    ∀ p, (Dialogue.bind (part p) next).GivesUp ends height

theorem givesUp_ofOutcome (outcome : Outcome α) : GivesUp (ofOutcome outcome) := by
  intro β ends height next herr hok p
  cases outcome with
  | error failure => exact (herr failure p).givesUp
  | ok a => exact hok a p

theorem givesUp_note (text : String) : GivesUp (note text) :=
  fun _ _ _ _ hok p => .note text (hok () p)

theorem givesUp_nextName (tag : Char) : GivesUp (nextName tag) :=
  fun _ _ _ _ hok _ => hok _ _

theorem givesUp_updateSummary (f : Summary → Summary) : GivesUp (updateSummary f) :=
  fun _ _ _ _ hok _ => hok () _

theorem givesUp_write (c : Command) (h : c.IsPlain) : GivesUp (write c) :=
  fun _ _ _ _ hok p => .write c h (hok () p)

theorem givesUp_bind {part : CheckM α} {f : α → CheckM β} (h : GivesUp part)
    (hf : ∀ a, GivesUp (f a)) : GivesUp (part >>= f) := by
  intro γ ends height next herr hok p
  rw [bind_apply, Dialogue.bind_assoc]
  exact h ends height _ herr (fun a p' => hf a ends height next herr hok p') p

/-- More is said of a failure, but its kind stays. -/
theorem givesUp_adapt {part : CheckM α} (h : GivesUp part) {f : Failure → Failure}
    (hf : ∀ failure, (f failure).fault = failure.fault) : GivesUp (part.adapt f) := by
  intro γ ends height next herr hok p
  rw [adapt_apply, Dialogue.bind_assoc]
  refine h ends height (fun r => next (r.1.mapError f, r.2)) (fun failure p' => ?_) hok p
  rw [← hf failure]
  exact herr (f failure) p'

/-- A scope is one more to leave. -/
theorem givesUp_inSolverScope {body : CheckM α} (h : GivesUp body) :
    GivesUp (inSolverScope body) := by
  intro γ ends height next herr hok p
  rw [inSolverScope_apply]
  refine .push ?_
  change Dialogue.GivesUp ends (height + 1) (Dialogue.bind (Dialogue.bind (body p) _) next)
  rw [Dialogue.bind_assoc]
  exact h ends (height + 1) _ (fun failure p' => .pop (herr failure p'))
    (fun a p' => .pop (hok a p')) p

theorem givesUp_fresh (ty : Ty) : GivesUp (fresh ty) :=
  givesUp_bind (givesUp_ofOutcome _) fun _ => givesUp_bind (givesUp_nextName _) fun _ =>
    givesUp_bind (givesUp_write (.declareConst _ _) trivial) fun _ =>
      givesUp_bind (givesUp_updateSummary _) fun _ => givesUp_ofOutcome (.ok _)

/-- An answer other than `unsat` becomes the failure that carries it. -/
theorem givesUp_refute (goal : Term) (obligation : String) (span : Option Span) :
    GivesUp (refute goal obligation span) := by
  intro γ ends height next herr hok p
  refine .write (.assert (.not goal)) trivial (.checkSat (.note _ (hok () _)) ?_ ?_)
  · intro answer hanswer
    refine .note _ ?_
    change Dialogue.Unwinds _ height (Dialogue.bind ((if answer = "unsat" then
      updateSummary _ else ofOutcome _ : CheckM Unit) p) next)
    rw [if_neg hanswer]
    exact herr (.locate (.refuted answer obligation) span) p
  · exact fun failure => herr failure p

theorem givesUp_of_part {names : String → Prop} {part : CheckM α} (h : Part names part) :
    GivesUp part := by
  induction h with
  | answer outcome => exact givesUp_ofOutcome outcome
  | note text => exact givesUp_note text
  | fresh ty => exact givesUp_fresh ty
  | declare _ sort => exact givesUp_write (.declareConst _ sort) trivial
  | assert term => exact givesUp_write (.assert term) trivial
  | refute goal obligation span => exact givesUp_refute goal obligation span
  | andThen _ _ ih ihf => exact givesUp_bind ih ihf
  | adapt _ _ hf ih => exact givesUp_adapt ih hf
  | scope _ ih => exact givesUp_inSolverScope ih

theorem givesUp_runDialogue (env : Env) (e : Expr) :
    (runDialogue env e).GivesUp (fun fault result => Outcome.FailsWith fault result.1) 0 := by
  have hpart : Part (fun _ => True) (inSolverScope do let _ ← check env .full ∅ e) :=
    part_run (fun _ _ => trivial) fun _ _ => trivial
  have hrun := givesUp_of_part hpart (fun fault result => Outcome.FailsWith fault result.1) 0 .done
    (fun failure _ => .done ⟨failure, rfl, rfl⟩) (fun _ _ => .done _) {}
  rwa [Dialogue.bind_done] at hrun

end Checker

end ContractCheck
