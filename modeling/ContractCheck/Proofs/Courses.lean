import ContractCheck.Proofs.Replies
import ContractCheck.Proofs.Walk

/-!
All courses of a dialogue, whatever the solver does. A rule keeps a state beside the dialogue: it
says which deeds are allowed in a state, and what the state is once a deed has had its outcome. A
dialogue that obeys a rule does only allowed deeds, and ends in a state of which its postcondition
holds (`Dialogue.Obeys`). A session that carries the dialogue out then keeps every invariant that
allowed deeds keep (`Session.hold_obeys`). Every walk is tidy: it leaves each scope that it opens
and no other, however it ends (`Checker.tidy_of_part`).
-/

namespace ContractCheck

/-- Which deeds are allowed in a state, and the state after a deed with its outcome. -/
structure Rule (σ : Type) where
  allows : σ → Deed → Prop
  after : σ → Deed → Outcome Unit → σ

/-- All deeds are allowed. -/
def Rule.free : Rule Unit := ⟨fun _ _ => True, fun _ _ _ => ()⟩

namespace Dialogue

variable {α β σ : Type} {rule : Rule σ}

/-- On every course all deeds are allowed, and the end is as the postcondition says. -/
def Obeys (rule : Rule σ) (post : α → σ → Prop) : Dialogue α → σ → Prop
  | .done a, st => post a st
  | .note _ next, st => next.Obeys rule post st
  | .act deed next, st =>
    rule.allows st deed ∧ ∀ outcome, (next outcome).Obeys rule post (rule.after st deed outcome)
  | .checkSat next, st => ∀ outcome, (next outcome).Obeys rule post st

theorem obeys_free (d : Dialogue α) : d.Obeys Rule.free (fun _ _ => True) () := by
  induction d with
  | done a => trivial
  | note text next ih => exact ih
  | act deed next ih => exact ⟨trivial, ih⟩
  | checkSat next ih => exact ih

theorem Obeys.mono {post post' : α → σ → Prop} (hpost : ∀ a st, post a st → post' a st)
    {d : Dialogue α} {st : σ} (h : d.Obeys rule post st) : d.Obeys rule post' st := by
  induction d generalizing st with
  | done a => exact hpost a st h
  | note text next ih => exact ih h
  | act deed next ih => exact ⟨h.1, fun outcome => ih outcome (h.2 outcome)⟩
  | checkSat next ih => exact fun outcome => ih outcome (h outcome)

theorem Obeys.bind {post : α → σ → Prop} {post' : β → σ → Prop} {f : α → Dialogue β}
    {d : Dialogue α} {st : σ} (h : d.Obeys rule post st)
    (hf : ∀ a st', post a st' → (f a).Obeys rule post' st') : (d >>= f).Obeys rule post' st := by
  induction d generalizing st with
  | done a => exact hf a st h
  | note text next ih => exact ih h
  | act deed next ih => exact ⟨h.1, fun outcome => ih outcome (h.2 outcome)⟩
  | checkSat next ih => exact fun outcome => ih outcome (h outcome)

end Dialogue

namespace Checker

variable {α β σ : Type} {rule : Rule σ} {st : σ} {ok : α → σ → Prop} {err : σ → Prop}

/-- On every course of a part of a walk all deeds are allowed. An answer comes in a state as `ok`
says, and a failure in a state as `err` says. -/
def Ensures (rule : Rule σ) (st : σ) (part : CheckM α) (ok : α → σ → Prop) (err : σ → Prop) :
    Prop :=
  ∀ p : Progress, (part p : Dialogue (Outcome α × Progress)).Obeys rule (fun r st' =>
    match r.1 with
    | .ok a => ok a st'
    | .error _ => err st') st

theorem Ensures.mono {ok' : α → σ → Prop} {err' : σ → Prop} {part : CheckM α}
    (h : Ensures rule st part ok err) (hok : ∀ a st', ok a st' → ok' a st')
    (herr : ∀ st', err st' → err' st') : Ensures rule st part ok' err' := by
  refine fun p => (h p).mono ?_
  rintro ⟨failure | a, p'⟩ st' hpost
  · exact herr st' hpost
  · exact hok a st' hpost

theorem ensures_ofOutcome {outcome : Outcome α} (hok : ∀ a, outcome = .ok a → ok a st)
    (herr : ∀ failure, outcome = .error failure → err st) :
    Ensures rule st (ofOutcome outcome) ok err := by
  intro p
  cases outcome with
  | error failure => exact herr failure rfl
  | ok a => exact hok a rfl

theorem ensures_pure {a : α} (h : ok a st) : Ensures rule st (pure a) ok err := fun _ => h

theorem ensures_note {text : String} {ok : Unit → σ → Prop} (h : ok () st) :
    Ensures rule st (note text) ok err := fun _ => h

theorem ensures_updateSummary {f : Summary → Summary} {ok : Unit → σ → Prop} (h : ok () st) :
    Ensures rule st (updateSummary f) ok err := fun _ => h

theorem ensures_nextName {tag : Char} {ok : String → σ → Prop}
    (h : ∀ names : FreshNames, ok (names.next tag).1 st) :
    Ensures rule st (nextName tag) ok err := fun p => h p.names

theorem ensures_write {command : Command} {ok : Unit → σ → Prop}
    (hallowed : rule.allows st (.write command))
    (hok : ok () (rule.after st (.write command) (.ok ())))
    (herr : ∀ failure, err (rule.after st (.write command) (.error failure))) :
    Ensures rule st (write command) ok err := by
  refine fun p => ⟨hallowed, fun outcome => ?_⟩
  cases outcome with
  | error failure => exact herr failure
  | ok u => exact hok

/-- What the first part answers is as `mid` says. -/
theorem ensures_bind (mid : α → σ → Prop) {ok : β → σ → Prop} {part : CheckM α}
    {f : α → CheckM β} (h : Ensures rule st part mid err)
    (hf : ∀ a st', mid a st' → Ensures rule st' (f a) ok err) :
    Ensures rule st (part >>= f) ok err := by
  intro p
  rw [bind_apply]
  refine (h p).bind ?_
  rintro ⟨failure | a, p'⟩ st' hpost
  · exact hpost
  · exact hf a st' hpost p'

theorem ensures_adapt {part : CheckM α} (h : Ensures rule st part ok err) (f : Failure → Failure) :
    Ensures rule st (part.adapt f) ok err := by
  intro p
  rw [adapt_apply]
  refine (h p).bind ?_
  rintro ⟨failure | a, p'⟩ st' hpost <;> exact hpost

/-- A scope is left after its body, whatever that ended in. -/
theorem ensures_inSolverScope {ok' : α → σ → Prop} {err' : σ → Prop} {body : CheckM α}
    (hpush : rule.allows st .push)
    (hrefused : ∀ failure, err (rule.after st .push (.error failure)))
    (hbody : Ensures rule (rule.after st .push (.ok ())) body ok' err')
    (hok : ∀ a st', ok' a st' → rule.allows st' .pop ∧ ok a (rule.after st' .pop (.ok ())) ∧
      ∀ failure, err (rule.after st' .pop (.error failure)))
    (herr : ∀ st', err' st' → rule.allows st' .pop ∧ ∀ outcome, err (rule.after st' .pop outcome)) :
    Ensures rule st (inSolverScope body) ok err := by
  intro p
  rw [inSolverScope_apply]
  refine ⟨hpush, fun outcome => ?_⟩
  cases outcome with
  | error failure => exact hrefused failure
  | ok u =>
      refine (hbody p).bind ?_
      rintro ⟨failure | a, p'⟩ st' hpost
      · obtain ⟨hpop, hleft⟩ := herr st' hpost
        exact ⟨hpop, hleft⟩
      · obtain ⟨hpop, hleft, hfailed⟩ := hok a st' hpost
        refine ⟨hpop, fun leaving => ?_⟩
        cases leaving with
        | error failure => exact hfailed failure
        | ok u => exact hleft

theorem ensures_requireBool {pred : Expr} {span : Option Span} {ok : Unit → σ → Prop}
    (hok : ok () st) (herr : err st) : Ensures rule st (requireBool pred span) ok err := by
  unfold requireBool
  split
  · exact ensures_pure hok
  · exact ensures_ofOutcome (fun _ h => nomatch h) fun _ _ => herr

theorem ensures_fresh {ty : Ty} {ok : String → σ → Prop} (herr : err st)
    (hdeclare : ∀ (sort : SolverSort) (names : FreshNames), SolverSort.of? ty = some sort →
      let command := Command.declareConst (names.next sort.tag).1 sort.display
      rule.allows st (.write command) ∧
        ok (names.next sort.tag).1 (rule.after st (.write command) (.ok ())) ∧
        ∀ failure, err (rule.after st (.write command) (.error failure))) :
    Ensures rule st (fresh ty) ok err := by
  have hsort : Ensures rule st (ofOutcome (SolverSort.of ty))
      (fun sort st' => SolverSort.of? ty = some sort ∧ st' = st) err :=
    ensures_ofOutcome (fun sort h => ⟨SolverSort.of_eq_ok_iff.1 h, rfl⟩) fun _ _ => herr
  refine ensures_bind _ hsort ?_
  rintro sort _ ⟨hof, rfl⟩
  refine ensures_bind (fun name st' => st' = _ ∧ ∃ names : FreshNames,
    name = (names.next sort.tag).1) (ensures_nextName fun names => ⟨rfl, names, rfl⟩) ?_
  rintro _ _ ⟨rfl, names, rfl⟩
  obtain ⟨hallowed, hok, hfailed⟩ := hdeclare sort names hof
  refine ensures_bind (fun _ st' => ok (names.next sort.tag).1 st')
    (ensures_write hallowed hok hfailed) fun _ st' h => ?_
  exact ensures_bind (fun _ st' => ok (names.next sort.tag).1 st')
    (ensures_updateSummary h) fun _ _ h => ensures_pure h

/-- The answer to the check decides between an obligation that counts and a failure. -/
theorem ensures_refute {goal : Term} {obligation : String} {span : Option Span}
    {ok : Unit → σ → Prop} (hallowed : rule.allows st (.write (.assert (.not goal))))
    (hok : ok () (rule.after st (.write (.assert (.not goal))) (.ok ())))
    (herr : ∀ outcome, err (rule.after st (.write (.assert (.not goal))) outcome)) :
    Ensures rule st (refute goal obligation span) ok err := by
  refine fun p => ⟨hallowed, fun outcome => ?_⟩
  rcases outcome with failure | u
  · exact herr _
  intro answered
  rcases answered with failure | answer
  · exact herr _
  change Dialogue.Obeys rule _ (Dialogue.note _ _) _
  split
  · exact hok
  · exact herr _

end Checker

/-! ### Tidy walks -/

/-- Open scopes are counted. Only a scope that was opened before is left, and what is declared has
one of the given names. -/
def Rule.tidy (names : String → Prop) : Rule Nat where
  allows
    | _, .write command => command.IsPlain ∧ ∀ name, command.declared? = some name → names name
    | _, .push => True
    | height, .pop => 0 < height
  after
    | height, .push, .ok () => height + 1
    | height, .pop, _ => height - 1
    | height, _, _ => height

/-- A name that may be given to a fresh variable. -/
def IsFresh (name : String) : Prop :=
  ∃ (sort : SolverSort) (index : Nat), name = FreshNames.nameOf sort.tag index

namespace Checker

variable {α : Type} {names : String → Prop}

theorem tidy_of_part (hfresh : ∀ name, IsFresh name → names name) {part : CheckM α}
    (h : Part names part) (height : Nat) :
    Ensures (Rule.tidy names) height part (fun _ height' => height' = height)
      (fun height' => height' = height) := by
  induction h generalizing height with
  | answer outcome => exact ensures_ofOutcome (fun _ _ => rfl) fun _ _ => rfl
  | note text => exact ensures_note rfl
  | fresh ty =>
      refine ensures_fresh rfl fun sort issued _ => ⟨⟨trivial, ?_⟩, rfl, fun _ => rfl⟩
      rintro name ⟨⟩
      exact hfresh _ ⟨sort, _, rfl⟩
  | declare hname sort =>
      refine ensures_write ⟨trivial, ?_⟩ rfl fun _ => rfl
      rintro name ⟨⟩
      exact hname
  | assert term => exact ensures_write ⟨trivial, fun _ h => nomatch h⟩ rfl fun _ => rfl
  | refute goal obligation span =>
      exact ensures_refute ⟨trivial, fun _ h => nomatch h⟩ rfl fun _ => rfl
  | andThen _ _ ih ihf =>
      refine ensures_bind _ (ih height) ?_
      rintro a _ rfl
      exact ihf a _
  | adapt _ f _ ih => exact ensures_adapt (ih height) f
  | scope _ ih =>
      refine ensures_inSolverScope trivial (fun _ => rfl) (ih (height + 1)) ?_ ?_
      · rintro a _ rfl
        exact ⟨Nat.succ_pos _, rfl, fun _ => rfl⟩
      · rintro _ rfl
        exact ⟨Nat.succ_pos _, fun _ => rfl⟩

/-- The dialogue of a run is tidy. -/
theorem tidy_run {env : Env} {e : Expr} (hfresh : ∀ name, IsFresh name → names name)
    (henv : ∀ name ∈ env.letNames, names name) (he : ∀ name ∈ e.letNames, names name)
    (height : Nat) :
    (runDialogue env e).Obeys (Rule.tidy names) (fun _ height' => height' = height) height := by
  refine (tidy_of_part hfresh (part_run henv he) height {}).mono ?_
  rintro ⟨failure | u, p⟩ height' h <;> exact h

end Checker

namespace Session

variable {τ ω α σ : Type} [Transport τ ω] {rule : Rule σ}

/-- What notes, checks and allowed deeds keep, a dialogue that obeys the rule keeps. -/
theorem hold_obeys {I : σ → Session τ ω → Prop}
    (hnote : ∀ st s text, I st s → I st (s.record .debug text))
    (hdeed : ∀ st s deed, I st s → rule.allows st deed →
      I (rule.after st deed (perform deed s).1) (perform deed s).2)
    (hcheck : ∀ st s, I st s → I st (checkSat s).2) {d : Dialogue α} {post : α → σ → Prop}
    {st : σ} (hd : d.Obeys rule post st) {s : Session τ ω} (hs : I st s) :
    ∃ st', I st' (hold d s).2 ∧ post (hold d s).1 st' := by
  induction d generalizing st s with
  | done a => exact ⟨st, hs, hd⟩
  | note text next ih => exact ih hd (hnote st s text hs)
  | act deed next ih => exact ih _ (hd.2 _) (hdeed st s deed hs hd.1)
  | checkSat next ih => exact ih _ (hd _) (hcheck st s hs)

end Session

end ContractCheck
