import ContractCheck.Proofs.Consistency

/-!
Obligations leave no trace. In a session that a host can reach, whatever is done in a scope of its
own changes neither the depth nor the declarations in force, and the solver's scopes are as before
unless it could not be told to leave one (`Session.leaves_no_trace`).
-/

namespace ContractCheck

namespace Session

variable {τ ω α : Type} [Transport τ ω]

/-- What may be done in a scope: operations in any order and nesting, each chosen from what the
session was like and from what the operations before it ended in. Lines that concern scopes are not
sent as they are, and the solver is not stopped. -/
inductive Composed : {α : Type} → SessionM τ ω α → Prop where
  | answer {α : Type} (outcome : Outcome α) : Composed fun s => (outcome, s)
  | look {α : Type} {f : Session τ ω → SessionM τ ω α} (hf : ∀ s, Composed (f s)) :
      Composed fun s => f s s
  | andThen {α β : Type} {op : SessionM τ ω α} {f : Outcome α → SessionM τ ω β}
      (h : Composed op) (hf : ∀ outcome, Composed (f outcome)) :
      Composed fun s => f (op s).1 (op s).2
  | start : Composed Session.start
  | read : Composed Session.read
  | sync : Composed Session.sync
  | checkSat : Composed Session.checkSat
  | write {line : String} (hline : IsFlat line) : Composed (Session.write line)
  | declareGlobal (key : String) {line : String} (hline : IsFlat line) :
      Composed (Session.declareGlobal key line)
  | prove (env : Env) (e : Expr) : Composed (Session.prove env e)
  | pushPop {α : Type} {body : SessionM τ ω α} (h : Composed body) :
      Composed (Session.pushPop body)

theorem Composed.keeps {body : SessionM τ ω α} (h : Composed body) : Keeps body := by
  induction h with
  | answer outcome => exact keeps_answer outcome
  | look _ ih => exact fun s hs hbounded => ih s s hs hbounded
  | andThen _ _ ih ihf =>
      intro s hs hbounded
      have hop := ih s hs hbounded
      exact hop.trans (ihf _ _ (hop.isStarted.trans hs) (hop.bounded hbounded))
  | start => exact keeps_start
  | read => exact keeps_read
  | sync => exact keeps_sync
  | checkSat => exact keeps_checkSat
  | write hline => exact keeps_write hline
  | declareGlobal key hline => exact keeps_declareGlobal key hline
  | prove env e => exact keeps_prove env e
  | pushPop _ ih => exact keeps_pushPop ih

/-- What it means that nothing of a body remains that is run in a scope of its own. -/
structure Untraced (body : SessionM τ ω α) (s : Session τ ω) : Prop where
  /-- If the scope cannot be opened, the body is not run and nothing of the session is changed
  but its log, and what the failed attempt did to the channel. -/
  refused : ∀ failure s₁, push s = (.error failure, s₁) → pushPop body s = (.error failure, s₁) ∧
    s₁.isStarted = s.isStarted ∧
    s₁ = { s with channel := s₁.channel, world := s₁.world, log := s₁.log }
  /-- The body's failure comes first, then that of leaving the scope. -/
  entered : ∀ s₁, push s = (.ok (), s₁) →
    pushPop body s = (Outcome.settle (body s₁).1 (pop (body s₁).2).1, (pop (body s₁).2).2)
  restored : s.Restored (pushPop body s).2

theorem untraced_of_keeps {body : SessionM τ ω α} (hbody : Keeps body) {s : Session τ ω}
    (hs : s.Bounded) : Untraced body s where
  refused failure s₁ h := by
    have hsaid := said_of_push_error h
    rw [pushPop_apply, h]
    refine ⟨rfl, hsaid.started, ?_⟩
    have htranscript : s₁.transcript = s.transcript := by
      refine Array.toList_inj.1 ?_
      rw [hsaid.transcript, List.append_nil]
    rw [← htranscript, ← hsaid.depth, ← hsaid.declared]
  entered s₁ h := by
    rw [pushPop_apply, h]
  restored := restored_pushPop hbody hs

end Session

namespace Checker

variable {τ ω α β : Type} [Transport τ ω]

/-- A part of a walk as an operation of the session. -/
def inSession (part : CheckM α) (p : Progress) : SessionM τ ω α := fun s =>
  let (outcome, c) := perform part ⟨s, p⟩
  (outcome, c.session)

theorem inSession_note (text : String) (f : Unit → CheckM α) (p : Progress) (s : Session τ ω) :
    inSession (note text >>= f) p s = inSession (f ()) p (s.record .debug text) := by
  unfold inSession perform
  rw [bind_apply]
  rfl

theorem inSession_inSolverScope (body : CheckM α) (p : Progress) :
    (inSession (inSolverScope body) p : SessionM τ ω α) =
      Session.pushPop (inSession body p) := by
  funext s
  rw [Session.pushPop_apply]
  unfold inSession perform
  rw [inSolverScope_apply]
  simp only [Session.hold, Session.perform]
  rcases hpush : Session.push s with ⟨failure | u, s₁⟩
  · rfl
  · simp only
    rw [Dialogue.bind_eq, Session.hold_bind]
    rfl

/-- A part of a walk leaves the scopes that it opens and declares no globals. -/
theorem opened_inSession {part : CheckM α} (h : Part (fun _ => True) part) (p : Progress)
    {s : Session τ ω} (hs : s.Bounded) : s.Opened 0 (inSession part p s).2 := by
  have htidy := tidy_of_part (fun _ _ => trivial) h 0 p
  obtain ⟨height, hopened, hpost⟩ := Session.opened_hold htidy hs (.refl s)
  have hheight : height = 0 := by
    rcases hr : (Session.hold (part p) s).1 with ⟨failure | a, p'⟩ <;> rwa [hr] at hpost
  rwa [hheight] at hopened

theorem part_checkWithin_trivial (env : Env) (depth : Nat) (mode : Mode) (locals : Bindings)
    (e : Expr) : Part (fun _ => True) (checkWithin env depth mode locals e) :=
  part_checkWithin (fun _ _ => trivial) depth mode locals e fun _ _ => trivial

/-- How an obligation is stated. -/
def statement (binder : String) : Clause → String
  | .holds pred => pred.display
  | .equals value => binder ++ " == " ++ value.display

/-- What is done in the scope of an obligation. -/
def obligation (walk : Walk) (locals : Bindings) (binder : String) (clause : Clause)
    (span : Option Span) : CheckM Unit :=
  match clause with
  | .holds pred => do
    let goal ← walk .full locals pred
    refute goal (statement binder clause) span
  | .equals value => do
    let _ ← ofOutcome ((SolverSort.of value.ty).located (value.span.or span))
    let term ← walk .full locals value
    refute (.eq (locals.resolve binder) term) (statement binder clause) span

theorem prove_of_isScalar {walk : Walk} {locals : Bindings} {binder : String} {clause : Clause}
    {span : Option Span} (h : clause.IsScalar) : prove walk locals binder clause span =
      (note ("proving `" ++ statement binder clause ++ "`") >>= fun _ =>
        inSolverScope (obligation walk locals binder clause span)) := by
  cases clause with
  | holds pred =>
      have hbool : requireBool pred span = pure () := if_pos h
      rw [prove, hbool]
      rfl
  | equals value => rfl

theorem keeps_obligation (env : Env) (depth : Nat) (locals : Bindings) (binder : String)
    (clause : Clause) (span : Option Span) (p : Progress) : Session.Keeps
      (inSession (obligation (checkWithin env depth) locals binder clause span) p :
        SessionM τ ω Unit) := by
  have hpart : Part (fun _ => True)
      (obligation (checkWithin env depth) locals binder clause span) := by
    cases clause with
    | holds pred =>
        exact (part_checkWithin_trivial env depth .full locals pred).andThen fun _ => .refute _ _ _
    | equals value =>
        refine (Part.answer _).andThen fun _ => ?_
        exact (part_checkWithin_trivial env depth .full locals value).andThen fun _ => .refute _ _ _
  exact fun _ _ hs => (opened_inSession hpart p hs).kept

end Checker

namespace Session

variable {τ ω : Type} [Transport τ ω]

/-- Whatever is done in a scope of its own, what a walk does and what runs do leaves no trace in the
session's count of scopes, and the first two leave none in its declarations. -/
structure LeavesNoTrace (s : Session τ ω) : Prop where
  pushPop : ∀ {α : Type} {body : SessionM τ ω α}, Composed body → Untraced body s
  /-- To prove a clause is to note it and to carry its obligation out in a scope of its own. -/
  obligation : ∀ (env : Env) (depth : Nat) (locals : Bindings) (binder : String) (clause : Clause)
    (span : Option Span) (p : Progress), clause.IsScalar → ∃ text,
      let body : SessionM τ ω Unit := Checker.inSession
        (Checker.obligation (Checker.checkWithin env depth) locals binder clause span) p
      Checker.inSession
          (Checker.prove (Checker.checkWithin env depth) locals binder clause span) p s =
        Session.pushPop body (s.record .debug text) ∧ Untraced body (s.record .debug text)
  /-- A clause that cannot be proved is refused before anything is done. -/
  unscalar : ∀ (env : Env) (depth : Nat) (locals : Bindings) (binder : String) (clause : Clause)
    (span : Option Span) (p : Progress), ¬ clause.IsScalar → ∃ failure, Checker.inSession
      (Checker.prove (Checker.checkWithin env depth) locals binder clause span) p s =
        (.error failure, s)
  check : ∀ (env : Env) (depth : Nat) (mode : Mode) (locals : Bindings) (e : Expr) (p : Progress),
    (Checker.inSession (Checker.checkWithin env depth mode locals e) p s).2.depth = s.depth
  prove : ∀ (env : Env) (e : Expr), (prove env e s).2.depth = s.depth

theorem leavesNoTrace_of_consistent {s : Session τ ω} (hs : s.Consistent) : s.LeavesNoTrace where
  pushPop h := untraced_of_keeps h.keeps hs.bounded
  obligation env depth locals binder clause span p hclause := by
    refine ⟨"proving `" ++ Checker.statement binder clause ++ "`", ?_, ?_⟩
    · rw [Checker.prove_of_isScalar hclause, Checker.inSession_note,
        Checker.inSession_inSolverScope]
    · exact untraced_of_keeps (Checker.keeps_obligation env depth locals binder clause span p)
        hs.bounded
  unscalar env depth locals binder clause span p hclause := by
    cases clause with
    | holds pred =>
        have hbool : ∃ failure, Checker.requireBool pred span =
            Checker.ofOutcome (.error failure) := ⟨_, if_neg hclause⟩
        obtain ⟨failure, hbool⟩ := hbool
        refine ⟨failure, ?_⟩
        rw [Checker.prove, hbool]
        rfl
    | equals value => exact absurd trivial hclause
  check env depth mode locals e p := by
    have hpart := Checker.part_checkWithin_trivial env depth mode locals e
    exact (Checker.opened_inSession hpart p hs.bounded).depth
  prove env e := depth_prove env e hs

/-- A stop right after a run on a new session succeeds, if the solver can be told to exit and ends
well: whatever the run ended in, no scope is counted as open. -/
theorem stop_after_prove {world : ω} {env : Env} {e : Expr} {outcome : Outcome Summary}
    {s : Session τ ω} (hs : prove env e { world } = (outcome, s)) {c c' : τ} {w' w'' : ω}
    {status : String} (hc : s.channel = some c)
    (hsend : Transport.send Command.exit.line c s.world = (.ok (), c', w'))
    (hshutdown : Transport.shutdown c' w' = (.ok ⟨true, status⟩, w'')) :
    (stop s).1 = .ok () := by
  have hnew : ({ world } : Session τ ω).Consistent := consistent_stopped rfl rfl
  have hdepth := depth_prove env e hnew
  rw [hs] at hdepth
  obtain ⟨log, hstop⟩ := stop_of_started hc hsend hshutdown
  rw [hstop, show s.depth = 0 from hdepth]
  rfl

end Session

namespace Session

open Scripted

/-- The solver holds the same names in the same scopes, and the lines sent meanwhile leave the
declarations and assertions of every scope as they were. -/
structure SameStack (s s' : Session Solver Script) : Prop where
  scopes : s'.channel.map (·.scopes) = s.channel.map (·.scopes)
  standing : ∃ lines, s'.transcript.toList = s.transcript.toList ++ lines ∧
    ∀ st, st ≠ [] → lines.foldl standing st = st

theorem Restored.sameStack {s s' : Session Solver Script} (h : s.Restored s') (hs : s.HasScope)
    (hpop : Command.pop.line ∉ s.world.failSend) : s.SameStack s' := by
  obtain ⟨lines, hlines, hneutral⟩ := h.spoke
  have hlines' : Neutral lines := hneutral isUnfailing hpop
  refine ⟨?_, lines, hlines.transcript, fun st hst => hlines' isScoping_standing st hst⟩
  rw [hlines.view isView_scopes]
  cases hc : s.channel with
  | none => rfl
  | some solver =>
      exact congrArg some (hlines' isScoping_scopesAfter solver.scopes (hs solver hc))

/-- A scripted solver that cannot be told to open a scope is as before. -/
theorem eq_of_push_error {s s₁ : Session Solver Script} {failure : Failure}
    (h : push s = (.error failure, s₁)) : s₁ = { s with log := s₁.log } := by
  have hwrite := push_eq_error h
  cases hc : s.channel with
  | none =>
      rw [write_of_stopped hc] at hwrite
      cases hwrite
      rw [← hc]
  | some solver =>
      by_cases hfail : Command.push.line ∈ s.world.failSend
      · have hsend : Transport.send Command.push.line solver s.world =
            (.error sendFailure, solver, s.world) := if_pos hfail
        rw [write_of_refused hc hsend] at hwrite
        cases hwrite
        rw [← hc]
        rfl
      · have hsend : Transport.send Command.push.line solver s.world = (.ok (), _, _) :=
          if_neg hfail
        rw [write_of_accepted hc hsend] at hwrite
        cases hwrite

/-- If the command that leaves a scope can be sent, what is done in a scope of its own leaves the
solver's scopes as they were. -/
structure RestoresScopes (s : Session Solver Script) : Prop where
  pushPop : ∀ {α : Type} {body : SessionM Solver Script α}, Composed body →
    s.SameStack (pushPop body s).2
  prove : ∀ (env : Env) (depth : Nat) (locals : Bindings) (binder : String) (clause : Clause)
    (span : Option Span) (p : Progress), s.SameStack (Checker.inSession
      (Checker.prove (Checker.checkWithin env depth) locals binder clause span) p s).2

theorem restoresScopes_of_reachable {s : Session Solver Script} (hs : s.Reachable)
    (hpop : Command.pop.line ∉ s.world.failSend) : s.RestoresScopes where
  pushPop h := ((leavesNoTrace_of_consistent hs.consistent).pushPop h).restored.sameStack
    hs.hasScope hpop
  prove env depth locals binder clause span p := by
    have htrace := leavesNoTrace_of_consistent hs.consistent
    by_cases hclause : clause.IsScalar
    · obtain ⟨text, hprove, huntraced⟩ :=
        htrace.obligation env depth locals binder clause span p hclause
      rw [hprove]
      have hsame := huntraced.restored.sameStack hs.hasScope hpop
      exact ⟨hsame.scopes, hsame.standing⟩
    · obtain ⟨failure, hprove⟩ :=
        htrace.unscalar env depth locals binder clause span p hclause
      rw [hprove]
      exact ⟨rfl, [], (List.append_nil _).symm, fun _ _ => rfl⟩

/-- Obligations leave no trace. In every session that a host can reach, whatever is done in a scope
of its own, and whatever a walk does to prove a clause, leaves the depth, the declarations in force
and, if the command that leaves a scope can be sent, the scripted solver's scopes as they were.
Walks and runs end at the depth at which they began, so that a stop right after a run on a new
session does not fail for open scopes. -/
theorem leaves_no_trace :
    (∀ {τ ω : Type} [Transport τ ω] {s : Session τ ω}, s.Reachable → s.LeavesNoTrace) ∧
    (∀ {s s₁ : Session Solver Script} {failure : Failure}, push s = (.error failure, s₁) →
      s₁ = { s with log := s₁.log }) ∧
    (∀ {s : Session Solver Script}, s.Reachable → Command.pop.line ∉ s.world.failSend →
      s.RestoresScopes) ∧
    ∀ {τ ω : Type} [Transport τ ω] {world : ω} {env : Env} {e : Expr} {outcome : Outcome Summary}
      {s : Session τ ω}, prove env e { world } = (outcome, s) →
      s.depth = 0 ∧ ∀ {c c' : τ} {w' w'' : ω} {status : String}, s.channel = some c →
        Transport.send Command.exit.line c s.world = (.ok (), c', w') →
        Transport.shutdown c' w' = (.ok ⟨true, status⟩, w'') → (stop s).1 = .ok () := by
  refine ⟨fun hs => leavesNoTrace_of_consistent hs.consistent, eq_of_push_error,
    fun hs hpop => restoresScopes_of_reachable hs hpop, ?_⟩
  intro τ ω _ world env e outcome s hs
  refine ⟨?_, fun hc hsend hshutdown => stop_after_prove hs hc hsend hshutdown⟩
  have hnew : ({ world } : Session τ ω).Consistent := consistent_stopped rfl rfl
  have hdepth := depth_prove env e hnew
  rwa [hs] at hdepth

/-- A session in which a scope was opened and a constant declared in it. -/
def scopedSession : Session Solver Script :=
  (Host.steps [.start, .push, .declareGlobal "const x" "(declare-const x Int)"]
    { session := { world := {} } }).2.session

theorem prove_call_eq : ∃ c sent transcript log, prove Sample.env Sample.call
    ({ world := { answers := ["unsat"] } } : Session Solver Script) =
      (.ok ⟨1, 1⟩, { world := { sent }, channel := some c, transcript, log }) := by
  rw [prove_eq_proveWithin Sample.depthLimit_call]
  exact ⟨_, _, _, _, rfl⟩

theorem leaves_no_trace_sample :
    (scopedSession.Reachable ∧ scopedSession.depth = 1 ∧
      scopedSession.declared.contains "const x" = true ∧ scopedSession.LeavesNoTrace ∧
      scopedSession.RestoresScopes) ∧
    (∃ (failure : Failure) (s : Session Solver Script), push { world := {} } = (.error failure, s) ∧
      s = { world := {}, log := s.log }) ∧
    ∃ s : Session Solver Script,
      prove Sample.env Sample.call { world := { answers := ["unsat"] } } = (.ok ⟨1, 1⟩, s) ∧
      (stop s).1 = .ok () := by
  have hreachable : scopedSession.Reachable := ⟨{}, _, rfl⟩
  have hsendable : scopedSession.world.failSend = [] := by decide +kernel
  have hpop : Command.pop.line ∉ scopedSession.world.failSend := by
    rw [hsendable]
    exact List.not_mem_nil
  refine ⟨⟨hreachable, by decide +kernel, by decide +kernel, leaves_no_trace.1 hreachable,
    leaves_no_trace.2.2.1 hreachable hpop⟩, ?_, ?_⟩
  · have hpush : push ({ world := {} } : Session Solver Script) = (.error _, { world := {} }) := rfl
    exact ⟨_, _, hpush, leaves_no_trace.2.1 hpush⟩
  · obtain ⟨c, sent, transcript, log, hrun⟩ := prove_call_eq
    exact ⟨_, hrun, (leaves_no_trace.2.2.2 hrun).2 rfl rfl rfl⟩

end Session

end ContractCheck
