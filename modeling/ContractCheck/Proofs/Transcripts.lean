import ContractCheck.Proofs.Chronicle
import ContractCheck.Proofs.Courses
import ContractCheck.Proofs.Observed

/-!
The transcript against all that passes between a session and the solvers that it launches, which an
observed session shows. The transcript has the lines that were accepted, in their order, and an exit
for each solver that was stopped, accepted or not (`Host.transcript_eq_logged`).
-/

namespace ContractCheck

open Scripted
open Session (Step)

namespace Scripted

/-- The lines that a transcript has of the exchanges: those that were accepted, and an exit where a
solver was ended that could not be told so. -/
def logged : List Exchange → List String
  | [] => []
  | .lost _ :: .closed :: rest => Command.exit.line :: logged rest
  | exchange :: rest => exchange.accepted?.toList ++ logged rest

/-- The shutdown of a solver is part of its stop, so exchanges can be cut before anything else. -/
theorem logged_append (x : List Exchange) {y : List Exchange} (hy : y.head? ≠ some .closed) :
    logged (x ++ y) = logged x ++ logged y := by
  induction x using logged.induct with
  | case1 => rfl
  | case2 line rest ih =>
      change Command.exit.line :: logged (rest ++ y) = _
      rw [ih]
      rfl
  | case3 exchange rest hstop ih =>
      rw [logged.eq_3 exchange rest hstop, List.append_assoc, ← ih]
      refine logged.eq_3 exchange (rest ++ y) fun line rest' hlost hclosed => ?_
      cases rest with
      | nil =>
          rw [List.nil_append] at hclosed
          exact hy (by rw [hclosed, List.head?_cons])
      | cons next rest =>
          obtain ⟨rfl, -⟩ := List.cons.inj hclosed
          exact hstop line rest hlost rfl

namespace Observation

/-- A line is lost if the script says so, and accepted if it does not. -/
theorem send_cases (line : String) (c : Observed) (o : Observation) :
    (line ∈ o.script.failSend ∧ Transport.send line c o =
      (.error sendFailure, c, o.see o.script (.lost line))) ∨
    (line ∉ o.script.failSend ∧ ∃ c' answers said, Transport.send line c o =
      (.ok (), c', o.see { o.script with answers, sent := o.script.sent.push line }
        (.sent line said))) := by
  by_cases hline : line ∈ o.script.failSend
  · refine .inl ⟨hline, ?_⟩
    simp only [Transport.send, send, Scripted.send, if_pos hline]
  · refine .inr ⟨hline, ?_⟩
    simp only [Transport.send, send, Scripted.send, if_neg hline]
    exact ⟨_, _, _, rfl⟩

theorem receive_cases (c : Observed) (o : Observation) :
    ∃ exchange, (exchange = .silence ∨ ∃ line, exchange = .heard line) ∧
      (Transport.receive c o).2.2 = o.see o.script exchange := by
  obtain ⟨⟨output, scopes⟩⟩ := c
  cases output with
  | nil => exact ⟨_, .inl rfl, rfl⟩
  | cons line rest => exact ⟨_, .inr ⟨line, rfl⟩, rfl⟩

theorem launch_cases (o : Observation) :
    (∃ left, (Transport.launch o : Outcome Observed × Observation) =
      (.error launchFailure, { o with script := { o.script with failLaunch := left } })) ∨
    ∃ c, (Transport.launch o : Outcome Observed × Observation) =
      (.ok c, o.see o.script .launched) := by
  obtain ⟨⟨answers, failLaunch, failSend, exitStatus, failShutdown, sent⟩, exchanges⟩ := o
  cases failLaunch with
  | zero => exact .inr ⟨_, rfl⟩
  | succ left => exact .inl ⟨left, rfl⟩

theorem shutdown_apply (c : Observed) (o : Observation) :
    ∃ report, Transport.shutdown c o = (report, o.see o.script .closed) := by
  obtain ⟨⟨answers, failLaunch, failSend, exitStatus, failShutdown, sent⟩, exchanges⟩ := o
  cases failShutdown <;> cases exitStatus <;> exact ⟨_, rfl⟩

end Observation

end Scripted

namespace Session

section

variable {τ ω : Type} [Transport τ ω] {P : Session τ ω → Prop}

/-- Whatever passes through the channel keeps the property, and scopes and declarations do not
matter to it. -/
structure IsWired (P : Session τ ω → Prop) : Prop where
  congr : ∀ {s s' : Session τ ω}, s'.world = s.world → s'.channel = s.channel →
    s'.transcript = s.transcript → P s → P s'
  write : ∀ line, Preserves P (write line)
  read : Preserves P read
  start : Preserves P start
  stop : Preserves P stop

namespace IsWired

theorem isClosed (h : IsWired P) : IsClosed fun {α} (op : SessionM τ ω α) => Preserves P op :=
  isClosed_preserves fun _ _ _ => h.congr rfl rfl rfl

theorem push (h : IsWired P) : Preserves P Session.push :=
  h.isClosed.andThen (h.write _) fun _ _ => h.congr rfl rfl rfl

theorem pop (h : IsWired P) : Preserves P Session.pop :=
  h.isClosed.andThen (fun _ => h.congr rfl rfl rfl) fun _ => h.write _

theorem declareGlobal (h : IsWired P) (key line : String) :
    Preserves P (Session.declareGlobal key line) := by
  intro s hs
  rw [declareGlobal_apply]
  split
  · exact hs
  · exact h.isClosed.andThen (h.write line) (fun _ _ => h.congr rfl rfl rfl) s hs

theorem runChecker (h : IsWired P) (env : Env) (e : Expr) :
    Preserves P (Session.runChecker env e) := by
  intro s hs
  have hdeed : ∀ deed : Deed, Preserves P (perform deed) := by
    intro deed
    cases deed with
    | write command => exact h.write _
    | push => exact h.push
    | pop => exact h.pop
  obtain ⟨-, hheld, -⟩ := hold_obeys (I := fun _ => P) (fun _ _ _ => h.congr rfl rfl rfl)
    (fun _ s deed hs _ => hdeed deed s hs) (fun _ => h.isClosed.checkSat (h.write _) h.read)
    (Checker.runDialogue env e).obeys_free hs
  exact hheld

theorem prove (h : IsWired P) (env : Env) (e : Expr) : Preserves P (Session.prove env e) :=
  h.isClosed.prove h.start (fun d _ => h.declareGlobal d.1 d.2.line) (h.runChecker env e)
    (h.isClosed.sync (h.write _) h.read)

/-- It is kept by every step that a host takes. -/
theorem isKept (h : IsWired P) :
    Chronicle.IsKept (fun _ => True) fun c : Chronicle τ ω => P c.session where
  simple s c hs _ hc := by
    cases s with
    | pushPop body failure => cases hs
    | start => exact h.start _ hc
    | stop => exact h.stop _ hc
    | push => exact h.push _ hc
    | pop => exact h.pop _ hc
    | sync => exact h.isClosed.sync (h.write _) h.read _ hc
    | read => exact h.read _ hc
    | checkSat => exact h.isClosed.checkSat (h.write _) h.read _ hc
    | write line => exact h.write line _ hc
    | declareGlobal key line => exact h.declareGlobal key line _ hc
    | prove env e => exact h.prove env e _ hc
  push := trivial
  pop := trivial

theorem steps (h : IsWired P) (ss : List Step) {host : Host τ ω} (hs : P host.session) :
    P (Host.steps ss host).2.session := by
  rw [Chronicle.session_steps ss ⟨host.session, fun _ => none⟩ host rfl]
  exact h.isKept.steps ss _ (Step.allIn_trivial ss) hs

end IsWired

end

variable {s s₀ s₁ s₂ : Session Observed Observation}

/-- What passed on the way from the first session to the second, with all that is kept of it. -/
structure Passed (s : Session Observed Observation) (x : List Exchange)
    (s' : Session Observed Observation) : Prop where
  exchanges : s'.world.exchanges = s.world.exchanges ++ x
  transcript : s'.transcript.toList = s.transcript.toList ++ logged x
  sent : s'.world.script.sent.toList = s.world.script.sent.toList ++ acceptedLines x
  failSend : s'.world.script.failSend = s.world.script.failSend
  head : x.head? ≠ some .closed

theorem Passed.refl (s : Session Observed Observation) : s.Passed [] s where
  exchanges := (List.append_nil _).symm
  transcript := (List.append_nil _).symm
  sent := (List.append_nil _).symm
  failSend := rfl
  head := by simp

theorem Passed.trans {x y : List Exchange} (h : s₀.Passed x s₁) (h' : s₁.Passed y s₂) :
    s₀.Passed (x ++ y) s₂ where
  exchanges := by rw [h'.exchanges, h.exchanges, List.append_assoc]
  transcript := by rw [h'.transcript, h.transcript, logged_append x h'.head, List.append_assoc]
  sent := by rw [h'.sent, h.sent, acceptedLines_append, List.append_assoc]
  failSend := h'.failSend.trans h.failSend
  head := by
    cases x with
    | nil => exact h'.head
    | cons exchange x => exact h.head

theorem passed_write (line : String) (s : Session Observed Observation) :
    ∃ x, s.Passed x (write line s).2 := by
  cases hc : s.channel with
  | none =>
      rw [write_of_stopped hc]
      exact ⟨[], .refl s⟩
  | some c =>
      rcases Observation.send_cases line c s.world with
        ⟨hline, hsend⟩ | ⟨hline, c', answers, said, hsend⟩
      · rw [write_of_refused hc hsend]
        exact ⟨_, rfl, (List.append_nil _).symm, (List.append_nil _).symm, rfl, by simp⟩
      · rw [write_of_accepted hc hsend]
        exact ⟨_, rfl, Array.toList_push, Array.toList_push, rfl, by simp⟩

theorem passed_read (s : Session Observed Observation) : ∃ x, s.Passed x (read s).2 := by
  cases hc : s.channel with
  | none =>
      simp only [read, hc]
      exact ⟨[], .refl s⟩
  | some c =>
      obtain ⟨log, hread⟩ := read_of_channel hc
      obtain ⟨exchange, hexchange, hworld⟩ := Observation.receive_cases c s.world
      rw [hread, hworld]
      rcases hexchange with rfl | ⟨line, rfl⟩ <;>
        exact ⟨_, rfl, (List.append_nil _).symm, (List.append_nil _).symm, rfl, by simp⟩

theorem passed_launch (s : Session Observed Observation) : ∃ x, s.Passed x (launch s).2 := by
  have hworld := Observation.launch_cases s.world
  rcases launch_cases s with ⟨failure, world, log, hs, hlaunch⟩ | ⟨c, world, log, hs, hlaunch⟩
  all_goals
    rw [hs] at hworld
    rw [hlaunch]
    rcases hworld with ⟨left, hworld⟩ | ⟨c', hworld⟩ <;> cases hworld
  · exact ⟨[], (List.append_nil _).symm, (List.append_nil _).symm, (List.append_nil _).symm, rfl,
      by simp⟩
  · exact ⟨_, rfl, (List.append_nil _).symm, (List.append_nil _).symm, rfl, by simp⟩

/-- The exit is sent before the solver is ended, and has its place in the transcript even if it is
lost. -/
theorem passed_stop (s : Session Observed Observation) : ∃ x, s.Passed x (stop s).2 := by
  cases hc : s.channel with
  | none =>
      simp only [stop, hc]
      exact ⟨[], .refl s⟩
  | some c =>
      rcases Observation.send_cases Command.exit.line c s.world with
        ⟨hline, hsend⟩ | ⟨hline, c', answers, said, hsend⟩
      · obtain ⟨report, hshutdown⟩ := Observation.shutdown_apply c
          (s.world.see s.world.script (.lost Command.exit.line))
        obtain ⟨log, hstop⟩ := stop_of_started hc hsend hshutdown
        rw [hstop]
        exact ⟨[_, _], List.append_assoc _ _ _, Array.toList_push, (List.append_nil _).symm, rfl,
          by simp⟩
      · obtain ⟨report, hshutdown⟩ := Observation.shutdown_apply c' (s.world.see
          { s.world.script with answers, sent := s.world.script.sent.push Command.exit.line }
          (.sent Command.exit.line said))
        obtain ⟨log, hstop⟩ := stop_of_started hc hsend hshutdown
        rw [hstop]
        exact ⟨[_, _], List.append_assoc _ _ _, Array.toList_push, Array.toList_push, rfl, by simp⟩

theorem isWired_passed (s₀ : Session Observed Observation) :
    IsWired fun s => ∃ x, s₀.Passed x s := by
  have hpassed : ∀ {s s' : Session Observed Observation}, (∃ x, s.Passed x s') →
      (∃ x, s₀.Passed x s) → ∃ x, s₀.Passed x s' :=
    fun ⟨x, h⟩ ⟨x₀, h₀⟩ => ⟨x₀ ++ x, h₀.trans h⟩
  refine ⟨?_, fun line s => hpassed (passed_write line s), fun s => hpassed (passed_read s),
    fun s hs => ?_, fun s => hpassed (passed_stop s)⟩
  · rintro ⟨world, channel, depth, transcript, declared, log⟩
      ⟨world', channel', depth', transcript', declared', log'⟩ rfl rfl rfl ⟨x, h⟩
    exact ⟨x, h.exchanges, h.transcript, h.sent, h.failSend, h.head⟩
  · rw [start_apply]
    split
    · exact hs
    · have hrecord : ∀ (s : Session Observed Observation) (level : LogLevel) (text : String),
          (∃ x, s₀.Passed x s) → ∃ x, s₀.Passed x (s.record level text) :=
        fun s level text ⟨x, h⟩ => ⟨x, h.exchanges, h.transcript, h.sent, h.failSend, h.head⟩
      exact (isClosed_preserves hrecord).andThen (fun s => hpassed (passed_launch s))
        (fun _ s => hpassed (passed_write _ s)) s hs

end Session

namespace Chronicle

variable {α : Type} {c : Chronicle Observed Observation} {c' : Chronicle Solver Script}

theorem forget_go {op : SessionM Observed Observation α} {op' : SessionM Solver Script α}
    (hop : Session.Faithful op op') (h : c'.session = c.session.forget) :
    (op' c'.session).2 = (op c.session).2.forget := by
  rw [h, hop c.session]

mutual

/-- Observation of a host changes nothing. -/
theorem forget_step : ∀ (s : Step) {c : Chronicle Observed Observation}
    {c' : Chronicle Solver Script}, c'.session = c.session.forget →
    (step s c').session = (step s c).session.forget
  | .start, _, _, h => forget_go Session.faithful_start h
  | .stop, _, _, h => forget_go Session.faithful_stop h
  | .push, _, _, h => forget_go Session.faithful_push h
  | .pop, _, _, h => forget_go Session.faithful_pop h
  | .sync, _, _, h => forget_go Session.faithful_sync h
  | .read, _, _, h => forget_go Session.faithful_read h
  | .checkSat, _, _, h => forget_go Session.faithful_checkSat h
  | .write line, _, _, h => forget_go (Session.faithful_write line) h
  | .declareGlobal key line, _, _, h => forget_go (Session.faithful_declareGlobal key line) h
  | .prove env e, _, _, h => forget_go (Session.faithful_prove env e) h
  | .pushPop body failure, c, c', h => by
      have hentered : (c'.go Session.push).session = (c.go Session.push).session.forget :=
        forget_go Session.faithful_push h
      have houtcome : (Session.push c'.session).1 = (Session.push c.session).1 := by
        rw [h, Session.faithful_push c.session]
      rw [step, step, houtcome]
      rcases (Session.push c.session).1 with failure | u
      · exact hentered
      · exact forget_go Session.faithful_pop (forget_steps body hentered)

theorem forget_steps : ∀ (ss : List Step) {c : Chronicle Observed Observation}
    {c' : Chronicle Solver Script}, c'.session = c.session.forget →
    (steps ss c').session = (steps ss c).session.forget
  | [], _, _, h => h
  | s :: rest, _, _, h => forget_steps rest (forget_step s h)

end

end Chronicle

namespace Host

/-- A new host, whose session is observed. -/
def observed (script : Script) : Host Observed Observation :=
  { session := ({ world := script } : Session Solver Script).observe }

theorem forget_steps (script : Script) (ss : List Step) :
    (steps ss { session := { world := script } }).2.session =
      (steps ss (observed script)).2.session.forget := by
  rw [Chronicle.session_steps ss (.new script) _ rfl,
    Chronicle.session_steps ss (.new ⟨script, []⟩) (observed script) rfl]
  exact Chronicle.forget_steps ss rfl

theorem passed_steps (host : Host Observed Observation) (ss : List Step) :
    ∃ x, host.session.Passed x (steps ss host).2.session :=
  (Session.isWired_passed host.session).steps ss ⟨[], .refl _⟩

/-- A transcript is what passed. Whatever fails on the way, it has the lines that were accepted,
over all launches and in their order, and beside them an exit for each solver that was ended
without having accepted one. To stop a solver adds one exit, and no step takes away or moves what
an earlier one added. -/
theorem transcript_eq_logged (script : Script) (ss later : List Step) :
    let s := (steps ss (observed script)).2.session
    (steps ss { session := { world := script } }).2.session = s.forget ∧
    s.transcript.toList = logged s.world.exchanges ∧
    s.world.script.sent.toList = script.sent.toList ++ acceptedLines s.world.exchanges ∧
    (Session.stop s).2.transcript.toList =
      s.transcript.toList ++ (if s.isStarted then [Command.exit.line] else []) ∧
    s.transcript.toList <+:
      (steps later (steps ss (observed script)).2).2.session.transcript.toList := by
  intro s
  obtain ⟨x, hx⟩ := passed_steps (observed script) ss
  obtain ⟨y, hy⟩ := passed_steps (steps ss (observed script)).2 later
  have hexchanges : s.world.exchanges = x := hx.exchanges
  refine ⟨forget_steps script ss, ?_, ?_, ?_, ?_⟩
  · rw [hexchanges]
    exact hx.transcript
  · rw [hexchanges]
    exact hx.sent
  · rw [Session.transcript_stop]
    cases s.isStarted <;> simp
  · rw [hy.transcript]
    exact List.prefix_append _ _

end Host

end ContractCheck
