import ContractCheck.Proofs.Favourable
import ContractCheck.Run
import ContractCheck.Solver.Scripted

/-!
A scripted solver under observation. The channel behaves as before and its world keeps a list of
what passes through it: the lines that were sent, with what the solver said to each, and the lines
that were read. Observation changes nothing (`faithful_prove`, `faithful_verify`), so what an
observed session shows is what happens in any session.
-/

namespace ContractCheck

namespace Scripted

/-- What passes between a session and its solver. -/
inductive Exchange where
  | launched
  /-- A line that was accepted, and what the solver said to it. -/
  | sent (line : String) (said : List String)
  /-- A line that could not be sent. -/
  | lost (line : String)
  | heard (line : String)
  /-- There was nothing to read. -/
  | silence
  | closed
deriving DecidableEq, Repr

/-- The line that was accepted. -/
def Exchange.accepted? : Exchange → Option String
  | .sent line _ => some line
  | _ => none

def acceptedLines (x : List Exchange) : List String := x.filterMap Exchange.accepted?

@[simp] theorem acceptedLines_append (x y : List Exchange) :
    acceptedLines (x ++ y) = acceptedLines x ++ acceptedLines y := List.filterMap_append

@[simp] theorem acceptedLines_sent (line : String) (said : List String) (x : List Exchange) :
    acceptedLines (.sent line said :: x) = line :: acceptedLines x := rfl

@[simp] theorem acceptedLines_nil : acceptedLines [] = [] := rfl

/-- A channel that is observed. -/
structure Observed where
  solver : Solver

structure Observation where
  script : Script
  exchanges : List Exchange := []

namespace Observation

def see (o : Observation) (script : Script) (exchange : Exchange) : Observation :=
  ⟨script, o.exchanges ++ [exchange]⟩

def launch (o : Observation) : Outcome Observed × Observation :=
  match Scripted.launch o.script with
  | (.error f, script) => (.error f, { o with script })
  | (.ok solver, script) => (.ok ⟨solver⟩, o.see script .launched)

def send (line : String) (c : Observed) (o : Observation) :
    Outcome Unit × Observed × Observation :=
  match Scripted.send line c.solver o.script with
  | (.error f, solver, script) => (.error f, ⟨solver⟩, o.see script (.lost line))
  | (.ok (), solver, script) =>
    (.ok (), ⟨solver⟩, o.see script (.sent line (solver.output.drop c.solver.output.length)))

def receive (c : Observed) (o : Observation) : Outcome String × Observed × Observation :=
  match Scripted.receive c.solver o.script with
  | (.error f, solver, script) => (.error f, ⟨solver⟩, o.see script .silence)
  | (.ok line, solver, script) => (.ok line, ⟨solver⟩, o.see script (.heard line))

def shutdown (o : Observation) : Outcome ExitReport × Observation :=
  match Scripted.shutdown o.script with
  | (report, script) => (report, o.see script .closed)

instance : Transport Observed Observation where
  announcement _ := none
  launch := launch
  send := send
  receive := receive
  shutdown _ := shutdown

end Observation

end Scripted

open Scripted

/-- The lines of the solver that nobody has read. -/
def Session.unread (s : Session Solver Script) : List String :=
  match s.channel with
  | none => []
  | some solver => solver.output

namespace Session

variable {α β : Type}

/-- The session as it is without observation. -/
def forget (s : Session Observed Observation) : Session Solver Script where
  world := s.world.script
  channel := s.channel.map (·.solver)
  depth := s.depth
  transcript := s.transcript
  declared := s.declared
  log := s.log

/-- Observation of the session starts, with nothing seen. -/
def observe (s : Session Solver Script) : Session Observed Observation where
  world := ⟨s.world, []⟩
  channel := s.channel.map (⟨·⟩)
  depth := s.depth
  transcript := s.transcript
  declared := s.declared
  log := s.log

@[simp] theorem forget_observe (s : Session Solver Script) : s.observe.forget = s := by
  obtain ⟨world, channel, depth, transcript, declared, log⟩ := s
  cases channel <;> rfl

@[simp] theorem isStarted_forget (s : Session Observed Observation) :
    s.forget.isStarted = s.isStarted := by
  simp [isStarted, forget]

/-- The second action is the first without observation. -/
def Faithful (op : SessionM Observed Observation α) (op' : SessionM Solver Script α) : Prop :=
  ∀ s, op' s.forget = ((op s).1, (op s).2.forget)

theorem faithful_pure (a : α) : Faithful (pure a) (pure a) := fun _ => rfl

theorem faithful_bind {op : SessionM Observed Observation α} {op' : SessionM Solver Script α}
    {f : α → SessionM Observed Observation β} {f' : α → SessionM Solver Script β}
    (h : Faithful op op') (hf : ∀ a, Faithful (f a) (f' a)) :
    Faithful (op >>= f) (op' >>= f') := by
  intro s
  have hop := h s
  rw [bind_apply, bind_apply]
  rcases hs : op s with ⟨failure | a, s₁⟩
  · rw [hs] at hop
    rw [hop]
  · rw [hs] at hop
    rw [hop]
    exact hf a s₁

/-- Whatever succeeds without observation succeeds under it. -/
theorem Faithful.observe_eq_ok {op : SessionM Observed Observation α}
    {op' : SessionM Solver Script α} (h : Faithful op op') {s s' : Session Solver Script} {a : α}
    (hop : op' s = (.ok a, s')) : ∃ t, op s.observe = (.ok a, t) ∧ t.forget = s' := by
  have hobserved := h s.observe
  rw [forget_observe, hop] at hobserved
  obtain ⟨houtcome, hsession⟩ := Prod.mk.inj hobserved
  exact ⟨_, Prod.ext houtcome.symm rfl, hsession.symm⟩

theorem faithful_write (line : String) : Faithful (write line) (write line) := by
  rintro ⟨⟨script, exchanges⟩, channel, depth, transcript, declared, log⟩
  cases channel with
  | none => rfl
  | some c =>
      simp only [write, forget, record, Option.map_some, Transport.send, Observation.send]
      rcases hsend : Scripted.send line c.solver script with ⟨failure | u, solver, script'⟩ <;> rfl

theorem faithful_read : Faithful read read := by
  rintro ⟨⟨script, exchanges⟩, channel, depth, transcript, declared, log⟩
  cases channel with
  | none => rfl
  | some c =>
      simp only [read, forget, record, Option.map_some, Transport.receive, Observation.receive]
      rcases hreceive : Scripted.receive c.solver script with ⟨failure | line, solver, script'⟩
      · rfl
      · by_cases herror : isErrorLine line = true
        · simp only [if_pos herror]
          rfl
        · simp only [if_neg herror]
          rfl

theorem faithful_launch : Faithful launch launch := by
  rintro ⟨⟨script, exchanges⟩, channel, depth, transcript, declared, log⟩
  simp only [launch, forget, Transport.announcement, Transport.launch, Observation.launch]
  rcases hlaunch : Scripted.launch script with ⟨failure | solver, script'⟩ <;> rfl

theorem faithful_modify {f : Session Observed Observation → Session Observed Observation}
    {f' : Session Solver Script → Session Solver Script} (h : ∀ s, f' s.forget = (f s).forget) :
    Faithful (modify f) (modify f') := fun s => Prod.ext rfl (h s)

theorem start_apply {τ ω : Type} [Transport τ ω] (s : Session τ ω) : start s =
    if s.isStarted then (.ok (), s)
    else (launch >>= fun _ => write Command.scopedDeclarations.line : SessionM τ ω Unit) s := by
  have hstart : start s = (unless s.isStarted do
      launch >>= fun _ => write Command.scopedDeclarations.line : SessionM τ ω Unit) s := rfl
  rw [hstart]
  cases s.isStarted <;> rfl

theorem faithful_start : Faithful start start := by
  intro s
  rw [start_apply, start_apply, isStarted_forget]
  cases s.isStarted with
  | true => rfl
  | false => exact faithful_bind faithful_launch (fun _ => faithful_write _) s

theorem faithful_push : Faithful push push :=
  faithful_bind (faithful_write _) fun _ => faithful_modify fun _ => rfl

theorem faithful_pop : Faithful pop pop :=
  faithful_bind (faithful_modify fun _ => rfl) fun _ => faithful_write _

theorem faithful_checkSat : Faithful checkSat checkSat :=
  faithful_bind (faithful_write _) fun _ => faithful_read

theorem faithful_sync : Faithful sync sync := by
  refine faithful_bind (faithful_write _) fun _ => faithful_bind faithful_read fun line => ?_
  cases trimQuotes line == Command.syncMarker <;> exact fun _ => rfl

theorem faithful_stop : Faithful stop stop := by
  rintro ⟨⟨script, exchanges⟩, channel, depth, transcript, declared, log⟩
  cases channel with
  | none => rfl
  | some c =>
      simp only [stop, forget, record, Option.map_some, Transport.send, Observation.send,
        Transport.shutdown, Observation.shutdown]
      rcases Scripted.send Command.exit.line c.solver script with ⟨failure | u, solver, script'⟩
      · rfl
      · rcases hshutdown : Scripted.shutdown script' with ⟨failure | report, script''⟩
        · simp only [Observation.see, hshutdown]
          rfl
        · simp only [Observation.see, hshutdown]
          rfl

theorem forget_stopQuietly (occasion : String) (s : Session Observed Observation) :
    s.forget.stopQuietly occasion = (s.stopQuietly occasion).forget := by
  unfold stopQuietly
  rw [faithful_stop s]
  rcases stop s with ⟨failure | u, s'⟩ <;> rfl

theorem faithful_declareGlobal (key line : String) :
    Faithful (declareGlobal key line) (declareGlobal key line) := by
  intro s
  have hget : ∀ {τ ω : Type} [Transport τ ω] (s : Session τ ω), declareGlobal key line s =
      (unless s.declared.contains key do
        write line >>= fun _ => modify fun s =>
          { s with declared := s.declared.insert key s.depth } : SessionM τ ω Unit) s :=
    fun _ => rfl
  rw [hget, hget]
  change (unless s.declared.contains key do _ : SessionM Solver Script Unit) s.forget = _
  cases s.declared.contains key with
  | true => rfl
  | false => exact faithful_bind (faithful_write line) (fun _ => faithful_modify fun _ => rfl) s

theorem faithful_declareSorts (names : List String) :
    Faithful (declareSorts names) (declareSorts names) := by
  induction names with
  | nil => exact faithful_pure ()
  | cons name rest ih => exact faithful_bind (faithful_declareGlobal _ _) fun _ => ih

theorem faithful_liftExcept (outcome : Outcome α) :
    Faithful (liftExcept outcome) (liftExcept outcome) := by
  cases outcome <;> exact fun _ => rfl

theorem faithful_declareSignatures (entries : List (String × Signature)) :
    Faithful (declareSignatures entries) (declareSignatures entries) := by
  induction entries with
  | nil => exact faithful_pure ()
  | cons entry rest ih =>
      refine faithful_bind (faithful_liftExcept _) fun declaration => ?_
      rcases declaration with ⟨key, command⟩ | unsorted | _
      · exact faithful_bind (faithful_declareGlobal _ _) fun _ => ih
      · exact faithful_bind (faithful_modify fun _ => rfl) fun _ => ih
      · exact ih

theorem faithful_declareGlobals (env : Env) (e : Expr) :
    Faithful (declareGlobals env e) (declareGlobals env e) :=
  faithful_bind (faithful_declareSorts _) fun _ => faithful_declareSignatures _

theorem faithful_perform (deed : Deed) : Faithful (perform deed) (perform deed) := by
  cases deed with
  | write command => exact faithful_write _
  | push => exact faithful_push
  | pop => exact faithful_pop

theorem forget_hold (d : Dialogue α) (s : Session Observed Observation) :
    hold d s.forget = ((hold d s).1, (hold d s).2.forget) := by
  induction d generalizing s with
  | done a => rfl
  | note text next ih => exact ih (s.record .debug text)
  | act deed next ih =>
      simp only [hold, faithful_perform deed s]
      exact ih _ _
  | checkSat next ih =>
      simp only [hold, faithful_checkSat s]
      exact ih _ _

theorem faithful_runChecker (env : Env) (e : Expr) :
    Faithful (runChecker env e) (runChecker env e) := by
  intro s
  unfold runChecker
  rw [forget_hold]

theorem faithful_prove (env : Env) (e : Expr) : Faithful (prove env e) (prove env e) :=
  faithful_bind faithful_start fun _ => faithful_bind (faithful_declareGlobals _ _) fun _ =>
    faithful_bind (faithful_runChecker _ _) fun _ =>
      faithful_bind faithful_sync fun _ => faithful_pure _

/-- What passes between the session and its solver while the action is carried out. -/
def exchanges (op : SessionM Observed Observation α) (s : Session Solver Script) : List Exchange :=
  (op s.observe).2.world.exchanges

end Session

namespace Verifier

def forget (v : Verifier Observed Observation) : Verifier Solver Script := ⟨v.session.forget, v.env⟩

def observe (v : Verifier Solver Script) : Verifier Observed Observation :=
  ⟨v.session.observe, v.env⟩

theorem forget_observe (v : Verifier Solver Script) : v.observe.forget = v := by
  simp [forget, observe]

theorem faithful_verify (e : Expr) (v : Verifier Observed Observation) :
    verify e v.forget = ((verify e v).1, (verify e v).2.forget) := by
  unfold verify forget
  rw [Session.faithful_prove v.env e v.session]
  rcases Session.prove v.env e v.session with ⟨failure | summary, s'⟩
  · simp only [Session.forget_stopQuietly]
  · rfl

/-- What passes between the verifier and its solver while an expression is verified. -/
def exchanges (e : Expr) (v : Verifier Solver Script) : List Exchange :=
  (verify e v.observe).2.session.world.exchanges

end Verifier

end ContractCheck
