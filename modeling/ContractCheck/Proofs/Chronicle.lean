import ContractCheck.Proofs.Operations
import ContractCheck.Session.Step

/-!
What a host makes of a session, step by step, with the line that each key was declared with last. A
chronicle follows the steps of a host (`Chronicle.session_steps`), so what steps keep is true of
every session that a host can reach (`Session.Reachable`).
-/

namespace ContractCheck

open Session (Step Report)

namespace Session

mutual

/-- Whether the step is as `fits` says, or each step inside it. -/
def Step.All (fits : Step → Prop) : Step → Prop
  | .pushPop body _ => Step.AllIn fits body
  | step => fits step

def Step.AllIn (fits : Step → Prop) : List Step → Prop
  | [] => True
  | step :: rest => step.All fits ∧ Step.AllIn fits rest

end

/-- A step without steps inside. -/
def Step.IsSimple : Step → Prop
  | .pushPop _ _ => False
  | _ => True

end Session

namespace Host

variable {τ ω : Type}

theorem onSession_apply {α : Type} {op : SessionM τ ω α} {h : Host τ ω} {outcome : Outcome α}
    {s : Session τ ω} (hop : op h.session = (outcome, s)) :
    onSession op h = (outcome, { h with session := s }) := by
  simp only [onSession, hop]

variable [Transport τ ω]

/-- The command that leaves a scope is sent, and all that happened since the scope was opened is
reported. -/
def leave (failure : Option Failure) (reports : List Report) (h : Host τ ω) : Report × Host τ ω :=
  report ((Outcome.settle (failure.elim (.ok ()) .error) (Session.pop h.session).1).map
    fun _ => .none) (some reports)
    { h with session := (Session.pop h.session).2, inner := some reports }

theorem step_pushPop_of_refused (body : List Step) (failure : Option Failure) {h : Host τ ω}
    {refused : Failure} {s : Session τ ω} (hpush : Session.push h.session = (.error refused, s)) :
    step (.pushPop body failure) h =
      report (.error refused) none { h with session := s, inner := none } := by
  have hentered : onSession Session.push { h with inner := none } =
      (.error refused, { h with session := s, inner := none }) := onSession_apply hpush
  change (fun r : Outcome Unit × Host τ ω => report (r.1.map fun _ => .none) r.2.inner r.2)
    (inScope (onSession Session.push) (onSession Session.pop) _ { h with inner := none }) = _
  rw [inScope_apply, hentered]
  rfl

/-- The body of a scope begins where the command that opens it leads to, and what it ends in is
told after the command that leaves the scope. -/
theorem step_pushPop_of_entered (body : List Step) (failure : Option Failure) {h : Host τ ω}
    {s : Session τ ω} (hpush : Session.push h.session = (.ok (), s)) :
    step (.pushPop body failure) h =
      leave failure (steps body { h with session := s, inner := none }).1
        (steps body { h with session := s, inner := none }).2 := by
  have hentered : onSession Session.push { h with inner := none } =
      (.ok (), { h with session := s, inner := none }) := onSession_apply hpush
  change (fun r : Outcome Unit × Host τ ω => report (r.1.map fun _ => .none) r.2.inner r.2)
    (inScope (onSession Session.push) (onSession Session.pop) _ { h with inner := none }) = _
  rw [inScope_apply, hentered]
  cases failure <;> rfl

end Host

/-- A session, and the line that each key was declared with last. -/
structure Chronicle (τ ω : Type) where
  session : Session τ ω
  lines : String → Option String

namespace Chronicle

variable {τ ω α : Type}

def new (world : ω) : Chronicle τ ω := ⟨{ world }, fun _ => none⟩

/-- The operation is carried out, and no key is declared. -/
def go (op : SessionM τ ω α) (c : Chronicle τ ω) : Chronicle τ ω :=
  { c with session := (op c.session).2 }

/-- The operation is carried out. Keys that were not in force are declared with the lines offered
for them, if at all. -/
def declare (op : SessionM τ ω α) (offered : String → Option String) (c : Chronicle τ ω) :
    Chronicle τ ω where
  session := (op c.session).2
  lines key := if c.session.declared.contains key then c.lines key else offered key

variable [Transport τ ω]

mutual

def step : Step → Chronicle τ ω → Chronicle τ ω
  | .start, c => c.go Session.start
  | .stop, c => c.go Session.stop
  | .push, c => c.go Session.push
  | .pop, c => c.go Session.pop
  | .sync, c => c.go Session.sync
  | .read, c => c.go Session.read
  | .checkSat, c => c.go Session.checkSat
  | .write line, c => c.go (Session.write line)
  | .declareGlobal key line, c => c.declare (Session.declareGlobal key line) fun other =>
      if other = key then some line else none
  | .prove env e, c => c.declare (Session.prove env e) fun key =>
      ((env.declarations e).lookup key).map Command.line
  | .pushPop body _, c =>
    match (Session.push c.session).1 with
    | .error _ => c.go Session.push
    | .ok () => (steps body (c.go Session.push)).go Session.pop

def steps : List Step → Chronicle τ ω → Chronicle τ ω
  | [], c => c
  | s :: rest, c => steps rest (step s c)

end

mutual

/-- A chronicle goes through the sessions of a host that takes the same steps. -/
theorem session_step : ∀ (s : Step) (c : Chronicle τ ω) (h : Host τ ω), h.session = c.session →
    (Host.step s h).2.session = (step s c).session
  | .start, ⟨_, _⟩, _, rfl | .stop, ⟨_, _⟩, _, rfl | .push, ⟨_, _⟩, _, rfl
  | .pop, ⟨_, _⟩, _, rfl | .sync, ⟨_, _⟩, _, rfl | .read, ⟨_, _⟩, _, rfl
  | .checkSat, ⟨_, _⟩, _, rfl | .write _, ⟨_, _⟩, _, rfl | .declareGlobal _ _, ⟨_, _⟩, _, rfl
  | .prove _ _, ⟨_, _⟩, _, rfl => rfl
  | .pushPop body failure, ⟨_, lines⟩, h, rfl => by
      rw [step]
      rcases hpush : Session.push h.session with ⟨refused | u, s⟩
      · rw [Host.step_pushPop_of_refused body failure hpush]
        simp only [hpush, go]
        rfl
      · have hbody := session_steps body ⟨s, lines⟩ { h with session := s, inner := none } rfl
        rw [Host.step_pushPop_of_entered body failure hpush]
        simp only [hpush, go, ← hbody]
        rfl

theorem session_steps : ∀ (ss : List Step) (c : Chronicle τ ω) (h : Host τ ω),
    h.session = c.session → (Host.steps ss h).2.session = (steps ss c).session
  | [], _, _, heq => heq
  | s :: rest, c, h, heq => session_steps rest (step s c) _ (session_step s c h heq)

end

/-- Simple steps that fit keep the property, among them those that open and leave scopes. -/
structure IsKept (fits : Step → Prop) (P : Chronicle τ ω → Prop) : Prop where
  simple : ∀ s c, s.IsSimple → fits s → P c → P (step s c)
  push : fits .push
  pop : fits .pop

mutual

theorem IsKept.step {fits : Step → Prop} {P : Chronicle τ ω → Prop} (h : IsKept fits P) :
    ∀ (s : Step) (c : Chronicle τ ω), s.All fits → P c → P (step s c)
  | .start, c, hs, hc | .stop, c, hs, hc | .push, c, hs, hc | .pop, c, hs, hc
  | .sync, c, hs, hc | .read, c, hs, hc | .checkSat, c, hs, hc | .write _, c, hs, hc
  | .declareGlobal _ _, c, hs, hc | .prove _ _, c, hs, hc => h.simple _ c trivial hs hc
  | .pushPop body failure, c, hs, hc => by
      have hentered : P (c.go Session.push) := h.simple .push c trivial h.push hc
      rw [Chronicle.step]
      split
      · exact hentered
      · exact h.simple .pop _ trivial h.pop (h.steps body _ hs hentered)

theorem IsKept.steps {fits : Step → Prop} {P : Chronicle τ ω → Prop} (h : IsKept fits P) :
    ∀ (ss : List Step) (c : Chronicle τ ω), Step.AllIn fits ss → P c → P (steps ss c)
  | [], _, _, hc => hc
  | s :: rest, c, ⟨hs, hrest⟩, hc => h.steps rest _ hrest (h.step s c hs hc)

end

end Chronicle

namespace Session

variable {τ ω : Type} [Transport τ ω]

/-- A host can reach the session from a new one, whatever it does. -/
def Reachable (s : Session τ ω) : Prop :=
  ∃ (world : ω) (ss : List Step), (Host.steps ss { session := { world } }).2.session = s

mutual

theorem Step.all_trivial : ∀ s : Step, s.All fun _ => True
  | .pushPop body _ => Step.allIn_trivial body
  | .start | .stop | .push | .pop | .sync | .read | .checkSat | .write _ | .declareGlobal _ _
  | .prove _ _ => trivial

theorem Step.allIn_trivial : ∀ ss : List Step, Step.AllIn (fun _ => True) ss
  | [] => trivial
  | s :: rest => ⟨Step.all_trivial s, Step.allIn_trivial rest⟩

end

/-- What is true of every new session and is kept by every step holds wherever a host can get. -/
theorem Reachable.induction {P : Session τ ω → Prop} (hnew : ∀ world, P { world })
    (hsimple : ∀ (s : Step) (c : Chronicle τ ω), s.IsSimple → P c.session → P (c.step s).session)
    {s : Session τ ω} (h : s.Reachable) : P s := by
  obtain ⟨world, ss, rfl⟩ := h
  rw [Chronicle.session_steps ss (.new world) _ rfl]
  have hkept : Chronicle.IsKept (fun _ => True) (fun c : Chronicle τ ω => P c.session) :=
    ⟨fun s c hs _ hc => hsimple s c hs hc, trivial, trivial⟩
  exact hkept.steps ss _ (Step.allIn_trivial ss) (hnew world)

end Session

end ContractCheck
