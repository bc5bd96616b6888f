import ContractCheck.Run

/-!
What a host does with a session: one operation after the other, with operations nested in scopes.
After each the host sees the outcome, the state of the session, and the lines that the transcript
has gained.
-/

namespace ContractCheck

namespace Session

inductive Step where
  | start
  | stop
  | push
  | pop
  | sync
  | read
  | checkSat
  | write (line : String)
  | declareGlobal (key line : String)
  | prove (env : Env) (e : Expr)
  /-- The steps in a scope of their own. Their failures are only seen, and the scope's body fails
  with `failure` alone. -/
  | pushPop (body : List Step) (failure : Option Failure)

inductive Answer where
  | none
  | line (text : String)
  | summary (summary : Summary)
deriving Inhabited

/-- What a host sees of a step. `body` holds the reports of the steps inside, if the step has a
body and it was reached. -/
inductive Report where
  | mk (outcome : Outcome Answer) (depth : Nat) (started : Bool) (lines : List String)
    (body : Option (List Report))

end Session

/-- A host of a session. -/
structure Host (τ ω : Type) where
  session : Session τ ω
  /-- How many lines of the transcript the host has seen. -/
  seen : Nat := 0
  /-- The reports of the steps in the scope that was left last, if its body was reached. -/
  inner : Option (List Session.Report) := none

namespace Host

open Session (Step Answer Report)

variable {τ ω α : Type}

/-- An operation of the session, from the host. -/
def onSession (op : SessionM τ ω α) : ExceptT Failure (StateM (Host τ ω)) α := fun h =>
  let (outcome, session) := op h.session
  (outcome, { h with session })

/-- Reports what happened, with the lines that the host has not seen. -/
def report (outcome : Outcome Answer) (body : Option (List Report)) : StateM (Host τ ω) Report :=
  fun h =>
    let transcript := h.session.transcript
    (.mk outcome h.session.depth h.session.isStarted (transcript.toList.drop h.seen) body,
      { h with seen := transcript.size })

variable [Transport τ ω]

/-- A step without steps inside. -/
def simple (op : SessionM τ ω α) (answer : α → Answer) : StateM (Host τ ω) Report := do
  let outcome ← (onSession op).run
  report (outcome.map answer) none

mutual

def step : Step → StateM (Host τ ω) Report
  | .start => simple Session.start fun _ => .none
  | .stop => simple Session.stop fun _ => .none
  | .push => simple Session.push fun _ => .none
  | .pop => simple Session.pop fun _ => .none
  | .sync => simple Session.sync fun _ => .none
  | .read => simple Session.read .line
  | .checkSat => simple Session.checkSat .line
  | .write line => simple (Session.write line) fun _ => .none
  | .declareGlobal key line => simple (Session.declareGlobal key line) fun _ => .none
  | .prove env e => simple (Session.prove env e) .summary
  | .pushPop body failure => do
    modify fun h => { h with inner := none }
    let outcome ← (inScope (onSession Session.push) (onSession Session.pop) (do
      let reports ← ExceptT.lift (steps body)
      modify fun h => { h with inner := some reports }
      match failure with
      | some f => throw f
      | none => pure ())).run
    let h ← get
    report (outcome.map fun _ => .none) h.inner

def steps : List Step → StateM (Host τ ω) (List Report)
  | [] => pure []
  | s :: rest => do
    let r ← step s
    let rs ← steps rest
    return r :: rs

end

end Host

end ContractCheck
