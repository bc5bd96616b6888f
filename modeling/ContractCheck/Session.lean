import ContractCheck.Log
import ContractCheck.NameMap
import ContractCheck.Smt.Command
import ContractCheck.Solver.Transport

/-!
A session with a solver: the channel while the solver runs, the number of open scopes, the global
declarations that are still in force, and the transcript of the lines that were sent. Global
declarations are kept with the depth at which they were sent, and go with their scope.
-/

namespace ContractCheck

structure Session (τ ω : Type) where
  world : ω
  channel : Option τ := none
  depth : Nat := 0
  transcript : Array String := #[]
  /-- The key of each global declaration in force, with the depth that it was sent at. -/
  declared : NameMap Nat := ∅
  log : Array LogRecord := #[]

abbrev SessionM (τ ω : Type) := ExceptT Failure (StateM (Session τ ω))

namespace Session

variable {τ ω : Type}

def isStarted (s : Session τ ω) : Bool := s.channel.isSome

def record (s : Session τ ω) (level : LogLevel) (text : String) : Session τ ω :=
  { s with log := s.log.push ⟨level, text⟩ }

variable [Transport τ ω]

/-- Sends one line, which enters the transcript once the channel has accepted it. -/
def write (line : String) : SessionM τ ω Unit := fun s =>
  match s.channel with
  | none => (.error (.misuse ("write before start: `" ++ line ++ "`")), s)
  | some channel =>
    let s := s.record .trace ("> " ++ line)
    match Transport.send line channel s.world with
    | (.error f, channel, world) => (.error f, { s with channel := some channel, world })
    | (.ok (), channel, world) =>
      (.ok (), { s with channel := some channel, world, transcript := s.transcript.push line })

def isErrorLine (line : String) : Bool := "(error".toList.isPrefixOf line.toList

/-- One line of the solver's. An error line is a failure and never an answer. -/
def read : SessionM τ ω String := fun s =>
  match s.channel with
  | none => (.error (.misuse "read before start"), s)
  | some channel =>
    match Transport.receive channel s.world with
    | (.error f, channel, world) => (.error f, { s with channel := some channel, world })
    | (.ok line, channel, world) =>
      let s := { s with channel := some channel, world }.record .trace ("< " ++ line)
      if isErrorLine line then (.error (.protocol ("solver rejected a command: " ++ line)), s)
      else (.ok line, s)

def launch : SessionM τ ω Unit := fun s =>
  let s := match @Transport.announcement τ ω _ s.world with
    | some text => s.record .debug text
    | none => s
  match (Transport.launch s.world : Outcome τ × ω) with
  | (.error f, world) => (.error f, { s with world })
  | (.ok channel, world) => (.ok (), { s with channel := some channel, world, depth := 0 })

/-- Launches the solver unless it is running. -/
def start : SessionM τ ω Unit := do
  unless (← get).isStarted do
    launch
    write Command.scopedDeclarations.line

/-- What a stop answers, from the outcome of sending the exit command, that of the shutdown, and
the number of scopes that were open. -/
def stopOutcome (sent : Outcome Unit) (report : Outcome ExitReport) (depth : Nat) : Outcome Unit :=
  match sent, report with
  | .error f, _ => .error f
  | .ok (), .error f => .error f
  | .ok (), .ok report =>
    if !report.success then
      .error (.protocol ("solver exited abnormally (" ++ report.status ++ ")"))
    else if depth ≠ 0 then
      .error (.protocol
        ("scope depth is " ++ toString depth ++ " at solver shutdown, expected 0"))
    else .ok ()

/-- How prominently the transcript is noted at a stop; not at all if the solver could not be
told to exit. -/
def transcriptLevel? (sent : Outcome Unit) (report : Outcome ExitReport) : Option LogLevel :=
  match sent, report with
  | .ok (), .ok report => some (if report.success then .debug else .error)
  | _, _ => none

/-- Ends the solver. Whatever that answers, the session is then as good as new. -/
def stop : SessionM τ ω Unit := fun s =>
  match s.channel with
  | none => (.ok (), s)
  | some channel =>
    let transcript := s.transcript.push Command.exit.line
    let (sent, channel, world) := Transport.send Command.exit.line channel s.world
    let (report, world) := Transport.shutdown channel world
    let stopped := { s with channel := none, world, depth := 0, transcript, declared := ∅ }
    let stopped := match transcriptLevel? sent report with
      | some level =>
        stopped.record level ("solver transcript:\n" ++ "\n".intercalate transcript.toList)
      | none => stopped
    (stopOutcome sent report s.depth, stopped)

def push : SessionM τ ω Unit := do
  write Command.push.line
  modify fun s => { s with depth := s.depth + 1 }

/-- Forgets the innermost scope, with the global declarations sent in it. -/
def leaveScope (s : Session τ ω) : Session τ ω :=
  { s with depth := s.depth - 1, declared := s.declared.filter fun _ depth => depth ≤ s.depth - 1 }

/-- The scope counts as left even if the command cannot be sent. -/
def pop : SessionM τ ω Unit := do
  modify leaveScope
  write Command.pop.line

/-- Runs `body` in a scope of its own. -/
def pushPop {α : Type} (body : SessionM τ ω α) : SessionM τ ω α := inScope push pop body

def checkSat : SessionM τ ω String := do
  write Command.checkSat.line
  read

def trimQuotes (line : String) : String :=
  let isQuote := (· == '"')
  String.ofList ((line.toList.dropWhile isQuote).reverse.dropWhile isQuote).reverse

/-- Waits until the solver has processed all commands sent so far. The solver reports trouble with
a command that has no answer only then. -/
def sync : SessionM τ ω Unit := do
  write Command.sync.line
  let line ← read
  unless trimQuotes line == Command.syncMarker do
    throw (.protocol ("unexpected solver output `" ++ line ++ "`"))

/-- Sends `line` unless a declaration with this key is still in force. -/
def declareGlobal (key line : String) : SessionM τ ω Unit := do
  unless (← get).declared.contains key do
    write line
    modify fun s => { s with declared := s.declared.insert key s.depth }

/-- Stops the solver and only notes that this failed. -/
def stopQuietly (occasion : String) (s : Session τ ω) : Session τ ω :=
  match stop s with
  | (.ok (), s) => s
  | (.error f, s) => s.record .warn (occasion ++ ": " ++ f.display)

/-- The end of a session that nobody stopped. -/
def close (s : Session τ ω) : Session τ ω := s.stopQuietly "while stopping solver"

end Session

end ContractCheck
