import ContractCheck.Smt.Command
import ContractCheck.Solver.Transport

/-!
A solver that follows a script. It takes the answer to each satisfiability check from a list, says
again what it is told to echo, and refuses to declare a name that an open scope holds. Launches,
lines and shutdowns can be made to fail.
-/

namespace ContractCheck

namespace Scripted

/-- What all solvers launched with one script share. -/
structure Script where
  /-- The answers that no check has used up. -/
  answers : List String := []
  /-- How many launches fail before one succeeds. -/
  failLaunch : Nat := 0
  /-- The lines that cannot be sent. -/
  failSend : List String := []
  /-- The status of an abnormal exit. -/
  exitStatus : Option String := none
  failShutdown : Bool := false
  /-- The lines that were accepted, over all launches. -/
  sent : Array String := #[]

structure Solver where
  /-- What was said and not read, the oldest first. -/
  output : List String := []
  /-- The names declared in each open scope, the innermost scope first. -/
  scopes : List (List String) := [[]]

def launchFailure : Failure := .protocol "no solver"

def sendFailure : Failure := .io "send failed"

def silence : Failure := .protocol "script exhausted"

def shutdownFailure : Failure := .io "shutdown failed"

/-- The text of an echo command. -/
def echoed? (line : String) : Option String := do
  let rest ← List.isPrefixOf? "(echo ".toList line.toList
  let text ← List.isSuffixOf? ")".toList rest
  return String.ofList text

def declarators : List String := ["(declare-const ", "(declare-fun ", "(declare-sort "]

/-- The name that a command declares. Sorts, functions and constants share their names. -/
def declaredName? (line : String) : Option String :=
  (declarators.findSome? fun d => List.isPrefixOf? d.toList line.toList).map fun rest =>
    String.ofList (rest.takeWhile (· != ' '))

def redeclared (name : String) : String :=
  "(error \"invalid declaration, `" ++ name ++ "` already declared\")"

namespace Solver

def say (s : Solver) (text : String) : Solver := { s with output := s.output ++ [text] }

def push (s : Solver) : Solver := { s with scopes := [] :: s.scopes }

/-- The outermost scope stays. -/
def pop (s : Solver) : Solver :=
  match s.scopes with
  | _ :: scope :: rest => { s with scopes := scope :: rest }
  | _ => s

def holds (s : Solver) (name : String) : Bool := s.scopes.any (·.contains name)

def declare (s : Solver) (name : String) : Solver :=
  if s.holds name then s.say (redeclared name)
  else match s.scopes with
    | scope :: rest => { s with scopes := (name :: scope) :: rest }
    | [] => s

end Solver

/-- What an accepted line does to the solver and to the answers that are left. -/
def obey (line : String) (s : Solver) (answers : List String) : Solver × List String :=
  if line = Command.checkSat.line then
    match answers with
    | answer :: rest => (s.say answer, rest)
    | [] => (s, [])
  else if line = Command.push.line then (s.push, answers)
  else if line = Command.pop.line then (s.pop, answers)
  else match echoed? line with
    | some text => (s.say text, answers)
    | none =>
      match declaredName? line with
      | some name => (s.declare name, answers)
      | none => (s, answers)

def launch (script : Script) : Outcome Solver × Script :=
  match script.failLaunch with
  | n + 1 => (.error launchFailure, { script with failLaunch := n })
  | 0 => (.ok {}, script)

def send (line : String) (s : Solver) (script : Script) : Outcome Unit × Solver × Script :=
  if line ∈ script.failSend then (.error sendFailure, s, script)
  else
    let (s, answers) := obey line s script.answers
    (.ok (), s, { script with answers, sent := script.sent.push line })

def receive (s : Solver) (script : Script) : Outcome String × Solver × Script :=
  match s.output with
  | [] => (.error silence, s, script)
  | text :: rest => (.ok text, { s with output := rest }, script)

def shutdown (script : Script) : Outcome ExitReport × Script :=
  if script.failShutdown then (.error shutdownFailure, script)
  else match script.exitStatus with
    | some status => (.ok ⟨false, status⟩, script)
    | none => (.ok ⟨true, "exit status: 0"⟩, script)

instance : Transport Solver Script where
  announcement _ := none
  launch := launch
  send := send
  receive := receive
  shutdown _ := shutdown

end Scripted

end ContractCheck
