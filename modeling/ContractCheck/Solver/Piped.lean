import ContractCheck.Solver.Config
import ContractCheck.Solver.Processes
import ContractCheck.Solver.Transport
import ContractCheck.Text.Whitespace

/-!
Solvers that run as processes, whatever the system is. Pipes lead to the process and back: it gets
the lines that are sent as its input, and its output is read line by line. Every line that was sent
is also written to the tee file, if there is one.
-/

namespace ContractCheck

namespace Piped

/-- A system's files and the solver to launch there. -/
structure World where
  workspace : Workspace
  config : SolverConfig

/-- A running solver. -/
structure Channel (π : Type) where
  process : π
  tee : Option Location := none

variable {π : Type} [Processes π]

def launch (w : World) : Outcome (Channel π) × World :=
  match Processes.spawn w.workspace w.config.command w.config.args with
  | .error message =>
    (.error ((Failure.io message).withContext ("failed to spawn `" ++ w.config.command ++ "`")), w)
  | .ok (process, workspace) =>
    match w.config.tee with
    | none => (.ok { process }, { w with workspace })
    | some path =>
      match workspace.create ⟨path⟩ with
      | .error f => (.error ((Failure.io f.message).withContext ("failed to create " ++ path)), w)
      | .ok (tee, workspace) => (.ok { process, tee := some tee }, { w with workspace })

/-- Sends a line. The process may look at the tee file, which has the line by then. -/
def send (line : String) (c : Channel π) (w : World) : Outcome Unit × Channel π × World :=
  let text := (line ++ "\n").toUTF8
  let teed := match c.tee with
    | none => w.workspace
    | some tee => w.workspace.append tee text
  match Processes.write text c.process teed with
  | .error message => (.error (.io message), c, w)
  | .ok (process, workspace) => (.ok (), { c with process }, { w with workspace })

def closedOutput : Failure := .protocol "solver closed its output"

/-- A line that was read, without the white space at its end. -/
def decode (line : ByteArray) : Outcome String :=
  match String.fromUTF8? line with
  | some text => .ok (Text.trimEnd text)
  | none => .error (.io FileFault.notText.message)

/-- Reads the next line. -/
def receive (c : Channel π) (w : World) : Outcome String × Channel π × World :=
  let (line?, process, workspace) := Processes.readLine c.process w.workspace
  let outcome := match line? with
    | some line => decode line
    | none => .error closedOutput
  (outcome, { c with process }, { w with workspace })

/-- How the process ended, and what it left on its error output. -/
def exitReport (ending : Ending) (errors : ByteArray) : ExitReport where
  success := ending = .exited 0
  status :=
    let remarks := Text.trim ((String.fromUTF8? errors).getD "")
    ending.text ++ if remarks.isEmpty then "" else ": " ++ remarks

def shutdown (c : Channel π) (w : World) : Outcome ExitReport × World :=
  let ((ending, errors), workspace) := Processes.wait c.process w.workspace
  (.ok (exitReport ending errors), { w with workspace })

instance : Transport (Channel π) World where
  announcement w := some ("spawning solver `" ++ w.config.commandLine ++ "`")
  launch := launch
  send := send
  receive := receive
  shutdown := shutdown

end Piped

end ContractCheck
