import ContractCheck.CommandLine.Arguments
import ContractCheck.Display
import ContractCheck.Manifest
import ContractCheck.Run
import ContractCheck.Solver.Piped

/-!
What a run of the command line does with the files of a system. It ends with status 0, with 1 if
something failed, and with 2 if the arguments are not understood.
-/

namespace ContractCheck.CommandLine

/-- What a run leaves behind. -/
structure Result where
  status : Nat
  output : String := ""
  errors : String := ""
  log : Array LogRecord := #[]
  /-- How much of the log is to be shown. -/
  loud : Nat := 0
  workspace : Workspace

def versionText : String := "refine 0.1.0\n"

def usageText : String :=
  "Refinement contract verifier\n\nUsage: refine [OPTIONS] <COMMAND>\n\nCommands:\n" ++
  "  check     Verify the contracts of a typed expression (JSON)\n" ++
  "  builtins  Print the signatures every program starts with\n" ++
  "  help      Print this message or the help of the given subcommand(s)\n"

def padRight (width : Nat) (text : String) : String :=
  text ++ String.ofList (List.replicate (width - text.length) ' ')

/-- The line that shows a signature. -/
def signatureLine (name : String) (sig : Signature) : String :=
  padRight 13 sig.origin.name ++ " " ++ padRight 7 name ++ " : " ++ sig.ty.display ++ "\n"

def builtinsText : String :=
  String.join (prelude.entries.map fun (name, sig) => signatureLine name sig)

def verifiedText (s : Summary) : String :=
  "verified: " ++ toString s.obligations ++ " obligation(s) discharged, " ++ toString s.fresh ++
    " fresh variable(s)\n"

/-- The configuration with what the arguments say about the solver. -/
def CheckOptions.override (o : CheckOptions) (config : SolverConfig) : SolverConfig :=
  let config := match o.solver with
    | some command => config.withCommand command
    | none => config
  let config := if o.solverArgs.isEmpty then config else config.withArgs o.solverArgs
  match o.tee with
  | some path => config.withTee path
  | none => config

/-- The configuration of a check, from the manifest in charge and the arguments. -/
def CheckOptions.config (o : CheckOptions) (w : Workspace) :
    Except InputFault SolverConfig × List LogRecord :=
  let (config, log) := Manifest.load w ⟨o.input⟩
  (config.map o.override, log)

section

variable (π : Type) [Processes π]

/-- Verifies a program in a session of its own, which is stopped whatever comes out. -/
def verifyProgram (program : Program) (config : SolverConfig) (w : Workspace) :
    Outcome Summary × Session (Piped.Channel π) Piped.World :=
  let idle : Session (Piped.Channel π) Piped.World := { world := ⟨w, config⟩ }
  let (proved, session) := Session.prove program.env program.expr idle
  let (stopped, session) := Session.stop session
  (proved.bind fun summary => stopped.map fun () => summary, session)

def failed (message : String) : String := "Error: " ++ message ++ "\n"

def runCheck (o : CheckOptions) (loud : Nat) (w : Workspace) : Result :=
  let (config, log) := o.config w
  let fail (message : String) : Result :=
    { status := 1, errors := failed message, log := log.toArray, loud, workspace := w }
  match config with
  | .error f => fail f.display
  | .ok config =>
    match Program.load w ⟨o.input⟩ with
    | .error f => fail f.display
    | .ok program =>
      let (outcome, session) := verifyProgram π program config w
      let log := log.toArray ++ session.log
      let workspace := session.world.workspace
      match outcome with
      | .ok summary => { status := 0, output := verifiedText summary, log, loud, workspace }
      | .error f => { status := 1, errors := failed f.display, log, loud, workspace }

/-- Runs the command line on a system with such processes. -/
def runOn (args : List String) (w : Workspace) : Result :=
  match read 0 args with
  | none => { status := 2, errors := usageText, workspace := w }
  | some (.version, loud) => { status := 0, output := versionText, loud, workspace := w }
  | some (.help, loud) => { status := 0, output := usageText, loud, workspace := w }
  | some (.builtins, loud) => { status := 0, output := builtinsText, loud, workspace := w }
  | some (.check options, loud) => runCheck π options loud w

end

/-- Whether a record is shown: warnings always, more with every request to be louder. -/
def isShown (loud : Nat) (level : LogLevel) : Bool :=
  match level with
  | .error | .warn => true
  | .info | .debug => 1 ≤ loud
  | .trace => 2 ≤ loud

end ContractCheck.CommandLine
