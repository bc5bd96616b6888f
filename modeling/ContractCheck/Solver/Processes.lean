import ContractCheck.FileTree

/-!
Processes, as a program meets them that spawns one and talks with it through pipes. What they do is
a parameter. The program calls these operations and no others, and nothing is assumed of a process:
neither what it prints, nor when, nor which files it changes, nor how it ends. A result that needs a
solver to answer truthfully says so of the channel (`HonestSolver`), whether or not it is a process.
-/

namespace ContractCheck

/-- How a process ended. -/
inductive Ending where
  | exited (status : Nat)
  | killed (signal : Nat)
deriving DecidableEq, Repr

/-- The names of the signals, from the number 1 on. -/
def signalNames : List String :=
  ["HUP", "INT", "QUIT", "ILL", "TRAP", "ABRT", "BUS", "FPE", "KILL", "USR1", "SEGV", "USR2",
    "PIPE", "ALRM", "TERM", "STKFLT", "CHLD", "CONT", "STOP", "TSTP", "TTIN", "TTOU", "URG",
    "XCPU", "XFSZ", "VTALRM", "PROF", "WINCH", "IO", "PWR", "SYS"]

/-- How the system reports an ending. -/
def Ending.text : Ending → String
  | .exited status => "exit status: " ++ toString status
  | .killed signal => "signal: " ++ toString signal ++
      ((signalNames[signal - 1]?).map fun name => " (SIG" ++ name ++ ")").getD ""

/-- The processes of a system, which work on its files. -/
class Processes (π : Type) where
  /-- Starts a command with its arguments, or says why it cannot be started. -/
  spawn : Workspace → String → List String → Except String (π × Workspace)
  /-- Writes to the input of a process, or says why that cannot be done. -/
  write : ByteArray → π → Workspace → Except String (π × Workspace)
  /-- Waits for the next line of the output, and takes it without its end; `none` if the output has
  ended. -/
  readLine : π → Workspace → Option ByteArray × π × Workspace
  /-- Closes the input and waits for the end of the process, which has left this on its error
  output. -/
  wait : π → Workspace → (Ending × ByteArray) × Workspace

end ContractCheck
