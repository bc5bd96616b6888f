import ContractCheck.Shell.State

/-!
Signals by their names and numbers, and what a shell does when one reaches it.
-/

namespace ContractCheck.Shell

/-- How many signals there are, with those that have no names. -/
def signalCount : Nat := 65

def signalName (n : Nat) : String :=
  if n = 0 then "EXIT" else if n = 16 then "16" else (signalNames[n - 1]?).getD (toString n)

/-- The number of a signal, which may stand for itself; 0 has the name `EXIT`. -/
def signal? (text : Octets) : Option Nat :=
  match natural? 10 text with
  | some n => if n < signalCount then some n else none
  | none =>
    let name := String.ofList (text.map Char.toUpper)
    if name = "EXIT" then some 0
    else match signalNames.idxOf? name with
      | some n => if n = 15 then none else some (n + 1)
      | none => none

/-- What a shell says about a command that a signal has ended. -/
def signalRemark (n : Nat) : Option String :=
  match n with
  | 2 | 13 => none
  | 1 => some "Hangup"
  | 3 => some "Quit"
  | 4 => some "Illegal instruction"
  | 5 => some "Trace/breakpoint trap"
  | 6 => some "Aborted"
  | 7 => some "Bus error"
  | 8 => some "Floating point exception"
  | 9 => some "Killed"
  | 10 => some "User defined signal 1"
  | 11 => some "Segmentation fault"
  | 12 => some "User defined signal 2"
  | 14 => some "Alarm clock"
  | 15 => some "Terminated"
  | 16 => some "Stack fault"
  | 24 => some "CPU time limit exceeded"
  | 25 => some "File size limit exceeded"
  | 26 => some "Virtual timer expired"
  | 27 => some "Profiling timer expired"
  | 29 => some "I/O possible"
  | 30 => some "Power failure"
  | 31 => some "Bad system call"
  | n => some ("Real-time signal " ++ toString (n - 34))

/-- Signals that do nothing to a process that does not ask for them. -/
def isHarmless (n : Nat) : Bool := [0, 17, 18, 19, 20, 21, 22, 23, 28].contains n

/-- Texts in quotes that a shell reads back as they are. -/
def singleQuoted (text : Octets) : Octets :=
  let rec go : Nat → Octets → Octets
    | 0, _ => []
    | steps + 1, text =>
      let plain := text.takeWhile (· != '\'')
      let rest := text.drop plain.length
      let quotes := rest.takeWhile (· == '\'')
      let rest := rest.drop quotes.length
      (if plain.isEmpty && !quotes.isEmpty then [] else '\'' :: plain ++ ['\'']) ++
        (if quotes.isEmpty then [] else '"' :: quotes ++ ['"']) ++
        (if rest.isEmpty then [] else go steps rest)
  go (text.length + 1) text

namespace ShellM

/-- Takes a signal in: it waits for its commands, is ignored, or ends the process. -/
def takeSignal (signal : Nat) : ShellM Unit := do
  match (← get).traps.lookup signal with
  | some [] => return
  | some _ => modify fun s => { s with pending := s.pending ++ [signal] }
  | none => unless isHarmless signal do throw (.over (.killed signal))

/-- Takes in all signals that are on their way to this process. -/
def takeSignals : Nat → ShellM Unit
  | 0 => return
  | times + 1 => do
    let s ← get
    match ← askMachine fun m => m.takeSignal? s.self with
    | some (signal, m) =>
      updateMachine fun _ => m
      takeSignal signal
      takeSignals times
    | none => return

end ShellM

end ContractCheck.Shell
