import ContractCheck.NameMap
import ContractCheck.Shell.Activity
import ContractCheck.Shell.Script
import ContractCheck.Solver.Processes

/-!
What a shell knows while it runs a script, and the effects that its commands are made of. A command
ends with a status. An early end is one of three: the shell exits, or an error was reported that
ends a script unless something catches it, or the process is over at once.
-/

namespace ContractCheck

/-- The status that a shell gives to an ended process. -/
def Ending.status : Ending → Nat
  | .exited status => status
  | .killed signal => 128 + signal

namespace Shell

/-- Why a shell leaves the command at hand early. -/
inductive Stop where
  | exit
  /-- An error that has been reported. -/
  | error
  | over (ending : Ending)

structure Binding where
  value : Option Octets := none
  exported : Bool := false
  fixed : Bool := false

/-- Commands that are passed over until a loop, function or script is left. -/
inductive Skipping where
  | nothing
  /-- Leaves loops; the outermost of them goes on if `again` is set. -/
  | loops (count : Nat) (again : Bool)
  | function
deriving DecidableEq

/-- A process that a shell has started and not waited for. -/
structure Background where
  number : Nat
  turn : Turn Ending
  /-- Whether the shell has killed it and not heard of its end. -/
  unseen : Bool := false

structure State where
  /-- The process of this shell. -/
  self : Nat
  /-- The process of the shell that this one is a part of. -/
  root : Nat
  name : Octets
  arguments : List Octets := []
  bindings : NameMap Binding := ∅
  functions : NameMap Command := ∅
  aliases : NameMap Octets := ∅
  documents : List (Nat × Word) := []
  documentCount : Nat := 0
  status : Nat := 0
  options : List Char := []
  /-- The line of the command at hand. -/
  line : Nat := 0
  /-- The command that complaints are about. -/
  speaker : Option String := none
  /-- Commands for signals; the number 0 stands for the end of the shell. -/
  traps : List (Nat × Octets) := []
  /-- The signals that wait for their commands. -/
  pending : List Nat := []
  /-- The status to exit with while a trap's commands run. -/
  trapStatus : Option Nat := none
  /-- What the innermost functions have hidden. -/
  hidden : List (List (String × Option Binding)) := []
  skipping : Skipping := .nothing
  loopDepth : Nat := 0
  functionDepth : Nat := 0
  jobs : List Background := []
  lastJob : Option Nat := none
  /-- The status of the last script whose output the command at hand has taken. -/
  outputStatus : Nat := 0
  directory : Octets
  /-- The rights that new files do not have. -/
  mask : Nat := 0x12
  /-- Where `getopts` stands in an argument. -/
  optionOffset : Nat := 0

abbrev ShellM := ExceptT Stop (StateT State MachineM)

/-- The number that descriptors have from which on they are kept for later. -/
def keptDescriptors : Nat := 10

namespace State

def value? (s : State) (name : String) : Option Octets :=
  (s.bindings.get? name).bind Binding.value

def separators (s : State) : Octets := (s.value? "IFS").getD [' ', '\t', '\n']

def hasOption (s : State) (letter : Char) : Bool := s.options.contains letter

def ignores (s : State) (signal : Nat) : Bool := s.traps.lookup signal == some []

/-- The signals that other programs ignore too. -/
def ignored (s : State) : List Nat :=
  s.traps.filterMap fun (signal, action) => if action.isEmpty then some signal else none

/-- What other programs get to know. -/
def exported (s : State) : NameMap Octets :=
  s.bindings.entries.foldl (fun map (name, b) =>
    match b.exported, b.value with
    | true, some value => map.insert name value
    | _, _ => map) ∅

end State

/-- Goes on with jobs as far as they get. -/
def runJobs : List Background → Machine → List Background × Machine
  | [], m => ([], m)
  | job :: rest, m =>
    let (turn, m) := job.turn.run m
    let (rest, m) := runJobs rest m
    ({ job with turn } :: rest, m)

def wakeOf (jobs : List Background) : Option Nat :=
  jobs.foldl (fun wake job => earlier wake job.turn.wake?) none

/-- An activity whose pauses leave time for jobs. -/
def amid {α : Type} (jobs : List Background) (act : Activity α) :
    Activity (α × List Background) :=
  match act with
  | .finished a m => .finished (a, jobs) m
  | .paused m wake yielded resume =>
    let (jobs', m') := runJobs jobs m
    if m'.events = m.events then
      .paused m' (earlier wake (wakeOf jobs')) yielded fun m =>
        let (jobs, m) := runJobs jobs' m
        amid jobs (resume m)
    else amid jobs' (resume m')

namespace ShellM

variable {α : Type}

def onMachine (act : MachineM α) : ShellM α := fun s m =>
  if s.jobs.isEmpty then (act m).bind fun a m => .finished (.ok a, s) m
  else (amid s.jobs (act m)).bind fun (a, jobs) m => .finished (.ok a, { s with jobs }) m

def askMachine (f : Machine → α) : ShellM α := onMachine (MachineM.ask f)

def updateMachine (f : Machine → Machine) : ShellM Unit := onMachine (MachineM.update f)

/-- Goes on after an early end, which is given back. -/
def attempt (act : ShellM α) : ShellM (Except Stop α) := fun s m =>
  (act s m).bind fun (outcome, s) m => .finished (.ok outcome, s) m

def ofOutcome : Except Stop α → ShellM α
  | .ok a => pure a
  | .error stop => throw stop

/-- Does something whether a command ends early or not. -/
def afterwards (act : ShellM α) (cleanUp : ShellM Unit) : ShellM α := do
  let outcome ← attempt act
  cleanUp
  ofOutcome outcome

def setStatus (n : Nat) : ShellM Unit := modify fun s => { s with status := n }

/-- Writes to a descriptor; the reason if that fails. A broken pipe ends the process unless the
signal for that is ignored. -/
def emit (fd : Nat) (text : Octets) : ShellM (Option String) := do
  let s ← get
  match ← onMachine (MachineM.write s.self fd text) with
  | .done => return none
  | .failed reason => return some reason
  | .broken =>
    if s.ignores 13 then return some "Broken pipe" else throw (.over (.killed 13))

/-- The text that introduces complaints. -/
def complaintHead (s : State) : String :=
  String.ofList s.name ++ ": " ++ toString s.line ++ ": " ++
    (s.speaker.map fun name => name ++ ": ").getD ""

/-- Complaints are kept in octets, one for each character. -/
def complain (text : String) : ShellM Unit := do
  let _ ← emit 2 ((complaintHead (← get) ++ text ++ "\n").toList)

/-- Reports an error. -/
def fail (text : String) : ShellM α := do
  complain text
  setStatus 2
  throw .error

/-- Writes to the standard output, for a command. -/
def say (text : Octets) : ShellM Nat := do
  match ← emit 1 text with
  | none => return 0
  | some _ =>
    complain (((← get).speaker.getD "") ++ ": I/O error")
    return 1

def binding (name : String) : ShellM Binding := return ((← get).bindings.get? name).getD {}

def setBinding (name : String) (b : Binding) : ShellM Unit :=
  modify fun s => { s with bindings := s.bindings.insert name b }

/-- Sets a variable. -/
def assign (name : String) (value : Octets) (exporting : Bool := false) : ShellM Unit := do
  let b ← binding name
  if b.fixed then fail (name ++ ": is read only")
  let exported := b.exported || exporting || (← get).hasOption 'a'
  setBinding name { b with value := some value, exported }
  if name = "OPTIND" then modify fun s => { s with optionOffset := 0 }

def unset (name : String) : ShellM Unit := do
  if (← binding name).fixed then fail (name ++ ": is read only")
  modify fun s => { s with bindings := s.bindings.erase name }

/-- Keeps the present binding of a name until the innermost function ends. -/
def hide (name : String) : ShellM Unit := modify fun s =>
  match s.hidden with
  | [] => s
  | top :: rest => { s with hidden := ((name, s.bindings.get? name) :: top) :: rest }

def pushHidden : ShellM Unit := modify fun s => { s with hidden := [] :: s.hidden }

/-- Brings back what was hidden until only `depth` functions are left. -/
def unhide (depth : Nat) : ShellM Unit := modify fun s =>
  let surplus := s.hidden.take (s.hidden.length - depth)
  let bindings := surplus.flatten.foldl (fun map (name, old) =>
    match old with
    | some b => map.insert name b
    | none => map.erase name) s.bindings
  { s with bindings, hidden := s.hidden.drop surplus.length }

/-- Whole numbers that commands take; anything else is an error. -/
def number (text : Octets) : ShellM Nat :=
  match natural? 10 text with
  | some n => if n < 0x80000000 then return n else fail ("Illegal number: " ++ String.ofList text)
  | none => fail ("Illegal number: " ++ String.ofList text)

end ShellM

end Shell

end ContractCheck
