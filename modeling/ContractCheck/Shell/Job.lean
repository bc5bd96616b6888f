import ContractCheck.Shell.Interpreter

/-!
Jobs: programs that are started on a machine, with pipes for their input, their output and their
errors. A job is kept where it waits for more input or for a later time.
-/

namespace ContractCheck.Shell

structure Job where
  activity : Activity Ending

namespace Job

/-- The number of the first process of a machine. -/
def firstProcess : Nat := 1000

def environment : NameMap Octets :=
  NameMap.ofList [("HOME", "/root".toList),
    ("PATH", "/usr/local/sbin:/usr/local/bin:/usr/sbin:/usr/bin:/sbin:/bin".toList)]

/-- The text of a location. -/
def directoryText (loc : Location) : Octets :=
  '/' :: Octets.joinWith ['/'] (loc.reverse.map Octets.ofString)

/-- A machine on which a process has a pipe from outside and two that lead outside. -/
def connected (w : Workspace) : Machine :=
  let m := { Machine.boot w with next := firstProcess + 1 }
  let (input, m) := m.newPipe false
  let m := (m.hold outside 0 (.writeEnd input)).hold firstProcess 0 (.readEnd input)
  let (output, m) := m.newPipe false
  let m := (m.hold outside 1 (.readEnd output)).hold firstProcess 1 (.writeEnd output)
  let (errors, m) := m.newPipe false
  (m.hold outside 2 (.readEnd errors)).hold firstProcess 2 (.writeEnd errors)

def machine (j : Job) : Machine := j.activity.machine

/-- Goes on after something has changed on the machine. -/
def resume (j : Job) (change : Machine → Machine) : Job :=
  ⟨(j.activity.resumeOn (change j.machine)).settle⟩

def start (w : Workspace) (program : String) (args : List Octets) : Job :=
  ⟨(runTool stepLimit {
    owner := firstProcess
    parent := outside
    directory := directoryText w.current
    name := program
    arguments := args
    environment } (connected w)).settle⟩

def feed (j : Job) (text : Octets) : Job := j.resume fun m => (m.write outside 0 text).2

def endInput (j : Job) : Job := j.resume fun m => m.close outside 0

/-- What can be read of the output. -/
def output (j : Job) : Octets :=
  match j.machine.read outside 1 0x10000000 with
  | (.text text, _) => text
  | _ => []

/-- Drops what was read of the output. -/
def dropOutput (j : Job) (count : Nat) : Job :=
  ⟨j.activity.onMachine fun m => (m.read outside 1 count).2⟩

def errors (j : Job) : Octets :=
  match j.machine.read outside 2 0x10000000 with
  | (.text text, _) => text
  | _ => []

/-- Whether nothing more can come from the output. -/
def isSilent (j : Job) : Bool :=
  match j.machine.file? outside 1 with
  | some (.readEnd pipe) => !j.machine.hasWriter pipe
  | _ => true

def ending? (j : Job) : Option Ending := j.activity.result?

/-- Lets time pass until the job has something to do; nothing if that never comes. -/
def elapse? (j : Job) : Option Job :=
  j.activity.wake?.map fun time => j.resume fun m => { m with clock := max m.clock time }

/-- Lets time pass until the job has ended. -/
def finish : Nat → Job → Job
  | 0, j => j
  | times + 1, j =>
    match j.ending?, j.elapse? with
    | none, some later => finish times later
    | _, _ => j

end Job

end ContractCheck.Shell
