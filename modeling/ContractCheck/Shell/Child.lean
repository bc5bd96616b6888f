import ContractCheck.Shell.Job
import ContractCheck.Solver.Processes

/-!
The jobs of a machine as the processes of a system. The programs of the machine are the shell and a
few small commands, so that a solver is usually a shell script. It stands in for the system that the
program runs on: nothing that is shown of solvers depends on it.
-/

namespace ContractCheck.Shell

/-- A process that was started from outside. -/
structure Child where
  job : Job
  /-- Whether the end of the output was read after the process had ended. -/
  gone : Bool := false

namespace Child

/-- Why a command cannot be started. A file that is there is not executable. -/
def spawnFault (w : Workspace) (command : String) : String :=
  if command.toList.contains '\x00' then "nul byte found in provided data"
  else if command.toList.contains '/' then
    match w.resolve ⟨command⟩ with
    | .ok _ => "Permission denied (os error 13)"
    | .error f => f.message
  else FileFault.missing.message

/-- The program that a command names. -/
def programOf? (command : String) : Option String :=
  if command.toList.contains '/' then programAt? (Octets.ofString command)
  else if isProgram command then some command
  else none

def spawn (w : Workspace) (command : String) (args : List String) :
    Except String (Child × Workspace) :=
  if args.any fun arg => arg.toList.contains '\x00' then .error "nul byte found in provided data"
  else match programOf? command with
    | some program =>
      let job := Job.start w program (args.map Octets.ofString)
      .ok ({ job }, job.machine.workspace)
    | none => .error (spawnFault w command)

/-- Lets the job go on with the files as they are. -/
def proceed (c : Child) (w : Workspace) (act : Job → Job) : Child × Workspace :=
  let job := act ⟨c.job.activity.onMachine fun m => { m with workspace := w }⟩
  ({ c with job }, job.machine.workspace)

def write (text : ByteArray) (c : Child) (w : Workspace) : Except String (Child × Workspace) :=
  if c.gone then .error "Broken pipe (os error 32)"
  else .ok (c.proceed w fun job => job.feed (Octets.ofBytes text))

/-- Lets time pass until a line can be read or none can come any more. -/
def awaitLine : Nat → Job → Job
  | 0, job => job
  | times + 1, job =>
    if job.output.contains '\n' || job.isSilent then job
    else match job.elapse? with
      | some later => awaitLine times later
      | none => job

/-- Takes the next line. A process that only waits for more input has no next line either. -/
def readLine (c : Child) (w : Workspace) : Option ByteArray × Child × Workspace :=
  let (c, w) := c.proceed w (awaitLine patience)
  let (line, rest) := Octets.splitLine c.job.output
  if rest.isSome then
    (some line.toBytes, { c with job := c.job.dropOutput (line.length + 1) }, w)
  else if c.job.isSilent && !line.isEmpty then
    (some line.toBytes, { c with job := c.job.dropOutput line.length }, w)
  else (none, { c with gone := c.gone || c.job.ending?.isSome }, w)

def wait (c : Child) (w : Workspace) : (Ending × ByteArray) × Workspace :=
  let (c, w) := c.proceed w fun job => job.endInput.finish patience
  ((c.job.ending?.getD (.exited 0), c.job.errors.toBytes), w)

instance : Processes Child where
  spawn := spawn
  write := write
  readLine := readLine
  wait := wait

end Child

end ContractCheck.Shell
