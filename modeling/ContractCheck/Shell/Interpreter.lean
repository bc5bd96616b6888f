import ContractCheck.Shell.Builtins
import ContractCheck.Shell.Reader

/-!
Running scripts. A command gives a status, which is zero if it succeeds. Parts of a script that have
a process of their own, among them the stages of a pipeline and scripts whose output is taken, get
a copy of what the shell knows. Steps are counted, and a script that takes too many of them is
ended.
-/

namespace ContractCheck.Shell

open ShellM

/-- How deep commands may be nested, and how often loops may go round. -/
def stepLimit : Nat := 0x1000000

/-- How many functions may be running inside each other. -/
def functionLimit : Nat := 1000

/-- What a command's name stands for. -/
inductive Meaning where
  | function (body : Command)
  | builtin (name : String)
  | program (name : String)
  | missing
  | forbidden

/-- A state for a part of a script that has a process of its own. -/
def State.part (s : State) (self : Nat) : State :=
  { s with
    self
    jobs := []
    traps := s.traps.filter fun t => t.2.isEmpty
    pending := []
    trapStatus := none }

/-- The state of a shell that is started as a program. -/
def State.fresh (self parent : Nat) (ignored : List Nat) (environment : NameMap Octets)
    (directory : Octets) : State where
  self
  root := self
  name := "sh".toList
  directory
  traps := ignored.map fun signal => (signal, [])
  bindings :=
    let inherited := environment.entries.foldl (fun (map : NameMap Binding) (name, value) =>
      if isName name.toList then map.insert name { value := some value, exported := true }
      else map) ∅
    let own := [("IFS", " \t\n"), ("OPTIND", "1"), ("PPID", toString parent), ("PS1", "# "),
      ("PS2", "> "), ("PS4", "+ ")].foldl (fun (map : NameMap Binding) (name, value) =>
        map.insert name { value := some value.toList }) inherited
    own.insert "PWD" { value := some directory, exported := true }

/-- A descriptor that is not in use, from those for later on. -/
def spareDescriptor (m : Machine) (owner : Nat) : Nat :=
  ((List.range 1000).map (· + keptDescriptors)).find?
    (fun fd => (m.descriptors.lookup (owner, fd)).isNone) |>.getD keptDescriptors

/-- Runs a program in a process that there is already, and ends the process. -/
def runProgram (call : Call) (run : ProgramM Nat) : MachineM Ending := fun m =>
  (run.run call m).bind fun outcome m =>
    .finished (match outcome with
      | .ok status => .exited status
      | .error ending => ending) (m.closeAll call.owner)

/-- Gives jobs time, and takes a number for a new process with the same files. -/
def newProcess : ShellM Nat := do
  onMachine MachineM.yield
  modify fun s => { s with jobs := s.jobs.map fun job => { job with unseen := false } }
  let s ← get
  let child ← onMachine (MachineM.step Machine.newNumber)
  updateMachine fun m => m.inherit s.self child
  return child

/-- Takes note of how a command's process has ended. -/
def conclude (ending : Ending) : ShellM Nat := do
  if let .killed signal := ending then
    if let some remark := signalRemark signal then
      let _ ← emit 2 (line remark)
  takeSignals 100
  return ending.status

/-- Waits for all jobs. -/
def drainJobs : ShellM Unit := do
  (← get).jobs.forM fun job => do
    let _ ← Builtins.awaitJob job.number patience

/-- What a descriptor stood for before a redirection. -/
structure Kept where
  fd : Nat
  spare : Option Nat

/-- Writes what is about to be run if that is asked for, to where errors went before the command's
redirections. -/
def traceCommand (kept : List Kept) (assignments : List (String × Octets)) (fields : List Octets) :
    ShellM Unit := do
  let s ← get
  if s.hasOption 'x' then
    let fd := ((kept.find? fun k => k.fd == 2).bind Kept.spare).getD 2
    let shown := assignments.map (fun (name, value) => name.toList ++ '=' :: value) ++ fields
    unless shown.isEmpty do
      let head := (s.value? "PS4").getD []
      let _ ← emit fd (head ++ Octets.joinWith [' '] shown ++ ['\n'])

/-- What the name of a command means. -/
def meaningOf (withFunctions : Bool) (name : String) : ShellM Meaning := do
  let s ← get
  match (if withFunctions then s.functions.get? name else none) with
  | some body => return .function body
  | none =>
    if isBuiltin name then return .builtin name
    else match Builtins.findProgram? s name with
      | some path => return .program ((programAt? path).getD name)
      | none =>
        if name.toList.contains '/' && (← workspace).exists? ⟨name⟩ then return .forbidden
        else return .missing

/-- Tells what a name means as a command. -/
def describe (brief : Bool) (name : Octets) : ShellM Nat := do
  let text := String.ofList name
  let s ← get
  let answer (short long : String) : ShellM Nat :=
    say (line (if brief then short else text ++ " is " ++ long))
  if keywords.contains text then answer text "a shell keyword"
  else match s.aliases.get? text with
    | some replacement =>
      answer ("alias " ++ text ++ "=" ++ String.ofList (singleQuoted replacement))
        ("an alias for " ++ String.ofList replacement)
    | none =>
      match ← meaningOf true text with
      | .function _ => answer text "a shell function"
      | .builtin _ =>
        answer text (if isSpecialBuiltin text then "a special shell builtin" else "a shell builtin")
      | .program _ =>
        let path := String.ofList ((Builtins.findProgram? s text).getD name)
        answer path path
      | .missing | .forbidden =>
        unless brief do let _ ← say (line (text ++ ": not found"))
        return 127

/-- The arguments of `command` in front of the command. -/
structure CommandOptions where
  describing : Option Bool := none
  rest : List Octets

def commandOptions (args : List Octets) : ShellM CommandOptions := do
  let (options, rest) ← optionsOf "pvV" args
  let describing := options.foldl (fun d o => if o.1 = 'v' then some true
    else if o.1 = 'V' then some false else d) none
  return { describing, rest }

/-- A file that a redirection cannot open, as complaints put it. -/
def openComplaint (mode : OpenMode) (name : Octets) (fault : FileFault) : String :=
  let absent := fault = .missing ∨ fault = .notDirectory
  match mode with
  | .read =>
    "cannot open " ++ String.ofList name ++ ": " ++
      if absent then "No such file" else reasonOf fault
  | _ =>
    "cannot create " ++ String.ofList name ++ ": " ++
      if absent then "Directory nonexistent" else reasonOf fault

/-- A redirection whose words have been expanded. -/
inductive Connection where
  | close (fd : Nat)
  | duplicate (fd source : Nat)
  | file (mode : OpenMode) (fd : Nat) (name : Octets)
  | document (fd number : Nat)

def Connection.descriptor : Connection → Nat
  | .close fd | .duplicate fd _ | .file _ fd _ | .document fd _ => fd

def keep (fd : Nat) : ShellM Kept := do
  let s ← get
  onMachine (MachineM.step fun m =>
    let spare := spareDescriptor m s.self
    match m.duplicate? s.self fd spare with
    | some m => (⟨fd, some spare⟩, m)
    | none => (⟨fd, none⟩, m))

def giveBack (kept : List Kept) : ShellM Unit := do
  let s ← get
  updateMachine fun m => kept.foldl (fun m k =>
    match k.spare with
    | some spare => ((m.duplicate? s.self spare k.fd).getD m).close s.self spare
    | none => m.close s.self k.fd) m

def forget (kept : List Kept) : ShellM Unit := do
  let s ← get
  updateMachine fun m => kept.foldl (fun m k =>
    match k.spare with
    | some spare => m.close s.self spare
    | none => m) m

/-- Goes on past loops that commands have left: whether the loop at hand goes on, and what is passed
over outside of it. -/
def afterRound (s : State) : Bool × State :=
  match s.skipping with
  | .nothing => (true, s)
  | .function => (false, s)
  | .loops count again =>
    if count ≤ 1 then (again, { s with skipping := .nothing })
    else (false, { s with skipping := .loops (count - 1) again })

def isSkipping : ShellM Bool := return (← get).skipping != .nothing

/-- The words of assignments, which some commands take as arguments. -/
def takesAssignments (name : String) : Bool := ["export", "readonly", "local"].contains name

/-- Takes `command` away where another command follows it, as often as it stands there. -/
def stripCommand : Nat → List Octets → Bool × List Octets
  | 0, fields => (false, fields)
  | _, [] => (false, [])
  | steps + 1, name :: rest =>
    if name = "command".toList then
      match rest.dropWhile (· == "-p".toList) with
      | ['-', '-'] :: target :: args => (true, (stripCommand steps (target :: args)).2)
      | target :: args =>
        if target.head? = some '-' ∧ target ≠ ['-'] then (false, name :: rest)
        else (true, (stripCommand steps (target :: args)).2)
      | [] => (false, name :: rest)
    else (false, name :: rest)

def Meaning.isBuiltin : Meaning → Bool
  | .builtin _ => true
  | _ => false

/-- The next commands of a script. If it may go on, and more of it is needed, the script as it
was. -/
def nextCommands (source : Source) : ShellM (Except Source (Listed × Source)) := do
  let s ← get
  let source := { source with aliases := s.aliases, documentCount := s.documentCount }
  match source.readLine with
  | .ok (listed, after) =>
    modify fun s => { s with
      documents := after.documents ++ s.documents
      documentCount := after.documentCount }
    return .ok (listed, { after with documents := [] })
  | .error .incomplete => return .error source
  | .error (.malformed line text) =>
    modify fun s => { s with line }
    fail text

def describeAll (brief : Bool) (names : List Octets) : ShellM Nat := do
  let found ← names.mapM (describe brief)
  return found.foldl max 0

/-- Looks for programs. -/
def findAll (names : List Octets) : ShellM Nat := do
  let (_, names) ← optionsOf "rv" names
  let found ← names.mapM fun name => do
    match ← meaningOf true (String.ofList name) with
    | .missing | .forbidden =>
      complain (String.ofList name ++ ": not found")
      return false
    | _ => return true
  return Builtins.statusOf (found.all id)

/-- The answer of `test` as a program. -/
def askTool (args : List Octets) : ProgramM Nat := do
  let call ← read
  let w ← ProgramM.onMachine (MachineM.ask fun m =>
    match m.workspace.resolve (pathOf call.directory) with
    | .ok current => { m.workspace with current }
    | .error _ => m.workspace)
  match Test.verdict (Programs.factsOf w isToolPath) args with
  | .ok verdict => return Builtins.statusOf verdict
  | .error text =>
    ProgramM.complain text
    return 2

/-- Takes the options in front of a shell's arguments: whether a script follows, and what follows
the options. -/
def shellOptions : Nat → Bool → List Octets → ShellM (Bool × List Octets)
  | 0, script, args => return (script, args)
  | _, script, [] => return (script, [])
  | steps + 1, script, arg :: rest => do
    match arg with
    | ['-'] | ['-', '-'] => return (script, rest)
    | sign :: letter :: more =>
      if sign ≠ '-' ∧ sign ≠ '+' then return (script, arg :: rest)
      let behind := if more.isEmpty then rest else (sign :: more) :: rest
      if letter = 'c' then shellOptions steps true behind
      else if letter = 'l' then shellOptions steps script behind
      else if letter = 'o' then
        match rest with
        | [] =>
          let _ ← Builtins.listOptions (sign == '+')
          return (script, [])
        | name :: rest =>
          let _ ← Builtins.setOptions 2 [[sign, 'o'], name]
          shellOptions steps script (if more.isEmpty then rest else (sign :: more) :: rest)
      else
        let _ ← Builtins.setOptions 2 [[sign, letter]]
        shellOptions steps script behind
    | arg => return (script, arg :: rest)

/-- The text of a script in a file. -/
def scriptFile (name : Octets) : ShellM Octets := do
  let w ← workspace
  match w.readBytes (pathOf name) with
  | .ok content => return Octets.ofBytes content
  | .error .isDirectory => return []
  | .error f => fail (openComplaint .read name f)

mutual

/-- Runs a command. In a command that is `tested` a failure does not end the script. -/
def run : Nat → Bool → Command → ShellM Nat
  | 0, _, _ => throw (.over (.killed 9))
  | steps + 1, tested, command => do
    if (← get).hasOption 'n' then return (← get).status
    let checked (act : ShellM Nat) : ShellM Nat := do
      let status ← act
      setStatus status
      if status ≠ 0 ∧ tested = false then
        if (← get).hasOption 'e' then throw .exit
      return status
    let status ← match command with
      | .nothing => pure 0
      | .simple line assignments words redirections =>
        checked (runSimple steps tested line assignments words redirections)
      | .sequence first second => do
        let status ← run steps tested first
        if ← isSkipping then pure status else run steps tested second
      | .both first second => do
        let status ← run steps true first
        if status ≠ 0 ∨ (← isSkipping) then pure status else run steps tested second
      | .either first second => do
        let status ← run steps true first
        if status = 0 ∨ (← isSkipping) then pure status else run steps tested second
      | .negated body => do
        let status ← run steps true body
        pure (if status = 0 then 1 else 0)
      | .pipeline stages => checked (runPipeline steps tested stages)
      | .background body => do
        runInBackground steps body
        pure 0
      | .branch test onTrue onFalse => do
        let status ← run steps true test
        if ← isSkipping then pure status
        else if status = 0 then run steps tested onTrue
        else run steps tested onFalse
      | .loop untilTrue test body => do
        modify fun s => { s with loopDepth := s.loopDepth + 1 }
        let status ← runLoop steps tested untilTrue test body 0
        modify fun s => { s with loopDepth := s.loopDepth - 1 }
        pure status
      | .each line name items body => do
        modify fun s => { s with line }
        let items := (← items.mapM (expandFields (capture steps))).flatten
        modify fun s => { s with loopDepth := s.loopDepth + 1 }
        let status ← runEach steps tested name items body 0
        modify fun s => { s with loopDepth := s.loopDepth - 1 }
        pure status
      | .choose line subject arms => do
        modify fun s => { s with line }
        let text ← expandOne (capture steps) subject
        runArms steps tested text arms
      | .subshell line body => do
        modify fun s => { s with line }
        checked (runApart steps tested body)
      | .function name body => do
        modify fun s => { s with functions := s.functions.insert name body }
        pure 0
      | .redirected line body redirections => do
        modify fun s => { s with line }
        match body with
        | .subshell _ inner =>
          let connections ← redirections.mapM (expandRedirection steps)
          checked (runApartRedirected steps tested inner connections)
        | _ =>
          match ← connectAll steps redirections with
          | none => checked (pure 2)
          | some kept => afterwards (run steps tested body) (giveBack kept)
    setStatus status
    takeSignals 100
    runTraps steps 100
    return (← get).status

/-- Runs the commands that signals have asked for. -/
def runTraps : Nat → Nat → ShellM Unit
  | 0, _ => return
  | _, 0 => return
  | steps + 1, times + 1 => do
    let s ← get
    match s.pending with
    | [] => return
    | signal :: rest =>
      if s.skipping != .nothing then return
      set { s with pending := rest }
      match s.traps.lookup signal with
      | none | some [] => runTraps steps times
      | some action =>
        modify fun s => { s with trapStatus := s.trapStatus.orElse fun () => some s.status }
        let _ ← runText steps false action
        modify fun inner => { inner with
          trapStatus := s.trapStatus
          status := if inner.skipping == .function then inner.status else s.status }
        runTraps steps times

def runLoop : Nat → Bool → Bool → Command → Command → Nat → ShellM Nat
  | 0, _, _, _, _, _ => throw (.over (.killed 9))
  | steps + 1, tested, untilTrue, test, body, status => do
    let verdict ← run steps true test
    let skipped := (← get).skipping
    if skipped != .nothing then
      let status := if skipped == .function then verdict else status
      let (goesOn, s) := afterRound (← get)
      set s
      if goesOn then runLoop steps tested untilTrue test body status else return status
    else if (verdict == 0) == untilTrue then return status
    else
      let status ← run steps tested body
      let (goesOn, s) := afterRound (← get)
      set s
      if goesOn then runLoop steps tested untilTrue test body status else return status

def runEach : Nat → Bool → String → List Octets → Command → Nat → ShellM Nat
  | 0, _, _, _, _, _ => throw (.over (.killed 9))
  | _, _, _, [], _, status => return status
  | steps + 1, tested, name, item :: items, body, _ => do
    assign name item
    let status ← run steps tested body
    let (goesOn, s) := afterRound (← get)
    set s
    if goesOn then runEach steps tested name items body status else return status

/-- Runs the first branch with a pattern that the text matches. -/
def runArms : Nat → Bool → Octets → List (List Word × Command) → ShellM Nat
  | 0, _, _, _ => throw (.over (.killed 9))
  | _, _, _, [] => return 0
  | steps + 1, tested, text, (patterns, body) :: arms => do
    if ← matchesAny steps text patterns then run steps tested body
    else runArms steps tested text arms

def matchesAny : Nat → Octets → List Word → ShellM Bool
  | 0, _, _ => throw (.over (.killed 9))
  | _, _, [] => return false
  | steps + 1, text, pattern :: patterns => do
    if matchesPattern (← expandPattern (capture steps) pattern) text then return true
    matchesAny steps text patterns

/-- Runs commands to the end of their process, with the commands for its end. -/
def runWhole : Nat → ShellM Nat → ShellM Ending
  | 0, _ => return .killed 9
  | steps + 1, body => do
    let ending ← match ← attempt body with
      | .error (.over ending) => pure ending
      | _ => do
        let s ← get
        match s.traps.lookup 0 with
        | none | some [] => pure (.exited s.status)
        | some action =>
          set { s with
            traps := s.traps.filter fun t => t.1 != 0
            skipping := .nothing
            trapStatus := some s.status }
          match ← attempt (runText steps false action) with
          | .error (.over ending) => pure ending
          | .error _ => pure (.exited (← get).status)
          | .ok _ => pure (.exited s.status)
    let _ ← attempt drainJobs
    return ending

/-- A process of its own for commands, which it closes all files after. -/
def process : Nat → State → ShellM Nat → MachineM Ending
  | 0, _, _ => pure (.killed 9)
  | steps + 1, s, body => fun m =>
    ((runWhole steps body).run s m).bind fun (outcome, _) m =>
      .finished (match outcome with
        | .ok ending => ending
        | .error _ => .killed 9) (m.closeAll s.self)

def runApart : Nat → Bool → Command → ShellM Nat
  | 0, _, _ => throw (.over (.killed 9))
  | steps + 1, tested, body => do
    let child ← newProcess
    conclude (← onMachine (process steps ((← get).part child) (run steps tested body)))

def runApartRedirected : Nat → Bool → Command → List Connection → ShellM Nat
  | 0, _, _, _ => throw (.over (.killed 9))
  | steps + 1, tested, body, connections => do
    let child ← newProcess
    conclude (← onMachine (process steps ((← get).part child)
      (runConnected steps tested body connections)))

/-- Makes redirections for good, and runs commands if none of them fails. -/
def runConnected : Nat → Bool → Command → List Connection → ShellM Nat
  | 0, _, _, _ => throw (.over (.killed 9))
  | steps + 1, tested, body, connections => do
    for c in connections do
      match ← attempt (connect steps c) with
      | .ok () => pure ()
      | .error .error =>
        setStatus 2
        throw .error
      | .error stop => throw stop
    run steps tested body

/-- Runs a command in a process that has nothing else to do, so that a part of the script that asks
for a process of its own has this one. -/
def runInside : Nat → Bool → Command → ShellM Nat
  | 0, _, _ => throw (.over (.killed 9))
  | steps + 1, tested, command =>
    match command with
    | .subshell line body => do
      modify fun s => { s with line }
      runInside steps tested body
    | .redirected line (.subshell _ body) redirections => do
      modify fun s => { s with line }
      let connections ← redirections.mapM (expandRedirection steps)
      runConnected steps tested body connections
    | command => run steps tested command

/-- What a script writes to its output. -/
def capture : Nat → Command → ShellM Octets
  | 0, _ => throw (.over (.killed 9))
  | steps + 1, body => do
    let s ← get
    let spare ← askMachine fun m => spareDescriptor m s.self
    let child ← newProcess
    updateMachine fun m =>
      let (pipe, m) := m.newPipe false
      (m.hold child 1 (.writeEnd pipe)).hold s.self spare (.readEnd pipe)
    let ending ← onMachine (process steps ((← get).part child) (run steps false body))
    let status ← conclude ending
    let text ← onMachine (MachineM.step fun m =>
      let (reading, m) := m.read s.self spare 0x10000000
      (match reading with
        | .text text => text
        | _ => [], m.close s.self spare))
    modify fun s => { s with outputStatus := status }
    return text.filter (· != '\x00')

/-- Runs commands side by side, each with the output of the one before it as its input. -/
def runPipeline : Nat → Bool → List Command → ShellM Nat
  | 0, _, _ => throw (.over (.killed 9))
  | steps + 1, tested, stages => do
    let turns ← startStages steps tested stages none
    let endings ← onMachine (Turn.together patience turns)
    conclude (endings.getLastD (.exited 0))

def startStages : Nat → Bool → List Command → Option Nat → ShellM (List (Turn Ending))
  | 0, _, _, _ => throw (.over (.killed 9))
  | _, _, [], _ => return []
  | steps + 1, tested, stage :: rest, input => do
    let child ← newProcess
    if let some pipe := input then updateMachine fun m => m.hold child 0 (.readEnd pipe)
    let output ← if rest.isEmpty then pure none
      else do
        let pipe ← onMachine (MachineM.step fun m => m.newPipe true)
        updateMachine fun m => m.hold child 1 (.writeEnd pipe)
        pure (some pipe)
    let inner := (← get).part child
    let others ← startStages steps tested rest output
    return .waiting none true (process steps inner (runInside steps tested stage)) :: others

def runInBackground : Nat → Command → ShellM Unit
  | 0, _ => throw (.over (.killed 9))
  | steps + 1, body => do
    let child ← newProcess
    updateMachine fun m => m.hold child 0 .discard
    let inner := (← get).part child
    let act := process steps inner (runInside steps false body)
    modify fun s => { s with
      jobs := s.jobs ++ [⟨child, .waiting none true act, false⟩]
      lastJob := some child }

/-- Runs the commands of a text. -/
def runText : Nat → Bool → Octets → ShellM Nat
  | 0, _, _ => throw (.over (.killed 9))
  | steps + 1, tested, text => runLines steps tested { rest := text } 0

def runLines : Nat → Bool → Source → Nat → ShellM Nat
  | 0, _, _, _ => throw (.over (.killed 9))
  | steps + 1, tested, source, status => do
    match ← nextCommands source with
    | .error _ | .ok (.finished, _) => return status
    | .ok (.nothing, source) => runLines steps tested source status
    | .ok (.commands command, source) =>
      let status ← run steps tested command
      if ← isSkipping then return status else runLines steps tested source status

/-- Runs the commands that come from the standard input, as they come. -/
def runInput : Nat → Source → Nat → ShellM Nat
  | 0, _, _ => throw (.over (.killed 9))
  | steps + 1, source, status => do
    match ← nextCommands source with
    | .error source =>
      match ← onMachine (MachineM.read (← get).self 0 0x2000) with
      | .text text => runInput steps { source with rest := source.rest ++ text } status
      | _ => runInput steps { source with more := false } status
    | .ok (.finished, _) => return status
    | .ok (.nothing, source) => runInput steps source status
    | .ok (.commands command, source) =>
      let status ← run steps false command
      if ← isSkipping then return status else runInput steps source status

/-- A redirection with its words expanded. -/
def expandRedirection : Nat → Redirection → ShellM Connection
  | 0, _ => throw (.over (.killed 9))
  | steps + 1, redirection => do
    match redirection with
    | .duplicate fd source =>
      match ← expandOne (capture steps) source with
      | ['-'] => return .close fd
      | [d] =>
        if d.isDigit then return .duplicate fd (digitsValue 10 [d])
        else fail "Syntax error: Bad fd number"
      | _ => fail "Syntax error: Bad fd number"
    | .file mode fd name => return .file mode fd (← expandOne (capture steps) name)
    | .document fd number => return .document fd number

/-- Makes a descriptor stand for another file. -/
def connect : Nat → Connection → ShellM Unit
  | 0, _ => throw (.over (.killed 9))
  | steps + 1, connection => do
    let s ← get
    match connection with
    | .close fd => updateMachine fun m => m.close s.self fd
    | .duplicate fd source =>
      let found ← onMachine (MachineM.step fun m =>
        match m.duplicate? s.self source fd with
        | some m => (true, m)
        | none => (false, m))
      unless found do fail (toString source ++ ": Bad file descriptor")
    | .file mode fd name =>
      let path := absolute s.directory name
      let isProtected := match mode with
        | .write => s.hasOption 'C'
        | _ => false
      if isProtected && (← workspace).isFile (pathOf path) then
        fail ("cannot create " ++ String.ofList name ++ ": File exists")
      let fault ← onMachine (MachineM.step fun m =>
        match m.openNamed s.self fd mode path with
        | .ok m => (none, m)
        | .error f => (some f, m))
      if let some f := fault then fail (openComplaint mode name f)
    | .document fd number =>
      let text ← expandOne (capture steps) ((s.documents.lookup number).getD [])
      updateMachine fun m =>
        let (pipe, m) := m.newPipe false text
        m.hold s.self fd (.readEnd pipe)

/-- Makes redirections; what they have replaced, or nothing if one of them fails. -/
def connectAll : Nat → List Redirection → ShellM (Option (List Kept))
  | 0, _ => throw (.over (.killed 9))
  | steps + 1, redirections => do
    connectEach steps (← redirections.mapM (expandRedirection steps)) []

def connectEach : Nat → List Connection → List Kept → ShellM (Option (List Kept))
  | 0, _, _ => throw (.over (.killed 9))
  | _, [], kept => return some kept
  | steps + 1, c :: rest, kept => do
    let kept := (← keep c.descriptor) :: kept
    match ← attempt (connect steps c) with
    | .ok () => connectEach steps rest kept
    | .error stop =>
      giveBack kept
      match stop with
      | .error =>
        setStatus 2
        return none
      | stop => throw stop

/-- The fields of a command. Arguments that are assignments are not split if the command takes
them. -/
def expandCommand : Nat → Bool → List Word → ShellM (List Octets)
  | 0, _, _ => throw (.over (.killed 9))
  | _, _, [] => return []
  | steps + 1, assigning, word :: words => do
    let fields ← match assigning, word.assignment? with
      | true, some (name, value) => do
        let value ← expandValue (capture steps) value
        pure [name.toList ++ '=' :: value]
      | _, _ => expandFields (capture steps) word
    let assigning := assigning || fields.any fun field => takesAssignments (String.ofList field)
    let passing := fields.all fun field => field == "command".toList || field.head? == some '-'
    let more ← if assigning || passing then expandCommand steps assigning words
      else expandArguments steps words
    return fields ++ more

def expandArguments : Nat → List Word → ShellM (List Octets)
  | 0, _ => throw (.over (.killed 9))
  | _, [] => return []
  | steps + 1, word :: words => do
    let fields ← expandFields (capture steps) word
    return fields ++ (← expandArguments steps words)

/-- Makes assignments, one after the other. -/
def assignAll : Nat → Bool → Bool → List (String × Word) → ShellM (List (String × Octets))
  | 0, _, _, _ => throw (.over (.killed 9))
  | _, _, _, [] => return []
  | steps + 1, covering, exporting, (name, word) :: rest => do
    let value ← expandValue (capture steps) word
    if covering then hide name
    assign name value exporting
    return (name, value) :: (← assignAll steps covering exporting rest)

def runSimple : Nat → Bool → Nat → List (String × Word) → List Word → List Redirection →
    ShellM Nat
  | 0, _, _, _, _, _ => throw (.over (.killed 9))
  | steps + 1, tested, line, assignments, words, redirections => do
    modify fun s => { s with line, outputStatus := 0 }
    let fields ← expandCommand steps false words
    let withFunctions := ((← get).functions.get? "command").isNone
    let (stripped, target) := if withFunctions then stripCommand fields.length fields
      else (false, fields)
    match target with
    | [] =>
      match ← connectAll steps redirections with
      | none => return 2
      | some kept =>
        afterwards (do
          traceCommand kept (← assignAll steps false false assignments) []
          return (← get).outputStatus) (giveBack kept)
    | name :: args =>
      let meaning ← meaningOf (!stripped) (String.ofList name)
      let special := !stripped && isSpecialBuiltin (String.ofList name) && meaning.isBuiltin
      let isExec := meaning.isBuiltin && name == "exec".toList
      let depth := (← get).hidden.length
      let covering := !special && (!assignments.isEmpty || !meaning.isBuiltin)
      if covering then pushHidden
      afterwards (do
        match ← connectAll steps redirections with
        | none => if special then throw .error else return 2
        | some kept =>
          let act : ShellM Nat := do
            let exporting := covering || (isExec && !args.isEmpty)
            let values ← assignAll steps covering exporting assignments
            -- The path may have been assigned to.
            let meaning ← if values.isEmpty then pure meaning
              else meaningOf (!stripped) (String.ofList name)
            traceCommand kept values fields
            invoke steps tested special meaning name args
          if isExec && args.isEmpty then
            let status ← act
            forget kept
            return status
          else afterwards act (giveBack kept)) (unhide depth)

/-- Runs a command whose name and arguments are known. -/
def invoke : Nat → Bool → Bool → Meaning → Octets → List Octets → ShellM Nat
  | 0, _, _, _, _, _ => throw (.over (.killed 9))
  | steps + 1, tested, special, meaning, name, args => do
    match meaning with
    | .function body => runFunction steps tested body args
    | .builtin name => runBuiltin steps tested special name args
    | .program program =>
      let child ← newProcess
      let s ← get
      conclude (← onMachine (runTool steps {
        owner := child
        parent := s.self
        ignored := s.ignored
        directory := s.directory
        name := program
        arguments := args
        environment := s.exported }))
    | .forbidden =>
      complain (String.ofList name ++ ": Permission denied")
      return 126
    | .missing =>
      complain (String.ofList name ++ if name.isEmpty then ": Permission denied" else ": not found")
      return 127

def runFunction : Nat → Bool → Command → List Octets → ShellM Nat
  | 0, _, _, _ => throw (.over (.killed 9))
  | steps + 1, tested, body, args => do
    let before ← get
    if functionLimit ≤ before.functionDepth then
      fail ("Maximum function recursion depth (" ++ toString functionLimit ++ ") reached")
    set { before with
      arguments := args
      loopDepth := 0
      functionDepth := before.functionDepth + 1
      optionOffset := 0 }
    afterwards (run steps tested body) (modify fun s => { s with
      arguments := before.arguments
      loopDepth := before.loopDepth
      functionDepth := before.functionDepth
      optionOffset := before.optionOffset
      skipping := if s.skipping == .function then .nothing else s.skipping })

/-- Runs a command of the shell. An error ends the script if the command is special. -/
def runBuiltin : Nat → Bool → Bool → String → List Octets → ShellM Nat
  | 0, _, _, _, _ => throw (.over (.killed 9))
  | steps + 1, tested, special, name, args => do
    let speaker := (← get).speaker
    modify fun s => { s with speaker := some name }
    let outcome ← attempt (match name with
      | "eval" => runText steps tested (Octets.joinWith [' '] args)
      | "." => runFile steps args
      | "exec" => replaceShell steps args
      | "command" => runCommandOptions steps args
      | "type" => describeAll false args
      | "hash" => findAll args
      | name => match builtin? name with
        | some act => act args
        | none => pure 0)
    modify fun s => { s with speaker }
    match outcome with
    | .ok status => return status
    | .error .error => if special then throw .error else return (← get).status
    | .error stop => throw stop

/-- What `command` does that names no command to be run. -/
def runCommandOptions : Nat → List Octets → ShellM Nat
  | 0, _ => throw (.over (.killed 9))
  | _ + 1, args => do
    let options ← commandOptions args
    match options.describing, options.rest with
    | some brief, name :: _ => describe brief name
    | _, _ => return 0

/-- Runs the commands in a file. -/
def runFile : Nat → List Octets → ShellM Nat
  | 0, _ => throw (.over (.killed 9))
  | _, [] => return 0
  | steps + 1, name :: _ => do
    let w ← workspace
    let path := pathOf name
    if name.contains '/' then
      match w.readBytes path with
      | .ok content =>
        modify fun s => { s with speaker := some (String.ofList name) }
        let status ← runText steps false (Octets.ofBytes content)
        modify fun s => { s with
          skipping := if s.skipping == .function then .nothing else s.skipping }
        return status
      | .error f => fail (openComplaint .read name f)
    else fail (String.ofList name ++ ": not found")

/-- Goes on as another program, whose end is that of the process. -/
def replaceShell : Nat → List Octets → ShellM Nat
  | 0, _ => throw (.over (.killed 9))
  | _, [] => return 0
  | steps + 1, name :: args => do
    let s ← get
    match Builtins.findProgram? s (String.ofList name) with
    | some path =>
      let program := (programAt? (absolute s.directory path)).getD (String.ofList name)
      let ending ← onMachine (runTool steps {
        owner := s.self
        parent := s.root
        ignored := s.ignored
        directory := s.directory
        name := program
        arguments := args
        environment := s.exported })
      throw (.over ending)
    | none =>
      let forbidden := name.contains '/' && (← workspace).exists? (pathOf name)
      complain (String.ofList name ++ if forbidden then ": Permission denied" else ": not found")
      setStatus (if forbidden then 126 else 127)
      throw .exit

/-- Runs a program in a process that is there for it. -/
def runTool : Nat → Call → MachineM Ending
  | 0, _ => pure (.killed 9)
  | steps + 1, call => do
    match call.name with
    | "sh" | "dash" => runShell steps call
    | "env" => runWithEnvironment steps call call.arguments
    | "test" => runProgram call (askTool call.arguments)
    | "[" => runProgram call (askTool call.arguments.dropLast)
    | name =>
      match program? name with
      | some act => runProgram call (act call.arguments)
      | none => pure (.exited 127)

/-- Runs a program with more in its environment, or shows the environment. -/
def runWithEnvironment : Nat → Call → List Octets → MachineM Ending
  | 0, _, _ => pure (.killed 9)
  | steps + 1, call, args => do
    match args with
    | [] =>
      runProgram call do
        ProgramM.put (call.environment.entries.map fun (name, value) =>
          name.toList ++ '=' :: value ++ ['
']).flatten
        return 0
    | ['-', 'i'] :: rest => runWithEnvironment steps { call with environment := ∅ } rest
    | ['-', 'u'] :: name :: rest =>
      let environment := call.environment.erase (String.ofList name)
      runWithEnvironment steps { call with environment } rest
    | name :: rest =>
      match splitAssignment name with
      | (key, some value) =>
        runWithEnvironment steps { call with environment := call.environment.insert key value } rest
      | (text, none) =>
        match programAt? name with
        | some program => runTool steps { call with name := program, arguments := rest }
        | none =>
          if isProgram text then runTool steps { call with name := text, arguments := rest }
          else runProgram call do
            ProgramM.complain ("'" ++ text ++ "': No such file or directory")
            return 127

/-- A shell as a program. -/
def runShell : Nat → Call → MachineM Ending
  | 0, _ => pure (.killed 9)
  | steps + 1, call =>
    let s := State.fresh call.owner call.parent call.ignored call.environment call.directory
    process steps s do
      let (script, args) ← shellOptions patience false call.arguments
      match script, args with
      | true, [] => fail "-c requires an argument"
      | true, text :: args =>
        modify fun s => { s with name := args.headD s.name, arguments := args.tail }
        runText steps false text
      | false, args =>
        match args, (← get).hasOption 's' with
        | name :: args, false =>
          let content ← scriptFile name
          modify fun s => { s with name, arguments := args }
          runText steps false content
        | args, _ =>
          if args.isEmpty then Builtins.switch 's' true
          modify fun s => { s with arguments := args }
          runInput steps { rest := [], more := true } 0

end

end ContractCheck.Shell
