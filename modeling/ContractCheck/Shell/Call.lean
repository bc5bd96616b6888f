import ContractCheck.Shell.State

/-!
Programs that are not the shell: how they are called, and what they do to read files, write, and
complain. A program gives a status, or ends early.
-/

namespace ContractCheck.Shell

/-- How a program is called. -/
structure Call where
  /-- The process that the program runs in. -/
  owner : Nat
  parent : Nat
  /-- The signals that the process ignores. -/
  ignored : List Nat := []
  directory : Octets
  name : String
  arguments : List Octets
  environment : NameMap Octets

/-- A name of a file as it is seen from a directory. -/
def absolute (directory name : Octets) : Octets :=
  if name.isEmpty || name.head? == some '/' then name else directory ++ '/' :: name

abbrev ProgramM := ReaderT Call (ExceptT Ending MachineM)

namespace ProgramM

variable {α : Type}

def onMachine (act : MachineM α) : ProgramM α := fun _ m =>
  (act m).bind fun a m => .finished (.ok a) m

def die (status : Nat) : ProgramM α := throw (.exited status)

def complain (text : String) : ProgramM Unit := do
  let c ← read
  let _ ← onMachine (MachineM.write c.owner 2 (c.name ++ ": " ++ text ++ "\n").toList)

/-- Complains about the arguments, and ends. -/
def misuse (text : String) : ProgramM α := do
  complain text
  let c ← read
  let _ ← onMachine (MachineM.write c.owner 2
    ("Try '" ++ c.name ++ " --help' for more information.\n").toList)
  die 1

/-- Complains about a file that cannot be read. -/
def complainOf (name : Octets) (reason : String) : ProgramM Unit := do
  let name := String.ofList name
  match (← read).name with
  | "head" | "tail" => complain ("cannot open '" ++ name ++ "' for reading: " ++ reason)
  | "tac" => complain ("failed to open '" ++ name ++ "' for reading: " ++ reason)
  | "rev" => complain ("cannot open " ++ name ++ ": " ++ reason)
  | "sort" => complain ("cannot read: " ++ name ++ ": " ++ reason)
  | _ => complain (name ++ ": " ++ reason)

def put (text : Octets) : ProgramM Unit := do
  if text.isEmpty then return
  match ← onMachine (MachineM.write (← read).owner 1 text) with
  | .done => return
  | .broken =>
    if (← read).ignored.contains 13 then
      complain "write error: Broken pipe"
      die 1
    else throw (.killed 13)
  | .failed reason =>
    complain ("write error: " ++ reason)
    die 1

/-- The next octets of a file, as many as there are; nothing at its end. -/
def chunk (fd : Nat) : ProgramM Octets := do
  match ← onMachine (MachineM.read (← read).owner fd 0x10000) with
  | .text text => return text
  | .ended | .blocked => return []
  | .failed reason =>
    complain ("-: " ++ reason)
    die 1

/-- Hands every part of a file on as soon as it is there. -/
def forChunks (fd : Nat) (act : Octets → ProgramM Unit) : Nat → ProgramM Unit
  | 0 => return
  | times + 1 => do
    match ← chunk fd with
    | [] => return
    | text =>
      act text
      forChunks fd act times

def gather (fd : Nat) : Nat → Octets → ProgramM Octets
  | 0, done => return done
  | times + 1, done => do
    match ← chunk fd with
    | [] => return done
    | text => gather fd times (done ++ text)

/-- Everything up to the end of a file. -/
def wholeInput (fd : Nat) : ProgramM Octets := gather fd patience []

/-- The descriptor that programs open files with. -/
def fileDescriptor : Nat := 3

/-- Does something with a file, whose name may be a dash for the standard input. `false` if the file
cannot be read, or if what is done fails. -/
def withFile (name : Octets) (act : Nat → ProgramM Bool) : ProgramM Bool := do
  let c ← read
  if name = ['-'] then return ← act 0
  let opened ← onMachine (MachineM.step fun m =>
    match m.openNamed c.owner fileDescriptor .read (absolute c.directory name) with
    | .ok m =>
      match m.file? c.owner fileDescriptor with
      | some .directory => (some (reasonOf .isDirectory), m.close c.owner fileDescriptor)
      | _ => (none, m)
    | .error f => (some (reasonOf f), m))
  match opened with
  | some reason =>
    complainOf name reason
    return false
  | none =>
    let done ← act fileDescriptor
    onMachine (MachineM.update fun m => m.close c.owner fileDescriptor)
    return done

/-- Does something with every file, or with the standard input if there are none. -/
def forFiles (names : List Octets) (act : Octets → Nat → ProgramM Bool) : ProgramM Nat := do
  let names := if names.isEmpty then [['-']] else names
  let done ← names.mapM fun name => withFile name (act name)
  return if done.all id then 0 else 1

/-- The text of all files. -/
def allFiles (names : List Octets) : ProgramM (Octets × Nat) := do
  let names := if names.isEmpty then [['-']] else names
  let mut text : Octets := []
  let mut status := 0
  for name in names do
    let c ← read
    if name = ['-'] then text := text ++ (← wholeInput 0)
    else
      let found ← onMachine (MachineM.ask fun m =>
        match m.workspace.resolve (pathOf (absolute c.directory name)) with
        | .ok place =>
          match m.workspace.root.at? place with
          | some (.file content) => Except.ok (Octets.ofBytes content)
          | _ => .error FileFault.isDirectory
        | .error f => .error f)
      match found with
      | .ok content => text := text ++ content
      | .error f =>
        complainOf name (reasonOf f)
        status := 1
  return (text, status)

/-- The whole lines of a text, and what stands behind the last of them. -/
def splitWhole (text : Octets) : List Octets × Octets :=
  let lines := Octets.lines text
  (lines.filter fun line => line.getLast? == some '\n',
    (lines.filter fun line => line.getLast? != some '\n').flatten)

/-- Hands lines on as soon as they are there, until `step` wants no more of them. -/
def foldLines {σ : Type} (fd : Nat) (step : σ → Octets → ProgramM (σ × Bool)) :
    Nat → σ → Octets → ProgramM (σ × Bool)
  | 0, state, _ => return (state, true)
  | times + 1, state, kept => do
    match ← chunk fd with
    | [] => if kept.isEmpty then return (state, true) else step state kept
    | text =>
      let (lines, rest) := splitWhole (kept ++ text)
      let (state, goesOn) ← lines.foldlM (fun (state, goesOn) line =>
        if goesOn then step state line else pure (state, false)) (state, true)
      if goesOn then foldLines fd step times state rest else return (state, false)

end ProgramM

def lineBody (line : Octets) : Octets := Octets.dropEnd line (· == '\n')

/-- Options of one letter, with their values, in front of the other arguments. -/
def splitOptions (withValue : List Char) : Nat → List Octets → List (Char × Octets) × List Octets
  | 0, args => ([], args)
  | _, [] => ([], [])
  | steps + 1, arg :: rest =>
    match arg with
    | ['-', '-'] => ([], rest)
    | '-' :: letter :: more =>
      if withValue.contains letter then
        match more, rest with
        | [], value :: rest =>
          let (options, args) := splitOptions withValue steps rest
          ((letter, value) :: options, args)
        | more, rest =>
          let (options, args) := splitOptions withValue steps rest
          ((letter, more) :: options, args)
      else
        let rest := if more.isEmpty then rest else ('-' :: more) :: rest
        let (options, args) := splitOptions withValue steps rest
        ((letter, []) :: options, args)
    | arg => ([], arg :: rest)

/-- Options of one letter, with their values, and the other arguments, among which options may
stand. `long` gives the letters of options that are words. -/
def gatherOptions (withValue : List Char) (long : List (String × Char)) :
    Nat → List Octets → Except String (List (Char × Octets) × List Octets)
  | 0, args => return ([], args)
  | _, [] => return ([], [])
  | steps + 1, arg :: rest => do
    match arg with
    | ['-', '-'] => return ([], rest)
    | '-' :: '-' :: word =>
      let name := word.takeWhile (· != '=')
      match long.lookup (String.ofList name), word.drop (name.length + 1), rest with
      | none, _, _ => throw ("unrecognized option '" ++ String.ofList arg ++ "'")
      | some letter, [], value :: behind =>
        if withValue.contains letter then
          let (options, args) ← gatherOptions withValue long steps behind
          return ((letter, value) :: options, args)
        else
          let (options, args) ← gatherOptions withValue long steps rest
          return ((letter, []) :: options, args)
      | some letter, value, rest =>
        let (options, args) ← gatherOptions withValue long steps rest
        return ((letter, value) :: options, args)
    | '-' :: letter :: more =>
      if withValue.contains letter then
        match more, rest with
        | [], [] => throw ("option requires an argument -- '" ++ String.singleton letter ++ "'")
        | [], value :: rest =>
          let (options, args) ← gatherOptions withValue long steps rest
          return ((letter, value) :: options, args)
        | more, rest =>
          let (options, args) ← gatherOptions withValue long steps rest
          return ((letter, more) :: options, args)
      else if (long.any fun l => l.2 == letter) then
        let rest := if more.isEmpty then rest else ('-' :: more) :: rest
        let (options, args) ← gatherOptions withValue long steps rest
        return ((letter, []) :: options, args)
      else throw ("invalid option -- '" ++ String.singleton letter ++ "'")
    | arg =>
      let (options, args) ← gatherOptions withValue long steps rest
      return (options, arg :: args)

end ContractCheck.Shell
