import ContractCheck.Shell.Expansion
import ContractCheck.Shell.Programs
import ContractCheck.Shell.Signal

/-!
The commands that a shell has itself, except for those that run other commands. Each takes its
arguments and gives a status.
-/

namespace ContractCheck.Shell

namespace ShellM

/-- The options of one letter in front of the other arguments. A colon behind a letter stands for a
value that it takes. -/
def optionsWithin (allowed : List Char) :
    Nat → List Octets → ShellM (List (Char × Octets) × List Octets)
  | 0, args => return ([], args)
  | _, [] => return ([], [])
  | steps + 1, arg :: rest => do
    match arg with
    | ['-', '-'] => return ([], rest)
    | '-' :: letter :: more =>
      match if letter = ':' then [] else allowed.dropWhile (· != letter) with
      | [] => fail ("Illegal option -" ++ String.singleton letter)
      | _ :: ':' :: _ =>
        let (value, rest) ← match more, rest with
          | [], [] => fail ("No arg for -" ++ String.singleton letter ++ " option")
          | [], value :: rest => pure (value, rest)
          | more, rest => pure (more, rest)
        let (options, args) ← optionsWithin allowed steps rest
        return ((letter, value) :: options, args)
      | _ =>
        let rest := if more.isEmpty then rest else ('-' :: more) :: rest
        let (options, args) ← optionsWithin allowed steps rest
        return ((letter, []) :: options, args)
    | arg => return ([], arg :: rest)

def optionsOf (allowed : String) (args : List Octets) :
    ShellM (List (Char × Octets) × List Octets) :=
  optionsWithin allowed.toList ((args.map List.length).foldl (· + ·) 1) args

def checkName (name : Octets) : ShellM Unit := do
  if !isName name then fail (String.ofList name ++ ": bad variable name")

/-- An argument as a name, perhaps with a value. -/
def splitAssignment (arg : Octets) : String × Option Octets :=
  let name := arg.takeWhile (· != '=')
  (String.ofList name, match arg.drop name.length with
    | _ :: value => some value
    | [] => none)

def line (text : String) : Octets := text.toList ++ ['\n']

/-- Speaks of all variables of a kind. -/
def listBindings (head : String) (p : Binding → Bool) : ShellM Nat := do
  let s ← get
  say ((s.bindings.entries.filter fun e => p e.2).map fun (name, b) =>
    head.toList ++ name.toList ++ (match b.value with
      | some value => '=' :: singleQuoted value
      | none => []) ++ ['\n']).flatten

end ShellM

open ShellM

namespace Builtins

def echo (args : List Octets) : ShellM Nat := say (echoText args)

def printf (args : List Octets) : ShellM Nat := do
  let (_, args) ← optionsOf "" args
  match args with
  | [] => fail "usage: printf format [arg ...]"
  | format :: args =>
    let (printing, fault) := Shell.printf format args
    printing.complaints.forM complain
    match fault with
    | some text =>
      let _ ← attempt (fail text : ShellM Nat)
      let _ ← say printing.text
      throw .error
    | none =>
      let status ← say printing.text
      return if printing.complaints.isEmpty then status else 1

/-- A verdict as a status. -/
def statusOf (verdict : Bool) : Nat := if verdict then 0 else 1

def verdictOf (args : List Octets) : ShellM Nat := do
  let facts := Programs.factsOf (← workspace) isToolPath
  match Test.verdict facts args with
  | .ok verdict => return statusOf verdict
  | .error text => fail text

def bracket (args : List Octets) : ShellM Nat := do
  match args.reverse with
  | (']' :: _) :: args => verdictOf args.reverse
  | _ => fail "missing ]"

/-- The absolute path that a path leads to by its text. -/
def plainPath (path : Octets) : Octets :=
  let parts := (Octets.fieldsOf '/' path).foldl (fun parts part =>
    if part.isEmpty || part == ['.'] then parts
    else if part == ['.', '.'] then parts.tail
    else part :: parts) []
  '/' :: Octets.joinWith ['/'] parts.reverse

def cd (args : List Octets) : ShellM Nat := do
  let (_, args) ← optionsOf "LP" args
  let s ← get
  let (target, telling) := match args with
    | [] => ((s.value? "HOME").getD [], false)
    | ['-'] :: _ => ((s.value? "OLDPWD").getD s.directory, true)
    | target :: _ => (target, false)
  let path := plainPath (absolute s.directory target)
  if target.isEmpty then return 0
  if (← askMachine fun m => (m.workspace.find? (pathOf path)).any FileTree.isDir) then
    assign "OLDPWD" s.directory true
    assign "PWD" path true
    modify fun s => { s with directory := path }
    if telling then say (path ++ ['\n']) else return 0
  else fail ("can't cd to " ++ String.ofList target)

def pwd (_ : List Octets) : ShellM Nat := do say ((← get).directory ++ ['\n'])

/-- Marks variables, or lists those that are marked. -/
def markBindings (head : String) (marked : Binding → Bool) (mark : Binding → Binding)
    (args : List Octets) : ShellM Nat := do
  let (options, args) ← optionsOf "p" args
  if !options.isEmpty || args.isEmpty then listBindings head marked
  else
    args.forM fun arg => do
      let (name, value) := splitAssignment arg
      checkName name.toList
      if let some value := value then assign name value
      setBinding name (mark (← binding name))
    return 0

/-- Makes variables of a function. -/
def makeLocal (args : List Octets) : ShellM Nat := do
  if (← get).hidden.isEmpty then fail "not in a function"
  args.forM fun arg => do
    let (name, value) := splitAssignment arg
    unless name = "-" do
      checkName name.toList
      hide name
      if let some value := value then assign name value
  return 0

def unset (args : List Octets) : ShellM Nat := do
  let (options, names) ← optionsOf "vf" args
  names.forM fun name => do
    if options.any fun o => o.1 == 'f' then
      modify fun s => { s with functions := s.functions.erase (String.ofList name) }
    else
      let (name, _) := splitAssignment name
      checkName name.toList
      ShellM.unset name
  return 0

/-- The long names of the shell's options. -/
def optionNames : List (String × Char) :=
  [("errexit", 'e'), ("noglob", 'f'), ("ignoreeof", 'I'), ("interactive", 'i'), ("monitor", 'm'),
    ("noexec", 'n'), ("stdin", 's'), ("xtrace", 'x'), ("verbose", 'v'), ("vi", 'V'), ("emacs", 'E'),
    ("noclobber", 'C'), ("allexport", 'a'), ("notify", 'b'), ("nounset", 'u'),
    ("privileged", 'p'), ("nolog", 'L'), ("debug", 'D')]

def switch (letter : Char) (on : Bool) : ShellM Unit :=
  modify fun s =>
    let others := s.options.filter (· != letter)
    { s with options := if on then letter :: others else others }

def listOptions (asCommands : Bool) : ShellM Nat := do
  let s ← get
  let lines := optionNames.map fun (name, letter) =>
    let on := s.hasOption letter
    if asCommands then line ("set " ++ (if on then "-" else "+") ++ "o " ++ name)
    else line (name.pushn ' ' (16 - name.length) ++ if on then "on" else "off")
  say ((if asCommands then [] else line "Current option settings") ++ lines.flatten)

/-- Sets options. What is left are the new parameters, if there are any to be set. -/
def setOptions : Nat → List Octets → ShellM (Option (List Octets))
  | 0, _ => return none
  | _, [] => return none
  | steps + 1, arg :: rest => do
    match arg with
    | ['-', '-'] => return some rest
    | ['-'] =>
      switch 'x' false
      switch 'v' false
      return if rest.isEmpty then none else some rest
    | sign :: 'o' :: more =>
      if sign ≠ '-' ∧ sign ≠ '+' then return some (arg :: rest)
      let on := sign == '-'
      let rest' := if more.isEmpty then rest.tail else (sign :: more) :: rest.tail
      match rest with
      | [] =>
        let _ ← listOptions (!on)
        if more.isEmpty then return none else setOptions steps rest'
      | name :: _ =>
        match optionNames.lookup (String.ofList name) with
        | some letter =>
          switch letter on
          setOptions steps rest'
        | none => fail ("Illegal option -o " ++ String.ofList name)
    | sign :: letter :: more =>
      if sign ≠ '-' ∧ sign ≠ '+' then return some (arg :: rest)
      if State.optionLetters.contains letter || "pq".contains letter then
        switch letter (sign == '-')
        setOptions steps (if more.isEmpty then rest else (sign :: more) :: rest)
      else fail ("Illegal option -" ++ String.singleton letter)
    | arg => return some (arg :: rest)

def setCommand (args : List Octets) : ShellM Nat := do
  if args.isEmpty then listBindings "" fun b => b.value.isSome
  else
    match ← setOptions ((args.map List.length).foldl (· + ·) 1) args with
    | some parameters =>
      modify fun s => { s with arguments := parameters, optionOffset := 0 }
      setBinding "OPTIND" { ← binding "OPTIND" with value := some ['1'] }
    | none => pure ()
    return 0

def shift (args : List Octets) : ShellM Nat := do
  let n ← match args with
    | [] => pure 1
    | n :: _ => number n
  let s ← get
  if s.arguments.length < n then fail "can't shift that many"
  set { s with arguments := s.arguments.drop n }
  return 0

/-- Leaves loops, as many as there are at most. -/
def leave (again : Bool) (args : List Octets) : ShellM Nat := do
  let n ← match args with
    | [] => pure 1
    | n :: _ => number n
  if n = 0 then fail ("Illegal number: " ++ String.ofList (args.headD []))
  let depth := (← get).loopDepth
  if 0 < depth then
    modify fun s => { s with skipping := .loops (min n depth) again }
  return 0

def returnCommand (args : List Octets) : ShellM Nat := do
  let status ← match args with
    | [] => pure (← get).status
    | n :: _ => number n
  modify fun s => { s with skipping := .function }
  return status

def exit (args : List Octets) : ShellM Nat := do
  match args with
  | [] =>
    if let some status := (← get).trapStatus then setStatus status
  | n :: _ =>
    setStatus ((← number n) % 256)
    modify fun s => { s with trapStatus := none }
  throw .exit

/-- One line of the standard input, in which a backslash quotes the next octet and joins lines
unless `raw` is set; and whether the line had an end. -/
def readGlyphs (raw : Bool) : Nat → Bool → List Glyph → ShellM (List Glyph × Bool)
  | 0, _, done => return (done.reverse, false)
  | times + 1, escaped, done => do
    let s ← get
    match ← onMachine (MachineM.read s.self 0 1) with
    | .text [c] =>
      if c = '\x00' then readGlyphs raw times escaped done
      else if escaped then
        if c = '\n' then readGlyphs raw times false done
        else readGlyphs raw times false (⟨c, true⟩ :: done)
      else if c = '\\' ∧ raw = false then readGlyphs raw times true done
      else if c = '\n' then return (done.reverse, true)
      else readGlyphs raw times false (⟨c, false⟩ :: done)
    | _ => return (done.reverse, false)

def isSeparator (separators : Octets) (g : Glyph) : Bool :=
  !g.quoted && separators.contains g.octet

def isWhiteSeparator (separators : Octets) (g : Glyph) : Bool :=
  isSeparator separators g && (isBlank g.octet || g.octet == '\n')

/-- Passes over the separators behind the end of a field. -/
def skipGlyphs (separators : Octets) : Bool → List Glyph → List Glyph
  | _, [] => []
  | afterWhite, g :: rest =>
    if isWhiteSeparator separators g then skipGlyphs separators afterWhite rest
    else if isSeparator separators g && afterWhite then skipGlyphs separators false rest
    else g :: rest

/-- What the last variable gets: everything that is left, without the separators at its end unless
they end more than one field. `tail` holds what may have to be dropped, the last glyph first. -/
def lastField (separators : Octets) (kept : List Glyph) (tail : Option (List Glyph))
    (afterWhite : Bool) : List Glyph → List Glyph
  | [] => kept.reverse
  | g :: rest =>
    let isSep := isSeparator separators g
    let isWhite := isWhiteSeparator separators g
    match tail with
    | none =>
      if isWhite then lastField separators kept (some [g]) afterWhite rest
      else lastField separators (g :: kept) none (afterWhite && g.quoted) rest
    | some dropped =>
      if g.quoted || isWhite then lastField separators kept (some (g :: dropped)) afterWhite rest
      else if isSep && afterWhite then lastField separators kept (some (g :: dropped)) false rest
      else lastField separators (g :: dropped ++ kept) none false rest

/-- The values that a line gives to variables. -/
def distribute (separators : Octets) : List String → List Glyph → List (String × Octets)
  | [], _ => []
  | names, line =>
    match names, line.dropWhile (isWhiteSeparator separators) with
    | [], _ => []
    | [name], line =>
      let first := line.takeWhile (!isSeparator separators ·)
      match line.drop first.length with
      | [] => [(name, Glyph.text first)]
      | g :: rest =>
        [(name, Glyph.text (lastField separators first.reverse (some [g])
          (isWhiteSeparator separators g) rest))]
    | name :: names, line =>
      let field := line.takeWhile (!isSeparator separators ·)
      let rest := match line.drop field.length with
        | [] => []
        | g :: rest => skipGlyphs separators (isWhiteSeparator separators g) rest
      (name, Glyph.text field) :: distribute separators names rest

def readCommand (args : List Octets) : ShellM Nat := do
  let (options, names) ← optionsOf "p:r" args
  if names.isEmpty then fail "arg count"
  let raw := options.any fun o => o.1 == 'r'
  let (glyphs, ended) ← readGlyphs raw patience false []
  let names' := names.map String.ofList
  (distribute (← get).separators names' glyphs).forM fun (name, value) => do
    checkName name.toList
    assign name value
  return statusOf ended

/-- One more option of the arguments that `getopts` works on. -/
def getopts (args : List Octets) : ShellM Nat := do
  match args with
  | optstring :: variableName :: rest =>
    let s ← get
    let args := if rest.isEmpty then s.arguments else rest
    let index := ((s.value? "OPTIND").bind (natural? 10)).getD 1
    let index := if index = 0 ∨ args.length + 1 < index then 1 else index
    let silent := optstring.head? == some ':'
    let finish (index : Nat) (offset : Nat) (result : Char) (done : Bool) : ShellM Nat := do
      assign "OPTIND" (Octets.ofNat index)
      assign (String.ofList variableName) [result]
      modify fun s => { s with optionOffset := offset }
      return statusOf !done
    let previous := if 2 ≤ index then (args[index - 2]?).getD [] else []
    let inside := if s.optionOffset = 0 then [] else previous.drop s.optionOffset
    let next : Option (Octets × Nat × Nat) :=
      if !inside.isEmpty then some (inside, index, s.optionOffset)
      else match args[index - 1]? with
        | some ('-' :: c :: letters) =>
          if c = '-' ∧ letters.isEmpty then none else some (c :: letters, index + 1, 1)
        | _ => none
    match next with
    | none =>
      let atDashes := inside.isEmpty && args[index - 1]? == some ['-', '-']
      finish (if atDashes then index + 1 else index) 0 '?' true
    | some (letters, index, offset) =>
      let letter := letters.headD '?'
      let more := letters.tail
      let offset := if more.isEmpty then 0 else offset + 1
      let known := (if silent then optstring.tail else optstring).dropWhile (· != letter)
      match known with
      | [] =>
        if silent then assign "OPTARG" [letter]
        else
          let _ ← emit 2 (line ("Illegal option -" ++ String.singleton letter))
          ShellM.unset "OPTARG"
        finish index offset '?' false
      | _ :: ':' :: _ =>
        if !more.isEmpty then
          assign "OPTARG" more
          finish index 0 letter false
        else match args[index - 1]? with
          | some value =>
            assign "OPTARG" value
            finish (index + 1) 0 letter false
          | none =>
            if silent then
              assign "OPTARG" [letter]
              finish index 0 ':' false
            else
              let _ ← emit 2 (line ("No arg for -" ++ String.singleton letter ++ " option"))
              ShellM.unset "OPTARG"
              finish index 0 '?' false
      | _ =>
        assign "OPTARG" []
        finish index offset letter false
  | _ => fail "Usage: getopts optstring var [arg...]"

def trap (args : List Octets) : ShellM Nat := do
  let (_, args) ← optionsOf "" args
  match args with
  | [] =>
    let s ← get
    say (((List.range signalCount).filterMap fun n => (s.traps.lookup n).map fun action =>
      "trap -- ".toList ++ singleQuoted action ++ ' ' :: line (signalName n)).flatten)
  | first :: rest =>
    let isAction := !rest.isEmpty && (signal? first).isNone
    let action := if isAction && first != ['-'] then some first else none
    let rec setAll : List Octets → ShellM Nat
      | [] => return 0
      | name :: names => do
        match signal? name with
        | none =>
          let _ ← emit 2 (line ("trap: " ++ String.ofList name ++ ": bad trap"))
          return 1
        | some n =>
          modify fun s =>
            let others := s.traps.filter fun t => t.1 != n
            { s with traps := match action with
              | some action => (n, action) :: others
              | none => others }
          setAll names
    setAll (if isAction then rest else args)

def killUsage : String :=
  "Usage: kill [-s sigspec | -signum | -sigspec] [pid | job]... or\nkill -l [exitstatus]"

/-- Sends a signal to a process. -/
def sendSignal (signal : Nat) (target : Octets) : ShellM Bool := do
  let s ← get
  let n ← match target with
    | ['%', '%'] | ['%', '+'] | ['%'] =>
      match s.jobs.getLast? with
      | some job => pure job.number
      | none => fail "No current job"
    | '%' :: digits =>
      match (natural? 10 digits).bind fun n => s.jobs[n - 1]? with
      | some job => pure job.number
      | none => fail ("No such job: " ++ String.ofList target)
    | '-' :: group => number group
    | target => number target
  match s.jobs.find? fun job => job.number == n with
  | some ⟨_, .waiting _ _ _, _⟩ =>
    unless isHarmless signal do
      modify fun s => { s with jobs := s.jobs.map fun job =>
        if job.number == n then ⟨n, .done (.killed signal), true⟩ else job }
      updateMachine fun m => m.closeAll n
    return true
  | _ =>
    if n = s.self ∨ n = 0 then
      takeSignal signal
      return true
    else if ← askMachine fun m => m.descriptors.any fun d => d.1.1 == n && n != outside then
      updateMachine fun m => m.raise n signal
      return true
    else
      complain "No such process\n"
      return false

def listSignals (args : List Octets) : ShellM Nat := do
  match args with
  | [] =>
    let late := (List.range 16).map fun n => if n = 0 then "RTMIN" else "RTMIN+" ++ toString n
    let last := (List.range 15).reverse.map fun n =>
      if n = 0 then "RTMAX" else "RTMAX-" ++ toString n
    say (["0"] ++ (List.range 31).map (fun n => signalName (n + 1)) ++ ["32", "33"] ++ late ++
      last |>.map line).flatten
  | n :: _ =>
    let n' ← number n
    let n' := if 128 < n' then n' - 128 else n'
    if 0 < n' ∧ n' < signalCount then say (line (signalName n'))
    else fail ("invalid signal number or exit status: " ++ String.ofList n)

/-- The signal that `kill` is to send, if it is given, whether signals are to be listed instead, and
the other arguments. -/
def killOptions (args : List Octets) : ShellM (Option Nat × Bool × List Octets) := do
  let named (text : Octets) : Option Nat := if text.map Char.toUpper == "EXIT".toList then none
    else signal? text
  match args with
  | ('-' :: text) :: rest =>
    match named text with
    | some n => return (some n, false, rest)
    | none =>
      let (options, rest) ← optionsOf "ls:" args
      let listing := options.any fun o => o.1 == 'l'
      match options.lookup 's' with
      | none => return (none, listing, rest)
      | some name =>
        match named name with
        | some n => return (some n, listing, rest)
        | none => fail ("invalid signal number or name: " ++ String.ofList name)
  | args => return (none, false, args)

def kill (args : List Octets) : ShellM Nat := do
  let (signal, listing, targets) ← killOptions args
  if listing then
    if signal.isSome then fail killUsage else listSignals targets
  else if targets.isEmpty then fail killUsage
  else
    let sent ← targets.mapM (sendSignal (signal.getD 15))
    return statusOf (sent.all id)

/-- Waits for a job, and tells how it has ended. -/
def awaitJob (number : Nat) : Nat → ShellM Ending
  | 0 => return .exited 127
  | times + 1 => fun s m =>
    match s.jobs.find? fun job => job.number == number with
    | none => .finished (.ok (.exited 127), s) m
    | some job =>
      match job.turn with
      | .done ending => .finished (.ok ending, s) m
      | .waiting _ _ _ =>
        let (jobs, m') := runJobs s.jobs m
        if m'.events = m.events then
          .paused m' (wakeOf jobs) false (awaitJob number times { s with jobs })
        else awaitJob number times { s with jobs } m'

def waitCommand (args : List Octets) : ShellM Nat := do
  if args.isEmpty then
    (← get).jobs.forM fun job => do
      let _ ← awaitJob job.number patience
    return 0
  else
    let mut status := 0
    for arg in args do
      match arg with
      | '%' :: _ => fail ("No such job: " ++ String.ofList arg)
      | arg =>
        let n ← number arg
        let isUnseen := (← get).jobs.any fun job =>
          job.number == n && (job.unseen || job.turn.result?.isNone)
        let ending ← awaitJob n patience
        modify fun s => { s with jobs := s.jobs.map fun job =>
          if job.number == n then { job with unseen := false } else job }
        if let .killed signal := ending then
          if let (true, some remark) := (isUnseen, signalRemark signal) then
            let _ ← emit 2 (line remark)
        status := ending.status
    return status

def aliasCommand (args : List Octets) : ShellM Nat := do
  let s ← get
  let shown (name : String) (text : Octets) : Octets :=
    name.toList ++ '=' :: singleQuoted text ++ ['\n']
  if args.isEmpty then say (s.aliases.entries.map fun e => shown e.1 e.2).flatten
  else
    let done ← args.mapM fun arg => do
      match splitAssignment arg, arg.head? == some '=' with
      | (name, some text), false =>
        modify fun s => { s with aliases := s.aliases.insert name text }
        return true
      | _, _ =>
        let name := String.ofList arg
        match (← get).aliases.get? name with
        | some text => return (← say (shown name text)) == 0
        | none =>
          let _ ← emit 2 (line ("alias: " ++ name ++ " not found"))
          return false
    return statusOf (done.all id)

def unaliasCommand (args : List Octets) : ShellM Nat := do
  let (options, names) ← optionsOf "a" args
  if !options.isEmpty then
    modify fun s => { s with aliases := ∅ }
    return 0
  let done ← names.mapM fun name => do
    let name := String.ofList name
    if ((← get).aliases.get? name).isSome then
      modify fun s => { s with aliases := s.aliases.erase name }
      return true
    else
      let _ ← emit 2 (line ("unalias: " ++ name ++ " not found"))
      return false
  return statusOf (done.all id)

/-- Whether a text gives rights by letters. -/
def isSymbolicMode (text : Octets) : Bool :=
  (Octets.fieldsOf ',' text).all fun clause =>
    match clause.dropWhile "ugoa".toList.contains with
    | sign :: rights => "+-=".toList.contains sign && rights.all "rwxXstugo".toList.contains
    | [] => false

def umask (args : List Octets) : ShellM Nat := do
  let octal (n : Nat) : Octets := Nat.toDigits 8 n
  let rights (n : Nat) : String :=
    (if n / 4 % 2 = 0 then "r" else "") ++ (if n / 2 % 2 = 0 then "w" else "") ++
      if n % 2 = 0 then "x" else ""
  let (options, args) ← optionsOf "S" args
  let mask := (← get).mask
  match args with
  | [] =>
    if options.isEmpty then
      let digits := octal mask
      say (List.replicate (4 - digits.length) '0' ++ digits ++ ['\n'])
    else say (line ("u=" ++ rights (mask / 64) ++ ",g=" ++ rights (mask / 8) ++ ",o=" ++
      rights mask))
  | mode :: _ =>
    if mode.head?.any Char.isDigit then
      match natural? 8 mode with
      | some n => modify fun s => { s with mask := n % 512 }
      | none => fail ("Illegal number: " ++ String.ofList mode)
    else if !isSymbolicMode mode then fail ("Illegal mode: " ++ String.ofList mode)
    return 0

def jobsCommand (_ : List Octets) : ShellM Nat := do
  let s ← get
  let lines := s.jobs.zipIdx.map fun (job, n) =>
    let state := match job.turn with
      | .done (.exited 0) => "Done"
      | .done ending => "Done(" ++ toString ending.status ++ ")"
      | .waiting _ _ _ => "Running"
    let mark := if n + 1 = s.jobs.length then "+" else if n + 2 = s.jobs.length then "-" else " "
    line (("[" ++ toString (n + 1) ++ "] " ++ mark ++ " " ++ state).pushn ' ' (27 - state.length))
  modify fun s => { s with jobs := s.jobs.filter fun job => job.turn.result?.isNone }
  say lines.flatten

/-- Where a name leads that is looked for among the programs. -/
def findProgram? (s : State) (name : String) : Option Octets :=
  if name.toList.contains '/' then
    if isToolPath (absolute s.directory name.toList) then some name.toList else none
  else if isProgram name then
    (Octets.fieldsOf ':' ((s.value? "PATH").getD [])).findSome? fun directory =>
      let path := directory ++ '/' :: name.toList
      if isToolPath path then some path else none
  else none

end Builtins

/-- The commands that need nothing but their arguments. -/
def builtin? (name : String) : Option (List Octets → ShellM Nat) :=
  match name with
  | ":" | "true" => some fun _ => return 0
  | "false" => some fun _ => return 1
  | "[" => some Builtins.bracket
  | "alias" => some Builtins.aliasCommand
  | "bg" | "fg" => some fun _ => fail "No current job"
  | "break" => some (Builtins.leave false)
  | "cd" | "chdir" => some Builtins.cd
  | "continue" => some (Builtins.leave true)
  | "echo" => some Builtins.echo
  | "exit" => some Builtins.exit
  | "export" => some (Builtins.markBindings "export " (·.exported)
      fun b => { b with exported := true })
  | "getopts" => some Builtins.getopts
  | "jobs" => some Builtins.jobsCommand
  | "kill" => some Builtins.kill
  | "local" => some Builtins.makeLocal
  | "printf" => some Builtins.printf
  | "pwd" => some Builtins.pwd
  | "read" => some Builtins.readCommand
  | "readonly" =>
    some (Builtins.markBindings "readonly " (·.fixed) fun b => { b with fixed := true })
  | "return" => some Builtins.returnCommand
  | "set" => some Builtins.setCommand
  | "shift" => some Builtins.shift
  | "test" => some Builtins.verdictOf
  | "times" => some fun _ => say (line "0m0.000000s 0m0.000000s" ++ line "0m0.000000s 0m0.000000s")
  | "trap" => some Builtins.trap
  | "ulimit" => some fun _ => say (line "unlimited")
  | "umask" => some Builtins.umask
  | "unalias" => some Builtins.unaliasCommand
  | "unset" => some Builtins.unset
  | "wait" => some Builtins.waitCommand
  | _ => none

/-- The commands that run other commands, or speak about them. -/
def furtherBuiltins : List String := [".", "command", "eval", "exec", "hash", "type"]

def isBuiltin (name : String) : Bool := (builtin? name).isSome || furtherBuiltins.contains name

end ContractCheck.Shell
