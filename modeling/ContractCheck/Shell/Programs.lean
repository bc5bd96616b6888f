import ContractCheck.Shell.Call
import ContractCheck.Shell.Format
import ContractCheck.Shell.Formula
import ContractCheck.Shell.Search
import ContractCheck.Shell.StreamEditor
import ContractCheck.Shell.Test

/-!
Small programs that machines have besides the shell. They read their standard input or files, and
write to their standard output.
-/

namespace ContractCheck.Shell

/-- The members of a set of octets as `tr` writes it. -/
def octetSet : Nat → Octets → Octets
  | 0, _ => []
  | _, [] => []
  | steps + 1, '[' :: ':' :: rest =>
    let name := rest.takeWhile Char.isLower
    match rest.drop name.length with
    | ':' :: ']' :: rest =>
      ((List.range 256).map Char.ofNat).filter
        (fun c => (isOfKindNamed (String.ofList name) c)) ++ octetSet steps rest
    | _ => '[' :: octetSet steps (':' :: rest)
  | steps + 1, c :: rest =>
    let (c, rest) := if c = '\\' then (escape? rest).getD ('\\', rest) else (c, rest)
    match rest with
    | '-' :: d :: rest =>
      let (d, rest) := if d = '\\' then (escape? rest).getD ('\\', rest) else (d, rest)
      (List.range (d.toNat + 1 - c.toNat)).map (fun n => Char.ofNat (c.toNat + n)) ++
        octetSet steps rest
    | rest => c :: octetSet steps rest
where
  isOfKindNamed (name : String) (c : Char) : Bool :=
    match name with
    | "alpha" => c.isAlpha
    | "digit" => c.isDigit
    | "alnum" => c.isAlphanum
    | "upper" => c.isUpper
    | "lower" => c.isLower
    | "space" => isSpace c
    | "blank" => isBlank c
    | _ => false

/-- A range in a set for `tr` whose ends are in the wrong order. -/
def reversedRange? : Nat → Octets → Option (Char × Char)
  | steps + 1, c :: '-' :: d :: rest => if d < c then some (c, d) else reversedRange? steps rest
  | steps + 1, _ :: rest => reversedRange? steps rest
  | _, _ => none

/-- What `tr` makes of its input. -/
def exchange (options : List Char) (first second : Octets) (text : Octets) : Octets :=
  let outside := options.contains 'c' || options.contains 'C'
  let inFirst (c : Char) : Bool := first.contains c != outside
  let squeeze (set : Char → Bool) (text : Octets) : Octets :=
    (text.foldl (fun done c => if done.head? = some c ∧ set c = true then done else c :: done)
      []).reverse
  if options.contains 'd' then
    let text := text.filter fun c => !inFirst c
    if options.contains 's' then squeeze second.contains text else text
  else if second.isEmpty then
    if options.contains 's' then squeeze inFirst text else text
  else
    let last := second.getLastD ' '
    let table := first.zipIdx
    let text := text.map fun c =>
      if !inFirst c then c
      else if outside then last
      else match table.lookup c with
        | some n => (second[n]?).getD last
        | none => c
    if options.contains 's' then squeeze second.contains text else text

/-- The positions in a list such as `1,3-5`, from one on. -/
def inList (list : Octets) (n : Nat) : Bool :=
  let items := Octets.fieldsOf ',' list
  items.any fun item =>
    match Octets.fieldsOf '-' item with
    | [single] => natural? 10 single == some n
    | [first, last] =>
      ((natural? 10 first).getD 1) ≤ n && (last.isEmpty || n ≤ (natural? 10 last).getD 0)
    | _ => false

def countWords (text : Octets) : Nat :=
  (text.foldl (fun (count, inWord) c =>
    if isSpace c then (count, false) else (if inWord then count else count + 1, true))
    (0, false)).1

/-- Numbers with perhaps a fraction, counted in thousandths. -/
def thousandths? (text : Octets) : Option Nat :=
  let whole := text.takeWhile Char.isDigit
  let rest := text.drop whole.length
  let (fraction, rest) := match rest with
    | '.' :: rest => (rest.takeWhile Char.isDigit, rest.dropWhile Char.isDigit)
    | rest => ([], rest)
  if whole.isEmpty && fraction.isEmpty then none
  else
    let n := digitsValue 10 whole * 1000 +
      digitsValue 10 ((fraction ++ "000".toList).take 3)
    match rest with
    | [] | ['s'] => some n
    | ['m'] => some (n * 60)
    | ['h'] => some (n * 3600)
    | ['d'] => some (n * 86400)
    | _ => none

open ProgramM

namespace Programs

/-- Whether copying from a descriptor to the standard output would never end, since it reads what it
writes. -/
def feedsItself (m : Machine) (owner fd : Nat) : Bool :=
  match m.file? owner fd, m.file? owner 1 with
  | some (.regular place offset _), some (.regular place' offset' appending) =>
    place == place' && offset < if appending then (m.contentAt place).size else offset'
  | _, _ => false

def cat (args : List Octets) : ProgramM Nat := do
  let c ← read
  if (← onMachine (MachineM.ask fun m => m.file? c.owner 1)).isNone then
    complain ("standard output: " ++ badDescriptor)
    die 1
  let (options, names) := splitOptions [] (args.length + 1) args
  if options.any fun o => o.1 == 'n' then
    let (text, status) ← allFiles names
    put ((Octets.lines text).zipIdx.map fun (line, n) =>
      let number := Octets.ofNat (n + 1)
      List.replicate (6 - number.length) ' ' ++ number ++ '\t' :: line).flatten
    return status
  else forFiles names fun name fd => do
    if ← onMachine (MachineM.ask fun m => feedsItself m c.owner fd) then
      complain (String.ofList name ++ ": input file is output file")
      return false
    forChunks fd put patience
    return true

def head (args : List Octets) : ProgramM Nat := do
  let (args, count) := match args with
    | ('-' :: d :: digits) :: rest =>
      if d.isDigit then (rest, some (d :: digits)) else (args, none)
    | args => (args, none)
  let (options, names) := splitOptions ['n', 'c'] (args.length + 1) args
  let count := ((count.orElse fun () => options.lookup 'n').bind (natural? 10)).getD 10
  let rec copy (fd : Nat) : Nat → Nat → Octets → ProgramM Unit
    | 0, _, _ => return
    | times + 1, count, kept => do
      if count = 0 then return
      match ← chunk fd with
      | [] => put kept
      | text =>
        let (whole, rest) := splitWhole (kept ++ text)
        put (whole.take count).flatten
        copy fd times (count - whole.length) (if whole.length < count then rest else [])
  match (options.lookup 'c').bind (natural? 10) with
  | some octets =>
    let (text, status) ← allFiles names
    put (text.take octets)
    return status
  | none => forFiles names fun _ fd => do
    copy fd patience count []
    return true

def tail (args : List Octets) : ProgramM Nat := do
  let (args, count) := match args with
    | ('-' :: d :: digits) :: rest =>
      if d.isDigit then (rest, some (d :: digits)) else (args, none)
    | args => (args, none)
  let (options, names) := splitOptions ['n', 'c'] (args.length + 1) args
  let (text, status) ← allFiles names
  match options.lookup 'c', (count.orElse fun () => options.lookup 'n').getD ['1', '0'] with
  | some octets, _ => put (text.drop (text.length - (natural? 10 octets).getD 0))
  | none, '+' :: start => put ((Octets.lines text).drop ((natural? 10 start).getD 1 - 1)).flatten
  | none, count =>
    let lines := Octets.lines text
    put (lines.drop (lines.length - (natural? 10 count).getD 10)).flatten
  return status

def tac (args : List Octets) : ProgramM Nat := do
  let (text, status) ← allFiles args
  put (Octets.lines text).reverse.flatten
  return status

def rev (args : List Octets) : ProgramM Nat := do
  let (text, status) ← allFiles args
  put ((Octets.lines text).map fun line =>
    (lineBody line).reverse ++ line.filter (· == '\n')).flatten
  return status

def tr (args : List Octets) : ProgramM Nat := do
  let (options, sets) := splitOptions [] (args.length + 1) args
  let set (o : Octets) : Octets := octetSet (o.length + 1) o
  let reversed := sets.filterMap fun o => reversedRange? (o.length + 1) o
  match sets, reversed with
  | [], _ => misuse "missing operand"
  | _, (c, d) :: _ =>
    complain ("range-endpoints of '" ++ String.ofList [c, '-', d] ++
      "' are in reverse collating sequence order")
    die 1
  | first :: rest, [] =>
    if rest.isEmpty && options.isEmpty then
      misuse ("missing operand after '" ++ String.ofList first ++
        "'\nTwo strings must be given when translating.")
    put (exchange (options.map Prod.fst) (set first) (set (rest.headD [])) (← wholeInput 0))
    return 0

def wc (args : List Octets) : ProgramM Nat := do
  let (options, names) := splitOptions [] (args.length + 1) args
  let asked (letter : Char) : Bool := options.any fun o => o.1 == letter
  let (text, status) ← allFiles names
  let counts := (if asked 'l' || options.isEmpty then [text.count '\n'] else []) ++
    (if asked 'w' || options.isEmpty then [countWords text] else []) ++
    (if asked 'c' || asked 'm' || options.isEmpty then [text.length] else [])
  let width := if counts.length = 1 then 0 else 7
  let shown := counts.map fun n =>
    let digits := Octets.ofNat n
    List.replicate (width - digits.length) ' ' ++ digits
  put (Octets.joinWith [' '] (shown ++ names) ++ ['\n'])
  return status

def cut (args : List Octets) : ProgramM Nat := do
  let (options, names) := splitOptions ['d', 'f', 'c', 'b'] (args.length + 1) args
  let (text, status) ← allFiles names
  let delimiter := ((options.lookup 'd').getD ['\t']).headD '\x00'
  let pick {β : Type} (list : Octets) (items : List β) : List β :=
    (items.zipIdx.filter fun item => inList list (item.2 + 1)).map Prod.fst
  put ((Octets.lines text).map fun line =>
    let body := lineBody line
    (match options.lookup 'f', (options.lookup 'c').orElse fun () => options.lookup 'b' with
      | some list, _ =>
        if body.contains delimiter then
          Octets.joinWith [delimiter] (pick list (Octets.fieldsOf delimiter body)) ++ ['\n']
        else if options.any fun o => o.1 == 's' then []
        else body ++ ['\n']
      | none, some list => pick list body ++ ['\n']
      | none, none => body ++ ['\n'])).flatten
  return status

def seq (args : List Octets) : ProgramM Nat := do
  let (separator, args) := match args with
    | ['-', 's'] :: separator :: args => (separator, args)
    | ('-' :: 's' :: separator) :: args => (separator, args)
    | args => (['\n'], args)
  if args.isEmpty then misuse "missing operand"
  if let some wrong := args.find? fun arg => (integer? true arg).isNone then
    misuse ("invalid floating point argument: '" ++ String.ofList wrong ++ "'")
  let numbers := args.map (integer? true)
  let (first, step, last) := match numbers with
    | [some last] => (1, 1, last)
    | [some first, some last] => (first, 1, last)
    | [some first, some step, some last] => (first, step, last)
    | _ => (1, 1, 0)
  let count := if step = 0 then 0 else ((last - first) / step + 1).toNat
  let items := (List.range (min count 1000000)).map fun (n : Nat) =>
    Octets.ofInt (first + step * n)
  unless items.isEmpty do put (Octets.joinWith separator items ++ ['\n'])
  return 0

def tee (args : List Octets) : ProgramM Nat := do
  let c ← read
  let (options, names) := splitOptions [] (args.length + 1) args
  let mode := if options.isEmpty then OpenMode.write else .append
  let files := names.zipIdx.map fun (name, n) => (name, n + fileDescriptor)
  for (name, fd) in files do
    let fault ← onMachine (MachineM.step fun m =>
      match m.openNamed c.owner fd mode (absolute c.directory name) with
      | .ok m => (none, m)
      | .error f => (some f, m))
    match fault with
    | some f => complain (String.ofList name ++ ": " ++ reasonOf f)
    | none => pure ()
  forChunks 0 (fun text => do
    put text
    for (_, fd) in files do
      let _ ← onMachine (MachineM.write c.owner fd text)) patience
  return 0

def sort (args : List Octets) : ProgramM Nat := do
  let (options, names) := splitOptions ['k', 't'] (args.length + 1) args
  let asked (letter : Char) : Bool := options.any fun o => o.1 == letter
  let (text, status) ← allFiles names
  let lines := (Octets.lines text).map lineBody
  let value (line : Octets) : Int := ((leadingInt? true line).map Prod.fst).getD 0
  let before (a b : Octets) : Bool :=
    if asked 'n' && value a != value b then value a < value b else a.precedes b
  let sorted := lines.mergeSort fun a b => if asked 'r' then before b a else before a b
  let sorted := if asked 'u' then sorted.eraseReps else sorted
  put (sorted.map (· ++ ['\n'])).flatten
  return status

def uniq (args : List Octets) : ProgramM Nat := do
  let (options, names) := splitOptions [] (args.length + 1) args
  let asked (letter : Char) : Bool := options.any fun o => o.1 == letter
  let (text, status) ← allFiles names
  let groups := ((Octets.lines text).map lineBody).splitBy (· == ·)
  let groups := if asked 'd' then groups.filter fun g => 1 < g.length
    else if asked 'u' then groups.filter fun g => g.length = 1
    else groups
  put (groups.map fun group =>
    let count := Octets.ofNat group.length
    (if asked 'c' then List.replicate (7 - count.length) ' ' ++ count ++ [' '] else []) ++
      group.headD [] ++ ['\n']).flatten
  return status

/-- The last part of a path. -/
def lastPart (path : Octets) : Octets :=
  let path := if path.all (· == '/') then path.take 1 else Octets.dropEnd path (· == '/')
  if path = ['/'] then path else (path.reverse.takeWhile (· != '/')).reverse

def basename (args : List Octets) : ProgramM Nat := do
  match args with
  | [] =>
    misuse "missing operand"
  | path :: rest =>
    let last := lastPart path
    let ending := rest.headD []
    let last := if last ≠ ending ∧ ending.isSuffixOf last = true then
        last.take (last.length - ending.length)
      else last
    put (last ++ ['\n'])
    return 0

def dirname (args : List Octets) : ProgramM Nat := do
  match args with
  | [] =>
    misuse "missing operand"
  | path :: _ =>
    let trimmed := Octets.dropEnd path (· == '/')
    let above := Octets.dropEnd trimmed (· != '/')
    let directory := if trimmed.isEmpty then path.take 1
      else if above.isEmpty then ['.']
      else if above.all (· == '/') then ['/']
      else Octets.dropEnd above (· == '/')
    put ((if directory.isEmpty then ['.'] else directory) ++ ['\n'])
    return 0

def sleep (args : List Octets) : ProgramM Nat := do
  if args.isEmpty then misuse "missing operand"
  match args.filter fun arg => (thousandths? arg).isNone with
  | [] =>
    onMachine (MachineM.sleep ((args.filterMap thousandths?).foldl (· + ·) 0))
    return 0
  | wrong =>
    let complaints := wrong.map fun arg => "invalid time interval '" ++ String.ofList arg ++ "'"
    complaints.dropLast.forM complain
    misuse (complaints.getLastD "")

/-- What `echo` writes when it is a program. -/
def echo (args : List Octets) : ProgramM Nat := do
  let isOption (arg : Octets) : Bool := match arg with
    | '-' :: letters => !letters.isEmpty && letters.all fun c => c == 'n' || c == 'e' || c == 'E'
    | _ => false
  let options := (args.takeWhile isOption).flatten
  let text := Octets.joinWith [' '] (args.dropWhile isOption)
  let ending := if options.contains 'n' then [] else ['\n']
  let (text, ended) := if options.contains 'e' then unescape (text.length + 1) text
    else (text, false)
  put (if ended then text else text ++ ending)
  return 0

def printf (args : List Octets) : ProgramM Nat := do
  match args with
  | [] =>
    misuse "missing operand"
  | format :: args =>
    let (printing, fault) := Shell.printf format args
    put printing.text
    printing.complaints.forM complain
    match fault with
    | some text =>
      complain text
      die 1
    | none => return if printing.complaints.isEmpty then 0 else 1

/-- Answers questions about files as `test` does. -/
def factsOf (w : Workspace) (isTool : Octets → Bool) : Test.FileFacts where
  holds letter name :=
    let found := w.find? (pathOf name)
    let isDevice := ["/dev/null", "/dev/stdin", "/dev/stdout", "/dev/stderr"].contains
      (String.ofList name)
    let isTool := isTool name
    match letter with
    | 'e' | 'r' | 'w' => found.isSome || isDevice || isTool
    | 'f' => (found.any fun t => !t.isDir) || isTool
    | 'd' => found.any FileTree.isDir
    | 'x' => found.any FileTree.isDir || isTool
    | 's' => isTool || match found with
      | some (.file content) => content.size != 0
      | some (.dir _) => true
      | none => false
    | 'c' => isDevice
    | 'O' | 'G' => found.isSome || isDevice
    | _ => false
  same a b :=
    match w.resolve (pathOf a), w.resolve (pathOf b) with
    | .ok a, .ok b => a == b
    | _, _ => false

def remove (args : List Octets) : ProgramM Nat := do
  let c ← read
  let (options, names) := splitOptions [] (args.length + 1) args
  let asked (letter : Char) : Bool := options.any fun o => o.1 == letter
  let done ← names.mapM fun name => do
    let fault ← onMachine (MachineM.step fun m =>
      match m.workspace.resolve (pathOf (absolute c.directory name)) with
      | .error f => (if asked 'f' then none else some (reasonOf f), m)
      | .ok place =>
        match m.workspace.root.at? place with
        | some (.dir _) =>
          if asked 'r' || asked 'R' then (none, m.uproot place)
          else (some (reasonOf .isDirectory), m)
        | _ => (none, m.uproot place))
    match fault with
    | some reason =>
      complain ("cannot remove '" ++ String.ofList name ++ "': " ++ reason)
      return false
    | none => return true
  return if done.all id then 0 else 1

def makeDirectory (args : List Octets) : ProgramM Nat := do
  let c ← read
  let (options, names) := splitOptions ['m'] (args.length + 1) args
  let withParents := options.any fun o => o.1 == 'p'
  let done ← names.mapM fun name => do
    let fault ← onMachine (MachineM.step fun m => m.makeDirectory withParents
      (pathOf (absolute c.directory name)))
    match fault with
    | some reason =>
      complain ("cannot create directory '" ++ String.ofList name ++ "': " ++ reason)
      return false
    | none => return true
  return if done.all id then 0 else 1

def touch (args : List Octets) : ProgramM Nat := do
  let c ← read
  let done ← args.mapM fun name => do
    let fault ← onMachine (MachineM.step fun m =>
      match m.openNamed c.owner fileDescriptor .append (absolute c.directory name) with
      | .ok m => (none, m.close c.owner fileDescriptor)
      | .error .isDirectory => (none, m)
      | .error f => (some (reasonOf f), m))
    match fault with
    | some reason =>
      complain ("cannot touch '" ++ String.ofList name ++ "': " ++ reason)
      return false
    | none => return true
  return if done.all id then 0 else 1

def yes (args : List Octets) : Nat → ProgramM Nat
  | 0 => return 0
  | times + 1 => do
    put ((if args.isEmpty then ['y'] else Octets.joinWith [' '] args) ++ ['\n'])
    yes args times

end Programs

/-- The programs by their names, apart from those that run others. -/
def program? (name : String) : Option (List Octets → ProgramM Nat) :=
  match name with
  | "basename" => some Programs.basename
  | "cat" => some Programs.cat
  | "cut" => some Programs.cut
  | "dirname" => some Programs.dirname
  | "echo" => some Programs.echo
  | "false" => some fun _ => return 1
  | "expr" => some Programs.expr
  | "grep" => some Programs.grep
  | "head" => some Programs.head
  | "mkdir" => some Programs.makeDirectory
  | "printf" => some Programs.printf
  | "pwd" => some fun _ => do
    put ((← read).directory ++ ['\n'])
    return 0
  | "rev" => some Programs.rev
  | "rm" => some Programs.remove
  | "sed" => some Programs.sed
  | "seq" => some Programs.seq
  | "sleep" => some Programs.sleep
  | "sort" => some Programs.sort
  | "tac" => some Programs.tac
  | "tail" => some Programs.tail
  | "tee" => some Programs.tee
  | "touch" => some Programs.touch
  | "tr" => some Programs.tr
  | "true" => some fun _ => return 0
  | "uniq" => some Programs.uniq
  | "wc" => some Programs.wc
  | "yes" => some fun args => Programs.yes args patience
  | _ => none

/-- The programs that run other programs. -/
def runnerNames : List String := ["sh", "dash", "env", "test", "["]

def isProgram (name : String) : Bool := (program? name).isSome || runnerNames.contains name

def programDirectories : List String := ["/usr/bin/", "/bin/"]

/-- The name of the program at a path. -/
def programAt? (path : Octets) : Option String :=
  programDirectories.findSome? fun directory =>
    match List.isPrefixOf? directory.toList path with
    | some name => if isProgram (String.ofList name) then some (String.ofList name) else none
    | none => none

def isToolPath (path : Octets) : Bool := (programAt? path).isSome

end ContractCheck.Shell
