import ContractCheck.Shell.Call
import ContractCheck.Shell.Regular

/-!
Editing lines as they pass. A script is a list of instructions, each for the lines that its
addresses choose. One line after the other becomes the text at hand, on which all instructions are
carried out, and which is then printed.
-/

namespace ContractCheck.Shell

namespace StreamEditor

inductive Address where
  | line (number : Nat)
  | last
  | every (first step : Nat)
  /-- The last expression that was used if there is none. -/
  | found (expression : Option Regular) (ignoringCase : Bool)

/-- Where a range of lines ends. -/
inductive RangeEnd where
  | address (a : Address)
  | after (count : Nat)
  | multiple (factor : Nat)

/-- The lines that an instruction is for. -/
structure Choice where
  first : Option Address := none
  until? : Option RangeEnd := none
  negated : Bool := false

/-- A part of what takes the place of a match. -/
inductive Part where
  | text (text : Octets)
  | group (number : Nat)

structure Replacement where
  expression : Option Regular
  parts : List Part
  everywhere : Bool := false
  printing : Bool := false
  ignoringCase : Bool := false
  /-- The number of the first match that is replaced. -/
  firstNumber : Nat := 1

inductive Deed where
  /-- The next instructions, of the given number, belong to a block. -/
  | block (size : Nat)
  | label (name : Octets)
  | branch (name : Octets)
  | branchIfReplaced (name : Octets)
  | branchUnlessReplaced (name : Octets)
  | replace (r : Replacement)
  | exchange (table : List (Char × Char))
  | print
  | printFirst
  | delete
  | deleteFirst
  | next
  | joinNext
  | keep
  | keepMore
  | recall
  | recallMore
  | swap
  | number
  | append (text : Octets)
  | insert (text : Octets)
  | change (text : Octets)
  | quit (printing : Bool) (status : Nat)

structure Instruction where
  choice : Choice
  deed : Deed

/-- A fault in a script, and what stood behind it. -/
structure ScriptFault where
  text : String
  rest : Octets

def refuse {α : Type} (text : String) (rest : Octets) : Except ScriptFault α :=
  .error ⟨text, rest⟩

/-- The text up to a delimiter, which loses its backslash where it has one. -/
def delimited? (delimiter : Char) (isExpression : Bool) : Octets → Option (Octets × Octets)
  | [] => none
  | '\\' :: c :: rest => do
    let (text, behind) ← delimited? delimiter isExpression rest
    if c = 'n' ∧ isExpression then return ('\n' :: text, behind)
    else if c = 't' then return ('\t' :: text, behind)
    else if c = delimiter ∧ (isExpression ∨ c ≠ '&') ∧ c ≠ 'n' then return (c :: text, behind)
    else return ('\\' :: c :: text, behind)
  | c :: rest =>
    if c = delimiter then some ([], rest)
    else if c = '\n' ∧ isExpression then none
    else (delimited? delimiter isExpression rest).map fun (text, behind) => (c :: text, behind)

/-- An expression; an empty text stands for the last one that was used. -/
def readExpression (extended : Bool) (text rest : Octets) :
    Except ScriptFault (Option (Regular × Nat)) :=
  if text.isEmpty then return none
  else match Regular.parse extended text with
    | .ok (r, count) => return some (r, count)
    | .error fault => refuse fault rest

def readNumber (text : Octets) : Nat × Octets :=
  (digitsValue 10 (text.takeWhile Char.isDigit), text.dropWhile Char.isDigit)

def skipBlanks (text : Octets) : Octets := text.dropWhile isSpace

def readAddress (extended : Bool) (text : Octets) :
    Except ScriptFault (Option Address × Octets) := do
  let expression (delimiter : Char) (text : Octets) :
      Except ScriptFault (Option Address × Octets) := do
    match delimited? delimiter true text with
    | none => refuse "unterminated address regex" []
    | some (text, rest) =>
      let ignoringCase := rest.head? == some 'I'
      let rest := if ignoringCase then rest.tail else rest
      let r ← readExpression extended text rest
      return (some (.found (r.map Prod.fst) ignoringCase), rest)
  match text with
  | '$' :: rest => return (some .last, rest)
  | '/' :: rest => expression '/' rest
  | '\\' :: c :: rest => expression c rest
  | c :: _ =>
    if !c.isDigit then return (none, text)
    let (n, rest) := readNumber text
    match rest with
    | '~' :: rest =>
      let (step, rest) := readNumber rest
      return (some (.every n step), rest)
    | rest => return (some (.line n), rest)
  | [] => return (none, [])

def readRangeEnd (extended : Bool) (text : Octets) : Except ScriptFault (RangeEnd × Octets) := do
  match text with
  | '+' :: rest =>
    let (n, rest) := readNumber rest
    return (.after n, rest)
  | '~' :: rest =>
    let (n, rest) := readNumber rest
    return (.multiple n, rest)
  | text =>
    match ← readAddress extended text with
    | (some a, rest) => return (.address a, rest)
    | (none, rest) => refuse "unexpected `,'" rest.tail

def readChoice (extended : Bool) (text : Octets) : Except ScriptFault (Choice × Octets) := do
  let (first, rest) ← readAddress extended text
  let (until?, rest) ← match first, skipBlanks rest with
    | some _, ',' :: rest => do
      let (stop, rest) ← readRangeEnd extended (skipBlanks rest)
      pure (some stop, rest)
    | _, rest => pure (none, rest)
  let rest := skipBlanks rest
  let negated := rest.head? == some '!'
  let rest := skipBlanks (rest.dropWhile (· == '!'))
  match first, until? with
  | some (.line 0), some (.address (.found _ _)) => pure ()
  | some (.line 0), _ => refuse "invalid usage of line address 0" rest.tail
  | _, _ => pure ()
  return ({ first, until?, negated }, rest)

/-- The parts of a replacement. -/
def replacementParts : Octets → List Part
  | [] => []
  | '\\' :: c :: rest =>
    if c.isDigit then .group (digitsValue 10 [c]) :: replacementParts rest
    else .text [if c = 'n' then '\n' else c] :: replacementParts rest
  | '&' :: rest => .group 0 :: replacementParts rest
  | c :: rest => .text [c] :: replacementParts rest

def readFlags (r : Replacement) : Nat → Octets → Except ScriptFault (Replacement × Octets)
  | 0, rest => return (r, rest)
  | steps + 1, text => do
    match text with
    | 'g' :: rest => readFlags { r with everywhere := true } steps rest
    | 'p' :: rest => readFlags { r with printing := true } steps rest
    | 'i' :: rest | 'I' :: rest => readFlags { r with ignoringCase := true } steps rest
    | 'm' :: rest | 'M' :: rest => readFlags r steps rest
    | c :: rest =>
      if c.isDigit then
        let (n, rest) := readNumber text
        if n = 0 then refuse "number option to `s' command may not be zero" rest
        else readFlags { r with firstNumber := n } steps rest
      else if isSpace c ∨ [';', '#', '\x7d'].contains c then return (r, text)
      else refuse "unknown option to `s'" rest
    | [] => return (r, [])

def readReplacement (extended : Bool) (text : Octets) : Except ScriptFault (Deed × Octets) := do
  let unterminated := refuse "unterminated `s' command" []
  match text with
  | [] => unterminated
  | delimiter :: rest =>
    match delimited? delimiter true rest with
    | none => unterminated
    | some (pattern, rest) =>
      match delimited? delimiter false rest with
      | none => unterminated
      | some (replacement, rest) =>
        let found ← readExpression extended pattern rest
        let parts := replacementParts replacement
        let numbers := parts.map fun p => match p with
          | .group n => n
          | .text _ => 0
        if let some (_, count) := found then
          if let some n := numbers.find? (count < ·) then
            refuse ("invalid reference \\" ++ toString n ++ " on `s' command's RHS") rest
        let (r, rest) ← readFlags { expression := found.map Prod.fst, parts }
          (rest.length + 1) rest
        return (.replace r, rest)

def readExchange (text : Octets) : Except ScriptFault (Deed × Octets) := do
  let unterminated := refuse "unterminated `y' command" []
  let plain (text : Octets) : Octets :=
    let rec unescape : Octets → Octets
      | '\\' :: 'n' :: rest => '\n' :: unescape rest
      | '\\' :: c :: rest => c :: unescape rest
      | c :: rest => c :: unescape rest
      | [] => []
    unescape text
  match text with
  | [] => unterminated
  | delimiter :: rest =>
    match delimited? delimiter false rest with
    | none => unterminated
    | some (first, rest) =>
      match delimited? delimiter false rest with
      | none => unterminated
      | some (second, rest) =>
        if (plain first).length ≠ (plain second).length then
          refuse "strings for `y' command are different lengths" rest
        else return (.exchange ((plain first).zip (plain second)), rest)

/-- The text of an instruction, which lasts to the end of a line that has no backslash there. -/
def readText (text : Octets) : Octets × Octets :=
  let rec go : Octets → Octets × Octets
    | [] => (['\n'], [])
    | '\n' :: rest => (['\n'], rest)
    | '\\' :: c :: rest =>
      let (text, behind) := go rest
      (c :: text, behind)
    | c :: rest =>
      let (text, behind) := go rest
      (c :: text, behind)
  match text.dropWhile isBlank with
  | '\\' :: rest =>
    match rest.dropWhile isBlank with
    | '\n' :: rest => go rest
    | _ => go rest
  | rest => go rest

/-- What stands behind an instruction's end. -/
def readEnd (text : Octets) : Except ScriptFault Octets :=
  match text.dropWhile isBlank with
  | [] => .ok []
  | '\n' :: rest | ';' :: rest => .ok rest
  | '#' :: rest => .ok ('#' :: rest)
  | '\x7d' :: rest => .ok ('\x7d' :: rest)
  | _ :: rest => refuse "extra characters after command" rest

def readLabel (text : Octets) : Octets × Octets :=
  let text := text.dropWhile isBlank
  let name := text.takeWhile fun c => c != ';' && c != '\n' && c != '\x7d'
  (Octets.dropEnd name isSpace, text.drop name.length)

/-- The instructions up to the end of the block at hand. -/
def readInstructions (extended : Bool) :
    Nat → Bool → Octets → Except ScriptFault (List Instruction × Octets)
  | 0, _, text => return ([], text)
  | steps + 1, inBlock, text => do
    match text.dropWhile fun c => isSpace c || c == ';' with
    | [] => if inBlock then refuse "unmatched `\x7b'" [] else return ([], [])
    | '#' :: rest => readInstructions extended steps inBlock (rest.dropWhile (· != '\n'))
    | '\x7d' :: rest =>
      if inBlock then return ([], rest) else refuse "unexpected `\x7d'" rest
    | text =>
      let (choice, rest) ← readChoice extended text
      let go (deeds : List Instruction) (rest : Octets) :
          Except ScriptFault (List Instruction × Octets) := do
        let (more, rest) ← readInstructions extended steps inBlock rest
        return (deeds ++ more, rest)
      let simple (deed : Deed) (rest : Octets) :
          Except ScriptFault (List Instruction × Octets) := do
        go [⟨choice, deed⟩] (← readEnd rest)
      match rest with
      | [] => refuse "missing command" []
      | c :: rest =>
        match c with
        | '\x7b' => do
          let (inner, rest) ← readInstructions extended steps true rest
          go (⟨choice, .block inner.length⟩ :: inner) (← readEnd rest)
        | 's' => do
          let (deed, rest) ← readReplacement extended rest
          simple deed rest
        | 'y' => do
          let (deed, rest) ← readExchange rest
          simple deed rest
        | ':' =>
          let (name, rest) := readLabel rest
          go [⟨choice, .label name⟩] rest
        | 'b' =>
          let (name, rest) := readLabel rest
          go [⟨choice, .branch name⟩] rest
        | 't' =>
          let (name, rest) := readLabel rest
          go [⟨choice, .branchIfReplaced name⟩] rest
        | 'T' =>
          let (name, rest) := readLabel rest
          go [⟨choice, .branchUnlessReplaced name⟩] rest
        | 'a' | 'i' | 'c' =>
          if rest.isEmpty then refuse "expected \\ after `a', `c' or `i'" []
          else
            let (text, rest) := readText rest
            let deed := if c = 'a' then .append text else if c = 'i' then .insert text
              else .change text
            go [⟨choice, deed⟩] rest
        | 'q' | 'Q' =>
          let (status, rest) := readNumber (rest.dropWhile isBlank)
          simple (.quit (c == 'q') status) rest
        | 'p' => simple .print rest
        | 'P' => simple .printFirst rest
        | 'd' => simple .delete rest
        | 'D' => simple .deleteFirst rest
        | 'n' => simple .next rest
        | 'N' => simple .joinNext rest
        | 'h' => simple .keep rest
        | 'H' => simple .keepMore rest
        | 'g' => simple .recall rest
        | 'G' => simple .recallMore rest
        | 'x' => simple .swap rest
        | '=' => simple .number rest
        | c => refuse ("unknown command: `" ++ String.singleton c ++ "'") rest

structure Editor where
  script : List Instruction
  quiet : Bool
  /-- The files that have not been opened. -/
  names : List Octets
  fd : Option Nat := none
  /-- Whole lines that have been read and not used. -/
  lines : List Octets := []
  /-- The start of a line that has been read. -/
  unended : Octets := []
  text : Octets := []
  kept : Octets := []
  lineNumber : Nat := 0
  /-- Whether the line at hand had an end. -/
  ended : Bool := true
  /-- Whether the last line that was printed lacks its end. -/
  owing : Bool := false
  /-- What is printed at the end of the round. -/
  queue : List Octets := []
  replaced : Bool := false
  last : Option Regular := none
  /-- The ranges that the line at hand is in, by instruction, with the line they end at if that is
  known. -/
  ranges : List (Nat × Option Nat) := []
  status : Nat := 0

abbrev EditorM := StateT Editor ProgramM

open ProgramM

/-- Reads until there is another line; whether there is one. -/
def hasNext : Nat → EditorM Bool
  | 0 => return false
  | times + 1 => do
    let e ← get
    if !e.lines.isEmpty then return true
    match e.fd, e.names with
    | none, [] => return false
    | none, name :: names =>
      set { e with names }
      let c ← read
      if name = ['-'] then set { e with names, fd := some 0 }
      else
        let fault ← onMachine (MachineM.step fun m =>
          match m.openNamed c.owner fileDescriptor .read (absolute c.directory name) with
          | .ok m => (none, m)
          | .error f => (some f, m))
        match fault with
        | none => set { e with names, fd := some fileDescriptor }
        | some f =>
          complain ("can't read " ++ String.ofList name ++ ": " ++ reasonOf f)
          set { e with names, status := 2 }
      hasNext times
    | some fd, _ =>
      match ← chunk fd with
      | [] =>
        let c ← read
        if fd ≠ 0 then onMachine (MachineM.update fun m => m.close c.owner fd)
        set { e with
          fd := none
          lines := if e.unended.isEmpty then [] else [e.unended]
          unended := [] }
      | text =>
        let (lines, rest) := splitWhole (e.unended ++ text)
        set { e with lines, unended := rest }
      hasNext times

/-- The next line, without its end. -/
def nextLine? : EditorM (Option Octets) := do
  if ← hasNext patience then
    let e ← get
    match e.lines with
    | [] => return none
    | line :: lines =>
      set { e with
        lines
        lineNumber := e.lineNumber + 1
        ended := line.getLast? == some '\n' }
      return some (lineBody line)
  else return none

def emitRaw (text : Octets) : EditorM Unit := do
  let e ← get
  put ((if e.owing then ['\n'] else []) ++ text)
  set { e with owing := false }

/-- Prints a line, with an end if the line at hand had one. -/
def emitLine (text : Octets) : EditorM Unit := do
  let e ← get
  emitRaw (if e.ended then text ++ ['\n'] else text)
  modify fun s => { s with owing := !e.ended }

/-- The expression that is meant, which becomes the last one used. -/
def meant (expression : Option Regular) : EditorM Regular := do
  match expression with
  | some r =>
    modify fun e => { e with last := some r }
    return r
  | none =>
    match (← get).last with
    | some r => return r
    | none =>
      complain "-e expression #1, char 0: no previous regular expression"
      die 1

def choosesAddress (a : Address) : EditorM Bool := do
  let e ← get
  match a with
  | .line n => return e.lineNumber == n
  | .last => return !(← hasNext patience)
  | .every first step =>
    return if step = 0 then e.lineNumber == first
      else first ≤ e.lineNumber && (e.lineNumber - first) % step == 0
  | .found expression ignoringCase => do
    let r ← meant expression
    return r.isFoundIn ignoringCase (← get).text

/-- Whether an instruction is for the line at hand. -/
def chooses (position : Nat) (choice : Choice) : EditorM Bool := do
  let n := (← get).lineNumber
  let closed := modify fun (e : Editor) =>
    { e with ranges := e.ranges.filter fun r => r.1 != position }
  let opened (stop : Option Nat) := modify fun (e : Editor) =>
    { e with ranges := (position, stop) :: e.ranges }
  let chosen ← match choice.first, choice.until? with
    | none, _ => pure true
    | some a, none => choosesAddress a
    | some a, some stop =>
      match (← get).ranges.lookup position with
      | some (some final) => do
        if final ≤ n then closed
        pure (n ≤ final)
      | some none =>
        match stop with
        | .address b => do
          if ← choosesAddress b then closed
          pure true
        | _ => pure true
      | none => do
        if ← choosesAddress a then
          match stop with
          | .address (.line final) => if n < final then opened (some final)
          | .address _ => opened none
          | .after count => if 0 < count then opened (some (n + count))
          | .multiple factor =>
            if 0 < factor then opened (some ((n / factor + 1) * factor))
          pure true
        else pure false
  return chosen != choice.negated

/-- Puts the replacement in the place of matches: what has been made of the text, and whether
something was replaced. -/
def replaceIn (expression : Regular) (r : Replacement) :
    Nat → Nat → Regular.Spot → Octets × Bool
  | 0, _, s => (s.rest, false)
  | steps + 1, count, s =>
    match expression.find? r.ignoringCase { s with groups := [] } with
    | none => (s.rest, false)
    | some (start, finish) =>
      let skipped := start.textSince s
      let found := finish.textSince start
      let isEmptyBehindMatch := found.isEmpty && 0 < count && start.position == s.position &&
        s.groups.any fun g => g.1 == 0
      let replacing := !isEmptyBehindMatch && r.firstNumber ≤ count + 1
      let count := if isEmptyBehindMatch then count else count + 1
      let new := if !replacing then found
        else (r.parts.map fun part => match part with
          | .text text => text
          | .group 0 => found
          | .group n => (finish.groups.lookup n).getD []).flatten
      if replacing && !r.everywhere then (skipped ++ new ++ finish.rest, true)
      else if found.isEmpty then
        match finish.rest with
        | [] => (skipped ++ new, replacing)
        | c :: _ =>
          let (rest, replaced) := replaceIn expression r steps count
            { finish.advance 1 with groups := [] }
          (skipped ++ new ++ c :: rest, replacing || replaced)
      else
        -- The group 0 marks that a match ends here, behind which there is no empty match.
        let (rest, replaced) := replaceIn expression r steps count
          { finish with groups := [(0, [])] }
        (skipped ++ new ++ rest, replacing || replaced)

/-- How the round goes on after an instruction. -/
inductive Course where
  | onward
  | jump (position : Nat)
  /-- Goes on with the next line. `again` keeps the text at hand. -/
  | over (printing again : Bool)
  | quit (printing : Bool) (status : Nat)

/-- The first label that an instruction jumps to and that is nowhere. -/
def missingLabel? (script : List Instruction) : Option Octets :=
  let labels := script.filterMap fun i => match i.deed with
    | .label name => some name
    | _ => none
  script.findSome? fun i => match i.deed with
    | .branch name | .branchIfReplaced name | .branchUnlessReplaced name =>
      if name.isEmpty || labels.contains name then none else some name
    | _ => none

def jumpTo (name : Octets) : EditorM Course := do
  let script := (← get).script
  if name.isEmpty then return .jump script.length
  match script.findIdx? fun i => match i.deed with
      | .label other => other == name
      | _ => false with
  | some position => return .jump position
  | none => return .jump script.length

def firstLine (text : Octets) : Octets := text.takeWhile (· != '\n')

def carryOut (position : Nat) (choice : Choice) (deed : Deed) : EditorM Course := do
  let e ← get
  match deed with
  | .block _ | .label _ => return .onward
  | .branch name => jumpTo name
  | .branchIfReplaced name =>
    set { e with replaced := false }
    if e.replaced then jumpTo name else return .onward
  | .branchUnlessReplaced name =>
    set { e with replaced := false }
    if e.replaced then return .onward else jumpTo name
  | .replace r =>
    let expression ← meant r.expression
    let (text, replaced) := replaceIn expression r (e.text.length + 1) 0
      (Regular.Spot.ofText e.text)
    if replaced then
      modify fun e => { e with text, replaced := true }
      if r.printing then emitLine text
    return .onward
  | .exchange table =>
    set { e with text := e.text.map fun c => (table.lookup c).getD c }
    return .onward
  | .print =>
    emitLine e.text
    return .onward
  | .printFirst =>
    emitRaw (firstLine e.text ++ ['\n'])
    return .onward
  | .delete => return .over false false
  | .deleteFirst =>
    if e.text.contains '\n' then
      set { e with text := e.text.drop ((firstLine e.text).length + 1) }
      return .over false true
    else return .over false false
  | .next =>
    if ← hasNext patience then
      unless e.quiet do emitLine e.text
      match ← nextLine? with
      | some text =>
        modify fun e => { e with text }
        return .onward
      | none => return .onward
    else return .quit true 0
  | .joinNext =>
    match ← nextLine? with
    | some line =>
      modify fun e => { e with text := e.text ++ '\n' :: line }
      return .onward
    | none => return .quit true 0
  | .keep =>
    set { e with kept := e.text }
    return .onward
  | .keepMore =>
    set { e with kept := e.kept ++ '\n' :: e.text }
    return .onward
  | .recall =>
    set { e with text := e.kept }
    return .onward
  | .recallMore =>
    set { e with text := e.text ++ '\n' :: e.kept }
    return .onward
  | .swap =>
    set { e with text := e.kept, kept := e.text }
    return .onward
  | .number =>
    emitRaw (Octets.ofNat e.lineNumber ++ ['\n'])
    return .onward
  | .append text =>
    set { e with queue := e.queue ++ [text] }
    return .onward
  | .insert text =>
    emitRaw text
    return .onward
  | .change text =>
    let inRange := choice.until?.isSome && !choice.negated &&
      (e.ranges.lookup position).isSome
    unless inRange do emitRaw text
    return .over false false
  | .quit printing status => return .quit printing status

/-- Carries out the instructions from a position on. -/
def runFrom : Nat → Nat → EditorM Course
  | 0, _ => return .quit false 1
  | steps + 1, position => do
    match (← get).script[position]? with
    | none => return .over true false
    | some ⟨choice, deed⟩ =>
      if ← chooses position choice then
        match ← carryOut position choice deed with
        | .onward => runFrom steps (position + 1)
        | .jump position => runFrom steps position
        | course => return course
      else
        runFrom steps (match deed with
          | .block size => position + size + 1
          | _ => position + 1)

def flushQueue : EditorM Unit := do
  let e ← get
  set { e with queue := [] }
  e.queue.forM emitRaw

/-- Edits one line after the other. -/
def runRounds : Nat → EditorM Nat
  | 0 => return 1
  | steps + 1 => do
    let finish (printing : Bool) : EditorM Unit := do
      let e ← get
      if printing && !e.quiet then emitLine e.text
      flushQueue
    match ← runFrom patience 0 with
    | .quit printing status =>
      if printing then finish true
      if status = 0 then return (← get).status else return status
    | .over printing again =>
      finish printing
      if again then runRounds steps
      else
        match ← nextLine? with
        | some text =>
          modify fun e => { e with text, replaced := false }
          runRounds steps
        | none => return (← get).status
    | _ => return (← get).status

def run : EditorM Nat := do
  match ← nextLine? with
  | some text =>
    modify fun e => { e with text }
    runRounds patience
  | none => return (← get).status

end StreamEditor

open ProgramM StreamEditor

namespace Programs

def editorOptions : List (String × Char) :=
  [("quiet", 'n'), ("silent", 'n'), ("expression", 'e'), ("regexp-extended", 'E'),
    ("regexp-extended", 'r'), ("unbuffered", 'u'), ("separate", 's'), ("posix", 'p')]

/-- Edits lines by a script. -/
def sed (args : List Octets) : ProgramM Nat := do
  let (options, args) ← match gatherOptions ['e'] editorOptions
      ((args.map List.length).foldl (· + ·) (args.length + 1)) args with
    | .ok parts => pure parts
    | .error text => do
      complain text
      die 1
  let asked (letter : Char) : Bool := options.any fun o => o.1 == letter
  let given := (options.filter fun o => o.1 == 'e').map Prod.snd
  let (texts, names) ← match given, args with
    | [], [] => do
      complain "no script specified"
      die 1
    | [], text :: names => pure ([text], names)
    | given, names => pure (given, names)
  let text := Octets.joinWith ['\n'] texts
  match readInstructions (asked 'E' || asked 'r') (text.length + 1) false text with
  | .error fault =>
    let place := if fault.text.startsWith "unmatched" then 0 else text.length - fault.rest.length
    complain ("-e expression #1, char " ++ toString place ++ ": " ++ fault.text)
    return 1
  | .ok (script, _) =>
    if let some name := missingLabel? script then
      complain ("can't find label for jump to `" ++ String.ofList name ++ "'")
      die 4
    let isQuiet := asked 'n' || "#n\n".toList.isPrefixOf text
    -- A range that starts at line 0 may end at the first line.
    let ranges := script.zipIdx.filterMap fun (i, position) => match i.choice.first with
      | some (.line 0) => some (position, none)
      | _ => none
    let (status, _) ← run.run {
      script
      quiet := isQuiet
      names := if names.isEmpty then [['-']] else names
      ranges }
    return status

end Programs

end ContractCheck.Shell
