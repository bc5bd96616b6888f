import ContractCheck.Shell.Call
import ContractCheck.Shell.Regular

/-!
Searching lines by regular expressions. A line is selected if one of the expressions matches a part
of it, or if none does where that is asked for.
-/

namespace ContractCheck.Shell

/-- How lines are searched. -/
structure Search where
  expressions : List Regular
  ignoringCase : Bool
  /-- Whether a match has to stand alone as a word. -/
  words : Bool
  inverted : Bool

namespace Search

def isFit (q : Search) (start finish : Regular.Spot) : Bool :=
  !q.words || !start.isBehindWord && !finish.isBeforeWord

/-- The first match from a spot on, and the longest of those that start there. -/
def find? (q : Search) (s : Regular.Spot) : Option (Regular.Spot × Regular.Spot) :=
  q.expressions.foldl (fun best r =>
    match best, r.search? q.ignoringCase q.isFit (s.rest.length + 1) s with
    | none, found => found
    | best, none => best
    | some b, some f =>
      if f.1.position < b.1.position ∨
          f.1.position = b.1.position ∧ b.2.position < f.2.position
      then some f else some b) none

def selects (q : Search) (line : Octets) : Bool :=
  (q.find? (Regular.Spot.ofText line)).isSome != q.inverted

/-- The texts that are matched from a spot on and are not empty. -/
def parts (q : Search) : Nat → Regular.Spot → List Octets
  | 0, _ => []
  | steps + 1, s =>
    match q.find? s with
    | none => []
    | some (start, finish) =>
      if start.position < finish.position then
        finish.textSince start :: q.parts steps { finish with groups := [] }
      else if finish.rest.isEmpty then [] else q.parts steps (finish.advance 1)

/-- The expressions of an argument, which stand on lines of their own. They have to match whole
lines if `whole` is set. -/
def readExpressions (fixed extended whole : Bool) (text : Octets) :
    Except String (List Regular) :=
  (Octets.fieldsOf '\n' text).mapM fun line => do
    let r ← if fixed then pure (Regular.ofText line)
      else (Regular.parse extended line).map Prod.fst
    return if whole then .sequence .lineStart (.sequence r .lineEnd) else r

end Search

/-- What was found so far. -/
structure Findings where
  lineNumber : Nat := 0
  selected : Nat := 0

open ProgramM

namespace Programs

def searchOptions : List (String × Char) :=
  [("invert-match", 'v'), ("ignore-case", 'i'), ("count", 'c'), ("line-number", 'n'),
    ("quiet", 'q'), ("silent", 'q'), ("only-matching", 'o'), ("extended-regexp", 'E'),
    ("fixed-strings", 'F'), ("basic-regexp", 'G'), ("word-regexp", 'w'), ("line-regexp", 'x'),
    ("files-with-matches", 'l'), ("files-without-match", 'L'), ("no-filename", 'h'),
    ("with-filename", 'H'), ("no-messages", 's'), ("max-count", 'm'), ("regexp", 'e'),
    ("line-buffered", 'U'), ("text", 'a')]

def refuseSearch {α : Type} (text : String) : ProgramM α := do
  let c ← read
  unless text.isEmpty do complain text
  let _ ← onMachine (MachineM.write c.owner 2
    "Usage: grep [OPTION]... PATTERNS [FILE]...\nTry 'grep --help' for more information.\n".toList)
  die 2

/-- Prints the lines of files that are selected, or tells of them. -/
def grep (args : List Octets) : ProgramM Nat := do
  let (options, args) ← match gatherOptions ['e', 'm'] searchOptions
      ((args.map List.length).foldl (· + ·) (args.length + 1)) args with
    | .ok parts => pure parts
    | .error text => refuseSearch text
  let asked (letter : Char) : Bool := options.any fun o => o.1 == letter
  let given := (options.filter fun o => o.1 == 'e').map Prod.snd
  let (texts, names) ← match given, args with
    | [], [] => refuseSearch ""
    | [], text :: names => pure ([text], names)
    | given, names => pure (given, names)
  let kind := ((options.map Prod.fst).filter ['E', 'F', 'G'].contains).getLastD 'G'
  let expressions ← match texts.mapM
      (Search.readExpressions (kind == 'F') (kind == 'E') (asked 'x')) with
    | .ok expressions => pure expressions.flatten
    | .error text => do
      complain text
      die 2
  let q : Search := {
    expressions
    ignoringCase := asked 'i'
    words := asked 'w'
    inverted := asked 'v' }
  let limit ← match options.lookup 'm' with
    | none => pure none
    | some text => match natural? 10 text with
      | some n => pure (some n)
      | none => do
        complain "invalid max count"
        die 2
  let isNamed := asked 'H' || !asked 'h' && 1 < names.length
  let isBrief := asked 'q' || asked 'l' || asked 'L'
  let shownName (name : Octets) : Octets :=
    if name = ['-'] then "(standard input)".toList else name
  let one (name : Octets) (fd : Nat) : ProgramM Findings := do
    let head := if isNamed then shownName name ++ [':'] else []
    let step (f : Findings) (line : Octets) : ProgramM (Findings × Bool) := do
      let line := lineBody line
      let f := { f with lineNumber := f.lineNumber + 1 }
      if limit.any (· ≤ f.selected) then return (f, false)
      if !q.selects line then return (f, true)
      unless isBrief || asked 'c' do
        let head := if asked 'n' then head ++ Octets.ofNat f.lineNumber ++ [':'] else head
        let shown := if !asked 'o' then [line]
          else if q.inverted then []
          else q.parts (line.length + 1) (Regular.Spot.ofText line)
        put (shown.map fun text => head ++ text ++ ['\n']).flatten
      let f := { f with selected := f.selected + 1 }
      return (f, !isBrief && !limit.any (· ≤ f.selected))
    let (f, _) ← foldLines fd step patience {} []
    if asked 'c' && !isBrief then put (head ++ Octets.ofNat f.selected ++ ['\n'])
    if asked 'l' && !asked 'q' && 0 < f.selected then put (shownName name ++ ['\n'])
    if asked 'L' && !asked 'q' && f.selected = 0 then put (shownName name ++ ['\n'])
    return f
  let rec all : List Octets → ProgramM (Bool × Bool)
    | [] => return (false, false)
    | name :: names => do
      let (found, failed) ← withFound name one (asked 's')
      if found && asked 'q' then return (true, failed)
      let (others, otherFailed) ← all names
      return (found || others, failed || otherFailed)
  let (found, failed) ← all (if names.isEmpty then [['-']] else names)
  return if found && asked 'q' then 0 else if failed then 2 else if found then 0 else 1
where
  /-- Whether a file holds a selected line, and whether it cannot be read. -/
  withFound (name : Octets) (one : Octets → Nat → ProgramM Findings) (silent : Bool) :
      ProgramM (Bool × Bool) := do
    let c ← read
    if name = ['-'] then
      let f ← one name 0
      return (0 < f.selected, false)
    let fault ← onMachine (MachineM.step fun m =>
      match m.openNamed c.owner fileDescriptor .read (absolute c.directory name) with
      | .ok m =>
        match m.file? c.owner fileDescriptor with
        | some .directory => (some FileFault.isDirectory, m.close c.owner fileDescriptor)
        | _ => (none, m)
      | .error f => (some f, m))
    match fault with
    | none =>
      let f ← one name fileDescriptor
      onMachine (MachineM.update fun m => m.close c.owner fileDescriptor)
      return (0 < f.selected, false)
    | some f =>
      unless silent do complain (String.ofList name ++ ": " ++ reasonOf f)
      return (false, true)

end Programs

end ContractCheck.Shell
