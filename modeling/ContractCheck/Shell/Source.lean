import ContractCheck.NameMap
import ContractCheck.Shell.Script

/-!
The text of a script while it is read: its characters, its lines, and its tokens. A backslash at the
end of a line joins it with the next one. Names that stand for other texts are replaced as they are
met; a mark behind such a text shows where it ends.
-/

namespace ContractCheck.Shell

/-- Why a script cannot be read. -/
inductive Fault where
  | malformed (line : Nat) (text : String)
  /-- The text ends too early, but more of it may follow. -/
  | incomplete

inductive Token where
  | endOfText
  | newline
  | semicolon
  | background
  | both
  | either
  | bar
  | openParen
  | closeParen
  /-- The end of a branch of a `case`. -/
  | endArm
  | word (word : Word)
  | redirection (fd : Option Nat) (operator : String)
  | keyword (name : String)

def keywords : List String :=
  ["!", "case", "do", "done", "elif", "else", "esac", "fi", "for", "if", "in", "then", "until",
    "while", "\x7b", "\x7d"]

/-- What complaints call a token. -/
def Token.description : Token → String
  | .endOfText => "end of file"
  | .newline => "newline"
  | .semicolon => "\";\""
  | .background => "\"&\""
  | .both => "\"&&\""
  | .either => "\"||\""
  | .bar => "\"|\""
  | .openParen => "\"(\""
  | .closeParen => "\")\""
  | .endArm => "\";;\""
  | .word _ => "word"
  | .redirection _ _ => "redirection"
  | .keyword name => "\"" ++ name ++ "\""

/-- A document that starts behind the line that announces it. -/
structure DueDocument where
  number : Nat
  mark : Octets
  stripTabs : Bool
  expanding : Bool

structure Source where
  rest : Octets
  /-- Whether more text may follow. -/
  more : Bool := false
  line : Nat := 1
  aliases : NameMap Octets := ∅
  /-- The names whose replacements are being read, the innermost first. -/
  replacing : List String := []
  /-- Whether the next word may be a name that is replaced because the text before it ends in a
  blank. -/
  aliasDue : Bool := false
  due : List DueDocument := []
  documents : List (Nat × Word) := []
  documentCount : Nat := 0
  /-- The last token, and whether it is to be read again. -/
  token : Token := .newline
  pushedBack : Bool := false

abbrev ReadM := StateT Source (Except Fault)

namespace Source

def endOfReplacement : Char := Char.ofNat 0x100

def endWithBlank : Char := Char.ofNat 0x101

/-- Leaves the replacements whose ends are at hand. -/
def leaveReplacements (s : Source) : Source :=
  let marks := s.rest.takeWhile fun c => 0x100 ≤ c.toNat
  if marks.isEmpty then s
  else { s with
    rest := s.rest.drop marks.length
    replacing := s.replacing.drop marks.length
    aliasDue := s.aliasDue || marks.contains endWithBlank }

def atEndOfReplacement (s : Source) : Bool := s.rest.head?.any fun c => 0x100 ≤ c.toNat

/-- Puts the text that a name stands for in front of the rest. -/
def replaceName (s : Source) (name : String) (text : Octets) : Source :=
  let mark := if (text.getLast?.map isBlank).getD false then endWithBlank else endOfReplacement
  { s with rest := text ++ mark :: s.rest, replacing := name :: s.replacing }

end Source

namespace ReadM

def fail {α : Type} (text : String) : ReadM α := do
  throw (.malformed (← get).line ("Syntax error: " ++ text))

/-- The next character, which stays. -/
def peek? : ReadM (Option Char) := do
  let s := (← get).leaveReplacements
  set s
  match s.rest with
  | [] => if s.more then throw .incomplete else return none
  | c :: _ => return some c

/-- Takes the next character away. -/
def skip : ReadM Unit := modify fun s =>
  match s.rest with
  | [] => s
  | c :: rest => { s with rest, line := if c = '\n' then s.line + 1 else s.line }

def next? : ReadM (Option Char) := do
  let c ← peek?
  skip
  return c

/-- Takes away what joins lines at the start of a text. -/
def dropJoins (line : Nat) : Octets → Nat × Octets
  | '\\' :: '\n' :: rest => dropJoins (line + 1) rest
  | rest => (line, rest)

def skipJoins : ReadM Unit := do
  let s ← get
  let (line, rest) := dropJoins s.line s.rest
  match rest, s.more with
  | ['\\'], true => throw .incomplete
  | _, _ => set { s with line, rest }

/-- The next character of joined lines, which stays. -/
def peekJoined? : ReadM (Option Char) := do
  skipJoins
  peek?

def nextJoined? : ReadM (Option Char) := do
  skipJoins
  next?

/-- Takes the next character away if it is the given one. -/
def skipIf (c : Char) : ReadM Bool := do
  if (← peekJoined?) = some c then
    skip
    return true
  return false

/-- Takes away characters of a kind. -/
def takeWhile (p : Char → Bool) : Nat → Octets → ReadM Octets
  | 0, done => return done.reverse
  | steps + 1, done => do
    match ← peekJoined? with
    | some c =>
      if p c then
        skip
        takeWhile p steps (c :: done)
      else return done.reverse
    | none => return done.reverse

def remaining : ReadM Nat := return (← get).rest.length + 1

def takeAll (p : Char → Bool) : ReadM Octets := do takeWhile p (← remaining) []

/-- Characters up to a given one, which is taken away too; `none` if it does not come. -/
def takeUntil (stop : Char) : Nat → Octets → ReadM (Option Octets)
  | 0, _ => return none
  | steps + 1, done => do
    match ← next? with
    | none => return none
    | some c => if c = stop then return some done.reverse else takeUntil stop steps (c :: done)

/-- Skips blanks and a comment. -/
def skipBlanks : Nat → ReadM Unit
  | 0 => return
  | steps + 1 => do
    match ← peekJoined? with
    | some '#' =>
      modify fun s => { s with rest := s.rest.dropWhile fun c => c != '\n' && c.toNat < 0x100 }
      let _ ← peek?
    | some c =>
      if isBlank c then
        skip
        skipBlanks steps
    | none => return

/-- Reads the last token once more. -/
def pushBack : ReadM Unit := modify fun s => { s with pushedBack := true }

def unexpected {α : Type} (expected : Option String) : ReadM α := do
  let found := (← get).token.description ++ " unexpected"
  fail (match expected with
    | some expected => found ++ " (expecting " ++ expected ++ ")"
    | none => found)

/-- Reads another text in between. -/
def within {α : Type} (text : Octets) (read : ReadM α) : ReadM α := do
  let outer ← get
  set { outer with rest := text, more := false, line := 1, due := [], pushedBack := false }
  let result ← read
  modify fun s => { outer with
    documents := s.documents
    documentCount := s.documentCount
    pushedBack := false }
  return result

end ReadM

end ContractCheck.Shell
