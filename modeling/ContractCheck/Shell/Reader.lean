import ContractCheck.Shell.Source

/-!
Shell scripts from their text. A script is read one line of commands after the other, because what
a line does can change how the next one is read. A number of steps, which the length of the text
bounds, makes the recursion end.
-/

namespace ContractCheck.Shell

/-- Characters that end a word unless they are quoted. -/
def isMeta (c : Char) : Bool :=
  isBlank c || c == '\n' || c == ';' || c == '&' || c == '|' || c == '<' || c == '>' ||
    c == '(' || c == ')'

/-- Parameters that are named by one sign or digit. -/
def isSpecialParameter (c : Char) : Bool :=
  c == '?' || c == '#' || c == '$' || c == '!' || c == '@' || c == '*' || c == '-' || c.isDigit

/-- What surrounds the text that is read, which decides what its characters mean. -/
inductive Surroundings where
  | word
  /-- The word that ends a document. -/
  | mark
  | braces
  | quotes
  | quotedBraces (inDocument : Bool)
  | document
  | arithmetic
deriving DecidableEq

namespace Surroundings

/-- Whether quotes are needed, and words may be split. -/
def isBare : Surroundings → Bool
  | .word | .mark | .braces => true
  | _ => false

/-- Whether a backslash in front of the character stands for the character alone. -/
def escapes (s : Surroundings) (c : Char) : Bool :=
  match s with
  | .word | .mark | .braces => true
  | .quotes | .arithmetic => c == '\\' || c == '\x60' || c == '$' || c == '"'
  | .quotedBraces _ => c == '\\' || c == '\x60' || c == '$' || c == '"' || c == '\x7d'
  | .document => c == '\\' || c == '\x60' || c == '$'

/-- The complaint about a text that ends too early. -/
def complaint? : Surroundings → Option String
  | .word | .mark | .document => none
  | .braces | .quotedBraces true => some "Missing '\x7d'"
  | .quotes | .quotedBraces false => some "Unterminated quoted string"
  | .arithmetic => some "Missing '))'"

/-- The surroundings in the braces of a parameter. -/
def inBraces : Surroundings → Surroundings
  | .word | .mark | .braces => .braces
  | .document | .quotedBraces true => .quotedBraces true
  | .quotes | .quotedBraces false | .arithmetic => .quotedBraces false

end Surroundings

/-- Adds a character to pieces in reverse order. -/
def addPlain (c : Char) : List Piece → List Piece
  | .plain text :: rest => .plain (text ++ [c]) :: rest
  | rest => .plain [c] :: rest

def addQuoted (text : Octets) : List Piece → List Piece
  | .quoted before :: rest => .quoted (before ++ text) :: rest
  | rest => .quoted text :: rest

/-- The text between back quotes, with the backslashes taken off that are due to them. -/
def readBackQuoted (inQuotes : Bool) : Nat → Octets → ReadM Octets
  | 0, _ => ReadM.fail "EOF in backquote substitution"
  | steps + 1, done => do
    match ← ReadM.nextJoined? with
    | none => ReadM.fail "EOF in backquote substitution"
    | some '\x60' => return done.reverse
    | some '\\' =>
      match ← ReadM.next? with
      | none => ReadM.fail "EOF in backquote substitution"
      | some c =>
        if c = '$' ∨ c = '\x60' ∨ c = '\\' ∨ (inQuotes = true ∧ c = '"') then
          readBackQuoted inQuotes steps (c :: done)
        else readBackQuoted inQuotes steps (c :: '\\' :: done)
    | some c => readBackQuoted inQuotes steps (c :: done)

/-- The rest of a redirection's operator, behind its first character. -/
def readOperator (first : Char) : ReadM String := do
  if first = '>' then
    if ← ReadM.skipIf '>' then return ">>"
    if ← ReadM.skipIf '|' then return ">|"
    if ← ReadM.skipIf '&' then return ">&"
    return ">"
  else
    if ← ReadM.skipIf '<' then
      if ← ReadM.skipIf '-' then return "<<-"
      return "<<"
    if ← ReadM.skipIf '&' then return "<&"
    if ← ReadM.skipIf '>' then return "<>"
    return "<"

/-- The word that ends a document, in which nothing but quotes counts. -/
def readQuotedMark : Nat → Octets → ReadM Octets
  | 0, done => return done.reverse
  | steps + 1, done => do
    match ← ReadM.next? with
    | none => ReadM.fail "Unterminated quoted string"
    | some '"' => return done.reverse
    | some '\\' =>
      match ← ReadM.next? with
      | none => ReadM.fail "Unterminated quoted string"
      | some c =>
        if Surroundings.escapes .quotes c then readQuotedMark steps (c :: done)
        else readQuotedMark steps (c :: '\\' :: done)
    | some c => readQuotedMark steps (c :: done)

/-- The text of a document, up to the line that is its mark, and what is left behind that line. A
line that is joined with the one before it is not the mark. -/
def takeDocument (d : DueDocument) : Nat → Bool → List Octets → Octets × Bool × List Octets
  | 0, _, lines => ([], false, lines)
  | _, _, [] => ([], false, [])
  | steps + 1, joined, line :: lines =>
    let line := if d.stripTabs then line.dropWhile (· == '\t') else line
    let body := Octets.dropEnd line (· == '\n')
    if !joined && body == d.mark then ([], true, lines)
    else
      let slashes := (body.reverse.takeWhile (· == '\\')).length
      let (text, found, rest) := takeDocument d steps (d.expanding && slashes % 2 == 1) lines
      (line ++ text, found, rest)

/-- What stands for a list of commands: nothing, commands, or the end of the script. -/
inductive Listed where
  | nothing
  | commands (command : Command)
  | finished

def Listed.command : Listed → Command
  | .commands command => command
  | .nothing | .finished => .nothing

def Listed.add (l : Listed) (command : Command) : Listed :=
  match l with
  | .commands first => .commands (.sequence first command)
  | .nothing | .finished => .commands command

/-- How a list of commands may end. -/
inductive ListMode where
  /-- At least one command, and as many lines as there are. -/
  | some
  /-- One line, which may be empty. -/
  | line
  /-- As many lines as there are, perhaps none. -/
  | any
deriving DecidableEq

def endsList : Token → Bool
  | .endOfText | .closeParen | .endArm => true
  | .keyword name => ["do", "done", "elif", "else", "esac", "fi", "then", "\x7d"].contains name
  | _ => false

/-- What is looked for in the next token besides its kind. -/
structure Look where
  newlines : Bool := false
  keywords : Bool := false
  aliases : Bool := false

def Look.command : Look := { keywords := true, aliases := true }

def Look.commandOnLines : Look := { newlines := true, keywords := true, aliases := true }

mutual

/-- The pieces of a text. `inner` tells whether the text is between further quotes, and `depth` how
many parentheses are open. -/
def readPieces : Nat → Surroundings → Bool → Nat → List Piece → ReadM Word
  | 0, _, _, _, _ => throw .incomplete
  | steps + 1, around, inner, depth, done => do
    let literal (c : Char) : ReadM Word :=
      if around.isBare then readPieces steps around inner depth (addPlain c done)
      else readPieces steps around inner depth (addQuoted [c] done)
    if around = .word && (← get).atEndOfReplacement then return done.reverse
    match ← ReadM.peekJoined? with
    | none =>
      match around.complaint? with
      | none => return done.reverse
      | some text => ReadM.fail text
    | some '\\' =>
      ReadM.skip
      match ← ReadM.next? with
      | none => readPieces steps around inner depth (addQuoted ['\\'] done)
      | some c =>
        if around.escapes c then readPieces steps around inner depth (addQuoted [c] done)
        else readPieces steps around inner depth (addQuoted ['\\', c] done)
    | some '\'' =>
      if around.isBare then
        ReadM.skip
        match ← ReadM.takeUntil '\'' (← ReadM.remaining) [] with
        | none => ReadM.fail "Unterminated quoted string"
        | some text => readPieces steps around inner depth (addQuoted text done)
      else
        ReadM.skip
        literal '\''
    | some '"' =>
      ReadM.skip
      match around with
      | .mark =>
        let text ← readQuotedMark (← ReadM.remaining) []
        readPieces steps around inner depth (addQuoted text done)
      | .word | .braces =>
        let pieces ← readPieces steps .quotes false 0 []
        readPieces steps around inner depth (pieces.reverse ++ addQuoted [] done)
      | .quotes => return done.reverse
      | .quotedBraces _ => readPieces steps around (!inner) depth done
      | .document | .arithmetic => literal '"'
    | some '$' =>
      ReadM.skip
      if around = .mark then literal '$'
      else
        match ← readDollar steps around with
        | some piece => readPieces steps around inner depth (piece :: done)
        | none => literal '$'
    | some '\x60' =>
      ReadM.skip
      if around = .mark then literal '\x60'
      else
        let text ← readBackQuoted (!around.isBare) (← ReadM.remaining) []
        let body ← ReadM.within text (readList steps .any)
        readPieces steps around inner depth (.output (!around.isBare) body.command :: done)
    | some c =>
      match around with
      | .word | .mark =>
        if isMeta c then return done.reverse
        else
          ReadM.skip
          literal c
      | .braces =>
        ReadM.skip
        if c = '\x7d' then return done.reverse else literal c
      | .quotedBraces _ =>
        ReadM.skip
        if c = '\x7d' ∧ inner = false then return done.reverse else literal c
      | .arithmetic =>
        ReadM.skip
        if c = '(' then readPieces steps around inner (depth + 1) (addQuoted [c] done)
        else if c = ')' then
          if 0 < depth then readPieces steps around inner (depth - 1) (addQuoted [c] done)
          else if ← ReadM.skipIf ')' then return done.reverse
          else literal c
        else literal c
      | .quotes | .document =>
        ReadM.skip
        literal c

/-- What a dollar sign introduces, if anything. -/
def readDollar : Nat → Surroundings → ReadM (Option Piece)
  | 0, _ => throw .incomplete
  | steps + 1, around => do
    let inQuotes := !around.isBare
    match ← ReadM.peekJoined? with
    | some '(' =>
      ReadM.skip
      if ← ReadM.skipIf '(' then
        return some (.arithmetic inQuotes (← readPieces steps .arithmetic false 0 []))
      else
        let due := (← get).due
        modify fun s => { s with due := [] }
        let body ← readList steps .any
        match ← readToken steps {} with
        | .closeParen =>
          modify fun s => { s with due }
          return some (.output inQuotes body.command)
        | _ => ReadM.unexpected (some Token.closeParen.description)
    | some '\x7b' =>
      ReadM.skip
      return some (← readBraced steps around)
    | some c =>
      if isNameStart c then
        return some (.parameter inQuotes (← ReadM.takeAll isNameChar).name .value)
      else if isSpecialParameter c then
        ReadM.skip
        return some (.parameter inQuotes (String.singleton c) .value)
      else return none
    | none => return none

/-- A parameter in braces, behind the opening one. -/
def readBraced : Nat → Surroundings → ReadM Piece
  | 0, _ => throw .incomplete
  | steps + 1, around => do
    let inQuotes := !around.isBare
    let named (name : String) : ReadM Piece :=
      return .parameter inQuotes name (← readUse steps around)
    let unknown : ReadM Piece := do
      let _ ← readPieces steps around.inBraces false 0 []
      return .parameter inQuotes "" .unknown
    let lengthOf (name : String) : ReadM Piece := do
      if ← ReadM.skipIf '\x7d' then return .parameter inQuotes name .length else unknown
    match ← ReadM.peekJoined? with
    | none => unknown
    | some '\x7d' => unknown
    | some '#' =>
      ReadM.skip
      match ← ReadM.peekJoined? with
      | none => unknown
      | some c =>
        if isNameStart c then lengthOf (← ReadM.takeAll isNameChar).name
        else if c.isDigit then lengthOf (← ReadM.takeAll Char.isDigit).name
        else if c = '\x7d' then named "#"
        else
          let before ← get
          ReadM.skip
          if (← ReadM.peekJoined?) = some '\x7d' then
            if isSpecialParameter c then lengthOf (String.singleton c) else unknown
          else
            set before
            named "#"
    | some c =>
      if isNameStart c then named (← ReadM.takeAll isNameChar).name
      else if c.isDigit then named (← ReadM.takeAll Char.isDigit).name
      else
        ReadM.skip
        if isSpecialParameter c then named (String.singleton c) else unknown

/-- What stands behind a parameter's name, up to the closing brace. -/
def readUse : Nat → Surroundings → ReadM ParameterUse
  | 0, _ => throw .incomplete
  | steps + 1, around => do
    let word : ReadM Word := readPieces steps around.inBraces false 0 []
    let pattern : ReadM Word := readPieces steps .braces false 0 []
    match ← ReadM.nextJoined? with
    | some '\x7d' => return .value
    | some '#' =>
      let longest ← ReadM.skipIf '#'
      return .cut ⟨false, longest⟩ (← pattern)
    | some '%' =>
      let longest ← ReadM.skipIf '%'
      return .cut ⟨true, longest⟩ (← pattern)
    | first =>
      let orEmpty := first = some ':'
      let sign ← if orEmpty then ReadM.nextJoined? else pure first
      let word ← word
      match sign with
      | some '-' => return .otherwise orEmpty word
      | some '+' => return .instead orEmpty word
      | some '=' => return .assign orEmpty word
      | some '?' => return .demand orEmpty word
      | _ => return .unknown

/-- A token as it stands in the text. -/
def readRawToken : Nat → ReadM Token
  | 0 => throw .incomplete
  | steps + 1 => do
    ReadM.skipBlanks (← ReadM.remaining)
    let pair (second : Char) (double single : Token) : ReadM Token := do
      ReadM.skip
      if ← ReadM.skipIf second then return double else return single
    match ← ReadM.peekJoined? with
    | none => return .endOfText
    | some '\n' =>
      ReadM.skip
      return .newline
    | some '&' => pair '&' .both .background
    | some '|' => pair '|' .either .bar
    | some ';' => pair ';' .endArm .semicolon
    | some '(' =>
      ReadM.skip
      return .openParen
    | some ')' =>
      ReadM.skip
      return .closeParen
    | some _ =>
      let word ← readPieces steps .word false 0 []
      let redirection (fd : Option Nat) (first : Char) : ReadM Token := do
        ReadM.skip
        return .redirection fd (← readOperator first)
      match ← ReadM.peek?, word with
      | some '<', [] => redirection none '<'
      | some '>', [] => redirection none '>'
      | some '<', [.plain [d]] =>
        if d.isDigit then redirection (some (d.toNat - '0'.toNat)) '<' else return .word word
      | some '>', [.plain [d]] =>
        if d.isDigit then redirection (some (d.toNat - '0'.toNat)) '>' else return .word word
      | _, word => return .word word

/-- The next token. Words that are keywords or stand for other texts are told apart only where
`look` says so. -/
def readToken : Nat → Look → ReadM Token
  | 0, _ => throw .incomplete
  | steps + 1, look => do
    let s ← get
    let token ← if s.pushedBack then
        set { s with pushedBack := false }
        pure s.token
      else readRawToken steps
    let finish (token : Token) : ReadM Token := do
      modify fun s => { s with token, aliasDue := false }
      return token
    match token with
    | .newline =>
      if look.newlines then
        readDocuments steps
        readToken steps look
      else finish .newline
    | .word word =>
      match word.plainText? with
      | none => finish token
      | some text =>
        let name := text.name
        let s ← get
        if look.keywords && keywords.contains name then finish (.keyword name)
        else if look.aliases || s.aliasDue then
          match s.aliases.get? name with
          | some replacement =>
            if s.replacing.contains name then finish token
            else
              set ({ s with aliasDue := false }.replaceName name replacement)
              readToken steps look
          | none => finish token
        else finish token
    | token => finish token

/-- The documents that start here. -/
def readDocuments : Nat → ReadM Unit
  | 0 => throw .incomplete
  | steps + 1 => do
    let s ← get
    set { s with due := [] }
    s.due.forM fun d => do
      let s ← get
      let lines := Octets.lines s.rest
      let (text, found, rest) := takeDocument d (lines.length + 1) false lines
      if !found && s.more then throw .incomplete
      let rest := rest.flatten
      set { s with rest, line := s.line + s.rest.count '\n' - rest.count '\n' }
      let body ← if d.expanding then
          ReadM.within text do
            modify fun inner => { inner with line := s.line }
            readPieces steps .document false 0 []
        else pure [.quoted text]
      modify fun s => { s with documents := (d.number, body) :: s.documents }

/-- Expects a keyword. -/
def readKeyword : Nat → String → Look → ReadM Unit
  | 0, _, _ => throw .incomplete
  | steps + 1, name, look => do
    match ← readToken steps look with
    | .keyword found =>
      if found = name then return else ReadM.unexpected (some (Token.keyword name).description)
    | _ => ReadM.unexpected (some (Token.keyword name).description)

/-- Commands one after the other. -/
def readList : Nat → ListMode → ReadM Listed
  | 0, _ => throw .incomplete
  | steps + 1, mode => readMore steps mode .nothing

/-- Adds commands to those of a list that have been read. -/
def readMore : Nat → ListMode → Listed → ReadM Listed
  | 0, _, _ => throw .incomplete
  | steps + 1, mode, done => do
    let onLine := mode = .line
    match ← readToken steps { Look.command with newlines := !onLine } with
    | .newline =>
      readDocuments steps
      return done
    | .endOfText =>
      readDocuments steps
      ReadM.pushBack
      modify fun s => { s with token := .endOfText }
      match done with
      | .nothing => return if onLine then .finished else .nothing
      | done => return done
    | token =>
      ReadM.pushBack
      let started := match done with
        | .nothing => false
        | _ => true
      if (started || mode = .any) && !onLine && endsList token then return done
      let command ← readAndOr steps
      match ← readToken steps {} with
      | .background => readMore steps mode (done.add (.background command))
      | .semicolon => readMore steps mode (done.add command)
      | .newline =>
        ReadM.pushBack
        readMore steps mode (done.add command)
      | .endOfText =>
        readDocuments steps
        ReadM.pushBack
        modify fun s => { s with token := .endOfText }
        return done.add command
      | _ =>
        if onLine then ReadM.unexpected none
        ReadM.pushBack
        return done.add command

def readAndOr : Nat → ReadM Command
  | 0 => throw .incomplete
  | steps + 1 => do
    let first ← readPipeline steps {}
    readAndOrRest steps first

def readAndOrRest : Nat → Command → ReadM Command
  | 0, _ => throw .incomplete
  | steps + 1, first => do
    match ← readToken steps {} with
    | .both => readAndOrRest steps (.both first (← readPipeline steps .commandOnLines))
    | .either => readAndOrRest steps (.either first (← readPipeline steps .commandOnLines))
    | _ =>
      ReadM.pushBack
      return first

def readPipeline : Nat → Look → ReadM Command
  | 0, _ => throw .incomplete
  | steps + 1, look => do
    let negated ← match ← readToken steps look with
      | .keyword "!" => pure true
      | _ => do
        ReadM.pushBack
        pure false
    let first ← readCommand steps (if negated then .command else {})
    let stages ← readStages steps [first]
    let command := match stages with
      | [command] => command
      | stages => .pipeline stages
    return if negated then .negated command else command

def readStages : Nat → List Command → ReadM (List Command)
  | 0, _ => throw .incomplete
  | steps + 1, done => do
    match ← readToken steps {} with
    | .bar =>
      let stage ← readCommand steps .commandOnLines
      readStages steps (stage :: done)
    | _ =>
      ReadM.pushBack
      return done.reverse

def readCommand : Nat → Look → ReadM Command
  | 0, _ => throw .incomplete
  | steps + 1, look => do
    let token ← readToken steps look
    let line := (← get).line
    match token with
    | .word _ | .redirection _ _ =>
      ReadM.pushBack
      readSimple steps none true [] [] []
    | _ =>
      let body ← match token with
        | .keyword "if" => readBranch steps
        | .keyword "while" => readLoop steps false
        | .keyword "until" => readLoop steps true
        | .keyword "for" => readEach steps line
        | .keyword "case" => readCase steps line
        | .keyword "\x7b" => do
          let body ← readList steps .some
          readKeyword steps "\x7d" {}
          pure body.command
        | .openParen => do
          let body ← readList steps .some
          match ← readToken steps {} with
          | .closeParen => pure (.subshell line body.command)
          | _ => ReadM.unexpected (some Token.closeParen.description)
        | _ => ReadM.unexpected none
      match ← readRedirections steps [] with
      | [] => return body
      | redirections => return .redirected line body redirections

/-- The rest of a conditional, behind `if` or `elif`, with its end. -/
def readBranch : Nat → ReadM Command
  | 0 => throw .incomplete
  | steps + 1 => do
    let test ← readList steps .some
    readKeyword steps "then" {}
    let onTrue ← readList steps .some
    match ← readToken steps {} with
    | .keyword "elif" => return .branch test.command onTrue.command (← readBranch steps)
    | .keyword "else" =>
      let onFalse ← readList steps .some
      readKeyword steps "fi" {}
      return .branch test.command onTrue.command onFalse.command
    | _ =>
      ReadM.pushBack
      readKeyword steps "fi" {}
      return .branch test.command onTrue.command .nothing

def readLoop : Nat → Bool → ReadM Command
  | 0, _ => throw .incomplete
  | steps + 1, untilTrue => do
    let test ← readList steps .some
    readKeyword steps "do" {}
    let body ← readList steps .some
    readKeyword steps "done" {}
    return .loop untilTrue test.command body.command

def readEach : Nat → Nat → ReadM Command
  | 0, _ => throw .incomplete
  | steps + 1, line => do
    let name ← match ← readToken steps {} with
      | .word word =>
        match word.plainText? with
        | some text => if isName text then pure text.name else ReadM.fail "Bad for loop variable"
        | none => ReadM.fail "Bad for loop variable"
      | _ => ReadM.fail "Bad for loop variable"
    let items ← match ← readToken steps .commandOnLines with
      | .keyword "in" => do
        let items ← readWords steps []
        match (← get).token with
        | .newline | .semicolon => pure items
        | _ => ReadM.unexpected none
      | .semicolon => pure [[.parameter true "@" .value]]
      | _ => do
        ReadM.pushBack
        pure [[.parameter true "@" .value]]
    readKeyword steps "do" .commandOnLines
    let body ← readList steps .some
    readKeyword steps "done" {}
    return .each line name items body.command

/-- Words up to a token of another kind. -/
def readWords : Nat → List Word → ReadM (List Word)
  | 0, _ => throw .incomplete
  | steps + 1, done => do
    match ← readToken steps {} with
    | .word word => readWords steps (word :: done)
    | _ => return done.reverse

def readCase : Nat → Nat → ReadM Command
  | 0, _ => throw .incomplete
  | steps + 1, line => do
    let subject ← match ← readToken steps {} with
      | .word word => pure word
      | _ => ReadM.unexpected (some "word")
    readKeyword steps "in" .commandOnLines
    return .choose line subject (← readArms steps [])

def readArms : Nat → List (List Word × Command) → ReadM (List (List Word × Command))
  | 0, _ => throw .incomplete
  | steps + 1, done => do
    let look : Look := { newlines := true, keywords := true }
    match ← readToken steps look with
    | .keyword "esac" => return done.reverse
    | first =>
      let first ← match first with
        | .openParen => readToken steps {}
        | token => pure token
      let patterns ← readPatterns steps first []
      let body ← readList steps .any
      let arm := (patterns, body.command)
      match ← readToken steps look with
      | .keyword "esac" => return (arm :: done).reverse
      | .endArm => readArms steps (arm :: done)
      | _ => ReadM.unexpected (some Token.endArm.description)

def readPatterns : Nat → Token → List Word → ReadM (List Word)
  | 0, _, _ => throw .incomplete
  | steps + 1, token, done => do
    let pattern : Word := match token with
      | .word word => word
      | .keyword name => [.plain name.toList]
      | _ => []
    match ← readToken steps {} with
    | .bar => readPatterns steps (← readToken steps {}) (pattern :: done)
    | .closeParen => return (pattern :: done).reverse
    | _ => ReadM.unexpected (some Token.closeParen.description)

def readRedirections : Nat → List Redirection → ReadM (List Redirection)
  | 0, _ => throw .incomplete
  | steps + 1, done => do
    match ← readToken steps .command with
    | .redirection fd operator =>
      let r ← readRedirection steps fd operator
      readRedirections steps (r :: done)
    | _ =>
      ReadM.pushBack
      return done.reverse

/-- A redirection behind its operator. -/
def readRedirection : Nat → Option Nat → String → ReadM Redirection
  | 0, _, _ => throw .incomplete
  | steps + 1, fd, operator => do
    if operator = "<<" ∨ operator = "<<-" then
      ReadM.skipBlanks (← ReadM.remaining)
      match ← ReadM.peekJoined? with
      | some c =>
        if isMeta c then
          let _ ← readToken steps {}
          ReadM.unexpected none
        let mark ← readPieces steps .mark false 0 []
        let s ← get
        let due : DueDocument := {
          number := s.documentCount
          mark := mark.literalText
          stripTabs := operator = "<<-"
          expanding := mark.plainText?.isSome }
        set { s with due := s.due ++ [due], documentCount := s.documentCount + 1 }
        return .document (fd.getD 0) due.number
      | none =>
        let _ ← readToken steps {}
        ReadM.unexpected none
    else
      let default := if operator.startsWith ">" then 1 else 0
      let fd := fd.getD default
      match ← readToken steps {} with
      | .word name =>
        match operator with
        | ">" => return .file .write fd name
        | ">|" => return .file .overwrite fd name
        | ">>" => return .file .append fd name
        | "<" => return .file .read fd name
        | "<>" => return .file .readWrite fd name
        | _ => return .duplicate fd name
      | _ => ReadM.unexpected none

/-- A command of words, with assignments in front and redirections anywhere. -/
def readSimple : Nat → Option Nat → Bool → List (String × Word) → List Word → List Redirection →
    ReadM Command
  | 0, _, _, _, _, _ => throw .incomplete
  | steps + 1, line, inFront, assignments, words, redirections => do
    let token ← readToken steps { aliases := inFront }
    let line := line.getD (← get).line
    let finish : ReadM Command := do
      ReadM.pushBack
      return .simple line assignments.reverse words.reverse redirections.reverse
    match token with
    | .word word =>
      match inFront, word.assignment? with
      | true, some assignment =>
        readSimple steps line true (assignment :: assignments) words redirections
      | _, _ => readSimple steps line false assignments (word :: words) redirections
    | .redirection fd operator =>
      let r ← readRedirection steps fd operator
      readSimple steps line inFront assignments words (r :: redirections)
    | .openParen =>
      match assignments, words, redirections with
      | [], [name], [] =>
        match ← readToken steps {} with
        | .closeParen =>
          match name.plainText? with
          | some text =>
            if !isName text || isSpecialBuiltin text.name then ReadM.fail "Bad function name"
            else return .function text.name (← readCommand steps .commandOnLines)
          | none => ReadM.fail "Bad function name"
        | _ => ReadM.unexpected (some Token.closeParen.description)
      | _, _, _ => finish
    | _ => finish

end

/-- Reads the next line of commands of a script. -/
def Source.readLine (s : Source) : Except Fault (Listed × Source) :=
  (readList (40 * s.rest.length + 1000) .line).run { s with due := [], pushedBack := false }

end ContractCheck.Shell
