import ContractCheck.Shell.Arithmetic
import ContractCheck.Shell.Pattern
import ContractCheck.Shell.State

/-!
What words stand for. The pieces of a word become parts, of which some are split at separators; the
parts become fields, and a field that is a pattern becomes the names of the files that it matches.
-/

namespace ContractCheck.Shell

/-- What a piece of a word contributes to its fields. -/
inductive Part where
  | kept (glyphs : List Glyph)
  /-- Quotes, which make a field even if nothing is in it. -/
  | mark
  /-- Text that is split at separators. -/
  | loose (text : Octets)
  /-- The end of a field. -/
  | cut
  /-- The end of a field unless the field is empty. -/
  | gap

/-- The fields that are being made: the finished ones, the last one first, and the open one, if
there is one, with its last glyph first. -/
structure Fields where
  finished : List (List Glyph) := []
  current : Option (List Glyph) := none

namespace Fields

def add (f : Fields) (gs : List Glyph) : Fields :=
  { f with current := some (gs.reverse ++ f.current.getD []) }

/-- Ends the open field. -/
def push (f : Fields) : Fields := ⟨(f.current.getD []).reverse :: f.finished, none⟩

def pushUnlessEmpty (f : Fields) : Fields :=
  match f.current with
  | none | some [] => { f with current := none }
  | some _ => f.push

def toList (f : Fields) : List (List Glyph) :=
  match f.current with
  | some _ => f.push.finished.reverse
  | none => f.finished.reverse

/-- Passes over the separators behind one: any white space among them, and one other if the first
was white space. -/
def skipSeparators (separators : Octets) (afterSpace : Bool) : Octets → Octets
  | [] => []
  | c :: rest =>
    if !separators.contains c then c :: rest
    else if isBlank c || c == '\n' then skipSeparators separators afterSpace rest
    else if afterSpace then skipSeparators separators false rest
    else c :: rest

theorem length_skipSeparators_le (separators : Octets) (afterSpace : Bool) (text : Octets) :
    (skipSeparators separators afterSpace text).length ≤ text.length := by
  induction text generalizing afterSpace with
  | nil => simp [skipSeparators]
  | cons c rest ih =>
    have h := ih afterSpace
    have h' := ih false
    simp only [skipSeparators, List.length_cons]
    repeat' split
    all_goals first | omega | simp

/-- Adds a text that is split at separators. -/
def split (separators : Octets) (f : Fields) (text : Octets) : Fields :=
  match text with
  | [] => f
  | c :: rest =>
    if separators.contains c then
      let isWhite := isBlank c || c == '\n'
      if isWhite && f.current.isNone then split separators f rest
      else split separators f.push (skipSeparators separators isWhite rest)
    else split separators (f.add [⟨c, false⟩]) rest
termination_by text.length
decreasing_by
  · simp
  · have := length_skipSeparators_le separators (isBlank c || c == '\n') rest
    simp only [List.length_cons]
    omega
  · simp

def addPart (separators : Octets) (f : Fields) : Part → Fields
  | .kept [] => f
  | .kept gs => f.add gs
  | .mark => f.add []
  | .loose text => f.split separators text
  | .cut => f.push
  | .gap => f.pushUnlessEmpty

def ofParts (separators : Octets) (parts : List Part) : Fields :=
  parts.foldl (addPart separators) {}

end Fields

/-- The glyphs of parts that are not split. -/
def joinParts (parts : List Part) : List Glyph :=
  (parts.map fun part => match part with
    | .kept gs => gs
    | .loose text => glyphs false text
    | .mark | .cut | .gap => []).flatten

/-- Splits a pattern for a path at its slashes. -/
def splitPath : List Glyph → List (List Glyph)
  | [] => [[]]
  | g :: rest =>
    if g.octet = '/' then [] :: splitPath rest
    else match splitPath rest with
      | part :: parts => (g :: part) :: parts
      | [] => [[g]]

/-- The names in a directory that a pattern matches, in their order. -/
def matchingNames (w : Workspace) (directory : Octets) (pattern : List Glyph) : List Octets :=
  match w.find? (pathOf (if directory.isEmpty then ['.'] else directory)) with
  | some (.dir entries) =>
    let all := ['.'] :: ['.', '.'] :: entries.map fun e => Octets.ofString e.1
    let names := all.filter fun name =>
      matchesPattern pattern name &&
        (name.head? != some '.' || (pattern.head?.map Glyph.octet) == some '.')
    names.mergeSort Octets.precedes
  | _ => []

/-- The paths that a pattern matches, behind the given start. -/
def matchingPaths (w : Workspace) : List (List Glyph) → Octets → List Octets
  | [], start => [start]
  | [part], start =>
    if isPattern part then (matchingNames w start part).map (start ++ ·)
    else
      let path := start ++ Glyph.text part
      if w.exists? (pathOf path) then [path] else []
  | part :: parts, start =>
    if isPattern part then
      ((matchingNames w start part).map fun name =>
        matchingPaths w parts (start ++ name ++ ['/'])).flatten
    else matchingPaths w parts (start ++ Glyph.text part ++ ['/'])

/-- The names of files that a field stands for; the field itself if there are none. -/
def fileNames (w : Workspace) (field : List Glyph) : List Octets :=
  if isPattern field then
    match matchingPaths w (splitPath field) [] with
    | [] => [Glyph.text field]
    | names => names
  else [Glyph.text field]

namespace State

/-- The whole parameters as one text. -/
def joined (s : State) (separator : Octets) : Octets := Octets.joinWith separator s.arguments

/-- What stands between parameters that become one text. -/
def joint (s : State) : Octets := s.separators.take 1

def optionLetters : List Char := "efIimnsvxVECabu".toList

/-- The value of a parameter, if it is set. -/
def parameter? (s : State) (name : String) : Option Octets :=
  match name with
  | "?" => some (Octets.ofNat s.status)
  | "#" => some (Octets.ofNat s.arguments.length)
  | "$" => some (Octets.ofNat s.root)
  | "!" => s.lastJob.map Octets.ofNat
  | "-" => some (optionLetters.filter s.hasOption)
  | "@" | "*" => some (s.joined s.joint)
  | name =>
    match natural? 10 name.toList with
    | some 0 => some s.name
    | some n => s.arguments[n - 1]?
    | none => s.value? name

end State

/-- Variables as arithmetic sees them. -/
def numbers : Arithmetic.Store State where
  read name s :=
    match s.value? name with
    | none => .ok 0
    | some text =>
      match integer? false text with
      | some n => .ok n
      | none => .error (.notANumber text)
  write name n s :=
    let b := (s.bindings.get? name).getD {}
    if b.fixed then .error (.fixed name)
    else .ok { s with
      bindings := s.bindings.insert name
        { b with value := some (Octets.ofInt n), exported := b.exported || s.hasOption 'a' } }

namespace ShellM

/-- The value of an arithmetic expression. -/
def arithmetic (text : Octets) : ShellM Int := do
  match Arithmetic.evaluate numbers text (← get) with
  | .ok (n, s) =>
    set s
    return n
  | .error (.malformed reason) =>
    fail ("arithmetic expression: " ++ reason ++ ": \"" ++ String.ofList text ++ "\"")
  | .error (.notANumber text) => fail ("Illegal number: " ++ String.ofList text)
  | .error (.fixed name) => fail (name ++ ": is read only")

end ShellM

/-- What happens to the parts of a word. -/
structure Purpose where
  splitting : Bool
  /-- Whether the word is the value of an assignment, where a tilde may follow a colon. -/
  assigned : Bool := false
  /-- Whether the word stands in for an unquoted parameter, so that its plain text is split. -/
  standIn : Bool := false

/-- The directory that a tilde with a user's name stands for. -/
def homeOf? (s : State) (user : Octets) : Option Octets :=
  if user.isEmpty then s.value? "HOME"
  else if user = "root".toList then some "/root".toList
  else none

/-- Replaces a tilde in front of a text. `whole` tells whether nothing follows the text. -/
def expandTilde (s : State) (assigned whole : Bool) (text : Octets) : List Part × Octets :=
  match text with
  | '~' :: rest =>
    let ends (c : Char) : Bool := c == '/' || (assigned && c == ':')
    let user := rest.takeWhile fun c => !ends c
    let behind := rest.drop user.length
    if behind.isEmpty && !whole then ([], text)
    else match homeOf? s user with
      | some home => ([.kept (glyphs true home)], behind)
      | none => ([], text)
  | text => ([], text)

/-- The parts of a plain text that ends every directory in a list with a colon. -/
def expandTildes (s : State) (whole : Bool) : Nat → Octets → List Part
  | 0, text => [.kept (glyphs false text)]
  | steps + 1, text =>
    let (home, text) := expandTilde s true whole text
    let item := text.takeWhile (· != ':')
    match text.drop item.length with
    | [] => home ++ [.kept (glyphs false item)]
    | colon :: rest =>
      home ++ .kept (glyphs false (item ++ [colon])) :: expandTildes s whole steps rest

/-- Whether the quotes around a piece hold nothing else. -/
def standsAlone : List Piece → Bool
  | .parameter true _ _ :: _ | .arithmetic true _ :: _ | .output true _ :: _ => false
  | _ => true

def emitted (inQuotes : Bool) (p : Purpose) (text : Octets) : List Part :=
  if inQuotes then [.kept (glyphs true text)]
  else if p.splitting then [.loose text]
  else [.kept (glyphs false text)]

/-- The parameters of the shell, each a field of its own if fields are wanted. -/
def allParameters (s : State) (inQuotes : Bool) (p : Purpose) (name : String) : List Part :=
  match inQuotes, p.splitting, name with
  | true, true, "@" =>
    (s.arguments.map fun a => [.mark, .kept (glyphs true a)]).intersperse [.cut] |>.flatten
  | false, true, _ => (s.arguments.map fun a => [.loose a]).intersperse [.gap] |>.flatten
  | _, _, _ => [.kept (glyphs inQuotes (s.joined s.joint))]

mutual

/-- The parts of a word; `output` runs scripts for what they write. -/
def expandPieces (output : Command → ShellM Octets) :
    Nat → Purpose → Bool → List Piece → ShellM (List Part)
  | 0, _, _, _ => throw (.over (.killed 9))
  | _ + 1, _, _, [] => return []
  | steps + 1, p, _, .quoted [] :: .parameter true "@" .value :: rest => do
    let all := allParameters (← get) true p "@"
    let all := if p.splitting && standsAlone rest then all else .mark :: all
    return all ++ (← expandPieces output steps p false rest)
  | steps + 1, p, first, piece :: rest => do
    let parts ← expandPiece output steps p first rest.isEmpty piece
    return parts ++ (← expandPieces output steps p false rest)

def expandPiece (output : Command → ShellM Octets) :
    Nat → Purpose → Bool → Bool → Piece → ShellM (List Part)
  | 0, _, _, _, _ => throw (.over (.killed 9))
  | steps + 1, p, first, last, piece => do
    match piece with
    | .plain text =>
      let s ← get
      if p.assigned then
        if first then return expandTildes s last (text.length + 1) text
        else
          let item := text.takeWhile (· != ':')
          match text.drop item.length with
          | [] => return [.kept (glyphs false text)]
          | colon :: rest =>
            return .kept (glyphs false (item ++ [colon])) ::
              expandTildes s last (rest.length + 1) rest
      else
        let (home, text) := if first then expandTilde s false last text else ([], text)
        return home ++ (if p.standIn then [.loose text] else [.kept (glyphs false text)])
    | .quoted text => return [.mark, .kept (glyphs true text)]
    | .arithmetic inQuotes expression =>
      let text ← expandText output steps expression
      return emitted inQuotes p (Octets.ofInt (← ShellM.arithmetic text))
    | .output inQuotes body =>
      let text ← output body
      return emitted inQuotes p (Octets.dropEnd text (· == '\n'))
    | .parameter inQuotes name use => expandParameter output steps p inQuotes name use

def expandParameter (output : Command → ShellM Octets) :
    Nat → Purpose → Bool → String → ParameterUse → ShellM (List Part)
  | 0, _, _, _, _ => throw (.over (.killed 9))
  | steps + 1, p, inQuotes, name, use => do
    let s ← get
    let value := s.parameter? name
    let isAll := name == "@" || name == "*"
    let present : List Part :=
      if isAll then allParameters s inQuotes p name else emitted inQuotes p (value.getD [])
    let needed : ShellM Unit := do
      if value.isNone && s.hasOption 'u' then
        ShellM.fail (name ++ ": parameter not set")
    let counts (orEmpty : Bool) : Bool := match value with
      | none => false
      | some text => !(orEmpty && text.isEmpty)
    let other (word : List Piece) : ShellM (List Part) :=
      expandPieces output steps { p with standIn := p.splitting && !inQuotes } true word
    match use with
    | .value =>
      needed
      return present
    | .length =>
      needed
      return emitted inQuotes p (Octets.ofNat (value.getD []).length)
    | .otherwise orEmpty word => if counts orEmpty then return present else other word
    | .instead orEmpty word => if counts orEmpty then other word else return []
    | .assign orEmpty word =>
      if counts orEmpty then return present
      else
        let text ← expandText output steps word
        if !isName name.toList then ShellM.fail (name ++ ": bad variable name")
        ShellM.assign name text
        return emitted inQuotes p text
    | .demand orEmpty word =>
      if counts orEmpty then return present
      else
        let text ← expandText output steps word
        let reason := if !word.isEmpty then String.ofList text
          else if orEmpty then "parameter not set or null" else "parameter not set"
        ShellM.fail (name ++ ": " ++ reason)
    | .cut cut pattern =>
      needed
      let pattern ← expandGlyphs output steps pattern
      let text := if name = "@" && inQuotes && p.splitting then s.arguments.headD []
        else value.getD []
      return emitted inQuotes p (cutText cut.fromEnd cut.longest pattern text)
    | .unknown => ShellM.fail "Bad substitution"

/-- A word as one text, with what is quoted in it. -/
def expandGlyphs (output : Command → ShellM Octets) : Nat → List Piece → ShellM (List Glyph)
  | 0, _ => throw (.over (.killed 9))
  | steps + 1, word =>
    return joinParts (← expandPieces output steps ⟨false, false, false⟩ true word)

def expandText (output : Command → ShellM Octets) : Nat → List Piece → ShellM Octets
  | 0, _ => throw (.over (.killed 9))
  | steps + 1, word => return Glyph.text (← expandGlyphs output steps word)

end

/-- The nesting that a word may have. -/
def wordDepth : Nat := 100000

namespace ShellM

/-- The files as they are seen from the shell's directory. -/
def workspace : ShellM Workspace := do
  let s ← get
  askMachine fun m =>
    match m.workspace.resolve (pathOf s.directory) with
    | .ok current => { m.workspace with current }
    | .error _ => m.workspace

/-- The value of an assignment. -/
def expandValue (output : Command → ShellM Octets) (word : Word) : ShellM Octets := do
  return Glyph.text (joinParts (← expandPieces output wordDepth ⟨false, true, false⟩ true word))

def expandPattern (output : Command → ShellM Octets) (word : Word) : ShellM (List Glyph) :=
  expandGlyphs output wordDepth word

def expandOne (output : Command → ShellM Octets) (word : Word) : ShellM Octets :=
  expandText output wordDepth word

/-- The fields of a word. -/
def expandFields (output : Command → ShellM Octets) (word : Word) : ShellM (List Octets) := do
  let parts ← expandPieces output wordDepth ⟨true, false, false⟩ true word
  let s ← get
  let fields := (Fields.ofParts s.separators parts).toList
  if s.hasOption 'f' then return fields.map Glyph.text
  let w ← workspace
  return (fields.map (fileNames w)).flatten

end ShellM

end ContractCheck.Shell
