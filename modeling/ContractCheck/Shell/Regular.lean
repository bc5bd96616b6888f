import ContractCheck.Shell.Pattern

/-!
Regular expressions, as programs that search and edit lines take them. Of all matches the first
counts, and of those that start there the longest. Groups keep what they have matched last.
-/

namespace ContractCheck.Shell

inductive Regular where
  | empty
  | octet (c : Char)
  | anyOctet
  | oneOf (negated : Bool) (items : List SetItem)
  | wordOctet (negated : Bool)
  | space (negated : Bool)
  | lineStart
  | lineEnd
  | wordStart
  | wordEnd
  | wordEdge (negated : Bool)
  | sequence (first second : Regular)
  | either (first second : Regular)
  | repeated (least : Nat) (most : Option Nat) (body : Regular)
  | group (number : Nat) (body : Regular)
  | reference (number : Nat)

namespace Regular

/-- A place in a text, with what groups have matched on the way there. -/
structure Spot where
  /-- What is in front, the last octet first. -/
  before : Octets
  rest : Octets
  groups : List (Nat × Octets) := []

namespace Spot

def ofText (text : Octets) : Spot := { before := [], rest := text }

def position (s : Spot) : Nat := s.before.length

def step? (s : Spot) (p : Char → Bool) : Option Spot :=
  match s.rest with
  | c :: rest => if p c then some { s with before := c :: s.before, rest } else none
  | [] => none

def advance (s : Spot) (count : Nat) : Spot :=
  { s with before := (s.rest.take count).reverse ++ s.before, rest := s.rest.drop count }

/-- What stands between two places of one text. -/
def textSince (s start : Spot) : Octets := start.rest.take (s.position - start.position)

def isBehindWord (s : Spot) : Bool := s.before.head?.any isNameChar

def isBeforeWord (s : Spot) : Bool := s.rest.head?.any isNameChar

end Spot

/-- The first of the spots at each position. -/
def distinct (spots : List Spot) : List Spot :=
  (spots.foldl (fun (done : List Spot) s =>
    if done.any fun t => t.position == s.position then done else s :: done) []).reverse

/-- Where repeated steps lead, those with many steps first. -/
def repeatPaths (step : Spot → List Spot) : Nat → Nat → Option Nat → List Spot → List Spot
  | 0, _, _, spots => spots
  | rounds + 1, least, most, spots =>
    if spots.isEmpty then []
    else
      let next := if most == some 0 then []
        else distinct (spots.flatMap fun s =>
          (step s).filter fun t => 0 < least || s.position < t.position)
      repeatPaths step rounds (least - 1) (most.map (· - 1)) next ++
        if least = 0 then spots else []

/-- Whether two octets are the same, perhaps but for their case. -/
def agree (ignoringCase : Bool) (c d : Char) : Bool :=
  c == d || ignoringCase && c.toLower == d.toLower

/-- Where matches that start at a spot may end. -/
def paths (ignoringCase : Bool) : Regular → Spot → List Spot
  | .empty, s => [s]
  | .octet c, s => (s.step? (agree ignoringCase c)).toList
  | .anyOctet, s => (s.step? fun _ => true).toList
  | .oneOf negated items, s =>
    (s.step? fun c =>
      (inSet c items || ignoringCase && (inSet c.toLower items || inSet c.toUpper items))
        != negated).toList
  | .wordOctet negated, s => (s.step? fun c => isNameChar c != negated).toList
  | .space negated, s => (s.step? fun c => isSpace c != negated).toList
  | .lineStart, s => if s.before.isEmpty then [s] else []
  | .lineEnd, s => if s.rest.isEmpty then [s] else []
  | .wordStart, s => if !s.isBehindWord && s.isBeforeWord then [s] else []
  | .wordEnd, s => if s.isBehindWord && !s.isBeforeWord then [s] else []
  | .wordEdge negated, s => if (s.isBehindWord != s.isBeforeWord) != negated then [s] else []
  | .sequence first second, s =>
    distinct ((first.paths ignoringCase s).flatMap (second.paths ignoringCase))
  | .either first second, s =>
    distinct (first.paths ignoringCase s ++ second.paths ignoringCase s)
  | .repeated least most body, s =>
    distinct (repeatPaths (body.paths ignoringCase) (s.rest.length + least + 1) least most [s])
  | .group number body, s =>
    (body.paths ignoringCase s).map fun t =>
      { t with groups := (number, t.textSince s) :: t.groups.filter fun g => g.1 != number }
  | .reference number, s =>
    match s.groups.lookup number with
    | none => []
    | some text =>
      let found := s.rest.take text.length
      if found.length = text.length ∧ (found.zip text).all fun (c, d) => agree ignoringCase c d
      then [s.advance text.length] else []

/-- The end of the longest match that starts at a spot. -/
def matchAt? (ignoringCase : Bool) (r : Regular) (s : Spot) : Option Spot :=
  (r.paths ignoringCase s).foldl (fun best t =>
    match best with
    | some b => if b.position < t.position then some t else some b
    | none => some t) none

/-- The first match from a spot on that is fit: where it starts and ends. -/
def search? (ignoringCase : Bool) (r : Regular) (isFit : Spot → Spot → Bool) :
    Nat → Spot → Option (Spot × Spot)
  | 0, _ => none
  | steps + 1, s =>
    match (r.matchAt? ignoringCase s).filter (isFit s) with
    | some t => some (s, t)
    | none => if s.rest.isEmpty then none else search? ignoringCase r isFit steps (s.advance 1)

/-- The first match from a spot on. -/
def find? (ignoringCase : Bool) (r : Regular) (s : Spot) : Option (Spot × Spot) :=
  r.search? ignoringCase (fun _ _ => true) (s.rest.length + 1) s

def isFoundIn (ignoringCase : Bool) (r : Regular) (text : Octets) : Bool :=
  (r.find? ignoringCase (Spot.ofText text)).isSome

/-- The expression that matches nothing but a text. -/
def ofText (text : Octets) : Regular :=
  text.foldr (fun c rest => .sequence (.octet c) rest) .empty

/-! ### Reading -/

/-- What a piece of an expression's text means. -/
inductive Symbol where
  | group
  | close
  | bar
  | star
  | plus
  | option
  | bounds
  | atom (r : Regular)

/-- The bounds of a repetition, behind the opening brace. -/
def bounds? (extended : Bool) (text : Octets) : Option (Nat × Option Nat × Octets) := do
  let first := text.takeWhile Char.isDigit
  let rest := text.drop first.length
  let (most, rest) ← match rest with
    | ',' :: rest =>
      let last := rest.takeWhile Char.isDigit
      pure (if last.isEmpty then none else some (digitsValue 10 last), rest.drop last.length)
    | rest => if first.isEmpty then none else pure (some (digitsValue 10 first), rest)
  match extended, rest with
  | true, '\x7d' :: rest | false, '\\' :: '\x7d' :: rest => some (digitsValue 10 first, most, rest)
  | _, _ => none

/-- The set behind an opening bracket. -/
def set? (text : Octets) : Option (Regular × Octets) := do
  let (negated, inside) := match text with
    | '^' :: rest => (true, rest)
    | text => (false, text)
  let (items, behind) ← setItems true (inside.length + 1) (inside.map fun c => ⟨c, c == '\\'⟩)
  return (.oneOf negated items, Glyph.text behind)

/-- The next piece. `atStart` tells that nothing stands in front that could be repeated. -/
def nextSymbol (extended atStart : Bool) : Octets → Except String (Symbol × Octets)
  | [] => .error "Invalid regular expression"
  | '\\' :: rest =>
    match rest with
    | [] => .error "Trailing backslash"
    | c :: rest =>
      let atom (r : Regular) : Except String (Symbol × Octets) := .ok (.atom r, rest)
      match c, extended with
      | '(', false => .ok (.group, rest)
      | ')', false => .ok (.close, rest)
      | '|', false => .ok (.bar, rest)
      | '+', false => if atStart then atom (.octet '+') else .ok (.plus, rest)
      | '?', false => if atStart then atom (.octet '?') else .ok (.option, rest)
      | '\x7b', false => if atStart then .error "Invalid preceding regular expression"
        else .ok (.bounds, rest)
      | 'w', _ => atom (.wordOctet false)
      | 'W', _ => atom (.wordOctet true)
      | 's', _ => atom (.space false)
      | 'S', _ => atom (.space true)
      | 'b', _ => atom (.wordEdge false)
      | 'B', _ => atom (.wordEdge true)
      | '<', _ => atom .wordStart
      | '>', _ => atom .wordEnd
      | '\x60', _ => atom .lineStart
      | '\x27', _ => atom .lineEnd
      | c, _ => if c.isDigit ∧ c ≠ '0' then atom (.reference (digitsValue 10 [c]))
        else atom (.octet c)
  | '[' :: rest =>
    match set? rest with
    | some (r, rest) => .ok (.atom r, rest)
    | none => .error "Unmatched [, [^, [:, [., or [="
  | '.' :: rest => .ok (.atom .anyOctet, rest)
  | '^' :: rest => .ok (.atom (if extended || atStart then .lineStart else .octet '^'), rest)
  | '$' :: rest =>
    let isEnd := extended || rest.isEmpty || "\\)".toList.isPrefixOf rest ||
      "\\|".toList.isPrefixOf rest
    .ok (.atom (if isEnd then .lineEnd else .octet '$'), rest)
  | '*' :: rest =>
    .ok (if !atStart then .star else .atom (if extended then .empty else .octet '*'), rest)
  | c :: rest =>
    match c, extended with
    | '(', true => .ok (.group, rest)
    | ')', true => .ok (.close, rest)
    | '|', true => .ok (.bar, rest)
    | '+', true => .ok (if atStart then .atom .empty else .plus, rest)
    | '?', true => .ok (if atStart then .atom .empty else .option, rest)
    | '\x7b', true =>
      .ok (if atStart || (bounds? true rest).isNone then .atom (.octet c) else .bounds, rest)
    | c, _ => .ok (.atom (.octet c), rest)

/-- Reads up to the end of the group at hand. `done` holds the alternatives in front, and `last` the
piece that a repetition would repeat. -/
def parseGroup (extended : Bool) : Nat → Nat → Nat → List Regular → Regular → Option Regular →
    Octets → Except String (Regular × Nat × Octets)
  | 0, _, _, _, _, _, _ => .error "Regular expression too big"
  | steps + 1, depth, count, done, front, last, text => do
    let sequenced : Regular := match last with
      | some r => .sequence front r
      | none => front
    let whole := done.foldl (fun r alternative => .either alternative r) sequenced
    match text with
    | [] =>
      if depth = 0 then return (whole, count, [])
      throw "Unmatched ( or \\("
    | text =>
      let atStart := match last with
        | none => true
        | some .lineStart => !extended
        | some _ => false
      let (symbol, rest) ← nextSymbol extended atStart text
      let again (r : Regular) (rest : Octets) :=
        parseGroup extended steps depth count done front (some r) rest
      match symbol, last with
      | .atom r, _ => parseGroup extended steps depth count done sequenced (some r) rest
      | .bar, _ => parseGroup extended steps depth count (sequenced :: done) .empty none rest
      | .close, _ =>
        if depth = 0 then
          if extended then
            parseGroup extended steps depth count done sequenced (some (.octet ')')) rest
          else throw "Unmatched ) or \\)"
        else return (whole, count, rest)
      | .group, _ => do
        let number := count + 1
        let (inner, count, rest) ←
          parseGroup extended steps (depth + 1) number [] .empty none rest
        parseGroup extended steps depth count done sequenced (some (.group number inner)) rest
      | .star, some r => again (.repeated 0 none r) rest
      | .plus, some r => again (.repeated 1 none r) rest
      | .option, some r => again (.repeated 0 (some 1) r) rest
      | .bounds, some r =>
        match bounds? extended rest with
        | some (least, most, rest) => again (.repeated least most r) rest
        | none => throw "Invalid content of \\\x7b\\\x7d"
      | _, none => throw "Invalid preceding regular expression"

/-- The numbers of the groups that an expression refers to. -/
def references : Regular → List Nat
  | .sequence first second | .either first second => first.references ++ second.references
  | .repeated _ _ body | .group _ body => body.references
  | .reference number => [number]
  | _ => []

/-- Reads an expression. In the extended form, parentheses, bars and braces need no backslash. Also
gives the number of groups. -/
def parse (extended : Bool) (text : Octets) : Except String (Regular × Nat) := do
  let (r, count, _) ← parseGroup extended (text.length + 1) 0 0 [] .empty none text
  if r.references.any fun n => count < n then throw "Invalid back reference"
  return (r, count)

end Regular

end ContractCheck.Shell
