import ContractCheck.Shell.Octets

/-!
Patterns of the shell: a star stands for any text, a question mark for any octet, brackets for an
octet of a set, and what is quoted or behind a backslash for itself.
-/

namespace ContractCheck.Shell

/-- An octet of a word, and whether it was quoted. -/
structure Glyph where
  octet : Char
  quoted : Bool
deriving DecidableEq

def glyphs (quoted : Bool) (text : Octets) : List Glyph := text.map (⟨·, quoted⟩)

def Glyph.text (gs : List Glyph) : Octets := gs.map Glyph.octet

/-- The members of a set in brackets. -/
inductive SetItem where
  | range (first last : Char)
  | kind (name : String)

inductive PatternItem where
  | anything
  | anyOctet
  | only (octet : Char)
  | oneOf (items : List SetItem)
  | noneOf (items : List SetItem)

/-- Whether an octet is of a kind; nothing if there is no such kind. -/
def isOfKind? (kind : String) (c : Char) : Option Bool :=
  let isPrintable := ' ' ≤ c ∧ c ≤ '~'
  match kind with
  | "alpha" => some c.isAlpha
  | "digit" => some c.isDigit
  | "alnum" => some c.isAlphanum
  | "upper" => some c.isUpper
  | "lower" => some c.isLower
  | "space" => some (isSpace c)
  | "blank" => some (isBlank c)
  | "punct" => some (isPrintable && c != ' ' && !c.isAlphanum)
  | "print" => some isPrintable
  | "graph" => some (isPrintable && c != ' ')
  | "cntrl" => some (c.toNat < 0x20 || c.toNat = 0x7f)
  | "xdigit" => some (isDigitOf 16 c)
  | _ => none

def special? (g : Glyph) : Option Char := if g.quoted then none else some g.octet

/-- An octet that stands for itself, perhaps behind a backslash, and what follows it. -/
def literalOctet? : List Glyph → Option (Char × List Glyph)
  | [] => none
  | g :: rest =>
    if special? g = some '\\' then
      match rest with
      | next :: rest => some (next.octet, rest)
      | [] => some ('\\', [])
    else some (g.octet, rest)

/-- The name of a kind of octets, behind `[:`. -/
def kindName? (gs : List Glyph) : Option (String × List Glyph) :=
  let name := (gs.takeWhile fun g => g.octet.isLower).map Glyph.octet
  match gs.drop name.length with
  | ⟨':', false⟩ :: ⟨']', false⟩ :: rest => some (String.ofList name, rest)
  | _ => none

/-- The members of a set in brackets, and what stands behind it. A bracket that closes right away
belongs to the set. -/
def setItems (first : Bool) : Nat → List Glyph → Option (List SetItem × List Glyph)
  | 0, _ => none
  | _, [] => none
  | steps + 1, g :: rest =>
    let single : Option (List SetItem × List Glyph) := do
      let (c, rest) ← literalOctet? (g :: rest)
      match rest with
      | ⟨'-', false⟩ :: last :: behind =>
        if special? last = some ']' then
          (setItems false steps rest).map fun (items, rest) => (.range c c :: items, rest)
        else
          let (d, behind) ← literalOctet? (last :: behind)
          (setItems false steps behind).map fun (items, rest) => (.range c d :: items, rest)
      | rest => (setItems false steps rest).map fun (items, rest) => (.range c c :: items, rest)
    match special? g, rest with
    | some ']', _ => if first then single else some ([], rest)
    | some '[', ⟨':', false⟩ :: named =>
      match kindName? named with
      | some (name, rest) =>
        (setItems false steps rest).map fun (items, rest) => (.kind name :: items, rest)
      | none => single
    | some '[', ⟨'=', false⟩ :: c :: ⟨'=', false⟩ :: ⟨']', false⟩ :: rest
    | some '[', ⟨'.', false⟩ :: c :: ⟨'.', false⟩ :: ⟨']', false⟩ :: rest =>
      (setItems false steps rest).map fun (items, rest) => (.range c.octet c.octet :: items, rest)
    | _, _ => single

def patternItems : Nat → List Glyph → List PatternItem
  | 0, _ => []
  | _, [] => []
  | steps + 1, g :: rest =>
    match special? g with
    | some '*' => .anything :: patternItems steps rest
    | some '?' => .anyOctet :: patternItems steps rest
    | some '\\' =>
      match rest with
      | next :: rest => .only next.octet :: patternItems steps rest
      | [] => [.only '\\']
    | some '[' =>
      let (negated, inside) := match rest with
        | sign :: inside =>
          if special? sign = some '!' then (true, inside)
          else (false, rest)
        | [] => (false, rest)
      match setItems true (inside.length + 1) inside with
      | some (items, behind) =>
        (if negated then .noneOf items else .oneOf items) :: patternItems steps behind
      | none => .only '[' :: patternItems steps rest
    | _ => .only g.octet :: patternItems steps rest

def tails : Octets → List Octets
  | [] => [[]]
  | c :: rest => (c :: rest) :: tails rest

/-- Whether all kinds in a set are known. -/
def areKnown (items : List SetItem) : Bool :=
  items.all fun item => match item with
    | .range _ _ => true
    | .kind name => (isOfKind? name 'a').isSome

def inSet (c : Char) (items : List SetItem) : Bool :=
  items.any fun item => match item with
    | .range first last => first ≤ c && c ≤ last
    | .kind name => (isOfKind? name c).getD false

def matchesItems : List PatternItem → Octets → Bool
  | [], text => text.isEmpty
  | .anything :: items, text => (tails text).any (matchesItems items)
  | .anyOctet :: items, text => match text with
    | _ :: rest => matchesItems items rest
    | [] => false
  | .only octet :: items, text => match text with
    | c :: rest => c == octet && matchesItems items rest
    | [] => false
  | .oneOf set :: items, text => match text with
    | c :: rest => areKnown set && inSet c set && matchesItems items rest
    | [] => false
  | .noneOf set :: items, text => match text with
    | c :: rest => areKnown set && !inSet c set && matchesItems items rest
    | [] => false

def matchesPattern (pattern : List Glyph) (text : Octets) : Bool :=
  matchesItems (patternItems pattern.length pattern) text

/-- Whether a word is a pattern, and not only a name. -/
def isPattern (gs : List Glyph) : Bool :=
  gs.any fun g => !g.quoted && (g.octet == '*' || g.octet == '?' || g.octet == '[')

/-- The splits of a text in two, the ones with a short first part first. -/
def splits (text : Octets) : List (Octets × Octets) :=
  (List.range (text.length + 1)).map fun n => text.splitAt n

/-- Cuts off the end or the start of a text that a pattern matches. -/
def cutText (fromEnd longest : Bool) (pattern : List Glyph) (text : Octets) : Octets :=
  let items := patternItems pattern.length pattern
  let order := if fromEnd == longest then splits text else (splits text).reverse
  if fromEnd then ((order.find? fun s => matchesItems items s.2).map Prod.fst).getD text
  else ((order.find? fun s => matchesItems items s.1).map Prod.snd).getD text

example : matchesPattern (glyphs true "(echo ".toList ++ glyphs false ['*'])
    "(echo \"refine-sync\")".toList = true := by decide

end ContractCheck.Shell
