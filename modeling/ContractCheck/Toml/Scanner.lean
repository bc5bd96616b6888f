/-!
The characters of a TOML text: blanks, line ends, comments, strings and keys. Every scanner takes
the text at hand and gives back what is left of it.
-/

namespace ContractCheck.Toml

def isBlank (c : Char) : Bool := c == ' ' || c == '\t'

def skipBlanks (cs : List Char) : List Char := cs.dropWhile isBlank

/-- Characters of comments and strings: all but control characters, of which tabs are allowed. -/
def isPrintable (c : Char) : Bool := c == '\t' || (0x20 ≤ c.toNat && c.toNat ≠ 0x7f)

def newline? : List Char → Option (List Char)
  | '\n' :: rest => some rest
  | '\r' :: '\n' :: rest => some rest
  | _ => none

/-- Skips blanks, line ends and comments. -/
def skipBreaks (inComment : Bool) : List Char → List Char
  | [] => []
  | '\n' :: rest => skipBreaks false rest
  | '\r' :: '\n' :: rest => skipBreaks false rest
  | c :: rest =>
    if inComment then if isPrintable c then skipBreaks true rest else c :: rest
    else if isBlank c then skipBreaks false rest
    else if c = '#' then skipBreaks true rest
    else c :: rest

/-- Skips to the next line; only blanks and a comment may be left on this one. -/
def endLine? (cs : List Char) : Option (List Char) :=
  let rest := match skipBlanks cs with
    | '#' :: rest => rest.dropWhile isPrintable
    | rest => rest
  match rest with
  | [] => some []
  | rest => newline? rest

def hexValue? (c : Char) : Option Nat :=
  if c.isDigit then some (c.toNat - '0'.toNat)
  else if 'a' ≤ c ∧ c ≤ 'f' then some (c.toNat - 'a'.toNat + 10)
  else if 'A' ≤ c ∧ c ≤ 'F' then some (c.toNat - 'A'.toNat + 10)
  else none

/-- The character whose code point hexadecimal digits write. -/
def charOfHex? (digits : List Char) : Option Char := do
  let code ← digits.foldlM (fun n c => return n * 16 + (← hexValue? c)) 0
  if code.isValidChar then some (Char.ofNat code) else none

/-- What follows a backslash in a quoted string. -/
def escape? : List Char → Option (Char × List Char)
  | 'u' :: a :: b :: c :: d :: rest => (charOfHex? [a, b, c, d]).map (·, rest)
  | 'U' :: a :: b :: c :: d :: e :: f :: g :: h :: rest =>
    (charOfHex? [a, b, c, d, e, f, g, h]).map (·, rest)
  | 'b' :: rest => some ('\x08', rest)
  | 't' :: rest => some ('\t', rest)
  | 'n' :: rest => some ('\n', rest)
  | 'f' :: rest => some ('\x0c', rest)
  | 'r' :: rest => some ('\r', rest)
  | '"' :: rest => some ('"', rest)
  | '\\' :: rest => some ('\\', rest)
  | _ => none

abbrev Scanned (α : Type) := Option (α × List Char)

def ofReversed (cs : List Char) : String := String.ofList cs.reverse

/-- A quoted string on one line, behind its opening quote. `steps` bounds the characters read, and
`done` holds them, the last one first. -/
def scanBasic : Nat → List Char → List Char → Scanned String
  | 0, _, _ => none
  | _ + 1, _, [] => none
  | _ + 1, done, '"' :: rest => some (ofReversed done, rest)
  | steps + 1, done, '\\' :: rest =>
    match escape? rest with
    | none => none
    | some (c, rest) => scanBasic steps (c :: done) rest
  | steps + 1, done, c :: rest =>
    if isPrintable c then scanBasic steps (c :: done) rest else none

/-- A literal string on one line, behind its opening apostrophe. -/
def scanLiteral : List Char → List Char → Scanned String
  | _, [] => none
  | done, '\'' :: rest => some (ofReversed done, rest)
  | done, c :: rest => if isPrintable c then scanLiteral (c :: done) rest else none

/-- Skips blanks and line ends. -/
def skipSpace : List Char → List Char
  | [] => []
  | '\n' :: rest => skipSpace rest
  | '\r' :: '\n' :: rest => skipSpace rest
  | c :: rest => if isBlank c then skipSpace rest else c :: rest

/-- What follows a backslash that ends a line: the line end and all blank space behind it. -/
def lineEnding? (cs : List Char) : Option (List Char) := (newline? (skipBlanks cs)).map skipSpace

/-- A quoted string on several lines. Up to two quotes may stand right before the closing ones. -/
def scanBasicLines : Nat → List Char → List Char → Scanned String
  | 0, _, _ => none
  | _ + 1, done, '"' :: '"' :: '"' :: '"' :: '"' :: rest =>
    some (ofReversed ('"' :: '"' :: done), rest)
  | _ + 1, done, '"' :: '"' :: '"' :: '"' :: rest => some (ofReversed ('"' :: done), rest)
  | _ + 1, done, '"' :: '"' :: '"' :: rest => some (ofReversed done, rest)
  | steps + 1, done, '\\' :: rest =>
    match lineEnding? rest with
    | some rest => scanBasicLines steps done rest
    | none =>
      match escape? rest with
      | none => none
      | some (c, rest) => scanBasicLines steps (c :: done) rest
  | steps + 1, done, cs =>
    match newline? cs with
    | some rest => scanBasicLines steps ('\n' :: done) rest
    | none =>
      match cs with
      | [] => none
      | c :: rest => if isPrintable c then scanBasicLines steps (c :: done) rest else none

/-- A literal string on several lines. -/
def scanLiteralLines : Nat → List Char → List Char → Scanned String
  | 0, _, _ => none
  | _ + 1, done, '\'' :: '\'' :: '\'' :: '\'' :: '\'' :: rest =>
    some (ofReversed ('\'' :: '\'' :: done), rest)
  | _ + 1, done, '\'' :: '\'' :: '\'' :: '\'' :: rest => some (ofReversed ('\'' :: done), rest)
  | _ + 1, done, '\'' :: '\'' :: '\'' :: rest => some (ofReversed done, rest)
  | steps + 1, done, cs =>
    match newline? cs with
    | some rest => scanLiteralLines steps ('\n' :: done) rest
    | none =>
      match cs with
      | [] => none
      | c :: rest => if isPrintable c then scanLiteralLines steps (c :: done) rest else none

/-- A line end right behind the opening quotes is not part of the string. -/
def skipFirstNewline (cs : List Char) : List Char := (newline? cs).getD cs

/-- A string of any of the four kinds. -/
def scanString? : List Char → Option (Scanned String)
  | '"' :: '"' :: '"' :: rest =>
    some (scanBasicLines (rest.length + 1) [] (skipFirstNewline rest))
  | '"' :: rest => some (scanBasic (rest.length + 1) [] rest)
  | '\'' :: '\'' :: '\'' :: rest =>
    some (scanLiteralLines (rest.length + 1) [] (skipFirstNewline rest))
  | '\'' :: rest => some (scanLiteral [] rest)
  | _ => none

def isBareKeyChar (c : Char) : Bool := c.isAlphanum || c == '_' || c == '-'

/-- One part of a dotted key. -/
def scanKeyPart : List Char → Scanned String
  | '"' :: rest => scanBasic (rest.length + 1) [] rest
  | '\'' :: rest => scanLiteral [] rest
  | cs =>
    match cs.takeWhile isBareKeyChar with
    | [] => none
    | bare => some (String.ofList bare, cs.dropWhile isBareKeyChar)

/-- How many parts a key may have, and how deep values may nest, less one. -/
def nestingLimit : Nat := 80

/-- A dotted key of at most `parts` parts, with the blanks around it: the parts before the last
one, and the last one. -/
def scanKey : Nat → List String → List Char → Scanned (List String × String)
  | 0, _, _ => none
  | parts + 1, done, cs =>
    match scanKeyPart (skipBlanks cs) with
    | none => none
    | some (part, rest) =>
      match skipBlanks rest with
      | '.' :: rest => scanKey parts (part :: done) rest
      | rest => some ((done.reverse, part), rest)

end ContractCheck.Toml
