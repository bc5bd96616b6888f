/-!
The tokens of a JSON text.
-/

namespace ContractCheck.Json

inductive Token where
  | openArr
  | closeArr
  | openObj
  | closeObj
  | comma
  | colon
  | null
  | bool (value : Bool)
  | int (value : Int)
  | decimal
  | str (text : Option String)
deriving DecidableEq, Repr

namespace Token

def isBlank (c : Char) : Bool := c == ' ' || c == '\n' || c == '\t' || c == '\r'

def hexDigit? (c : Char) : Option Nat :=
  if c.isDigit then some (c.toNat - '0'.toNat)
  else if 'a' ≤ c ∧ c ≤ 'f' then some (c.toNat - 'a'.toNat + 10)
  else if 'A' ≤ c ∧ c ≤ 'F' then some (c.toNat - 'A'.toNat + 10)
  else none

/-- The number that four hexadecimal digits write. -/
def hexUnit? (a b c d : Char) : Option Nat := do
  return (((← hexDigit? a) * 16 + (← hexDigit? b)) * 16 + (← hexDigit? c)) * 16 + (← hexDigit? d)

def isHighSurrogate (unit : Nat) : Bool := 0xd800 ≤ unit && unit < 0xdc00

def isLowSurrogate (unit : Nat) : Bool := 0xdc00 ≤ unit && unit < 0xe000

def surrogatePair (high low : Nat) : Char :=
  Char.ofNat (0x10000 + (high - 0xd800) * 0x400 + (low - 0xdc00))

/-- The character after a backslash, `\u` aside. -/
def escaped? : Char → Option Char
  | '"' => some '"'
  | '\\' => some '\\'
  | '/' => some '/'
  | 'b' => some '\x08'
  | 'f' => some '\x0c'
  | 'n' => some '\n'
  | 'r' => some '\r'
  | 't' => some '\t'
  | _ => none

/-- A string that is being read. -/
structure Draft where
  /-- The characters so far, the last one first, or `none` once a surrogate stood alone. -/
  chars : Option (List Char) := some []
  /-- A high surrogate that waits for its low one. -/
  high : Option Nat := none

namespace Draft

def addChar (d : Draft) (c : Char) : Draft :=
  match d.high with
  | none => { d with chars := d.chars.map (c :: ·) }
  | some _ => ⟨none, none⟩

def addUnit (d : Draft) (unit : Nat) : Draft :=
  match d.high with
  | none =>
    if isHighSurrogate unit then { d with high := some unit }
    else if isLowSurrogate unit then ⟨none, none⟩
    else d.addChar (Char.ofNat unit)
  | some high =>
    if isLowSurrogate unit then ⟨d.chars.map (surrogatePair high unit :: ·), none⟩
    else ⟨none, none⟩

def text? (d : Draft) : Option String :=
  match d.high with
  | none => d.chars.map fun cs => String.ofList cs.reverse
  | some _ => none

end Draft

/-- Reads a string on, behind what is in the draft. -/
def scanString (d : Draft) : List Char → Option (Option String × List Char)
  | [] => none
  | '"' :: rest => some (d.text?, rest)
  | '\\' :: 'u' :: a :: b :: c :: e :: rest =>
    match hexUnit? a b c e with
    | none => none
    | some unit => scanString (d.addUnit unit) rest
  | '\\' :: c :: rest =>
    match escaped? c with
    | none => none
    | some c => scanString (d.addChar c) rest
  | c :: rest => if c.toNat < 0x20 then none else scanString (d.addChar c) rest

def digitsValue (digits : List Char) : Nat :=
  digits.foldl (fun n c => n * 10 + (c.toNat - '0'.toNat)) 0

/-- The digits at the front, of which there has to be one. -/
def scanDigits (cs : List Char) : Option (List Char × List Char) :=
  match cs.takeWhile Char.isDigit with
  | [] => none
  | digits => some (digits, cs.dropWhile Char.isDigit)

/-- Digits without a leading zero. -/
def scanWhole (cs : List Char) : Option (List Char × List Char) :=
  match scanDigits cs with
  | some ('0' :: _ :: _, _) => none
  | scanned => scanned

/-- Whether there is a fraction, and what follows it. -/
def scanFraction : List Char → Option (Bool × List Char)
  | '.' :: rest => (scanDigits rest).map fun (_, rest) => (true, rest)
  | rest => some (false, rest)

/-- Whether there is an exponent, and what follows it. -/
def scanExponent : List Char → Option (Bool × List Char)
  | c :: rest =>
    if c = 'e' ∨ c = 'E' then
      let digits := match rest with
        | '+' :: rest => rest
        | '-' :: rest => rest
        | rest => rest
      (scanDigits digits).map fun (_, rest) => (true, rest)
    else some (false, c :: rest)
  | [] => some (false, [])

def ofDigits (negative : Bool) (digits : List Char) : Token :=
  let n := digitsValue digits
  if negative then if n = 0 then .decimal else .int (-n) else .int n

def scanNumber (negative : Bool) (cs : List Char) : Option (Token × List Char) := do
  let (digits, rest) ← scanWhole cs
  let (fraction, rest) ← scanFraction rest
  let (exponent, rest) ← scanExponent rest
  return (if fraction || exponent then .decimal else ofDigits negative digits, rest)

def words : List (String × Token) :=
  [("null", .null), ("true", .bool true), ("false", .bool false)]

def scanWord (cs : List Char) : Option (Token × List Char) :=
  words.findSome? fun (word, token) => (List.isPrefixOf? word.toList cs).map (token, ·)

/-- The token that starts with `c`. -/
def scan (c : Char) (rest : List Char) : Option (Token × List Char) :=
  match c with
  | '[' => some (.openArr, rest)
  | ']' => some (.closeArr, rest)
  | '\x7b' => some (.openObj, rest)
  | '\x7d' => some (.closeObj, rest)
  | ',' => some (.comma, rest)
  | ':' => some (.colon, rest)
  | '"' => (scanString {} rest).map fun (text, rest) => (.str text, rest)
  | '-' => scanNumber true rest
  | c => if c.isDigit then scanNumber false (c :: rest) else scanWord (c :: rest)

/-- At most `steps` tokens and blanks; `done` holds the tokens before, the last one first. -/
def scanWithin : Nat → List Token → List Char → Option (List Token)
  | _, done, [] => some done.reverse
  | 0, _, _ :: _ => none
  | steps + 1, done, c :: rest =>
    if isBlank c then scanWithin steps done rest
    else match scan c rest with
      | none => none
      | some (token, rest) => scanWithin steps (token :: done) rest

/-- The tokens of a text. Each takes at least a character. -/
def scanAll (cs : List Char) : Option (List Token) := scanWithin cs.length [] cs

end Token

end ContractCheck.Json
