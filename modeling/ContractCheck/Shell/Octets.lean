/-!
Texts as octets. The shell works on bytes; a byte is written as the character with its code.
-/

namespace ContractCheck.Shell

abbrev Octets := List Char

namespace Octets

def ofBytes (bytes : ByteArray) : Octets := bytes.toList.map fun b => Char.ofNat b.toNat

def toBytes (o : Octets) : ByteArray := ⟨(o.map fun c => UInt8.ofNat c.toNat).toArray⟩

def ofString (text : String) : Octets := ofBytes text.toUTF8

/-- The text that the octets encode. -/
def toString? (o : Octets) : Option String := String.fromUTF8? o.toBytes

/-- The octets as characters, one for each. -/
def name (o : Octets) : String := String.ofList o

def ofNat (n : Nat) : Octets := (toString n).toList

def ofInt (n : Int) : Octets := (toString n).toList

/-- Splits off the first line, without its end. The rest is `none` if the line has no end. -/
def splitLine : Octets → Octets × Option Octets
  | [] => ([], none)
  | c :: rest =>
    if c = '\n' then ([], some rest)
    else
      let (line, behind) := splitLine rest
      (c :: line, behind)

/-- All lines, each with its end, which only the last one may lack. -/
def lines (o : Octets) : List Octets :=
  let (done, line) := o.foldl (fun (done, line) c =>
    if c = '\n' then ((c :: line).reverse :: done, []) else (done, c :: line)) ([], [])
  (if line.isEmpty then done else line.reverse :: done).reverse

/-- The parts between the given octets; there is always at least one. -/
def fieldsOf (separator : Char) : Octets → List Octets
  | [] => [[]]
  | c :: rest =>
    if c = separator then [] :: fieldsOf separator rest
    else match fieldsOf separator rest with
      | field :: fields => (c :: field) :: fields
      | [] => [[c]]

def dropEnd (o : Octets) (p : Char → Bool) : Octets := (o.reverse.dropWhile p).reverse

def joinWith (separator : Octets) : List Octets → Octets
  | [] => []
  | [word] => word
  | word :: words => word ++ separator ++ joinWith separator words

/-- Whether a text does not come after another one in the order of their octets. -/
def precedes : Octets → Octets → Bool
  | [], _ => true
  | _ :: _, [] => false
  | a :: as, b :: bs => if a = b then precedes as bs else a.toNat < b.toNat

end Octets

def isBlank (c : Char) : Bool := c == ' ' || c == '\t'

/-- Blanks and all that moves to another line or page. -/
def isSpace (c : Char) : Bool :=
  isBlank c || c == '\n' || c == '\x0b' || c == '\x0c' || c == '\r'

def isNameStart (c : Char) : Bool := c.isAlpha || c == '_'

def isNameChar (c : Char) : Bool := c.isAlphanum || c == '_'

/-- Splits a text that starts with a name behind that name. -/
def splitName? (cs : Octets) : Option (String × Octets) :=
  match cs with
  | c :: _ =>
    if isNameStart c then some (String.ofList (cs.takeWhile isNameChar), cs.dropWhile isNameChar)
    else none
  | [] => none

def isName (cs : Octets) : Bool :=
  match splitName? cs with
  | some (_, []) => true
  | _ => false

def digitValue? (base : Nat) (c : Char) : Option Nat :=
  let n := if c.isDigit then c.toNat - '0'.toNat
    else if 'a' ≤ c ∧ c ≤ 'z' then c.toNat - 'a'.toNat + 10
    else if 'A' ≤ c ∧ c ≤ 'Z' then c.toNat - 'A'.toNat + 10
    else base
  if n < base then some n else none

def isDigitOf (base : Nat) (c : Char) : Bool := (digitValue? base c).isSome

def digitsValue (base : Nat) (digits : Octets) : Nat :=
  digits.foldl (fun n c => n * base + (digitValue? base c).getD 0) 0

/-- A number in the digits of a base, without a sign. -/
def natural? (base : Nat) (cs : Octets) : Option Nat :=
  if !cs.isEmpty && cs.all (isDigitOf base) then some (digitsValue base cs) else none

/-- The number at the start of a text, decimal or of a base that its start shows, and the text
behind it. -/
def leadingNatural? (cs : Octets) : Option (Nat × Octets) :=
  let read (base : Nat) (cs : Octets) : Nat × Octets :=
    (digitsValue base (cs.takeWhile (isDigitOf base)), cs.dropWhile (isDigitOf base))
  match cs with
  | '0' :: x :: d :: rest =>
    if (x == 'x' || x == 'X') && isDigitOf 16 d then some (read 16 (d :: rest))
    else some (read 8 cs)
  | '0' :: _ => some (read 8 cs)
  | c :: _ => if c.isDigit then some (read 10 cs) else none
  | [] => none

def splitSign (cs : Octets) : Bool × Octets :=
  match cs with
  | '-' :: rest => (true, rest)
  | '+' :: rest => (false, rest)
  | rest => (false, rest)

def clampWord (n : Int) : Int :=
  max (-0x8000000000000000) (min 0x7fffffffffffffff n)

/-- The number at the start of a text, after white space and perhaps with a sign, as a word of 64
bits, and the text behind it. -/
def leadingInt? (decimal : Bool) (cs : Octets) : Option (Int × Octets) :=
  let (negative, digits) := splitSign (cs.dropWhile isSpace)
  let number := if decimal then
      match digits.takeWhile Char.isDigit with
      | [] => none
      | ds => some (digitsValue 10 ds, digits.dropWhile Char.isDigit)
    else leadingNatural? digits
  number.map fun (n, rest) => (clampWord (if negative then -n else n), rest)

/-- A number with nothing but white space around it. -/
def integer? (decimal : Bool) (cs : Octets) : Option Int :=
  match leadingInt? decimal cs with
  | some (n, rest) => if rest.all isSpace then some n else none
  | none => if !decimal && cs.all isSpace then some 0 else none

end ContractCheck.Shell
