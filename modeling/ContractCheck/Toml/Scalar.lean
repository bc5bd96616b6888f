import ContractCheck.Toml.Scanner
import ContractCheck.Toml.Value

/-!
Booleans, numbers, dates and times: the values that are written as one word.
-/

namespace ContractCheck.Toml

def isWordChar (c : Char) : Bool :=
  c.isAlphanum || c == '_' || c == '+' || c == '-' || c == '.' || c == ':'

/-- Digits in which single underscores may stand between two of them. -/
def ungrouped? (isDigit : Char → Bool) : List Char → Option (List Char)
  | [] => none
  | [c] => if isDigit c then some [c] else none
  | c :: '_' :: rest => if isDigit c then (ungrouped? isDigit rest).map (c :: ·) else none
  | c :: rest => if isDigit c then (ungrouped? isDigit rest).map (c :: ·) else none

def digitsIn (base : Nat) (digits : List Char) : Nat :=
  digits.foldl (fun n c => n * base + (hexValue? c).getD 0) 0

/-- The sign in front, if there is one: whether it is a minus, and the rest. -/
def splitSign : List Char → Bool × List Char
  | '+' :: rest => (false, rest)
  | '-' :: rest => (true, rest)
  | rest => (false, rest)

/-- Decimal digits that do not start with a zero. -/
def wholeDigits? (cs : List Char) : Option (List Char) :=
  match ungrouped? Char.isDigit cs with
  | some ('0' :: _ :: _) => none
  | digits => digits

def inWord64 (n : Int) : Option Int :=
  if -0x8000000000000000 ≤ n ∧ n ≤ 0x7fffffffffffffff then some n else none

def integer? : List Char → Option Int
  | '0' :: 'x' :: cs =>
    (ungrouped? (fun c => (hexValue? c).isSome) cs).bind fun ds => inWord64 (digitsIn 16 ds)
  | '0' :: 'o' :: cs =>
    (ungrouped? (fun c => '0' ≤ c && c ≤ '7') cs).bind fun ds => inWord64 (digitsIn 8 ds)
  | '0' :: 'b' :: cs =>
    (ungrouped? (fun c => c == '0' || c == '1') cs).bind fun ds => inWord64 (digitsIn 2 ds)
  | cs => do
    let (negative, digits) := splitSign cs
    let n := digitsIn 10 (← wholeDigits? digits)
    inWord64 (if negative then -n else n)

/-- The least number that is rounded to infinity. -/
def overflowBound : Nat := Nat.pow 2 1024 - Nat.pow 2 970

/-- Whether the decimal number with the given digits before and after its point, scaled by a power
of ten, rounds to infinity. -/
def overflows (whole fraction : List Char) (exponent : Int) : Bool :=
  let digits := whole ++ fraction
  let significant := digits.dropWhile (· == '0')
  let places := exponent - fraction.length
  let order := places + significant.length
  if significant.isEmpty || order < 309 then false
  else if 309 < order then true
  else if places < 0 then
    overflowBound * Nat.pow 10 (-places).toNat ≤ digitsIn 10 significant
  else overflowBound ≤ digitsIn 10 significant * Nat.pow 10 places.toNat

def exponent? (cs : List Char) : Option Int := do
  let (negative, digits) := splitSign cs
  let n := digitsIn 10 (← ungrouped? Char.isDigit digits)
  return if negative then -n else n

def isExponentMark (c : Char) : Bool := c == 'e' || c == 'E'

/-- Whether a word is a number with a fraction or an exponent. -/
def isFloat (cs : List Char) : Bool :=
  let (negative, cs) := splitSign cs
  if cs = "inf".toList ∨ cs = "nan".toList then true
  else
    let mantissa := cs.takeWhile (!isExponentMark ·)
    let scale := cs.dropWhile (!isExponentMark ·)
    let whole := mantissa.takeWhile (· != '.')
    let fraction := mantissa.dropWhile (· != '.')
    let parts : Option (List Char × List Char × Int) := do
      let whole ← wholeDigits? whole
      let fraction ← match fraction with
        | [] => some []
        | _ :: digits => ungrouped? Char.isDigit digits
      let exponent ← match scale with
        | [] => some 0
        | _ :: digits => exponent? digits
      return (whole, fraction, exponent)
    match parts with
    | none => false
    | some (whole, digits, exponent) =>
      (!fraction.isEmpty || !scale.isEmpty) && (negative || !overflows whole digits exponent)

def daysInMonth (year month : Nat) : Nat :=
  if month = 2 then
    if year % 4 = 0 ∧ (year % 100 ≠ 0 ∨ year % 400 = 0) then 29 else 28
  else if month = 4 ∨ month = 6 ∨ month = 9 ∨ month = 11 then 30
  else 31

def twoDigits? (a b : Char) : Option Nat :=
  if a.isDigit && b.isDigit then some (digitsIn 10 [a, b]) else none

/-- A date at the front of a word. -/
def date? : List Char → Option (List Char)
  | a :: b :: c :: d :: '-' :: m :: m' :: '-' :: e :: e' :: rest => do
    let year := (← twoDigits? a b) * 100 + (← twoDigits? c d)
    let month ← twoDigits? m m'
    let day ← twoDigits? e e'
    if 1 ≤ month ∧ month ≤ 12 ∧ 1 ≤ day ∧ day ≤ daysInMonth year month then some rest else none
  | _ => none

def hourMinute? : List Char → Option (List Char)
  | h :: h' :: ':' :: m :: m' :: rest => do
    let hour ← twoDigits? h h'
    let minute ← twoDigits? m m'
    if hour ≤ 23 ∧ minute ≤ 59 then some rest else none
  | _ => none

/-- A time at the front of a word. -/
def time? (cs : List Char) : Option (List Char) := do
  match ← hourMinute? cs with
  | ':' :: s :: s' :: rest =>
    let second ← twoDigits? s s'
    if 60 < second then none
    else match rest with
      | '.' :: digits =>
        if (digits.takeWhile Char.isDigit).isEmpty then none
        else some (digits.dropWhile Char.isDigit)
      | rest => some rest
  | _ => none

def isOffset : List Char → Bool
  | [] => true
  | ['Z'] | ['z'] => true
  | '+' :: rest => hourMinute? rest == some []
  | '-' :: rest => hourMinute? rest == some []
  | _ => false

/-- A time, perhaps with an offset. -/
def isTimeOfDay (cs : List Char) : Bool := (time? cs).any isOffset

def isDatetime (cs : List Char) : Bool :=
  match date? cs with
  | some [] => true
  | some (c :: rest) => (c == 'T' || c == 't') && isTimeOfDay rest
  | none => time? cs == some []

/-- The value that a word writes. -/
def word? (cs : List Char) : Option Value :=
  if cs = "true".toList then some (.boolean true)
  else if cs = "false".toList then some (.boolean false)
  else match integer? cs with
    | some n => some (.integer n)
    | none =>
      if isFloat cs then some .float
      else if isDatetime cs then some .datetime
      else none

/-- A value of one word. A date may have its time behind one space. -/
def scanWord (cs : List Char) : Scanned Value :=
  let word := cs.takeWhile isWordChar
  let rest := cs.dropWhile isWordChar
  match date? word, rest with
  | some [], ' ' :: a :: b :: ':' :: behind =>
    if a.isDigit && b.isDigit then
      let time := (a :: b :: ':' :: behind).takeWhile isWordChar
      if isTimeOfDay time then some (.datetime, (a :: b :: ':' :: behind).dropWhile isWordChar)
      else none
    else some (.datetime, rest)
  | _, _ => (word? word).map (·, rest)

end ContractCheck.Toml
