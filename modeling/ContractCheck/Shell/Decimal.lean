import ContractCheck.Shell.Octets

/-!
Decimal texts of fractions, rounded to a number of places. A fraction in the middle of two such
texts goes to the one with the even last digit.
-/

namespace ContractCheck.Shell

/-- A number that is not negative, as a fraction. -/
structure Fraction where
  numerator : Nat
  denominator : Nat

namespace Fraction

/-- The nearest whole number. -/
def round (f : Fraction) : Nat :=
  let whole := f.numerator / f.denominator
  let rest := 2 * (f.numerator % f.denominator)
  if rest > f.denominator then whole + 1
  else if rest < f.denominator then whole
  else whole + whole % 2

/-- The fraction times a power of ten. -/
def scale (f : Fraction) (places : Int) : Fraction :=
  if places < 0 then ⟨f.numerator, f.denominator * Nat.pow 10 (-places).toNat⟩
  else ⟨f.numerator * Nat.pow 10 places.toNat, f.denominator⟩

/-- The power of ten of the first digit; zero has none, and counts as one. -/
def order (f : Fraction) : Int :=
  if f.numerator = 0 then 0
  else
    let digits (n : Nat) : Int := (toString n).length
    let guess := digits f.numerator - digits f.denominator
    let reduced := f.scale (-guess)
    if reduced.numerator < reduced.denominator then guess - 1 else guess

end Fraction

/-- A number of a printed text: an infinite one, none at all, or a fraction with a sign. -/
inductive Real where
  | finite (negative : Bool) (value : Fraction)
  | infinite (negative : Bool)
  | notANumber

/-- The exact value of a word of floating point. -/
def Real.ofFloat (x : Float) : Real :=
  let bits := x.toBits.toNat
  let negative := 0x8000000000000000 ≤ bits
  let exponent := bits / 0x10000000000000 % 0x800
  let fraction := bits % 0x10000000000000
  if exponent = 0x7ff then if fraction = 0 then .infinite negative else .notANumber
  else
    let significand := if exponent = 0 then fraction else fraction + 0x10000000000000
    let power : Int := (max exponent 1 : Nat) - 1075
    .finite negative (if power < 0 then ⟨significand, Nat.pow 2 (-power).toNat⟩
      else ⟨significand * Nat.pow 2 power.toNat, 1⟩)

def Real.isNegative : Real → Bool
  | .finite negative _ | .infinite negative => negative
  | .notANumber => false

/-- Digits with at least the given number of them. -/
def padDigits (count : Nat) (digits : Octets) : Octets :=
  List.replicate (count - digits.length) '0' ++ digits

/-- Puts a point in front of the last digits. -/
def withPoint (places : Nat) (always : Bool) (digits : Octets) : Octets :=
  let digits := padDigits (places + 1) digits
  let (whole, part) := digits.splitAt (digits.length - places)
  if part.isEmpty && !always then whole else whole ++ '.' :: part

/-- Takes away zeros at the end of the digits behind a point, and the point. -/
def trimZeros (text : Octets) : Octets :=
  if text.contains '.' then
    let text := Octets.dropEnd text (· == '0')
    Octets.dropEnd text (· == '.')
  else text

/-- A fraction with digits behind the point. -/
def fixedText (places : Nat) (always : Bool) (f : Fraction) : Octets :=
  withPoint places always (Octets.ofNat (f.scale places).round)

/-- The digits of a fraction, of which all but the first are behind the point, and the power of ten
that they are multiplied with. -/
def scientificDigits (places : Nat) (f : Fraction) : Octets × Int :=
  let order := f.order
  let digits := Octets.ofNat (f.scale (places - order)).round
  if digits.length ≤ places + 1 then (digits, order) else (digits.dropLast, order + 1)

def exponentText (letter : Char) (order : Int) : Octets :=
  letter :: (if order < 0 then '-' else '+') :: padDigits 2 (Octets.ofNat order.natAbs)

def scientificText (letter : Char) (places : Nat) (always : Bool) (f : Fraction) : Octets :=
  let (digits, order) := scientificDigits places f
  withPoint places always digits ++ exponentText letter order

/-- A fraction with a number of digits, written in the shorter of the two ways. -/
def generalText (letter : Char) (digits : Nat) (always : Bool) (f : Fraction) : Octets :=
  let digits := max digits 1
  let order := (scientificDigits (digits - 1) f).2
  let trim (text : Octets) : Octets := if always then text else trimZeros text
  if order < -4 ∨ digits ≤ order then
    let (ds, order) := scientificDigits (digits - 1) f
    trim (withPoint (digits - 1) always ds) ++ exponentText letter order
  else trim (fixedText (digits - 1 - order).toNat always f)

/-- The number at the start of a text, and the text behind it. -/
def leadingFloat? (cs : Octets) : Option (Float × Octets) :=
  let (negative, digits) := splitSign (cs.dropWhile isSpace)
  let signed (x : Float) : Float := if negative then -x else x
  let lower := digits.map Char.toLower
  let wholePart := digits.takeWhile Char.isDigit
  let rest := digits.dropWhile Char.isDigit
  let (part, rest') := match rest with
    | '.' :: rest => (rest.takeWhile Char.isDigit, rest.dropWhile Char.isDigit)
    | rest => ([], rest)
  if "infinity".toList.isPrefixOf lower then some (signed (1.0 / 0.0), digits.drop 8)
  else if "inf".toList.isPrefixOf lower then some (signed (1.0 / 0.0), digits.drop 3)
  else if "nan".toList.isPrefixOf lower then some (0.0 / 0.0, digits.drop 3)
  else match digits with
    | '0' :: x :: d :: _ =>
      if (x == 'x' || x == 'X') && isDigitOf 16 d then
        (leadingNatural? digits).map fun (n, rest) => (signed (Float.ofNat n), rest)
      else plain signed wholePart part rest'
    | _ => plain signed wholePart part rest'
where
  plain (signed : Float → Float) (whole part rest : Octets) : Option (Float × Octets) :=
    if whole.isEmpty && part.isEmpty then none
    else
      let (power, rest) := match rest with
        | e :: behind =>
          if e == 'e' || e == 'E' then
            let (negative, digits) := splitSign behind
            match digits.takeWhile Char.isDigit with
            | [] => ((0 : Int), rest)
            | ds =>
              let n : Int := min (digitsValue 10 ds) 100000
              (if negative then -n else n, digits.dropWhile Char.isDigit)
          else (0, rest)
        | [] => (0, rest)
      let power := power - part.length
      some (signed (Float.ofScientific (digitsValue 10 (whole ++ part)) (power < 0) power.natAbs),
        rest)

end ContractCheck.Shell
