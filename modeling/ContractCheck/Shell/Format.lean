import ContractCheck.Shell.Decimal

/-!
What `echo` and `printf` write: escapes behind backslashes, and directives that show an argument.
-/

namespace ContractCheck.Shell

def octalDigits : Nat → Octets → Octets
  | 0, _ => []
  | n + 1, c :: rest => if '0' ≤ c ∧ c ≤ '7' then c :: octalDigits n rest else []
  | _, [] => []

def octet (digits : Octets) : Char := Char.ofNat (digitsValue 8 digits % 256)

/-- An escape, from behind its backslash; nothing if the backslash stands for itself. -/
def escape? : Octets → Option (Char × Octets)
  | 'a' :: rest => some ('\x07', rest)
  | 'b' :: rest => some ('\x08', rest)
  | 'e' :: rest => some ('\x1b', rest)
  | 'f' :: rest => some ('\x0c', rest)
  | 'n' :: rest => some ('\n', rest)
  | 'r' :: rest => some ('\r', rest)
  | 't' :: rest => some ('\t', rest)
  | 'v' :: rest => some ('\x0b', rest)
  | '\\' :: rest => some ('\\', rest)
  | cs => match octalDigits 3 cs with
    | [] => none
    | digits => some (octet digits, cs.drop digits.length)

/-- Replaces escapes, up to one that ends all output: the text, and whether such an escape was
met. A zero in front of an octal number does not count as one of its digits. -/
def unescape : Nat → Octets → Octets × Bool
  | 0, _ => ([], false)
  | _, [] => ([], false)
  | steps + 1, c :: rest =>
    let keep (c : Char) (rest : Octets) : Octets × Bool :=
      let (text, ended) := unescape steps rest
      (c :: text, ended)
    if c ≠ '\\' then keep c rest
    else match rest with
      | 'c' :: _ => ([], true)
      | '0' :: rest =>
        let digits := octalDigits 3 rest
        keep (octet digits) (rest.drop digits.length)
      | rest => match escape? rest with
        | some (c, rest) => keep c rest
        | none => keep '\\' rest

/-- What `echo` writes. -/
def echoText (args : List Octets) : Octets :=
  let (ending, args) := match args with
    | ['-', 'n'] :: args => ([], args)
    | args => (['\n'], args)
  let joined := Octets.joinWith [' '] args
  let (text, ended) := unescape (joined.length + 1) joined
  if ended then text else text ++ ending

/-- How an argument is to be shown. -/
structure Directive where
  left : Bool := false
  plus : Bool := false
  blank : Bool := false
  zeros : Bool := false
  alternate : Bool := false
  width : Nat := 0
  precision : Option Nat := none

namespace Directive

def pad (d : Directive) (text : Octets) : Octets :=
  let fill := List.replicate (d.width - text.length) ' '
  if d.left then text ++ fill else fill ++ text

/-- Pads a number behind its sign. -/
def padNumber (d : Directive) (zeros : Bool) (sign digits : Octets) : Octets :=
  if zeros && d.zeros && !d.left then
    sign ++ List.replicate (d.width - sign.length - digits.length) '0' ++ digits
  else d.pad (sign ++ digits)

def sign (d : Directive) (negative : Bool) : Octets :=
  if negative then ['-'] else if d.plus then ['+'] else if d.blank then [' '] else []

/-- A whole number's digits, of which none is left for a zero that needs none. -/
def digits (d : Directive) (base n : Nat) : Octets :=
  if n = 0 ∧ d.precision = some 0 then []
  else padDigits (d.precision.getD 1) (Nat.toDigits base n)

def showInt (d : Directive) (n : Int) : Octets :=
  d.padNumber d.precision.isNone (d.sign (n < 0)) (d.digits 10 n.natAbs)

def showNat (d : Directive) (letter : Char) (n : Nat) : Octets :=
  match letter with
  | 'o' =>
    let digits := d.digits 8 n
    let digits := if d.alternate && digits.head? != some '0' then '0' :: digits else digits
    d.padNumber d.precision.isNone [] digits
  | 'x' => d.padNumber d.precision.isNone (if d.alternate && n != 0 then "0x".toList else [])
      (d.digits 16 n)
  | 'X' => d.padNumber d.precision.isNone (if d.alternate && n != 0 then "0X".toList else [])
      ((d.digits 16 n).map Char.toUpper)
  | _ => d.padNumber d.precision.isNone [] (d.digits 10 n)

def showReal (d : Directive) (letter : Char) (x : Real) : Octets :=
  let cased (text : Octets) : Octets := if letter.isUpper then text.map Char.toUpper else text
  let sign := d.sign x.isNegative
  match x with
  | .notANumber => d.pad (sign ++ cased "nan".toList)
  | .infinite _ => d.pad (sign ++ cased "inf".toList)
  | .finite _ value =>
    let places := d.precision.getD 6
    d.padNumber true sign (match letter with
      | 'f' | 'F' => fixedText places d.alternate value
      | 'e' | 'E' => scientificText letter places d.alternate value
      | _ => generalText (if letter = 'g' then 'e' else 'E') places d.alternate value)

def cut (d : Directive) (text : Octets) : Octets :=
  match d.precision with
  | some n => text.take n
  | none => text

end Directive

/-- What `printf` has done: its text, the complaints about its arguments, and the arguments that
are left. -/
structure Printing where
  text : Octets := []
  complaints : List String := []
  arguments : List Octets
  /-- Whether an escape has ended all output. -/
  ended : Bool := false

abbrev PrintM := StateT Printing (Except (String × Printing))

namespace PrintM

def put (text : Octets) : PrintM Unit := modify fun p => { p with text := p.text ++ text }

def fail {α : Type} (text : String) : PrintM α := do throw (text, ← get)

def argument? : PrintM (Option Octets) := do
  let p ← get
  match p.arguments with
  | [] => return none
  | a :: rest =>
    set { p with arguments := rest }
    return some a

def complain (text : String) : PrintM Unit :=
  modify fun p => { p with complaints := p.complaints ++ [text] }

/-- Complains about what is left of an argument behind its number. -/
def checkRest (arg rest : Octets) (inRange : Bool) : PrintM Unit := do
  if !rest.isEmpty then
    if rest.length = arg.length then complain (arg.name ++ ": expected numeric value")
    else complain (arg.name ++ ": not completely converted")
  else if !inRange then complain (arg.name ++ ": Numerical result out of range")

/-- The whole number of an argument. A quote in front asks for the code of the octet behind it. -/
def integer (signed : Bool) : PrintM Int := do
  match ← argument? with
  | none => return 0
  | some ('\'' :: rest) | some ('"' :: rest) => return ((rest.headD '\x00').toNat : Nat)
  | some arg =>
    let (negative, digits) := splitSign (arg.dropWhile isSpace)
    match leadingNatural? digits with
    | none =>
      checkRest arg arg true
      return 0
    | some (n, rest) =>
      let value : Int := if negative then -n else n
      let clamped := if signed then clampWord value
        else if n < 0x10000000000000000 then Int.emod value 0x10000000000000000
        else 0xffffffffffffffff
      checkRest arg rest (if signed then clamped == value else n < 0x10000000000000000)
      return clamped

def real : PrintM Real := do
  match ← argument? with
  | none => return .ofFloat 0.0
  | some ('\'' :: rest) | some ('"' :: rest) =>
    return .ofFloat (Float.ofNat (rest.headD '\x00').toNat)
  | some arg =>
    match leadingFloat? arg with
    | none =>
      checkRest arg arg true
      return .ofFloat 0.0
    | some (x, rest) =>
      let isInfinite := match Real.ofFloat x with
        | .infinite _ => !(arg.any fun c => c == 'n' || c == 'N')
        | _ => false
      checkRest arg rest (!isInfinite)
      return .ofFloat x

end PrintM

/-- A width or precision: a number of the format, or an argument if there is a star. -/
def readCount (format : Octets) : PrintM (Option Int × Octets) := do
  match format with
  | '*' :: rest => return (some (← PrintM.integer true), rest)
  | rest =>
    match rest.takeWhile Char.isDigit with
    | [] => return (none, rest)
    | ds => return (some (digitsValue 10 ds : Nat), rest.dropWhile Char.isDigit)

/-- A directive behind its sign, up to its letter. -/
def readDirective (format : Octets) : PrintM (Directive × Octets) := do
  let isFlag (c : Char) : Bool := c == '#' || c == '-' || c == '+' || c == ' ' || c == '0'
  let flags := format.takeWhile isFlag
  let (width, rest) ← readCount (format.dropWhile isFlag)
  let (precision, rest) ← match rest with
    | '.' :: rest => do
      let (n, rest) ← readCount rest
      pure (some (n.getD 0), rest)
    | rest => pure (none, rest)
  let width := width.getD 0
  return ({
    left := flags.contains '-' || width < 0
    plus := flags.contains '+'
    blank := flags.contains ' '
    zeros := flags.contains '0'
    alternate := flags.contains '#'
    width := width.natAbs
    precision := precision.bind fun n => if n < 0 then none else some n.toNat }, rest)

/-- One pass over the format. -/
def printOnce : Nat → Octets → PrintM Unit
  | 0, _ => return
  | _, [] => return
  | steps + 1, c :: rest => do
    match c, rest with
    | '\\', rest =>
      match escape? rest with
      | some (c, rest) =>
        PrintM.put [c]
        printOnce steps rest
      | none =>
        PrintM.put ['\\']
        printOnce steps rest
    | '%', '%' :: rest =>
      PrintM.put ['%']
      printOnce steps rest
    | '%', format =>
      let (d, rest) ← readDirective format
      match rest with
      | [] => PrintM.fail "missing format character"
      | letter :: rest =>
        if letter = 's' then PrintM.put (d.pad (d.cut ((← PrintM.argument?).getD [])))
        else if letter = 'c' then
          PrintM.put (d.pad [((← PrintM.argument?).getD []).headD '\x00'])
        else if letter = 'b' then
          let arg := (← PrintM.argument?).getD []
          let (text, ended) := unescape (arg.length + 1) arg
          PrintM.put (d.pad (d.cut text))
          modify fun p => { p with ended }
        else if letter = 'd' ∨ letter = 'i' then PrintM.put (d.showInt (← PrintM.integer true))
        else if "ouxX".toList.contains letter then
          PrintM.put (d.showNat letter (← PrintM.integer false).toNat)
        else if "eEfFgG".toList.contains letter then
          PrintM.put (d.showReal letter (← PrintM.real))
        else
          let directive := format.take (format.length - rest.length)
          PrintM.fail ("%" ++ String.ofList directive ++ ": invalid directive")
        if (← get).ended then return
        printOnce steps rest
    | c, rest =>
      PrintM.put [c]
      printOnce steps rest

/-- Repeats the format until no argument is left. -/
def printAll : Nat → Octets → PrintM Unit
  | 0, _ => return
  | rounds + 1, format => do
    let before := (← get).arguments
    printOnce (format.length + 1) format
    let after ← get
    unless after.ended || after.arguments.isEmpty || after.arguments.length = before.length do
      printAll rounds format

/-- What `printf` does with a format and arguments: its text and complaints, and the error that it
ends with, if there is one. -/
def printf (format : Octets) (args : List Octets) : Printing × Option String :=
  match (printAll (args.length + 1) format).run { arguments := args } with
  | .ok ((), p) => (p, none)
  | .error (text, p) => (p, some text)

end ContractCheck.Shell
