import ContractCheck.Shell.Call
import ContractCheck.Shell.Regular

/-!
Formulas that stand in the arguments of a program, one sign an argument. A value is a text, which
may be a number. The operators in the order of how loosely they bind: alternatives, conjunctions,
comparisons, sums, products and matches.
-/

namespace ContractCheck.Shell

namespace Formula

def integer? (text : Octets) : Option Int :=
  match text with
  | '-' :: digits => (natural? 10 digits).map fun n => -n
  | digits => (natural? 10 digits).map fun n => n

def integer (text : Octets) : Except String Int :=
  match integer? text with
  | some n => .ok n
  | none => .error "non-integer argument"

/-- Whether a value counts as false. -/
def isNull (value : Octets) : Bool := value.isEmpty || integer? value == some 0

def ofVerdict (verdict : Bool) : Octets := if verdict then ['1'] else ['0']

/-- How a match of the start of a text counts: by what the first group holds, or else by length. -/
def matching (text pattern : Octets) : Except String Octets :=
  match Regular.parse false pattern with
  | .error fault => .error fault
  | .ok (r, groups) =>
    match r.matchAt? false (Regular.Spot.ofText text) with
    | some finish =>
      if groups = 0 then .ok (Octets.ofNat finish.position)
      else .ok ((finish.groups.lookup 1).getD [])
    | none => .ok (if groups = 0 then ['0'] else [])

def compare (operator : String) (a b : Octets) : Bool :=
  let ordered : Ordering := match integer? a, integer? b with
    | some m, some n => if m < n then .lt else if m = n then .eq else .gt
    | _, _ => if a = b then .eq else if a.precedes b then .lt else .gt
  match operator with
  | "<" => ordered == .lt
  | "<=" => ordered != .gt
  | "=" | "==" => ordered == .eq
  | "!=" => ordered != .eq
  | ">=" => ordered != .lt
  | _ => ordered == .gt

def combine (operator : String) (a b : Octets) : Except String Octets := do
  match operator with
  | "|" => return if !isNull a then a else if !isNull b then b else ['0']
  | "&" => return if isNull a || isNull b then ['0'] else a
  | ":" => matching a b
  | "+" => return Octets.ofInt ((← integer a) + (← integer b))
  | "-" => return Octets.ofInt ((← integer a) - (← integer b))
  | "*" => return Octets.ofInt ((← integer a) * (← integer b))
  | "/" | "%" =>
    let m ← integer a
    let n ← integer b
    if n = 0 then throw "division by zero"
    return Octets.ofInt (if operator = "/" then m.tdiv n else m.tmod n)
  | operator => return ofVerdict (compare operator a b)

/-- The operators, those that bind loosely first. -/
def levels : List (List String) :=
  [["|"], ["&"], ["<", "<=", "=", "==", "!=", ">=", ">"], ["+", "-"], ["*", "/", "%"], [":"]]

def quoted (text : Octets) : String := "'" ++ String.ofList text ++ "'"

/-- The part of a text that starts at a place and has a length. -/
def part (text place length : Octets) : Octets :=
  match integer? place, integer? length with
  | some n, some count =>
    if n < 1 ∨ count < 1 then [] else (text.drop (n.toNat - 1)).take count.toNat
  | _, _ => []

mutual

/-- The value of the longest formula in front of which the operators bind at least as tightly as
the given level. `previous` is what stands in front. -/
def value : Nat → List (List String) → Octets → List Octets →
    Except String (Octets × List Octets)
  | 0, _, _, _ => .error "syntax error"
  | steps + 1, [], previous, args => operand steps previous args
  | steps + 1, operators :: tighter, previous, args => do
    let (first, rest) ← value steps tighter previous args
    further steps operators tighter first rest

/-- Goes on with operators of one level. -/
def further : Nat → List String → List (List String) → Octets → List Octets →
    Except String (Octets × List Octets)
  | 0, _, _, _, _ => .error "syntax error"
  | _, _, _, first, [] => .ok (first, [])
  | steps + 1, operators, tighter, first, sign :: rest =>
    if operators.contains (String.ofList sign) then do
      let (second, rest) ← value steps tighter sign rest
      further steps operators tighter (← combine (String.ofList sign) first second) rest
    else .ok (first, sign :: rest)

def operand : Nat → Octets → List Octets → Except String (Octets × List Octets)
  | 0, _, _ => .error "syntax error"
  | _, previous, [] => .error ("syntax error: missing argument after " ++ quoted previous)
  | steps + 1, _, arg :: rest => do
    match String.ofList arg with
    | "(" =>
      let (inner, behind) ← value steps levels arg rest
      match behind with
      | [')'] :: behind => return (inner, behind)
      | [] => throw ("syntax error: expecting ')' after " ++ quoted (rest.getLastD arg))
      | other :: _ => throw ("syntax error: expecting ')' instead of " ++ quoted other)
    | ")" => throw "syntax error: unexpected ')'"
    | "length" =>
      let (text, rest) ← operand steps arg rest
      return (Octets.ofNat text.length, rest)
    | "match" =>
      let (text, rest) ← operand steps arg rest
      let (pattern, rest) ← operand steps text rest
      return (← matching text pattern, rest)
    | "index" =>
      let (text, rest) ← operand steps arg rest
      let (set, rest) ← operand steps text rest
      return (Octets.ofNat ((text.findIdx? set.contains).elim 0 (· + 1)), rest)
    | "substr" =>
      let (text, rest) ← operand steps arg rest
      let (place, rest) ← operand steps text rest
      let (length, rest) ← operand steps place rest
      return (part text place length, rest)
    | "+" =>
      match rest with
      | text :: rest => return (text, rest)
      | [] => throw "syntax error: missing argument after '+'"
    | _ => return (arg, rest)

end

/-- The value of a whole formula. -/
def ofArguments (args : List Octets) : Except String Octets := do
  let (result, rest) ← value (16 * (args.length + 1)) levels [] args
  match rest with
  | [] => return result
  | other :: _ => throw ("syntax error: unexpected argument " ++ quoted other)

end Formula

open ProgramM

namespace Programs

/-- Prints the value of a formula. -/
def expr (args : List Octets) : ProgramM Nat := do
  let args := if args.head? = some ['-', '-'] then args.tail else args
  if args.isEmpty then
    complain "missing operand"
    let c ← read
    let _ ← onMachine (MachineM.write c.owner 2
      ("Try '" ++ c.name ++ " --help' for more information.\n").toList)
    return 2
  match Formula.ofArguments args with
  | .ok value =>
    put (value ++ ['\n'])
    return if Formula.isNull value then 1 else 0
  | .error text =>
    complain text
    return 2

end Programs

end ContractCheck.Shell
