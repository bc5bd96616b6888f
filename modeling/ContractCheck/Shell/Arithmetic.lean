import ContractCheck.Shell.Octets

/-!
Arithmetic of the shell: expressions over words of 64 bits, with variables and assignments. What is
not evaluated because of an operand before it has no effect, but has to be well-formed.
-/

namespace ContractCheck.Shell.Arithmetic

inductive Token where
  | number (n : Int)
  | name (name : String)
  | sign (text : String)
  /-- The end of the expression. -/
  | done
  | unknown
deriving DecidableEq

/-- Why an expression has no value. -/
inductive Fault where
  | malformed (text : String)
  | notANumber (text : Octets)
  /-- A variable that an assignment cannot change. -/
  | fixed (name : String)

def signs : List String :=
  ["<<=", ">>=", "&&", "||", "==", "!=", "<=", ">=", "<<", ">>", "+=", "-=", "*=", "/=", "%=", "&=",
    "^=", "|=", "+", "-", "*", "/", "%", "<", ">", "=", "!", "~", "&", "^", "|", "(", ")", "?", ":"]

/-- The next token, and the text behind it. -/
def nextToken (cs : Octets) : Token × Octets :=
  match cs.dropWhile fun c => isBlank c || c == '\n' with
  | [] => (.done, [])
  | c :: rest =>
    match leadingNatural? (c :: rest) with
    | some (n, rest) => (.number (clampWord n), rest)
    | none =>
      match splitName? (c :: rest) with
      | some (name, rest) => (.name name, rest)
      | none =>
        match signs.findSome? fun s =>
          (List.isPrefixOf? s.toList (c :: rest)).map fun rest => (Token.sign s, rest) with
        | some found => found
        | none => (.unknown, rest)

/-- What an expression works on: the text that is left behind the token at hand, and the variables'
environment. -/
structure State (σ : Type) where
  rest : Octets
  token : Token
  store : σ

/-- How variables are read and set. -/
structure Store (σ : Type) where
  read : String → σ → Except Fault Int
  write : String → Int → σ → Except Fault σ

abbrev EvalM (σ : Type) := StateT (State σ) (Except Fault)

variable {σ : Type}

def malformed {α : Type} (text : String) : EvalM σ α := throw (.malformed text)

/-- Moves on to the next token. -/
def advance : EvalM σ Unit := modify fun s =>
  let (token, rest) := nextToken s.rest
  { s with token, rest }

def ofBool (b : Bool) : Int := if b then 1 else 0

def wrap (n : Int) : Int := Int.bmod n 0x10000000000000000

/-- The strength of an operator of two operands; a stronger one has a smaller number. -/
def rank? : Token → Option Nat
  | .sign sign =>
    match sign with
    | "*" | "/" | "%" => some 0
    | "+" | "-" => some 1
    | "<<" | ">>" => some 2
    | "<" | "<=" | ">" | ">=" => some 3
    | "==" | "!=" => some 4
    | "&" => some 5
    | "^" => some 6
    | "|" => some 7
    | _ => none
  | _ => none

/-- What an operator makes of its operands. -/
def combine (sign : String) (a b : Int) : EvalM σ Int :=
  let bits (f : UInt64 → UInt64 → UInt64) : EvalM σ Int :=
    return (f (UInt64.ofInt a) (UInt64.ofInt b)).toInt64.toInt
  let places := (b % 64).toNat
  match sign with
  | "|" => bits (· ||| ·)
  | "^" => bits (· ^^^ ·)
  | "&" => bits (· &&& ·)
  | "==" => return ofBool (a == b)
  | "!=" => return ofBool (a != b)
  | "<=" => return ofBool (a ≤ b)
  | ">=" => return ofBool (b ≤ a)
  | "<" => return ofBool (a < b)
  | ">" => return ofBool (b < a)
  | "<<" => return wrap (a * Int.ofNat (Nat.pow 2 places))
  | ">>" => return a / Int.ofNat (Nat.pow 2 places)
  | "+" => return wrap (a + b)
  | "-" => return wrap (a - b)
  | "*" => return wrap (a * b)
  | "/" => if b = 0 then malformed "division by zero" else return wrap (a.tdiv b)
  | "%" => if b = 0 then malformed "division by zero" else return a.tmod b
  | _ => malformed "expecting EOF"

def assignmentSigns : List String :=
  ["<<=", ">>=", "+=", "-=", "*=", "/=", "%=", "&=", "^=", "|="]

mutual

/-- An operand from the token at hand on. -/
def operand (store : Store σ) : Nat → Bool → EvalM σ Int
  | 0, _ => malformed "expecting primary"
  | steps + 1, skipped => do
    match (← get).token with
    | .number n =>
      advance
      return n
    | .name name =>
      advance
      if skipped then return 0
      match store.read name (← get).store with
      | .ok n => return n
      | .error f => throw f
    | .sign "(" =>
      advance
      let n ← assignment store steps skipped
      if (← get).token = .sign ")" then
        advance
        return n
      else malformed "expecting ')'"
    | .sign "+" =>
      advance
      operand store steps skipped
    | .sign "-" =>
      advance
      return wrap (-(← operand store steps skipped))
    | .sign "!" =>
      advance
      return ofBool ((← operand store steps skipped) == 0)
    | .sign "~" =>
      advance
      return -(← operand store steps skipped) - 1
    | _ => malformed "expecting primary"

/-- Operands with operators between them that bind stronger than `limit`. -/
def operation (store : Store σ) : Nat → Nat → Bool → Int → EvalM σ Int
  | 0, _, _, _ => malformed "expecting primary"
  | steps + 1, limit, skipped, first => do
    match (← get).token with
    | .sign sign =>
      match rank? (.sign sign) with
      | none => return first
      | some rank =>
        if limit ≤ rank then return first
        advance
        let second ← operand store steps skipped
        let second ← operation store steps rank skipped second
        let value ← if skipped then pure second else combine sign first second
        operation store steps limit skipped value
    | _ => return first

def conjunction (store : Store σ) : Nat → Bool → EvalM σ Int
  | 0, _ => malformed "expecting primary"
  | steps + 1, skipped => do
    let first ← operand store steps skipped
    let first ← operation store steps 8 skipped first
    if (← get).token = .sign "&&" then
      advance
      let second ← conjunction store steps (skipped || first == 0)
      return ofBool (first != 0 && second != 0)
    else return first

def disjunction (store : Store σ) : Nat → Bool → EvalM σ Int
  | 0, _ => malformed "expecting primary"
  | steps + 1, skipped => do
    let first ← conjunction store steps skipped
    if (← get).token = .sign "||" then
      advance
      let second ← disjunction store steps (skipped || first != 0)
      return ofBool (first != 0 || second != 0)
    else return first

def conditional (store : Store σ) : Nat → Bool → EvalM σ Int
  | 0, _ => malformed "expecting primary"
  | steps + 1, skipped => do
    let test ← disjunction store steps skipped
    if (← get).token = .sign "?" then
      advance
      let onTrue ← assignment store steps (skipped || test == 0)
      if (← get).token = .sign ":" then
        advance
        let onFalse ← conditional store steps (skipped || test != 0)
        return if test == 0 then onFalse else onTrue
      else malformed "expecting ':'"
    else return test

def assignment (store : Store σ) : Nat → Bool → EvalM σ Int
  | 0, _ => malformed "expecting primary"
  | steps + 1, skipped => do
    let s ← get
    match s.token, nextToken s.rest with
    | .name name, (.sign sign, rest) =>
      if sign = "=" ∨ assignmentSigns.contains sign then
        set { s with rest }
        advance
        let n ← assignment store steps skipped
        if skipped then return n
        let before ← get
        let n ← if sign = "=" then pure n
          else match store.read name before.store with
            | .ok old => combine (String.ofList sign.toList.dropLast) old n
            | .error f => throw f
        match store.write name n (← get).store with
        | .ok after => modify fun s => { s with store := after }
        | .error f => throw f
        return n
      else conditional store steps skipped
    | _, _ => conditional store steps skipped

end

/-- The value of an expression, and what its assignments leave. -/
def evaluate (store : Store σ) (text : Octets) (before : σ) : Except Fault (Int × σ) := do
  let (token, rest) := nextToken text
  let (n, s) ← (assignment store (20 * text.length + 20) false).run ⟨rest, token, before⟩
  if s.token = .done then return (n, s.store) else throw (.malformed "expecting EOF")

end ContractCheck.Shell.Arithmetic
