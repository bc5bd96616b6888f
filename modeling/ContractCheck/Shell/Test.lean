import ContractCheck.Shell.Octets

/-!
The verdicts of `test`: comparisons of texts and numbers, questions about files, and what `!`, `-a`,
`-o` and parentheses make of them.
-/

namespace ContractCheck.Shell.Test

/-- What can be asked about a file. -/
structure FileFacts where
  /-- A question of one letter about the file at a path. -/
  holds : Char → Octets → Bool
  /-- Whether two paths lead to the same file. -/
  same : Octets → Octets → Bool

inductive Operator where
  | unary
  | binary
  | negation
  | conjunction
  | disjunction
  | openParen
  | closeParen
deriving DecidableEq

def operator? (word : Octets) : Option Operator :=
  match String.ofList word with
  | "-r" | "-w" | "-x" | "-e" | "-f" | "-d" | "-c" | "-b" | "-p" | "-u" | "-g" | "-k" | "-s" | "-t"
  | "-z" | "-n" | "-h" | "-O" | "-G" | "-L" | "-S" => some .unary
  | "=" | "!=" | "<" | ">" | "-eq" | "-ne" | "-ge" | "-gt" | "-le" | "-lt" | "-nt" | "-ot"
  | "-ef" => some .binary
  | "!" => some .negation
  | "-a" => some .conjunction
  | "-o" => some .disjunction
  | "(" => some .openParen
  | ")" => some .closeParen
  | _ => none

/-- Whether an operator of one operand is an operand itself. -/
def isOperand : List Octets → Bool
  | [] => true
  | [_] => false
  | word :: _ :: _ => operator? word = some .binary

/-- What the first word means: nothing at the end, an operator, or an operand. -/
inductive Meaning where
  | done
  | operand
  | operator (op : Operator)
deriving DecidableEq

def meaning : List Octets → Meaning
  | [] => .done
  | word :: rest =>
    match operator? word with
    | none => .operand
    | some .unary => if isOperand rest then .operand else .operator .unary
    | some .openParen => if rest.isEmpty then .operand else .operator .openParen
    | some op => .operator op

abbrev TestM := StateT (List Octets) (Except String)

/-- Moves on by one word. -/
def advance : TestM Unit := modify List.tail

def number (word : Octets) : TestM Int :=
  match integer? true word with
  | some n => return n
  | none => throw ("Illegal number: " ++ String.ofList word)

def needed (op : Octets) : TestM Octets := do
  match ← get with
  | [] => throw (String.ofList op ++ ": argument expected")
  | word :: _ => return word

def compare (facts : FileFacts) (first op second : Octets) : TestM Bool := do
  match String.ofList op with
  | "=" => return first == second
  | "!=" => return first != second
  | "<" => return first < second
  | ">" => return second < first
  | "-eq" => return (← number first) == (← number second)
  | "-ne" => return (← number first) != (← number second)
  | "-lt" => return (← number first) < (← number second)
  | "-le" => return (← number first) ≤ (← number second)
  | "-gt" => return (← number second) < (← number first)
  | "-ge" => return (← number second) ≤ (← number first)
  | "-ef" => return facts.same first second
  | _ => return false

def ask (facts : FileFacts) (op operand : Octets) : TestM Bool := do
  match op with
  | ['-', 'z'] => return operand.isEmpty
  | ['-', 'n'] => return !operand.isEmpty
  | ['-', 't'] =>
    let _ ← number operand
    return false
  | [_, letter] => return facts.holds letter operand
  | _ => return false

mutual

/-- A verdict from the word at hand on, which stays on its last word. -/
def primary (facts : FileFacts) : Nat → TestM Bool
  | 0 => return false
  | steps + 1 => do
    let words ← get
    match meaning words, words with
    | .done, _ | _, [] => return false
    | .operator .openParen, _ =>
      advance
      if meaning (← get) = .operator .closeParen then return false
      let verdict ← disjunction facts steps
      advance
      if meaning (← get) = .operator .closeParen then return verdict
      throw "closing paren expected"
    | .operator .unary, op :: _ =>
      advance
      ask facts op (← needed op)
    | _, first :: rest =>
      match meaning rest, rest with
      | .operator .binary, op :: _ =>
        advance
        advance
        compare facts first op (← needed op)
      | _, _ => return !first.isEmpty

def negation (facts : FileFacts) : Nat → TestM Bool
  | 0 => return false
  | steps + 1 => do
    let words ← get
    if meaning words = .operator .negation then
      if words.tail.isEmpty then return true
      advance
      return !(← negation facts steps)
    else primary facts steps

def conjunction (facts : FileFacts) : Nat → TestM Bool
  | 0 => return false
  | steps + 1 => do
    let first ← negation facts steps
    if meaning (← get).tail = .operator .conjunction then
      advance
      advance
      return (← conjunction facts steps) && first
    else return first

def disjunction (facts : FileFacts) : Nat → TestM Bool
  | 0 => return false
  | steps + 1 => do
    let first ← conjunction facts steps
    if meaning (← get).tail = .operator .disjunction then
      advance
      advance
      return (← disjunction facts steps) || first
    else return first

end

/-- The verdict on words that are all of an expression. -/
def whole (facts : FileFacts) (words : List Octets) : Except String Bool := do
  let (verdict, left) ← (disjunction facts (4 * words.length + 8)).run words
  match left with
  | word :: _ :: _ =>
    throw (if word.isEmpty then "unexpected operator"
      else String.ofList word ++ ": unexpected operator")
  | _ => return verdict

/-- An operator between two of three words comes first, and words in parentheses or behind a `!`
count alone if there are few of them. -/
def verdict (facts : FileFacts) : List Octets → Except String Bool
  | [] => return false
  | [a, op, b] =>
    if operator? op = some .binary then
      return (← (compare facts a op b).run []).1
    else if a = ['('] ∧ b = [')'] then whole facts [op]
    else if a = ['!'] then return !(← verdict facts [op, b])
    else whole facts [a, op, b]
  | [a, b, c, d] =>
    if a = ['('] ∧ d = [')'] then whole facts [b, c]
    else if a = ['!'] then return !(← verdict facts [b, c, d])
    else whole facts [a, b, c, d]
  | words => whole facts words

end ContractCheck.Shell.Test
