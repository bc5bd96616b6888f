import ContractCheck.Shell.Machine

/-!
Shell scripts: commands, and the words that they are made of. A word is a list of pieces, whose
quoting decides whether what they stand for is split at separators and read as a pattern.
-/

namespace ContractCheck.Shell

/-- Which end of a value a pattern is cut from, and whether as much as possible is cut. -/
structure Cut where
  fromEnd : Bool
  longest : Bool

mutual

inductive Piece where
  | plain (text : Octets)
  | quoted (text : Octets)
  | parameter (inQuotes : Bool) (name : String) (use : ParameterUse)
  | arithmetic (inQuotes : Bool) (expression : List Piece)
  /-- What a script writes to its output. -/
  | output (inQuotes : Bool) (body : Command)

/-- What becomes of the value of a parameter. -/
inductive ParameterUse where
  | value
  | length
  /-- Another word where the parameter is not set; `orEmpty` counts an empty value as not set. -/
  | otherwise (orEmpty : Bool) (word : List Piece)
  /-- The same, and the parameter is set to that word. -/
  | assign (orEmpty : Bool) (word : List Piece)
  /-- Another word where the parameter is set. -/
  | instead (orEmpty : Bool) (word : List Piece)
  /-- An error where the parameter is not set. -/
  | demand (orEmpty : Bool) (word : List Piece)
  | cut (cut : Cut) (pattern : List Piece)
  /-- No use that there is; an error when it is met. -/
  | unknown

inductive Redirection where
  | duplicate (fd : Nat) (source : List Piece)
  | file (mode : OpenMode) (fd : Nat) (name : List Piece)
  /-- The text of a document in the script, by its number. -/
  | document (fd : Nat) (number : Nat)

inductive Command where
  | nothing
  | simple (line : Nat) (assignments : List (String × List Piece)) (words : List (List Piece))
      (redirections : List Redirection)
  | sequence (first second : Command)
  | both (first second : Command)
  | either (first second : Command)
  | negated (body : Command)
  | pipeline (stages : List Command)
  | background (body : Command)
  | branch (test onTrue onFalse : Command)
  /-- Repeats `body` as long as `test` succeeds, or as long as it fails if `untilTrue` is set. -/
  | loop (untilTrue : Bool) (test body : Command)
  | each (line : Nat) (name : String) (items : List (List Piece)) (body : Command)
  | choose (line : Nat) (subject : List Piece) (arms : List (List (List Piece) × Command))
  | subshell (line : Nat) (body : Command)
  | function (name : String) (body : Command)
  | redirected (line : Nat) (body : Command) (redirections : List Redirection)

end

instance : Inhabited Command := ⟨.nothing⟩

abbrev Word := List Piece

/-- The commands of the shell that no function can replace. -/
def isSpecialBuiltin (name : String) : Bool :=
  [".", ":", "break", "continue", "eval", "exec", "exit", "export", "local", "readonly", "return",
    "set", "shift", "times", "trap", "unset"].contains name

namespace Piece

/-- The text of a piece that is neither quoted nor stands for another text. -/
def plainText? : Piece → Option Octets
  | .plain text => some text
  | _ => none

end Piece

namespace Word

/-- The text of a word without quotes and parameters. -/
def plainText? (word : Word) : Option Octets :=
  word.foldr (fun piece rest => return (← piece.plainText?) ++ (← rest)) (some [])

/-- The name and the value of a word that is an assignment. -/
def assignment? : Word → Option (String × Word)
  | .plain text :: rest =>
    match splitName? text with
    | some (name, '=' :: value) =>
      some (name, if value.isEmpty then rest else .plain value :: rest)
    | _ => none
  | _ => none

/-- The text of a word whose quotes are taken away. -/
def literalText (word : Word) : Octets :=
  (word.map fun piece => match piece with
    | .plain text | .quoted text => text
    | _ => []).flatten

end Word

end ContractCheck.Shell
