import ContractCheck.Json.Value

/-!
The compact text of a JSON value. Only quotes, backslashes and control characters are escaped, some
of the latter by a letter and the others by their number.
-/

namespace ContractCheck.Json

def hexDigit (n : Nat) : Char := (Nat.toDigits 16 n).headD '0'

def escape (c : Char) : List Char :=
  if c = '"' then ['\\', '"']
  else if c = '\\' then ['\\', '\\']
  else if c = '\n' then ['\\', 'n']
  else if c = '\r' then ['\\', 'r']
  else if c = '\t' then ['\\', 't']
  else if c = '\x08' then ['\\', 'b']
  else if c = '\x0c' then ['\\', 'f']
  else if c.toNat < 0x20 then
    ['\\', 'u', '0', '0', hexDigit (c.toNat / 16), hexDigit (c.toNat % 16)]
  else [c]

def quote (text : String) : String := "\"" ++ String.ofList (text.toList.flatMap escape) ++ "\""

/-- The text of a string. One that denotes no text is written as a lone surrogate. -/
def quote? : Option String → String
  | some text => quote text
  | none => "\"\\ud800\""

mutual

def render : Json → String
  | .null => "null"
  | .bool b => if b then "true" else "false"
  | .int n => toString n
  | .decimal => "0.0"
  | .str text => quote? text
  | .arr items => "[" ++ renderItems items ++ "]"
  | .obj members => "\x7b" ++ renderMembers members ++ "\x7d"

def renderItems : List Json → String
  | [] => ""
  | [item] => item.render
  | item :: next :: rest => item.render ++ "," ++ renderItems (next :: rest)

def renderMembers : List (Option String × Json) → String
  | [] => ""
  | [(key, value)] => quote? key ++ ":" ++ value.render
  | (key, value) :: next :: rest =>
    quote? key ++ ":" ++ value.render ++ "," ++ renderMembers (next :: rest)

end

end ContractCheck.Json
