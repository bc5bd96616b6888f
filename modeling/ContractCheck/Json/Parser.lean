import ContractCheck.Json.Token
import ContractCheck.Json.Value

/-!
From tokens to values, one token at a time. The parser keeps the arrays and objects that it is
inside of on a stack, so it reads values of any depth.
-/

namespace ContractCheck.Json

/-- An array or object that waits for a value; what it has so far, the latest first. -/
inductive Frame where
  | arr (items : List Json)
  | obj (members : List (Option String × Json)) (key : Option String)

abbrev Members := List (Option String × Json)

/-- What may come next. -/
inductive Phase where
  | value (stack : List Frame)
  /-- The first item of an array, or its end. -/
  | firstItem (stack : List Frame)
  /-- The first key of an object, or its end. -/
  | firstKey (stack : List Frame)
  | key (members : Members) (stack : List Frame)
  | colon (members : Members) (key : Option String) (stack : List Frame)
  /-- A value has ended. -/
  | after (value : Json) (stack : List Frame)

namespace Phase

/-- The start of a value. -/
def begin? (stack : List Frame) : Token → Option Phase
  | .openArr => some (.firstItem stack)
  | .openObj => some (.firstKey stack)
  | .null => some (.after .null stack)
  | .bool b => some (.after (.bool b) stack)
  | .int n => some (.after (.int n) stack)
  | .decimal => some (.after .decimal stack)
  | .str text => some (.after (.str text) stack)
  | _ => none

def step : Phase → Token → Option Phase
  | .value stack, token => begin? stack token
  | .firstItem stack, .closeArr => some (.after (.arr []) stack)
  | .firstItem stack, token => begin? (.arr [] :: stack) token
  | .firstKey stack, .closeObj => some (.after (.obj []) stack)
  | .firstKey stack, .str k => some (.colon [] k stack)
  | .key members stack, .str k => some (.colon members k stack)
  | .colon members k stack, .colon => some (.value (.obj members k :: stack))
  | .after v (.arr items :: stack), .comma => some (.value (.arr (v :: items) :: stack))
  | .after v (.arr items :: stack), .closeArr => some (.after (.arr (v :: items).reverse) stack)
  | .after v (.obj members k :: stack), .comma => some (.key ((k, v) :: members) stack)
  | .after v (.obj members k :: stack), .closeObj =>
    some (.after (.obj ((k, v) :: members).reverse) stack)
  | _, _ => none

def run (phase : Phase) : List Token → Option Phase
  | [] => some phase
  | token :: tokens =>
    match phase.step token with
    | none => none
    | some phase => phase.run tokens

def result? : Phase → Option Json
  | .after v [] => some v
  | _ => none

end Phase

def ofTokens? (tokens : List Token) : Option Json := ((Phase.value []).run tokens).bind (·.result?)

/-- The value that a text stands for. -/
def parse (text : String) : Option Json := (Token.scanAll text.toList).bind ofTokens?

end ContractCheck.Json
