import ContractCheck.Json.Value

/-!
How records and variants are spelled in JSON. A record is an object, whose unknown members are
ignored, or an array of its fields in order, whose last fields may be left off. A variant is an
object with one member.
-/

namespace ContractCheck.Json

variable {α : Type}

def text? : Json → Option String
  | .str text => text
  | _ => none

def bool? : Json → Option Bool
  | .bool b => some b
  | _ => none

/-- An integer from `low` to `high`. -/
def intIn? (low high : Int) : Json → Option Int
  | .int n => if low ≤ n ∧ n ≤ high then some n else none
  | _ => none

def items? : Json → Option (List Json)
  | .arr items => some items
  | _ => none

/-- The name of a variant and what it holds. -/
def variant? : Json → Option (String × Json)
  | .obj [(some name, value)] => some (name, value)
  | _ => none

/-- The member of a name, which may be missing but not be repeated. -/
def member? (members : List (Option String × Json)) (name : String) : Option (Option Json) :=
  match members.filter fun m => m.1 == some name with
  | [] => some none
  | [m] => some (some m.2)
  | _ :: _ :: _ => none

/-- The fields of a record in the order of `names`, as far as they are given. All keys of an object
have to be texts, also those that are ignored. -/
def fields? (names : List String) : Json → Option (List (Option Json))
  | .arr items =>
    if items.length ≤ names.length then
      some (items.map some ++ List.replicate (names.length - items.length) none)
    else none
  | .obj members =>
    if members.all fun m => m.1.isSome then names.mapM (member? members) else none
  | _ => none

/-- A field that may be left out or be null. -/
def nullable? (read : Json → Option α) : Option Json → Option (Option α)
  | none | some .null => some none
  | some value => (read value).map some

/-- A field that may be left out but not be null. -/
def optional? (default : α) (read : Json → Option α) : Option Json → Option α
  | none => some default
  | some value => read value

end ContractCheck.Json
