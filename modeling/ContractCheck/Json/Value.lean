/-!
JSON values as texts give them: members of an object keep their order and may repeat, and numbers
are known only as far as they are integers.
-/

namespace ContractCheck

inductive Json where
  | null
  | bool (value : Bool)
  /-- A number without fraction, exponent or negative zero. -/
  | int (value : Int)
  /-- Any other number. -/
  | decimal
  /-- A string, or `none` if its escapes leave a surrogate alone and so denote no text. -/
  | str (text : Option String)
  | arr (items : List Json)
  | obj (members : List (Option String × Json))
deriving Inhabited

namespace Json

def ofString (text : String) : Json := .str (some text)

def ofNat (n : Nat) : Json := .int n

/-- An object with members in the given order. -/
def record (members : List (String × Json)) : Json :=
  .obj (members.map fun (key, value) => (some key, value))

def ofOption {α : Type} (f : α → Json) : Option α → Json
  | none => .null
  | some a => f a

mutual

/-- How deep arrays and objects nest. -/
def depth : Json → Nat
  | .arr items => depthItems items + 1
  | .obj members => depthMembers members + 1
  | _ => 0

def depthItems : List Json → Nat
  | [] => 0
  | item :: items => max item.depth (depthItems items)

def depthMembers : List (Option String × Json) → Nat
  | [] => 0
  | (_, value) :: members => max value.depth (depthMembers members)

end

end Json

end ContractCheck
