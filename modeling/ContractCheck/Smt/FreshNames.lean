/-!
The supply of names for fresh variables. A name is `_`, a tag and the number of names that the tag
was given before, in decimal.
-/

namespace ContractCheck

/-- The tags asked for so far, the latest first. -/
structure FreshNames where
  issued : List Char := []
deriving Inhabited

namespace FreshNames

def nameOf (tag : Char) (index : Nat) : String := String.ofList ['_', tag] ++ toString index

def next (names : FreshNames) (tag : Char) : String × FreshNames :=
  (nameOf tag (names.issued.count tag), ⟨tag :: names.issued⟩)

/-- The names given to a run of requests. -/
def nextAll (names : FreshNames) : List Char → List String
  | [] => []
  | tag :: tags => (names.next tag).1 :: (names.next tag).2.nextAll tags

end FreshNames

end ContractCheck
