/-!
TOML values, and tables while a document defines them. A table may be defined by a header, come
into being because a deeper header names it, or come into being because a dotted key names it;
which of the three decides whether it may be extended.
-/

namespace ContractCheck.Toml

inductive Value where
  | string (text : String)
  | integer (n : Int)
  | float
  | boolean (b : Bool)
  | datetime
  | array (items : List Value)
  | table (entries : List (String × Value))
deriving Inhabited

inductive TableOrigin where
  /-- The table has a header of its own, is the root, or stands in an array of tables. -/
  | header
  /-- Only deeper headers name the table. -/
  | implied
  /-- Dotted keys made the table. -/
  | dotted
deriving DecidableEq, Repr

inductive Node where
  | value (v : Value)
  | table (origin : TableOrigin) (entries : List (String × Node))
  /-- An array of tables, the last one first. -/
  | tables (items : List (List (String × Node)))

abbrev Entries := List (String × Node)

namespace Entries

/-- Puts a node in the place of the one with the same name, or at the end. -/
def put (name : String) (node : Node) : Entries → Entries
  | [] => [(name, node)]
  | (other, old) :: rest =>
    if other = name then (name, node) :: rest else (other, old) :: put name node rest

/-- Changes the table at a path. Tables that are missing on the way are made, and of an array of
tables the last one is meant. `dotted` tells a dotted key from a header: only headers may pass
through a table that has a header of its own. -/
def change? (dotted : Bool) (f : TableOrigin → Entries → Option Entries) :
    List String → TableOrigin → Entries → Option Entries
  | [], origin, entries => f origin entries
  | name :: path, _, entries =>
    match entries.lookup name with
    | none => do
      let origin := if dotted then .dotted else .implied
      return entries.put name (.table origin (← change? dotted f path origin []))
    | some (.table origin inner) =>
      if dotted ∧ origin = .header then none
      else do return entries.put name (.table origin (← change? dotted f path origin inner))
    | some (.tables (last :: before)) => do
      return entries.put name (.tables ((← change? dotted f path .header last) :: before))
    | some (.tables []) => none
    | some (.value _) => none

/-- Defines a key with the given dotted path in front of it. -/
def define? (path : List String) (name : String) (v : Value) (origin : TableOrigin)
    (entries : Entries) : Option Entries :=
  entries.change? true (fun origin entries =>
    if (origin = .dotted) ↔ path = [] then none
    else if (entries.lookup name).isSome then none
    else some (entries.put name (.value v))) path origin

/-- Opens a table with a header of its own. -/
def openTable? (path : List String) (name : String) (root : Entries) : Option Entries :=
  root.change? false (fun _ entries =>
    match entries.lookup name with
    | none => some (entries.put name (.table .header []))
    | some (.table .implied inner) => some (entries.put name (.table .header inner))
    | some _ => none) path .header

/-- Opens a new table at the end of an array of tables. -/
def appendTable? (path : List String) (name : String) (root : Entries) : Option Entries :=
  root.change? false (fun _ entries =>
    match entries.lookup name with
    | none => some (entries.put name (.tables [[]]))
    | some (.tables items) => some (entries.put name (.tables ([] :: items)))
    | some _ => none) path .header

end Entries

mutual

def Node.toValue : Node → Value
  | .value v => v
  | .table _ entries => .table (Node.entriesToValue entries)
  | .tables items => .array (Node.tablesToValue items [])

def Node.entriesToValue : List (String × Node) → List (String × Value)
  | [] => []
  | (name, node) :: rest => (name, node.toValue) :: Node.entriesToValue rest

/-- Turns the order of the tables around. -/
def Node.tablesToValue : List (List (String × Node)) → List Value → List Value
  | [], done => done
  | entries :: rest, done =>
    Node.tablesToValue rest (.table (Node.entriesToValue entries) :: done)

end

end ContractCheck.Toml
