import ContractCheck.Toml.Scalar

/-!
TOML documents: lines that open tables, and lines that define keys in the open one.
-/

namespace ContractCheck.Toml

abbrev ScanValue := List Char → Scanned Value

/-- The items of an array, behind its bracket or a comma. -/
def scanItems (scan : ScanValue) : Nat → List Value → List Char → Scanned Value
  | 0, _, _ => none
  | steps + 1, done, cs =>
    match skipBreaks false cs with
    | ']' :: rest => some (.array done.reverse, rest)
    | cs =>
      match scan cs with
      | none => none
      | some (item, rest) =>
        match skipBreaks false rest with
        | ',' :: rest => scanItems scan steps (item :: done) rest
        | ']' :: rest => some (.array (item :: done).reverse, rest)
        | _ => none

/-- A key and its value. -/
def scanPair (scan : ScanValue) (cs : List Char) : Scanned ((List String × String) × Value) :=
  match scanKey (nestingLimit - 1) [] cs with
  | some (key, '=' :: rest) => (scan (skipBlanks rest)).map fun (v, rest) => ((key, v), rest)
  | _ => none

/-- The pairs of an inline table, which stands on one line and ends without a comma. -/
def scanPairs (scan : ScanValue) : Nat → Entries → List Char → Scanned Value
  | 0, _, _ => none
  | steps + 1, entries, cs =>
    match scanPair scan cs with
    | none => none
    | some (((path, name), v), rest) =>
      match entries.define? path name v .header with
      | none => none
      | some entries =>
        match skipBlanks rest with
        | ',' :: rest => scanPairs scan steps entries rest
        | '\x7d' :: rest => some (.table (Node.entriesToValue entries), rest)
        | _ => none

/-- A value with arrays and inline tables at most `depth` deep in it. -/
def scanValue : Nat → ScanValue
  | depth, '[' :: rest =>
    match depth with
    | 0 => none
    | depth + 1 => scanItems (scanValue depth) (rest.length + 1) [] rest
  | depth, '\x7b' :: rest =>
    match depth with
    | 0 => none
    | depth + 1 =>
      match skipBlanks rest with
      | '\x7d' :: rest => some (.table [], rest)
      | rest => scanPairs (scanValue depth) (rest.length + 1) [] rest
  | _, cs =>
    match scanString? cs with
    | some scanned => scanned.map fun (text, rest) => (.string text, rest)
    | none => scanWord cs

/-- A document that is being read. -/
structure Draft where
  root : Entries := []
  /-- The path of the open table; of an array of tables the last one is open. -/
  current : List String := []

namespace Draft

/-- Changes the open table. -/
def changeCurrent? (d : Draft) (f : Entries → Option Entries) : Option Draft := do
  return { d with root := ← d.root.change? false (fun _ entries => f entries) d.current .header }

def header? (d : Draft) (cs : List Char) : Option (Draft × List Char) :=
  match cs with
  | '[' :: cs =>
    match scanKey (nestingLimit - 1) [] cs with
    | some ((path, name), ']' :: ']' :: rest) => do
      return ({ root := ← d.root.appendTable? path name, current := path ++ [name] },
        ← endLine? rest)
    | _ => none
  | cs =>
    match scanKey (nestingLimit - 1) [] cs with
    | some ((path, name), ']' :: rest) => do
      return ({ root := ← d.root.openTable? path name, current := path ++ [name] },
        ← endLine? rest)
    | _ => none

def pair? (d : Draft) (cs : List Char) : Option (Draft × List Char) := do
  let (((path, name), v), rest) ← scanPair (scanValue (nestingLimit - 1)) cs
  return (← d.changeCurrent? (·.define? path name v .header), ← endLine? rest)

/-- Reads on, at most `steps` lines. -/
def read? : Nat → Draft → List Char → Option Draft
  | 0, _, _ => none
  | steps + 1, d, cs =>
    match skipBreaks false cs with
    | [] => some d
    | '[' :: rest =>
      match d.header? rest with
      | none => none
      | some (d, rest) => read? steps d rest
    | cs =>
      match d.pair? cs with
      | none => none
      | some (d, rest) => read? steps d rest

end Draft

/-- The entries of the root table of a document. A byte order mark in front is skipped. -/
def parse (text : String) : Option (List (String × Value)) :=
  let cs := match text.toList with
    | '\ufeff' :: rest => rest
    | cs => cs
  (Draft.read? (cs.length + 1) {} cs).map fun d => Node.entriesToValue d.root

end ContractCheck.Toml
