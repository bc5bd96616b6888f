import ContractCheck.FileTree
import ContractCheck.Log
import ContractCheck.Program.Reader
import ContractCheck.Solver.Config
import ContractCheck.Toml.Document

/-!
Where a run gets its inputs. Programs are JSON files. The solver is described by the manifest that
is found by climbing from the program: the nearest one above it, by the text of its path.
-/

namespace ContractCheck

/-- An input that cannot be used. -/
inductive InputFault where
  | manifest (message : String)
  | program (message : String)
deriving DecidableEq, Repr

namespace InputFault

def message : InputFault → String
  | .manifest message => message
  | .program message => message

def display : InputFault → String
  | .manifest message => "manifest error: " ++ message
  | .program message => "input error: " ++ message

/-- The diagnostic code under which faults are reported. -/
def code : InputFault → String
  | .manifest _ => "refine::manifest"
  | .program _ => "refine::input"

end InputFault

def unreadable (p : Path) (f : FileFault) : String :=
  "failed to read " ++ p.text ++ ": " ++ f.message

def malformed (p : Path) : String := "failed to parse " ++ p.text

namespace Manifest

open Toml (Value)

def fileName : String := "refine.toml"

def string? : Value → Option String
  | .string text => some text
  | _ => none

def strings? : Value → Option (List String)
  | .array items => items.mapM string?
  | _ => none

def field? {α : Type} (read : Value → Option α) : Option Value → Option (Option α)
  | none => some none
  | some v => (read v).map some

/-- What a manifest may say about the solver; it need not say anything. -/
structure SolverSection where
  command : Option String := none
  args : Option (List String) := none
  tee : Option String := none

namespace SolverSection

def ofFields? (command args tee : Option Value) : Option SolverSection := do
  return ⟨← field? string? command, ← field? strings? args, ← field? string? tee⟩

/-- The section is a table, or an array that gives its fields in order. A date and time has none of
the fields. -/
def ofValue? : Value → Option SolverSection
  | .table entries =>
    ofFields? (entries.lookup "command") (entries.lookup "args") (entries.lookup "tee")
  | .array items => ofFields? items[0]? items[1]? items[2]?
  | .datetime => some {}
  | _ => none

/-- Completes a section found in the directory `dir`. -/
def toConfig (s : SolverSection) (dir : Path) : SolverConfig :=
  ⟨s.command.getD SolverConfig.z3.command, s.args.getD SolverConfig.z3.args,
    s.tee.map fun text => (dir.join text).text⟩

end SolverSection

/-- The solver that the manifest with the given text, in the directory `dir`, asks for. -/
def parse (text : String) (dir : Path) : Option SolverConfig := do
  let entries ← Toml.parse text
  let solver ← field? SolverSection.ofValue? (entries.lookup "solver")
  return (solver.getD {}).toConfig dir

/-- Where the manifest in charge of `dir` may be, the nearest place first. -/
def candidates (dir : Path) : List Path := dir.ancestors.map fun p => p.join fileName

/-- The manifest in charge of a file or directory. -/
def find? (w : Workspace) (start : Path) : Option Path := do
  let dir ← if w.isFile start then start.parent? else some start
  (candidates dir).find? w.exists?

/-- The solver that the manifest in charge asks for, with what is to be noted in the log. -/
def load (w : Workspace) (start : Path) : Except InputFault SolverConfig × List LogRecord :=
  match find? w start with
  | none => (.ok .z3, [])
  | some path =>
    match w.readText path with
    | .error f => (.error (.manifest (unreadable path f)), [])
    | .ok text =>
      ((parse text (path.parent?.getD ⟨"."⟩)).elim (.error (.manifest (malformed path))) .ok,
        [⟨.debug, "using " ++ path.text⟩])

end Manifest

def Program.load (w : Workspace) (path : Path) : Except InputFault Program :=
  match w.readText path with
  | .error f => .error (.program (unreadable path f))
  | .ok text => (Program.parse text).elim (.error (.program (malformed path))) .ok

end ContractCheck
