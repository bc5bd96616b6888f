import ContractCheck.Json.Fields
import ContractCheck.Json.Parser

/-!
How a solver is launched: its command, the arguments that make it read commands from its input, and
the file that gets a copy of every command.
-/

namespace ContractCheck

structure SolverConfig where
  command : String
  args : List String
  tee : Option String
deriving DecidableEq, Repr

namespace SolverConfig

def z3 : SolverConfig := ⟨"z3", ["-in", "-smt2"], none⟩

instance : Inhabited SolverConfig := ⟨z3⟩

def withCommand (c : SolverConfig) (command : String) : SolverConfig := { c with command }

def withArgs (c : SolverConfig) (args : List String) : SolverConfig := { c with args }

def withTee (c : SolverConfig) (path : String) : SolverConfig := { c with tee := some path }

/-- The command as it would be typed. -/
def commandLine (c : SolverConfig) : String := c.command ++ " " ++ " ".intercalate c.args

/-- Fields that are left out are as for `z3`. -/
def ofJson? (j : Json) : Option SolverConfig := do
  let [command, args, tee] ← j.fields? ["command", "args", "tee"] | none
  return ⟨← Json.optional? z3.command Json.text? command,
    ← Json.optional? z3.args (fun j => do (← j.items?).mapM Json.text?) args,
    ← Json.nullable? Json.text? tee⟩

def parse (text : String) : Option SolverConfig := (Json.parse text).bind ofJson?

end SolverConfig

end ContractCheck
