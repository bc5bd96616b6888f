import ContractCheck.CommandLine.Run
import ContractCheck.Solver.Spawned

/-!
The command line on a machine of shells.
-/

namespace ContractCheck.CommandLine

def run (args : List String) (w : Workspace) : Result := runOn Shell.Child args w

end ContractCheck.CommandLine
