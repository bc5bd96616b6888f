import ContractCheck.Shell.Child
import ContractCheck.Solver.Piped

/-!
Solvers that are spawned on a machine of shells, which stands in for the system. All that is
modelled of them is in `Piped`, for processes of any system.
-/

namespace ContractCheck.Spawned

/-- A machine's files and the solver to launch there. -/
abbrev World := Piped.World

/-- A running solver. -/
abbrev Channel := Piped.Channel Shell.Child

end ContractCheck.Spawned
