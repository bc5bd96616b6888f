import ContractCheck.Failure

/-!
Line channels to a solver. What outlives one solver, such as the rest of a script or the files of
the machine, is the channel's world; every operation may change it.
-/

namespace ContractCheck

/-- How a solver ended. -/
structure ExitReport where
  success : Bool
  /-- The exit status, and whatever the solver left on its error output. -/
  status : String
deriving DecidableEq, Repr

class Transport (τ : Type) (ω : outParam Type) where
  /-- What to note before a solver is launched. -/
  announcement : ω → Option String
  launch : ω → Outcome τ × ω
  /-- Sends a line without waiting for an answer. -/
  send : String → τ → ω → Outcome Unit × τ × ω
  /-- Waits for one line of the solver's. -/
  receive : τ → ω → Outcome String × τ × ω
  /-- Closes the channel and waits for the solver to exit. -/
  shutdown : τ → ω → Outcome ExitReport × ω

end ContractCheck
