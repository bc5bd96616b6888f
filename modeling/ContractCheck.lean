import ContractCheck.Main
import ContractCheck.Json.Writer
import ContractCheck.Program.Writer
import ContractCheck.Session.Step
import ContractCheck.Solver.Scripted
import ContractCheck.Proofs.Tally
import ContractCheck.Proofs.Level
import ContractCheck.Proofs.Observed
import ContractCheck.Proofs.ReadingLaw
import ContractCheck.Proofs.SessionHistory
import ContractCheck.Proofs.VerifierRuns
import ContractCheck.Proofs.Soundness
import ContractCheck.Proofs.Untraced
import ContractCheck.Proofs.Shadow
import ContractCheck.Proofs.Grounded
import ContractCheck.Proofs.Independence
import ContractCheck.Proofs.Vocabulary
import ContractCheck.Proofs.SortsDeclared
import ContractCheck.Proofs.OneCommand
import ContractCheck.Proofs.GlobalsInForce
import ContractCheck.Proofs.GivingUp
import ContractCheck.Proofs.FirstAnswer
import ContractCheck.Proofs.Variables
import ContractCheck.Proofs.Reach
import ContractCheck.Proofs.Lexical
import ContractCheck.Proofs.ProgramJson
import ContractCheck.Proofs.Unrelated
import ContractCheck.Proofs.PureTerms
import ContractCheck.Proofs.Termination
import ContractCheck.Proofs.Divisions
import ContractCheck.Proofs.Modes
import ContractCheck.Proofs.Restart
import ContractCheck.Proofs.Launches
import ContractCheck.Proofs.ScalarMeaning
import ContractCheck.Proofs.FreshVariables
import ContractCheck.Proofs.Locations
import ContractCheck.Proofs.Climbing
import ContractCheck.Proofs.Spellings
