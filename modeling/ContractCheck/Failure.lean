import ContractCheck.Syntax

/-!
Why a verification stops. A failure has a kind, a message and perhaps a place in the program. On
the way out of nested contracts its message gains context, and the first place it is given stays.
-/

namespace ContractCheck

/-- What went wrong. -/
inductive Fault where
  /-- The session was used before it was started. -/
  | sessionMisuse
  /-- The channel to the solver failed. -/
  | io
  /-- The solver broke the protocol, or left a session in the wrong state. -/
  | protocol
  /-- An obligation was not proved; the solver answered something else. -/
  | refuted (answer : String)
  /-- The checker does not handle this form of expression. -/
  | unsupported
  | notAFunction
  | unbound
  /-- A contract's predicate, or a type, has no usable solver sort. -/
  | notScalar
  /-- A call has the wrong number of arguments. -/
  | arity
  /-- Contracts call each other deeper than any set of contracts without a circle can. -/
  | tooDeep
deriving DecidableEq, Repr

def Fault.describe : Fault → String
  | .sessionMisuse => "session misuse"
  | .io => "solver io"
  | .protocol => "solver protocol"
  | .refuted answer => "solver returned " ++ answer
  | .unsupported => "unsupported"
  | .notAFunction => "not a function"
  | .unbound => "unbound"
  | .notScalar => "not scalar"
  | .arity => "arity"
  | .tooDeep => "too deep"

def Fault.isRefuted : Fault → Bool
  | .refuted _ => true
  | _ => false

structure Failure where
  fault : Fault
  message : String
  span : Option Span
deriving DecidableEq, Repr

namespace Failure

def of (fault : Fault) (message : String) : Failure := ⟨fault, message, none⟩

def misuse (message : String) : Failure := of .sessionMisuse message

def io (message : String) : Failure := of .io message

def protocol (message : String) : Failure := of .protocol message

def unsupported (message : String) : Failure := of .unsupported message

def refuted (answer obligation : String) : Failure :=
  of (.refuted answer) ("solver returned " ++ answer ++ " while proving `" ++ obligation ++ "`")

/-- Gives the failure a place, unless it has one. -/
def locate (f : Failure) (span : Option Span) : Failure := { f with span := f.span.or span }

def withContext (f : Failure) (context : String) : Failure :=
  { f with message := context ++ ": " ++ f.message }

def isRefuted (f : Failure) : Bool := f.fault.isRefuted

def display (f : Failure) : String := "verification error: " ++ f.message

/-- The diagnostic code under which failures are reported. -/
def code : String := "refine::verify"

/-- The notes to attach to the program text. -/
def labels (f : Failure) : List (String × Span) :=
  f.span.toList.map fun span => (f.fault.describe, span)

/-- The place that comes first stays. -/
@[simp] theorem locate_locate (f : Failure) (s t : Option Span) :
    (f.locate s).locate t = f.locate (s.or t) := by
  simp [locate, Option.or_assoc]

@[simp] theorem span_locate (f : Failure) (s : Option Span) :
    (f.locate s).span = f.span.or s := rfl

end Failure

/-- An answer, or the failure that stood in its way. -/
abbrev Outcome := Except Failure

namespace Outcome

variable {α : Type}

def located (outcome : Outcome α) (span : Option Span) : Outcome α :=
  outcome.mapError (·.locate span)

def withContext (outcome : Outcome α) (context : String) : Outcome α :=
  outcome.mapError (·.withContext context)

/-- The outcome of a scoped action: its own failure first, then that of leaving the scope. -/
def settle (body : Outcome α) (leaving : Outcome Unit) : Outcome α :=
  match body, leaving with
  | .error f, _ => .error f
  | .ok _, .error f => .error f
  | .ok a, .ok () => .ok a

end Outcome

/-- Runs `body` between `enter` and `leave`. If `enter` fails, `body` is not run; if it does not,
`leave` is run whatever `body` does. -/
def inScope {m : Type → Type} [Monad m] {α : Type} (enter leave : ExceptT Failure m Unit)
    (body : ExceptT Failure m α) : ExceptT Failure m α := do
  enter
  let outcome ← ExceptT.lift body.run
  let leaving ← ExceptT.lift leave.run
  ExceptT.mk (pure (Outcome.settle outcome leaving))

end ContractCheck
