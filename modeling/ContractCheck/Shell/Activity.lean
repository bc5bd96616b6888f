import ContractCheck.Shell.Machine

/-!
What a process does on a machine. It goes on until it has a result or pauses: to let others go
first, until a time has come, or until something has happened on the machine. A pause keeps the
rest of what the process does. Pauses can be taken up finitely often, which makes every activity a
finite tree; `patience` is how often a process looks again for what it waits for.
-/

namespace ContractCheck.Shell

inductive Activity (α : Type) where
  | finished (result : α) (machine : Machine)
  /-- A pause, perhaps until `wake`. If `yielded` is set nothing is waited for. -/
  | paused (machine : Machine) (wake : Option Nat) (yielded : Bool)
      (resume : Machine → Activity α)

namespace Activity

variable {α β : Type}

def bind (a : Activity α) (f : α → Machine → Activity β) : Activity β :=
  match a with
  | .finished result machine => f result machine
  | .paused machine wake yielded resume =>
    .paused machine wake yielded fun m => (resume m).bind f

def machine : Activity α → Machine
  | .finished _ m => m
  | .paused m _ _ _ => m

def result? : Activity α → Option α
  | .finished result _ => some result
  | .paused _ _ _ _ => none

def wake? : Activity α → Option Nat
  | .finished _ _ => none
  | .paused _ wake _ _ => wake

/-- Changes the machine. -/
def onMachine (change : Machine → Machine) : Activity α → Activity α
  | .finished result m => .finished result (change m)
  | .paused m wake yielded resume => .paused (change m) wake yielded resume

/-- Goes on through all pauses that wait for nothing. -/
def settle : Activity α → Activity α
  | .paused m _ true resume => settle (resume m)
  | a => a

/-- Takes up a pause on a machine that may have changed. -/
def resumeOn (m : Machine) : Activity α → Activity α
  | .paused _ _ _ resume => resume m
  | .finished result _ => .finished result m

end Activity

def MachineM (α : Type) : Type := Machine → Activity α

instance : Monad MachineM where
  pure result := fun m => .finished result m
  bind act f := fun m => (act m).bind f

/-- How often something is looked for again. -/
def patience : Nat := 0x100000

/-- The earlier of two times. -/
def earlier : Option Nat → Option Nat → Option Nat
  | some a, some b => some (min a b)
  | none, b => b
  | a, none => a

namespace MachineM

variable {α : Type}

def update (f : Machine → Machine) : MachineM Unit := fun m => .finished () (f m)

def ask (f : Machine → α) : MachineM α := fun m => .finished (f m) m

def step (f : Machine → α × Machine) : MachineM α := fun m => let (a, m) := f m; .finished a m

/-- Lets others go first. -/
def yield : MachineM Unit := fun m => .paused m none true (.finished ())

/-- Reads at most `limit` octets, and waits for them. -/
def readWithin (owner fd limit : Nat) : Nat → MachineM Reading
  | 0 => pure .ended
  | times + 1 => fun m =>
    match m.read owner fd limit with
    | (.blocked, m) => .paused m none false (readWithin owner fd limit times)
    | (reading, m) => .finished reading m

def read (owner fd limit : Nat) : MachineM Reading := readWithin owner fd limit patience

/-- Waits until a pipe has room. -/
def awaitRoom (owner fd : Nat) : Nat → MachineM Unit
  | 0 => pure ()
  | times + 1 => fun m =>
    if m.isFull owner fd then .paused m none false (awaitRoom owner fd times) else .finished () m

def write (owner fd : Nat) (text : Octets) : MachineM Writing := do
  if text.isEmpty then
    return if (← ask fun m => m.file? owner fd).isSome then .done else .failed badDescriptor
  awaitRoom owner fd patience
  step fun m => m.write owner fd text

def waitUntil (time : Nat) : Nat → MachineM Unit
  | 0 => pure ()
  | times + 1 => fun m =>
    if time ≤ m.clock then .finished () m
    else .paused m (some time) false (waitUntil time times)

def sleep (duration : Nat) : MachineM Unit := fun m =>
  waitUntil (m.clock + duration) patience m

end MachineM

/-- One of several activities that take turns. -/
inductive Turn (α : Type) where
  | done (result : α)
  /-- A pause, in which nothing is waited for if `yielded` is set. -/
  | waiting (wake : Option Nat) (yielded : Bool) (resume : MachineM α)

namespace Turn

variable {α : Type}

def ofActivity : Activity α → Turn α × Machine
  | .finished result m => (.done result, m)
  | .paused m wake yielded resume => (.waiting wake yielded resume, m)

/-- Goes on up to the next pause. -/
def step (t : Turn α) (m : Machine) : Turn α × Machine :=
  match t with
  | .done result => (.done result, m)
  | .waiting _ _ resume => ofActivity (resume m)

/-- Goes on up to the next pause that waits for something. -/
def run (t : Turn α) (m : Machine) : Turn α × Machine :=
  match t with
  | .done result => (.done result, m)
  | .waiting _ _ resume => ofActivity (resume m).settle

def wake? : Turn α → Option Nat
  | .done _ => none
  | .waiting wake _ _ => wake

def hasYielded : Turn α → Bool
  | .done _ => false
  | .waiting _ yielded _ => yielded

def result? : Turn α → Option α
  | .done result => some result
  | .waiting _ _ _ => none

/-- A turn of each, one after the other. -/
def round : List (Turn α) → Machine → List (Turn α) × Machine
  | [], m => ([], m)
  | t :: rest, m =>
    let (t, m) := t.step m
    let (rest, m) := round rest m
    (t :: rest, m)

/-- Goes on with all of them until each has a result. -/
def together : Nat → List (Turn α) → MachineM (List α)
  | 0, turns => pure (turns.filterMap result?)
  | times + 1, turns => fun m =>
    let (turns, m') := round turns m
    if turns.all fun t => t.result?.isSome then .finished (turns.filterMap result?) m'
    else if m'.events = m.events ∧ turns.all (fun t => !t.hasYielded) = true then
      let wake := turns.foldl (fun wake t => earlier wake t.wake?) none
      .paused m' wake false (together times turns)
    else together times turns m'

end Turn

end ContractCheck.Shell
