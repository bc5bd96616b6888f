/-!
The arguments of the command line, and what they ask for. Options stand in any order, and flags for
a louder log anywhere.
-/

namespace ContractCheck.CommandLine

structure CheckOptions where
  input : String
  solver : Option String := none
  /-- The arguments for the solver, unless there are none. -/
  solverArgs : List String := []
  tee : Option String := none
deriving DecidableEq, Repr

inductive Request where
  | version
  | help
  | builtins
  | check (options : CheckOptions)
deriving DecidableEq, Repr

/-- What an argument looks like. -/
inductive Argument where
  /-- Two dashes: only plain arguments follow. -/
  | escape
  | long (name : String) (value : Option String)
  | short (letters : List Char)
  | plain (text : String)

def Argument.ofString (arg : String) : Argument :=
  match arg.toList with
  | ['-', '-'] => .escape
  | '-' :: '-' :: rest =>
    let name := String.ofList (rest.takeWhile (· != '='))
    match rest.dropWhile (· != '=') with
    | _ :: value => .long name (some (String.ofList value))
    | [] => .long name none
  | '-' :: letter :: letters => .short (letter :: letters)
  | _ => .plain arg

/-- What the flags in one argument ask for. -/
inductive FlagEffect where
  /-- To log more, by so many steps. -/
  | louder (steps : Nat)
  | help
  | version
  | unknown

/-- Short flags in one argument; the first one that ends the reading counts. Only the command line
itself has a version. -/
def shortFlags (top : Bool) : List Char → FlagEffect
  | [] => .louder 0
  | 'v' :: rest => match shortFlags top rest with
    | .louder n => .louder (n + 1)
    | other => other
  | 'h' :: _ => .help
  | 'V' :: _ => if top then .version else .unknown
  | _ => .unknown

def longFlag (top : Bool) (name : String) (value : Option String) : FlagEffect :=
  match name, value with
  | "verbose", none => .louder 1
  | "help", none => .help
  | "version", none => if top then .version else .unknown
  | _, _ => .unknown

/-- What has been read of a request, with how much is to be logged; nothing if the arguments are
not understood. -/
abbrev Reading := Option (Request × Nat)

/-- The arguments of `builtins`. -/
def readBuiltins (loud : Nat) : List String → Reading
  | [] => some (.builtins, loud)
  | arg :: rest =>
    let flags (effect : FlagEffect) : Reading :=
      match effect with
      | .louder n => readBuiltins (loud + n) rest
      | .help => some (.help, loud)
      | .version | .unknown => none
    match Argument.ofString arg with
    | .escape => if rest.isEmpty then some (.builtins, loud) else none
    | .long name value => flags (longFlag false name value)
    | .short letters => flags (shortFlags false letters)
    | .plain _ => none

structure CheckDraft where
  input : Option String := none
  solver : Option String := none
  solverArgs : List String := []
  tee : Option String := none

namespace CheckDraft

/-- The solver can be given once. -/
def setSolver? (d : CheckDraft) (value : String) : Option CheckDraft :=
  if d.solver.isSome then none else some { d with solver := some value }

/-- The tee file can be given once, and paths are not empty. -/
def setTee? (d : CheckDraft) (value : String) : Option CheckDraft :=
  if d.tee.isSome || value.isEmpty then none else some { d with tee := some value }

def setInput? (d : CheckDraft) (value : String) : Option CheckDraft :=
  if d.input.isSome || value.isEmpty then none else some { d with input := some value }

def addSolverArg (d : CheckDraft) (value : String) : CheckDraft :=
  { d with solverArgs := d.solverArgs ++ [value] }

/-- Sets an option by its name. -/
def set? (d : CheckDraft) (name value : String) : Option CheckDraft :=
  match name with
  | "solver" => d.setSolver? value
  | "solver-arg" => some (d.addSolverArg value)
  | "tee" => d.setTee? value
  | _ => none

def finish (d : CheckDraft) (loud : Nat) : Reading :=
  d.input.map fun input => (.check ⟨input, d.solver, d.solverArgs, d.tee⟩, loud)

end CheckDraft

def optionNames : List String := ["solver", "solver-arg", "tee"]

/-- Whether an argument can be the value of an option before it. -/
def isValueOf (name arg : String) : Bool :=
  name == "solver-arg" || match Argument.ofString arg with
    | .plain _ => true
    | _ => false

/-- The rest of the arguments of `check`, of which none is an option any more. -/
def plainRest (d : CheckDraft) (loud : Nat) : List String → Reading
  | [] => d.finish loud
  | arg :: rest => (d.setInput? arg).bind fun d => plainRest d loud rest

/-- The arguments of `check`. -/
def readCheck (d : CheckDraft) (loud : Nat) : List String → Reading
  | [] => d.finish loud
  | arg :: rest =>
    let flags (effect : FlagEffect) : Reading :=
      match effect with
      | .louder n => readCheck d (loud + n) rest
      | .help => some (.help, loud)
      | .version | .unknown => none
    match Argument.ofString arg with
    | .escape => plainRest d loud rest
    | .short letters => flags (shortFlags false letters)
    | .plain text => (d.setInput? text).bind fun d => readCheck d loud rest
    | .long name value =>
      if optionNames.contains name then
        match value, rest with
        | some value, rest => (d.set? name value).bind fun d => readCheck d loud rest
        | none, value :: rest =>
          if isValueOf name value then (d.set? name value).bind fun d => readCheck d loud rest
          else none
        | none, [] => none
      else flags (longFlag false name value)

/-- The arguments of `help`: perhaps one name of a command. -/
def readHelp (loud : Nat) : List String → Reading
  | [] => some (.help, loud)
  | [name] => if ["check", "builtins", "help"].contains name then some (.help, loud) else none
  | _ => none

/-- The request that arguments make. -/
def read (loud : Nat) : List String → Reading
  | [] => none
  | arg :: rest =>
    let flags (effect : FlagEffect) : Reading :=
      match effect with
      | .louder n => read (loud + n) rest
      | .help => some (.help, loud)
      | .version => some (.version, loud)
      | .unknown => none
    match Argument.ofString arg with
    | .escape => none
    | .long name value => flags (longFlag true name value)
    | .short letters => flags (shortFlags true letters)
    | .plain "check" => readCheck {} loud rest
    | .plain "builtins" => readBuiltins loud rest
    | .plain "help" => readHelp loud rest
    | .plain _ => none

end ContractCheck.CommandLine
