import ContractCheck.CommandLine

/-!
The program. A run of the command line is a function of the files that it may read: they are loaded
first, and the tee file is stored afterwards.
-/

namespace ContractCheck

namespace Main

/-- A stand-in for the current directory, deep enough for `depth` steps up. -/
def currentNames (depth : Nat) : Location :=
  (List.range depth).map fun n => "current" ++ toString n

/-- The names on the way to a path, with `..` taken back. -/
def names (current : Location) (p : Path) : List String :=
  let start := if p.isAbsolute then [] else current
  (p.parts.foldl (fun loc part =>
    if part = "" ∨ part = "." then loc
    else if part = ".." then loc.tail
    else part :: loc) start).reverse

/-- Is there a directory at this path? -/
def isDirectory (p : Path) : IO Bool := do
  match ← (IO.FS.realPath (p.text ++ "/.")).toBaseIO with
  | .ok _ => return true
  | .error _ => return false

/-- Loads what is at a path: a file with its bytes, or a directory. -/
def load (current : Location) (root : FileTree) (p : Path) : IO FileTree := do
  match ← (IO.FS.readBinFile p.text).toBaseIO with
  | .ok content => return (FileTree.file content).plant (names current p) root
  | .error _ =>
    if (root.at? (names current p).reverse).isNone && (← isDirectory p) then
      return FileTree.emptyDir.plant (names current p) root
    return root

def loadAll (current : Location) (root : FileTree) (paths : List Path) : IO FileTree :=
  paths.foldlM (load current) root

/-- The files that a check may read. -/
def workspaceFor (o : CommandLine.CheckOptions) : IO Workspace := do
  let input : Path := ⟨o.input⟩
  let given := input :: o.tee.toList.map Path.mk
  let current := currentNames (given.flatMap Path.parts).length
  let root := FileTree.emptyDir.plant current.reverse .emptyDir
  let root ← loadAll current root (input :: Manifest.candidates input)
  let w : Workspace := ⟨root, current⟩
  match (o.config w).1 with
  | .error _ => return w
  | .ok config =>
    let scripts := config.args.map Path.mk
    let tee := config.tee.toList.flatMap fun t => (Path.mk t).ancestors
    return ⟨← loadAll current root (scripts ++ tee), current⟩

/-- Stores the tee file as a run has left it. -/
def storeTee (o : CommandLine.CheckOptions) (before after : Workspace) : IO Unit := do
  match (o.config before).1 with
  | .ok ⟨_, _, some tee⟩ =>
    match after.readBytes ⟨tee⟩ with
    | .ok content => IO.FS.writeBinFile tee content
    | .error _ => return
  | _ => return

end Main

end ContractCheck

open ContractCheck in
def main (args : List String) : IO UInt32 := do
  let options := match CommandLine.read 0 args with
    | some (.check options, _) => some options
    | _ => none
  let before ← match options with
    | some options => Main.workspaceFor options
    | none => pure ⟨.emptyDir, []⟩
  let result := CommandLine.run args before
  if let some options := options then Main.storeTee options before result.workspace
  for record in result.log do
    if CommandLine.isShown result.loud record.level then
      IO.eprintln ("[" ++ record.level.name ++ "] " ++ record.text)
  IO.print result.output
  IO.eprint result.errors
  return UInt32.ofNat result.status
