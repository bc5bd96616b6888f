import ContractCheck.FileTree
import ContractCheck.Shell.Octets

/-!
The machine that shells run on: its files, the descriptors that its processes hold, pipes, a clock,
and signals on their way. What is written to a pipe can be read from it once, in order; it has
ended when no process holds its end for writing, and is broken when none holds its end for reading.
-/

namespace ContractCheck.Shell

inductive OpenFile where
  /-- Has no content and takes everything. -/
  | discard
  | readEnd (pipe : Nat)
  | writeEnd (pipe : Nat)
  | regular (place : Location) (offset : Nat) (appending : Bool)
  | directory

/-- What was written to a pipe and not read. The later part is kept the last octet first. -/
structure Pipe where
  front : Octets := []
  back : Octets := []
  /-- How many octets there are. -/
  size : Nat := 0
  /-- Whether those who write to it wait until it has room. -/
  limited : Bool := false

namespace Pipe

def content (p : Pipe) : Octets := p.front ++ p.back.reverse

def push (p : Pipe) (text : Octets) : Pipe :=
  { p with back := text.reverse ++ p.back, size := p.size + text.length }

/-- Takes the first octets away. -/
def take (p : Pipe) (limit : Nat) : Octets × Pipe :=
  let front := if p.front.length < limit then p.content else p.front
  let back := if p.front.length < limit then [] else p.back
  let text := front.take limit
  (text, { p with front := front.drop limit, back, size := p.size - text.length })

end Pipe

structure Machine where
  workspace : Workspace
  files : List (Nat × OpenFile) := []
  /-- The open files by the process that holds them and its number for them. -/
  descriptors : List ((Nat × Nat) × Nat) := []
  pipes : List (Nat × Pipe) := []
  /-- A number that nothing has yet. -/
  next : Nat := 1
  /-- The time in thousandths of a second. -/
  clock : Nat := 0
  /-- Signals that have not been seen by their processes. -/
  signals : List (Nat × Nat) := []
  /-- How often something has happened that a process may wait for. -/
  events : Nat := 0

/-- What comes of reading. -/
inductive Reading where
  | text (text : Octets)
  | ended
  | blocked
  | failed (reason : String)

/-- What comes of writing. -/
inductive Writing where
  | done
  | broken
  | failed (reason : String)

/-- How a redirection opens a file. -/
inductive OpenMode where
  | read
  | write
  /-- Writes even where files are protected from that. -/
  | overwrite
  | append
  | readWrite

/-- The number that stands for everything outside the machine. -/
def outside : Nat := 0

def badDescriptor : String := "Bad file descriptor"

def reasonOf : FileFault → String
  | .missing => "No such file or directory"
  | .notDirectory => "Not a directory"
  | .isDirectory => "Is a directory"
  | .nameTooLong => "File name too long"
  | .nulInName | .notText => "Invalid argument"

def pathOf (name : Octets) : Path := ⟨(Octets.toString? name).getD (String.ofList name)⟩

/-- Sets the value of a key. -/
def setEntry {κ α : Type} [BEq κ] (key : κ) (value : α) (l : List (κ × α)) : List (κ × α) :=
  (key, value) :: l.filter fun e => e.1 != key

namespace Machine

/-- Directories that every machine has. -/
def systemDirectories : List (List String) :=
  [["bin"], ["dev"], ["etc"], ["home"], ["proc"], ["root"], ["sbin"], ["tmp"], ["usr"],
    ["usr", "bin"], ["usr", "lib"], ["usr", "local"], ["usr", "sbin"], ["var"], ["var", "tmp"]]

/-- Makes a directory unless something is there. -/
def ensureDirectory (root : FileTree) (names : List String) : FileTree :=
  match root.at? names.reverse with
  | some _ => root
  | none => FileTree.plant .emptyDir names root

def boot (w : Workspace) : Machine where
  workspace := { w with
    root := (systemDirectories ++ [w.current.reverse]).foldl ensureDirectory w.root }

def note (m : Machine) : Machine := { m with events := m.events + 1 }

def file? (m : Machine) (owner fd : Nat) : Option OpenFile := do
  m.files.lookup (← m.descriptors.lookup (owner, fd))

def holds (m : Machine) (p : OpenFile → Bool) : Bool :=
  m.descriptors.any fun d => (m.files.lookup d.2).any p

def hasWriter (m : Machine) (pipe : Nat) : Bool :=
  m.holds fun file => match file with
    | .writeEnd p => p == pipe
    | _ => false

def hasReader (m : Machine) (pipe : Nat) : Bool :=
  m.holds fun file => match file with
    | .readEnd p => p == pipe
    | _ => false

/-- Forgets files that no process holds, and pipes that no file leads to. -/
def tidy (m : Machine) : Machine :=
  let files := m.files.filter fun f => m.descriptors.any fun d => d.2 == f.1
  let pipes := m.pipes.filter fun p => files.any fun f => match f.2 with
    | .readEnd pipe | .writeEnd pipe => pipe == p.1
    | _ => false
  { m with files, pipes }

def close (m : Machine) (owner fd : Nat) : Machine :=
  match m.descriptors.lookup (owner, fd) with
  | some _ => tidy { m.note with descriptors := m.descriptors.filter fun d => d.1 != (owner, fd) }
  | none => m

/-- Closes everything that a process holds. -/
def closeAll (m : Machine) (owner : Nat) : Machine :=
  tidy { m.note with descriptors := m.descriptors.filter fun d => d.1.1 != owner }

/-- Makes `target` stand for the same file as `source`. -/
def duplicate? (m : Machine) (owner source target : Nat) : Option Machine := do
  let file ← m.descriptors.lookup (owner, source)
  if source = target then return m
  return tidy { m.note with descriptors := setEntry (owner, target) file m.descriptors }

/-- Gives a process all that another one holds. -/
def inherit (m : Machine) (parent child : Nat) : Machine :=
  let shared := m.descriptors.filterMap fun d =>
    if d.1.1 = parent then some ((child, d.1.2), d.2) else none
  { m with descriptors := shared ++ m.descriptors }

/-- Lets a process hold a file. -/
def hold (m : Machine) (owner fd : Nat) (file : OpenFile) : Machine :=
  tidy { m.note with
    files := (m.next, file) :: m.files
    descriptors := setEntry (owner, fd) m.next m.descriptors
    next := m.next + 1 }

def newNumber (m : Machine) : Nat × Machine := (m.next, { m with next := m.next + 1 })

def newPipe (m : Machine) (limited : Bool) (text : Octets := []) : Nat × Machine :=
  (m.next, { m with
    pipes := (m.next, { front := text, size := text.length, limited }) :: m.pipes
    next := m.next + 1 })

def setFile (m : Machine) (owner fd : Nat) (file : OpenFile) : Machine :=
  match m.descriptors.lookup (owner, fd) with
  | some number => { m with files := setEntry number file m.files }
  | none => m

def contentAt (m : Machine) (place : Location) : ByteArray :=
  match m.workspace.root.at? place with
  | some (.file content) => content
  | _ => .empty

/-- Reads at most `limit` octets. -/
def read (m : Machine) (owner fd limit : Nat) : Reading × Machine :=
  match m.file? owner fd with
  | none | some (.writeEnd _) => (.failed badDescriptor, m)
  | some .discard => (.ended, m)
  | some .directory => (.failed (reasonOf .isDirectory), m)
  | some (.regular place offset appending) =>
    match (Octets.ofBytes (m.contentAt place)).drop offset with
    | [] => (.ended, m)
    | rest =>
      let text := rest.take limit
      (.text text, m.setFile owner fd (.regular place (offset + text.length) appending))
  | some (.readEnd pipe) =>
    match (m.pipes.lookup pipe).map fun p => p.take limit with
    | none => (.ended, m)
    | some ([], _) => (if m.hasWriter pipe then .blocked else .ended, m)
    | some (text, left) => (.text text, { m.note with pipes := setEntry pipe left m.pipes })

def write (m : Machine) (owner fd : Nat) (text : Octets) : Writing × Machine :=
  match m.file? owner fd with
  | none | some (.readEnd _) | some .directory => (.failed badDescriptor, m)
  | some .discard => (.done, m)
  | some (.regular place offset appending) =>
    let old := Octets.ofBytes (m.contentAt place)
    let offset := if appending then old.length else offset
    let new := old.take offset ++ List.replicate (offset - old.length) '\x00' ++ text ++
      old.drop (offset + text.length)
    let m := { m.note with workspace := m.workspace.store place (Octets.toBytes new) }
    (.done, m.setFile owner fd (.regular place (offset + text.length) appending))
  | some (.writeEnd pipe) =>
    if m.hasReader pipe then
      let p := (m.pipes.lookup pipe).getD {}
      (.done, { m.note with pipes := setEntry pipe (p.push text) m.pipes })
    else (.broken, m)

/-- The octets that a pipe has room for. -/
def pipeRoom : Nat := 0x1000

/-- Whether a descriptor leads to a pipe that has no room and is read by someone. -/
def isFull (m : Machine) (owner fd : Nat) : Bool :=
  match m.file? owner fd with
  | some (.writeEnd pipe) =>
    m.hasReader pipe && (m.pipes.lookup pipe).any fun p =>
      p.limited && pipeRoom ≤ p.size
  | _ => false

/-- The descriptor that a name in the directory of devices stands for. -/
def deviceDescriptor? (name : Octets) : Option Nat :=
  match String.ofList name with
  | "/dev/stdin" => some 0
  | "/dev/stdout" => some 1
  | "/dev/stderr" => some 2
  | text => if text.startsWith "/dev/fd/" then natural? 10 (name.drop 8) else none

/-- Opens a file. -/
def openNamed (m : Machine) (owner fd : Nat) (mode : OpenMode) (name : Octets) :
    Except FileFault Machine := do
  let path := pathOf name
  if name = "/dev/null".toList then return m.hold owner fd .discard
  match deviceDescriptor? name with
  | some source =>
    match m.duplicate? owner source fd with
    | some m => return m
    | none => throw .missing
  | none =>
    let existing := m.workspace.resolve path
    let created : Except FileFault Machine := do
      let (place, workspace) ← m.workspace.create path
      return { m with workspace }.hold owner fd (.regular place 0 false)
    match mode, existing with
    | .read, .error f => throw f
    | .read, .ok place =>
      match m.workspace.root.at? place with
      | some (.dir _) => return m.hold owner fd .directory
      | _ => return m.hold owner fd (.regular place 0 false)
    | .write, _ | .overwrite, _ => created
    | .append, .ok place | .readWrite, .ok place =>
      match m.workspace.root.at? place, mode with
      | some (.dir _), _ => throw .isDirectory
      | _, .append => return m.hold owner fd (.regular place 0 true)
      | _, _ => return m.hold owner fd (.regular place 0 false)
    | .append, .error .missing => do
      let (place, workspace) ← m.workspace.create path
      return { m with workspace }.hold owner fd (.regular place 0 true)
    | .readWrite, .error .missing => created
    | .append, .error f | .readWrite, .error f => throw f

/-- Takes away what is at a place. -/
def uproot (m : Machine) (place : Location) : Machine :=
  match place with
  | [] => m
  | name :: above =>
    match m.workspace.root.at? above with
    | some (.dir entries) =>
      let left := FileTree.dir (entries.filter fun e => e.1 != name)
      { m with workspace := { m.workspace with root := left.plant above.reverse m.workspace.root } }
    | _ => m

/-- Makes a directory; the reason if that fails. -/
def makeDirectory (m : Machine) (withParents : Bool) (path : Path) : Option String × Machine :=
  match m.workspace.resolve path with
  | .ok place =>
    if withParents && (m.workspace.root.at? place).any FileTree.isDir then (none, m)
    else (some "File exists", m)
  | .error .missing =>
    let parts := path.parts.filter fun part => part != "" && part != "."
    let above := m.workspace.walk (m.workspace.origin path) parts.dropLast
    match above, withParents with
    | .error f, false => (some (reasonOf f), m)
    | _, _ =>
      let names := (m.workspace.origin path).reverse ++ parts
      (none, { m with workspace := { m.workspace with
        root := FileTree.plant .emptyDir names m.workspace.root } })
  | .error f => (some (reasonOf f), m)

def raise (m : Machine) (target signal : Nat) : Machine :=
  { m.note with signals := m.signals ++ [(target, signal)] }

/-- The first signal for a process, which is taken away. -/
def takeSignal? (m : Machine) (owner : Nat) : Option (Nat × Machine) :=
  (m.signals.lookup owner).map fun signal =>
    (signal, { m with signals := m.signals.erase (owner, signal) })

end Machine

end ContractCheck.Shell
