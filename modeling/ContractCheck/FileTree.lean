import ContractCheck.NameMap
import ContractCheck.Path

/-!
Trees of directories and files, and how a path leads through them. A path starts at the root or at
the current directory and goes on part by part: `..` leads to the parent, and every part can only
be taken from a directory.
-/

namespace ContractCheck

inductive FileTree where
  | file (content : ByteArray)
  | dir (entries : List (String × FileTree))
deriving Inhabited

/-- Why a file cannot be used. -/
inductive FileFault where
  | missing
  | notDirectory
  | isDirectory
  | nameTooLong
  | nulInName
  | notText
deriving DecidableEq, Repr

def FileFault.message : FileFault → String
  | .missing => "No such file or directory (os error 2)"
  | .notDirectory => "Not a directory (os error 20)"
  | .isDirectory => "Is a directory (os error 21)"
  | .nameTooLong => "File name too long (os error 36)"
  | .nulInName => "file name contained an unexpected NUL byte"
  | .notText => "stream did not contain valid UTF-8"

/-- The names that lead from the root to a place in a tree, the last one first. -/
abbrev Location := List String

namespace FileTree

def emptyDir : FileTree := .dir []

def isDir : FileTree → Bool
  | .dir _ => true
  | .file _ => false

def child? : FileTree → String → Option FileTree
  | .dir entries, name => entries.lookup name
  | .file _, _ => none

/-- The tree at a location. -/
def at? (root : FileTree) : Location → Option FileTree
  | [] => some root
  | name :: above => (at? root above).bind (·.child? name)

def putEntry (name : String) (t : FileTree) : List (String × FileTree) → List (String × FileTree)
  | [] => [(name, t)]
  | (other, old) :: rest =>
    if other = name then (name, t) :: rest else (other, old) :: putEntry name t rest

/-- Puts a tree below `names`, the first one at the root. Directories that are missing on the way
are made; a file on the way is replaced. -/
def plant (t : FileTree) : List String → FileTree → FileTree
  | [], _ => t
  | name :: names, .dir entries =>
    .dir (putEntry name (plant t names ((entries.lookup name).getD emptyDir)) entries)
  | name :: names, .file _ => .dir [(name, plant t names emptyDir)]

end FileTree

/-- A machine's files, seen from a current directory. -/
structure Workspace where
  root : FileTree
  current : Location

namespace Workspace

/-- The bytes that the name of a file may have. -/
def nameLimit : Nat := 255

/-- The bytes that a path may have. -/
def pathLimit : Nat := 4095

/-- Goes one part further from a location. -/
def walkPart (w : Workspace) (loc : Location) (part : String) : Except FileFault Location :=
  match w.root.at? loc with
  | none => .error .missing
  | some (.file _) => .error .notDirectory
  | some (.dir entries) =>
    if part = "" ∨ part = "." then .ok loc
    else if part = ".." then .ok loc.tail
    else if nameLimit < part.utf8ByteSize then .error .nameTooLong
    else if (entries.lookup part).isSome then .ok (part :: loc)
    else .error .missing

def walk (w : Workspace) (loc : Location) (parts : List String) : Except FileFault Location :=
  parts.foldlM w.walkPart loc

/-- Where a path starts. -/
def origin (w : Workspace) (p : Path) : Location := if p.isAbsolute then [] else w.current

/-- Refuses a path that no file can have. -/
def permit (p : Path) : Except FileFault Unit :=
  if p.text.toList.contains '\x00' then .error .nulInName
  else if p.text = "" then .error .missing
  else if pathLimit < p.text.utf8ByteSize then .error .nameTooLong
  else .ok ()

/-- The location that a path leads to. -/
def resolve (w : Workspace) (p : Path) : Except FileFault Location := do
  permit p
  w.walk (w.origin p) p.parts

def find? (w : Workspace) (p : Path) : Option FileTree :=
  match w.resolve p with
  | .ok loc => w.root.at? loc
  | .error _ => none

def exists? (w : Workspace) (p : Path) : Bool := (w.find? p).isSome

def isFile (w : Workspace) (p : Path) : Bool := (w.find? p).any (!·.isDir)

def readBytes (w : Workspace) (p : Path) : Except FileFault ByteArray := do
  match w.root.at? (← w.resolve p) with
  | some (.file content) => .ok content
  | some (.dir _) => .error .isDirectory
  | none => .error .missing

def readText (w : Workspace) (p : Path) : Except FileFault String := do
  match String.fromUTF8? (← w.readBytes p) with
  | some text => .ok text
  | none => .error .notText

/-- Writes a file at a location. -/
def store (w : Workspace) (loc : Location) (content : ByteArray) : Workspace :=
  { w with root := (FileTree.file content).plant loc.reverse w.root }

/-- Adds to the end of the file at a location. -/
def append (w : Workspace) (loc : Location) (content : ByteArray) : Workspace :=
  match w.root.at? loc with
  | some (.file old) => w.store loc (old ++ content)
  | _ => w

/-- Makes an empty file, or empties the one that is there. -/
def create (w : Workspace) (p : Path) : Except FileFault (Location × Workspace) := do
  permit p
  let reversed := p.parts.reverse
  match reversed.dropWhile (· == "") with
  | [] => .error .isDirectory
  | last :: before =>
    let dir ← w.walk (w.origin p) before.reverse
    match w.root.at? dir with
    | some (.dir entries) =>
      if reversed.head? = some "" ∨ last = "." ∨ last = ".." then .error .isDirectory
      else if nameLimit < last.utf8ByteSize then .error .nameTooLong
      else match entries.lookup last with
        | some (.dir _) => .error .isDirectory
        | _ => .ok (last :: dir, w.store (last :: dir) .empty)
    | _ => .error .notDirectory

end Workspace

end ContractCheck
