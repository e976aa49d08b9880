import DmaBurst.Bytes
import DmaBurst.Fault
import DmaBurst.Text.Basic

namespace DmaBurst

namespace Path

/-- The path of `file` seen from `dir`; an absolute file stands for itself. -/
def join (dir file : String) : String :=
  if dir = "" ∨ file.startsWith "/" then file
  else if dir.endsWith "/" then dir ++ file
  else dir ++ "/" ++ file

def queueFile (dir pre : String) (index : Nat) : String :=
  join dir (pre ++ toString index ++ ".dat")

def parts (path : String) : List String :=
  ((Text.splitAt '/' path.toList).filter (· ≠ [])).map String.ofList

/-- The names to follow along a path. A slash at the end asks for a directory. -/
def names (path : String) : List String :=
  parts path ++ if path.endsWith "/" then ["."] else []

end Path

/-- A place in the tree: the names that lead there from the working directory. The names `/` and
`..` in front lead to the root and above the working directory. -/
abbrev Place := List String

structure FileTree where
  files : List (Place × Bytes) := []
  dirs : List Place := []
  deriving Repr

inductive Occupant where
  | file (content : Bytes)
  | directory
  | nothing

namespace Place

def parent (p : Place) : Place :=
  match p.getLast? with
  | none | some ".." => p ++ [".."]
  | some "/" => p
  | some _ => p.dropLast

def enter (p : Place) (name : String) : Place :=
  if name = "." then p
  else if name = ".." then p.parent
  else p ++ [name]

def origin (path : String) : Place :=
  if path.startsWith "/" then ["/"] else []

def stepsFrom : Place → List String → List Place
  | p, [] => [p]
  | p, name :: rest => p :: stepsFrom (p.enter name) rest

def steps (path : String) : List Place :=
  stepsFrom (origin path) (Path.names path)

def path : Place → String
  | [] => "."
  | "/" :: names => "/" ++ "/".intercalate names
  | names => "/".intercalate names

end Place

namespace FileTree

/-- The working directory, and every directory that it lies in, are there. -/
def occupant (t : FileTree) (p : Place) : Occupant :=
  if p = ["/"] ∨ p.all (· = "..") ∨ p ∈ t.dirs then .directory
  else (t.files.lookup p).elim .nothing .file

/-- Follows the names of a path; all but the last lead through directories. -/
def follow (t : FileTree) : Place → List String → Except IoError Place
  | p, [] => .ok p
  | p, name :: rest =>
    match t.occupant p with
    | .file _ => .error .notDirectory
    | .nothing => .error .notFound
    | .directory =>
      if 255 < name.utf8ByteSize then .error .nameTooLong
      else t.follow (p.enter name) rest

def place (t : FileTree) (path : String) : Except IoError Place := do
  if path.toList.contains '\x00' then throw .nulInName
  if path = "" then throw .notFound
  if 4096 ≤ path.utf8ByteSize then throw .nameTooLong
  t.follow (Place.origin path) (Path.names path)

def find (path : String) (t : FileTree) : Except IoError Occupant := do
  match t.occupant (← t.place path) with
  | .nothing => .error .notFound
  | there => .ok there

def write (p : Place) (content : Bytes) (t : FileTree) : FileTree :=
  { t with files := (p, content) :: t.files.filter (·.1 ≠ p) }

def addDir (p : Place) (t : FileTree) : FileTree :=
  { t with dirs := if p ∈ t.dirs then t.dirs else p :: t.dirs }

def create (path : String) (t : FileTree) : Except IoError (Place × FileTree) := do
  let p ← t.place path
  match t.occupant p with
  | .directory => .error .isDirectory
  | _ => .ok (p, t.write p [])

def readText (path : String) (t : FileTree) : Except IoError String := do
  match ← t.find path with
  | .file content =>
    match String.fromUTF8? ⟨content.toArray⟩ with
    | some text => .ok text
    | none => .error .notUtf8
  | _ => .error .isDirectory

def addDirs (path : String) (t : FileTree) : FileTree :=
  (Place.steps path).foldl (fun t p => t.addDir p) t

def addFile (path : String) (content : Bytes) (t : FileTree) : FileTree :=
  let steps := Place.steps path
  (steps.dropLast.foldl (fun t p => t.addDir p) t).write (steps.getLastD []) content

end FileTree

end DmaBurst
