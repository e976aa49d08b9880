import DmaBurst.Io.FileTree
import DmaBurst.Io.Sink
import DmaBurst.Io.Source

namespace DmaBurst

structure OpenError where
  path : String
  cause : IoError
  deriving DecidableEq, Repr

def OpenError.message (e : OpenError) : String :=
  s!"failed to open {e.path}: {e.cause.message}"

/-- A file that is written piece by piece, the last piece first, and stored when it is closed. -/
structure FileSink where
  place : Place
  pieces : List Bytes := []
  deriving DecidableEq, Repr

namespace FileSink

def write (bytes : Bytes) (s : FileSink) : FileSink :=
  { s with pieces := bytes :: s.pieces }

def content (s : FileSink) : Bytes :=
  s.pieces.reverse.flatten

def close (t : FileTree) (s : FileSink) : FileTree :=
  t.write s.place s.content

end FileSink

instance : ByteSink FileSink where
  write bytes s := (.wrote bytes.length, s.write bytes)
  flush s := (.ok (), s)
  patience _ := 0

/-- An open file, with the bytes not read yet. A directory can be opened but not read. -/
inductive FileReader where
  | file (rest : Bytes)
  | directory
  deriving DecidableEq, Repr

namespace FileReader

def read (want : Nat) : FileReader → ReadResult × FileReader
  | .file rest => (.data (rest.take want), .file (rest.drop want))
  | .directory => (.failed .isDirectory, .directory)

end FileReader

instance : ByteReader FileReader where
  read want s := s.read want
  patience _ := 0

abbrev FileSource := ReaderSource FileReader

def createFrom (dir pre : String) : (count index : Nat) → FileTree →
    Except OpenError (List FileSink) × FileTree
  | 0, _, t => (.ok [], t)
  | count + 1, index, t =>
    let path := Path.queueFile dir pre index
    match t.create path with
    | .error cause => (.error ⟨path, cause⟩, t)
    | .ok (place, t) =>
      let (sinks, t) := createFrom dir pre count (index + 1) t
      (sinks.map ({ place } :: ·), t)

/-- Creates one empty file a queue. Files that exist are emptied. -/
def createSinks (dir pre : String) (count : Nat) (t : FileTree) :
    Except OpenError (List FileSink) × FileTree :=
  createFrom dir pre count 0 t

def closeSinks (sinks : List FileSink) (t : FileTree) : FileTree :=
  sinks.foldl FileSink.close t

def openSource (dir pre : String) (packetLen index : Nat) (t : FileTree) :
    Except OpenError FileSource :=
  let path := Path.queueFile dir pre index
  match t.find path with
  | .error cause => .error ⟨path, cause⟩
  | .ok (.file content) => .ok ⟨.file content, packetLen⟩
  | .ok _ => .ok ⟨.directory, packetLen⟩

def openFrom (dir pre : String) (packetLen : Nat) (t : FileTree) :
    (count index : Nat) → Except OpenError (List FileSource)
  | 0, _ => .ok []
  | count + 1, index => do
    let source ← openSource dir pre packetLen index t
    return source :: (← openFrom dir pre packetLen t count (index + 1))

def openSources (dir pre : String) (count packetLen : Nat) (t : FileTree) :
    Except OpenError (List FileSource) :=
  openFrom dir pre packetLen t count 0

end DmaBurst
