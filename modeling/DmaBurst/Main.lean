import DmaBurst.CommandLine.Run

namespace DmaBurst

/-- Adds what stands at a place of this machine. Reading a directory fails with code 21. -/
def FileTree.observe (t : FileTree) (p : Place) : IO FileTree := do
  match ← (IO.FS.readBinFile p.path).toBaseIO with
  | .ok content => return t.write p content.toList
  | .error (.inappropriateType _ 21 _) => return t.addDir p
  | .error _ => return t

def FileTree.observePaths (t : FileTree) (paths : List String) : IO FileTree :=
  (paths.flatMap Place.steps).eraseDups.foldlM observe t

/-- Writes the files that are new or have changed since `before`. -/
def FileTree.store (before after : FileTree) : IO Unit :=
  for (p, content) in after.files do
    unless before.files.lookup p = some content do
      IO.FS.writeBinFile p.path ⟨content.toArray⟩

/-- The files that a command may look at, as they are now. -/
def CommandLine.observed (args : List String) : IO FileTree := do
  let t ← ({} : FileTree).observePaths (configFile? args).toList
  match parse args t with
  | .ok (mode, s) => t.observePaths (dataFiles mode s)
  | .error _ => return t

end DmaBurst

open DmaBurst in
def main (args : List String) : IO UInt32 := do
  let start ← IO.monoNanosNow
  let files ← CommandLine.observed args
  let outcome := CommandLine.run args files
  files.store outcome.files
  let elapsed := (← IO.monoNanosNow) - start
  for report in outcome.reports do
    IO.println (report.line elapsed)
  IO.eprint outcome.stderr
  return .ofNat outcome.code
