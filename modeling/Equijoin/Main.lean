import Equijoin.CommandLine

/-! # The program

The files that a job names are read into a tree, the run is performed on the tree, and the files of
the output that it has changed are written back.
-/

set_option autoImplicit false

namespace Equijoin

def nodeOnDisk? (path : String) : IO (Option Node) := do
  try
    return some (.file (← IO.FS.readBinFile path).toList)
  catch
    | .inappropriateType .. => return some .directory
    | _ => return none

/-- The beginnings of a path, each one step longer than the one before. -/
def beginnings (path : String) : List String :=
  let pieces := Path.pieces path
  (List.range pieces.length).map fun i => String.intercalate "/" (pieces.take (i + 1))

/-- The tree with what stands on the disk at a path and at its beginnings. -/
def readInto (files : FileTree) (path : String) : IO FileTree :=
  (beginnings path).foldlM (fun files p => do
    match files.resolve p with
    | .error _ => return files
    | .ok l =>
      if (files.node? l).isSome then return files
      match ← nodeOnDisk? p with
      | some node => return files.put l node
      | none => return files) files

/-- A file that a run has changed is written to the disk, in one step. -/
def writeBack (before after : FileTree) (path : String) : IO Unit := do
  match after.read path, before.read path with
  | .ok content, earlier =>
    if earlier.toOption != some content then
      let staged := path ++ ".staged"
      IO.FS.writeBinFile staged ⟨content.toArray⟩
      IO.FS.rename staged path
  | .error _, _ => return ()

/-- The paths that a job names, and the directory of its scratch files. -/
def pathsOf (options : Options) (job : Job) : List String :=
  options.scratchParent :: job.datasets.map Dataset.path ++
    [job.output.dataPath, job.output.schemaPath]

/-- The log lines of a run, without those that only help to find errors. -/
def logLines (events : List Event) : List String :=
  (events.filterMap Event.log?).filterMap fun line =>
    if line.level = .debug then none else some s!"[{line.level.name}] {line.text}"

def reportFault (fault : Fault) : IO UInt32 := do
  IO.eprintln (Command.errorLine fault.message)
  return 1

def performOnDisk (a : Arguments) : IO UInt32 := do
  let home ← IO.currentDir
  let files ← readInto (.ofHome home.toString.utf8ByteSize) (a.taskFile.getD "")
  match a.plan 1 files with
  | .error fault => reportFault fault
  | .ok (job, options) =>
    let files ← (pathsOf options job).foldlM readInto files
    let start ← IO.monoNanosNow
    let (result, session) := job.execute options .sequential (.ofFiles files)
    writeBack files session.files job.output.dataPath
    writeBack files session.files job.output.schemaPath
    let elapsed : Duration := ⟨(← IO.monoNanosNow) - start⟩
    let (result, session) := conclude elapsed (result, session)
    (logLines session.events).forM IO.eprintln
    match result with
    | .error fault => reportFault fault
    | .ok _ => return 0

/-- What the arguments ask for is done; the result is the exit status. -/
def respond (arguments : List String) : IO UInt32 := do
  match Command.parse arguments with
  | .version =>
    IO.print Command.versionText
    return 0
  | .help =>
    IO.print Command.helpText
    return 0
  | .misuse fault =>
    IO.eprintln (Command.errorLine fault.message ++ "\n\n" ++ Command.usageText)
    return 2
  | .join a => performOnDisk a

end Equijoin

def main (arguments : List String) : IO UInt32 :=
  Equijoin.respond arguments
