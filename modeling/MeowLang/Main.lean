import MeowLang.CommandLine

/-! The program itself. It takes in the arguments, the input and the files below the working
directory, does what the arguments ask for, and then gives out what was written. -/
namespace MeowLang.Console

/-- The components of an absolute path. -/
def placeOf (path : String) : List String := (Text.split path "/").filter (· != "")

/-- Adds what stands below a directory to a tree. What cannot be read is locked, and links
to directories are not followed. -/
partial def addDirectory (directory : String) (tree : FileTree) : IO FileTree := do
  let mut tree := tree.makeDirectory (placeOf directory)
  let entries ← try (← IO.FS.realPath directory).readDir catch _ => pure #[]
  for entry in entries do
    let path := entry.path.toString
    match ← entry.path.symlinkMetadata.toBaseIO with
    | .ok { type := .dir, .. } => tree ← addDirectory path tree
    | _ =>
      match ← (IO.FS.readBinFile entry.path).toBaseIO with
      | .ok octets => tree := tree.makeFile (placeOf path) (.file octets.toList)
      | .error _ => tree := tree.makeFile (placeOf path) .locked
  return tree

/-- The files that a run can reach: those below the working directory and, if an argument
names a file elsewhere, those beside it. -/
def loadFiles (workingDirectory : String) (args : List String) : IO FileTree := do
  let mut tree ← addDirectory workingDirectory (.empty (placeOf workingDirectory))
  for arg in args do
    let directory := Path.parent (Path.normalize (Path.join workingDirectory arg))
    if arg.endsWith Path.sourceSuffix && (tree.node? (placeOf directory)).isNone then
      tree ← addDirectory directory tree
  return tree

/-- Writes the files that a run has made or changed. -/
def saveFiles (before after : FileTree) : IO Unit :=
  after.nodes.forM fun (place, node) =>
    match node with
    | .directory | .locked => pure ()
    | .file octets =>
      if before.node? place == some (.file octets) then pure ()
      else IO.FS.writeBinFile (FileTree.pathTo place) ⟨octets.toArray⟩

/-- Sixty-four bits that look like chance. -/
def mix (n : UInt64) : UInt64 :=
  let n := (n ^^^ (n >>> 30)) * 0xbf58476d1ce4e5b9
  let n := (n ^^^ (n >>> 27)) * 0x94d049bb133111eb
  n ^^^ (n >>> 31)

/-- The draws that follow from a seed, wide enough for every range of whole numbers. -/
def drawsFrom (seed n : Nat) : Nat :=
  (List.range 17).foldl (fun bits i =>
    bits * Nat.pow 2 64 + (mix (UInt64.ofNat ((seed + 17 * n + i) * 0x9e3779b97f4a7c15))).toNat) 0

end MeowLang.Console

open MeowLang in
def main (args : List String) : IO UInt32 := do
  let debug := ((← IO.getEnv "MEOWDEBUG").getD "") != ""
  let files ← Console.loadFiles (← IO.currentDir).toString args
  let input ← (← IO.getStdin).readBinToEnd
  let seed ← IO.rand 0 (Nat.pow 2 53)
  let world := { World.start files (World.linesOf input.toList) with
    clock := World.clockOfNanoseconds, draws := Console.drawsFrom seed }
  let (exit, world) := CommandLine.run debug args world
  IO.print world.output
  Console.saveFiles files world.files
  world.naps.forM fun seconds => IO.sleep (seconds * 1000.0).toUInt32
  match exit with
  | .ok code => return UInt32.ofNat code
  | .error .interrupted => return 130
  | .error h =>
    IO.eprint (Report.halt h)
    return 1
