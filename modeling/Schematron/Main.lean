import Schematron.Command.Execution
import Schematron.Regex.Builtin
import Std.Time.Format

/-!
# The command line

Reads the part of the file system that a command is about into a volume, carries the command out
there, and writes what it leaves.
-/

namespace Schematron.Command

open Resource (FileFault FileTree Volume)
open Settings (ServiceSettings)

/-- Why a file cannot be read. -/
def faultOf : IO.Error → FileFault
  | .permissionDenied _ code text => ⟨code.toNat, text⟩
  | .noFileOrDirectory _ code text => ⟨code.toNat, text⟩
  | .hardwareFault code text => ⟨code.toNat, text⟩
  | _ => ⟨5, "Input/output error"⟩

/-- The file or folder at a path. Links to folders in a folder are left out, as they could lead back
to it. -/
partial def readTree? (path : String) : IO (Option FileTree) := do
  let place := (← IO.currentDir) / path
  if ← place.isDir then
    let mut entries := []
    for entry in ← place.readDir do
      let linked := (← entry.path.symlinkMetadata).type == .symlink
      unless linked && (← entry.path.isDir) do
        if let some tree ← readTree? entry.path.toString then
          entries := (entry.fileName, tree) :: entries
    return some (.folder entries)
  else if ← place.pathExists then
    try return some (.file (.ok (← IO.FS.readBinFile place)))
    catch cause => return some (.file (.error (faultOf cause)))
  else return none

/-- The segments of a path that starts at the top. -/
def fromTop (path : String) : List String :=
  (Resource.normalSegments path).dropWhile (· == "..")

/-- Adds what is at a path, with the folders that lead there. -/
def addPath (volume : Volume) (path : String) : IO Volume := do
  let start := if Volume.isAbsolute path then [] else volume.workingFolder
  let segments := start ++ Resource.segments path
  let mut top := volume.top
  for n in List.range segments.length do
    let way := String.intercalate "/" (segments.take n)
    if ← ((← IO.currentDir) / ("/" ++ way)).isDir then
      top := top.makeFolder (fromTop way)
  match ← readTree? path with
  | some tree =>
    return { volume with top := top.insert (fromTop (String.intercalate "/" segments)) tree }
  | none => return { volume with top }

/-- Adds what is at each of some paths. -/
def addPaths (volume : Volume) (paths : List String) : IO Volume := paths.foldlM addPath volume

/-- The volume with the files of settings. -/
def settingsVolume (environment : List (String × String)) (config : Option String) :
    IO Volume := do
  let here := fromTop (← IO.currentDir).toString
  let places := Settings.fixedPlaces ++ (Settings.userPlace? environment).toList ++ config.toList
  addPaths ⟨FileTree.empty.makeFolder here, here⟩ (places.flatMap Settings.candidates)

/-- The paths of the files that an action is about, besides those of settings. -/
def Action.operands : Action → List String
  | compile => []
  | validate paths _ _ => paths
  | svrl path => [path]

/-- The volume with all that an invocation can read. -/
def readVolume (invocation : Invocation) (environment : List (String × String)) :
    IO Volume := do
  let volume ← settingsVolume environment invocation.config
  match ServiceSettings.load volume environment invocation.config with
  | .ok settings =>
    let root := (invocation.override settings).root
    addPaths volume ((if root.isEmpty then "." else root) :: invocation.action.operands)
  | .error _ => return volume

/-- The variables that are set. -/
def readEnvironment : IO (List (String × String)) :=
  Settings.variableNames.filterMapM fun name =>
    return (← IO.getEnv name).map (name, ·)

/-- The time, to the second and its fractions, as seen from the meridian. -/
def readTime : IO String := do
  let now := Std.Time.DateTime.ofTimestampWithZone (← Std.Time.Timestamp.now) .UTC
  return now.format "uuuu-MM-dd'T'HH:mm:ss.SSSSSSSSSxxx"

end Schematron.Command

open Schematron.Command in
def main (arguments : List String) : IO UInt32 := do
  let environment ← readEnvironment
  let volume ←
    match Invocation.read? arguments with
    | some invocation => readVolume invocation environment
    | none => pure ⟨.empty, []⟩
  let outcome := execute arguments volume environment (← readTime)
  (← IO.getStdout).putStr outcome.output
  (← IO.getStderr).putStr outcome.errors
  return outcome.exitCode
