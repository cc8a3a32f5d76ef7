import Schematron.Settings.Service
import Schematron.Text.Utf8
import Schematron.Toml.Reader

/-!
# Loading settings

The layers are, from the lowest to the highest: three files at fixed places in the working folder,
the file of the user, a file that is asked for, and the variables of the environment. Only the
file that is asked for has to be there and to be readable. A file is named with or without its
extension.
-/

namespace Schematron.Settings

open Resource (FileFault Volume)

/-- Why settings cannot be loaded. -/
inductive LoadFault where
  | missing (path : String)
  | unreadable (cause : FileFault)
  | malformed (path : String)
  | mistyped
  deriving DecidableEq, Repr

namespace LoadFault

def message : LoadFault → String
  | missing path => "configuration file \"" ++ path ++ "\" not found"
  | unreadable cause => cause.message
  | malformed path => "configuration file \"" ++ path ++ "\" is not valid"
  | mistyped => "a setting has a value of the wrong type"

end LoadFault

/-- The extension of files of settings. -/
def extension : String := ".toml"

/-- The places of the files in the working folder, the lowest layer first. -/
def fixedPlaces : List String :=
  ["schematron.toml", ".schematron.toml", "config/schematron.toml"]

/-- The value of a variable that is not empty; of two the later one counts. -/
def envValue? (environment : List (String × String)) (name : String) : Option String :=
  (environment.reverse.lookup name).filter (!·.isEmpty)

/-- The place of the file of the user. -/
def userPlace? (environment : List (String × String)) : Option String :=
  let folder :=
    (envValue? environment "XDG_CONFIG_HOME").filter Volume.isAbsolute <|>
      (envValue? environment "HOME").map (Volume.join · ".config")
  folder.map (Volume.join · "schematron/schematron.toml")

/-- The variables that a program looks up in its environment. -/
def variableNames : List String :=
  ["HOME", "XDG_CONFIG_HOME"] ++ ServiceSettings.sections.flatMap fun (name, keys) =>
    keys.map fun key => Text.upper (variableStart ++ name ++ "__" ++ key)

/-- The paths at which the file of settings that a path means can be. -/
def candidates (path : String) : List String := [path, path ++ extension]

/-- What reading the file of settings gives that a path means. -/
def findFile? (volume : Volume) (path : String) : Option (Except FileFault ByteArray) :=
  match volume.file? path with
  | some content => if path.endsWith extension then some content else none
  | none => volume.file? (path ++ extension)

/-- Reads the layer of a file. A byte order mark does not count. -/
def readLayer? (content : ByteArray) : Option Table :=
  let bytes :=
    match content.toList with
    | 0xEF :: 0xBB :: 0xBF :: rest => rest
    | bytes => bytes
  match Toml.read (Text.Utf8.decode ⟨bytes.toArray⟩) with
  | some (.table entries) => some entries
  | _ => none

/-- The layer of the file that a path means. -/
def fileLayer (volume : Volume) (required : Bool) (path : String) : Except LoadFault Table :=
  match findFile? volume path with
  | none => if required then .error (.missing path) else .ok []
  | some (.error cause) => if required then .error (.unreadable cause) else .ok []
  | some (.ok content) =>
    match readLayer? content with
    | some table => .ok table
    | none => .error (.malformed path)

/-- Loads the settings, with those of a file above the others if one is asked for. -/
def ServiceSettings.load (volume : Volume) (environment : List (String × String))
    (path : Option String) : Except LoadFault ServiceSettings := do
  let places := fixedPlaces ++ (userPlace? environment).toList
  let lower ← places.mapM (fileLayer volume false)
  let upper ← path.toList.mapM (fileLayer volume true)
  let layers := lower ++ upper ++ [environmentLayer environment]
  match ofTable? (layers.foldl Table.override []) with
  | some settings => .ok settings
  | none => .error .mistyped

end Schematron.Settings
