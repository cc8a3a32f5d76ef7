import Schematron.Resource.Resolver

/-!
# Volumes

A volume holds files in folders, and has a working folder that relative paths start from. A path
is followed segment by segment: `.` and an empty segment stay in a folder, `..` leads to the
folder around it, which for the top is the top itself.
-/

namespace Schematron.Resource

/-- A file, which tells what reading it gives, or a folder of files and folders by name. -/
inductive FileTree where
  | file (content : Except FileFault ByteArray)
  | folder (entries : List (String × FileTree))
  deriving Inhabited

namespace FileTree

/-- A folder without entries. -/
def empty : FileTree := folder []

/-- Puts an entry under a name. -/
def put (entries : List (String × FileTree)) (name : String) (tree : FileTree) :
    List (String × FileTree) :=
  (name, tree) :: entries.filter (·.1 != name)

/-- Puts a tree at a path, and makes the folders that lead there; a file in the way is
replaced. -/
def insert : (tree : FileTree) → (path : List String) → (content : FileTree) → FileTree
  | _, [], content => content
  | tree, name :: path, content =>
    let entries :=
      match tree with
      | folder entries => entries
      | file _ => []
    folder (put entries name (insert ((entries.lookup name).getD empty) path content))

/-- Makes a folder at a path, unless something is there. -/
def makeFolder : (tree : FileTree) → (path : List String) → FileTree
  | file content, _ => file content
  | folder entries, [] => folder entries
  | folder entries, name :: path =>
    folder (put entries name (makeFolder ((entries.lookup name).getD empty) path))

/-- A name is that of an XML document: it ends in `.xml`, after at least one character. -/
def isXmlName (name : String) : Bool := name.endsWith ".xml" && name != ".xml"

mutual

/-- The paths and contents of the XML documents in and below a folder at a path, in the order of
their names. -/
def xmlFiles (path : String) : FileTree → List (String × Except FileFault ByteArray)
  | file _ => []
  | folder entries =>
    ((xmlFilesOfAll (if path.endsWith "/" then path else path ++ "/") entries).mergeSort
      fun a b => decide (a.1 ≤ b.1)).flatMap (·.2)

/-- For each entry of a folder its name with the XML documents that it holds. -/
def xmlFilesOfAll (path : String) :
    List (String × FileTree) → List (String × List (String × Except FileFault ByteArray))
  | [] => []
  | (name, file content) :: rest =>
    (name, if isXmlName name then [(path ++ name, content)] else []) :: xmlFilesOfAll path rest
  | (name, folder entries) :: rest =>
    (name, xmlFiles (path ++ name) (folder entries)) :: xmlFilesOfAll path rest

end

end FileTree

/-- Files with the path of the working folder from the top. -/
structure Volume where
  top : FileTree
  workingFolder : List String

namespace Volume

/-- One segment further: the trees on the way from the top, the last one first. -/
def follow (way : List FileTree) (segment : String) : Except FileFault (List FileTree) :=
  match way with
  | .folder entries :: outer =>
    if segment == "" || segment == "." then .ok way
    else if segment == ".." then .ok (if outer.isEmpty then way else outer)
    else
      match entries.lookup segment with
      | some tree => .ok (tree :: way)
      | none => .error .missing
  | _ => .error .throughFile

/-- A path is followed from the top. -/
def isAbsolute (path : String) : Bool := path.startsWith "/"

/-- What stands at a path. -/
def look (volume : Volume) (path : String) : Except FileFault FileTree := do
  if path.isEmpty then .error .missing
  else
    let start := if isAbsolute path then [] else volume.workingFolder
    let way ← (start ++ segments path).foldlM follow [volume.top]
    match way with
    | tree :: _ => .ok tree
    | [] => .error .missing

/-- The content of the file at a path. -/
def read (volume : Volume) (path : String) : Except FileFault ByteArray := do
  match ← volume.look path with
  | .file content => content
  | .folder _ => .error .isFolder

/-- What reading the file at a path gives, if there is one. -/
def file? (volume : Volume) (path : String) : Option (Except FileFault ByteArray) :=
  match volume.look path with
  | .ok (.file content) => some content
  | _ => none

/-- A path in a folder. -/
def join (folder name : String) : String :=
  if folder.isEmpty || isAbsolute name then name
  else if folder.endsWith "/" then folder ++ name
  else folder ++ "/" ++ name

/-- The resources in and below the folder at a path. -/
def resolver (volume : Volume) (root : String) : Resolver :=
  .ofDirectory fun segments => volume.file? (join root (String.intercalate "/" segments))

end Volume

end Schematron.Resource
