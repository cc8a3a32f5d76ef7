import Schematron.Resource.Path

/-!
# Resolvers

A resolver gives the bytes of the resource at a path, or says that it is not there or cannot be
read. All resolvers look at the normal form of the path only.
-/

namespace Schematron.Resource

/-! ## Faults -/

/-- Why a file cannot be read: the number of a fault of the operating system, and its text. -/
structure FileFault where
  number : Nat
  text : String
  deriving DecidableEq, Repr, Inhabited

namespace FileFault

def missing : FileFault := ⟨2, "No such file or directory"⟩

def throughFile : FileFault := ⟨20, "Not a directory"⟩

def isFolder : FileFault := ⟨21, "Is a directory"⟩

def message (fault : FileFault) : String :=
  fault.text ++ " (os error " ++ toString fault.number ++ ")"

end FileFault

/-- Why there are no bytes of a resource, which is named by its normal path: it is not there, or it
is there and cannot be read. -/
inductive ResolveFault where
  | notFound (path : String)
  | unreadable (path : String) (cause : FileFault)
  deriving DecidableEq, Repr, Inhabited

namespace ResolveFault

def message : ResolveFault → String
  | notFound path => "Resource not found: " ++ path
  | unreadable path cause => "Could not read resource " ++ path ++ ": " ++ cause.message

end ResolveFault

/-! ## Resolvers -/

/-- Where resources come from. -/
abbrev Resolver := String → Except ResolveFault ByteArray

namespace Resolver

/-- Resources that are given with their paths; of two for one path the later one counts. -/
def ofFiles (files : List (String × ByteArray)) : Resolver :=
  let known := (files.map fun (path, bytes) => (normalizePath path, bytes)).reverse
  fun path =>
    let key := normalizePath path
    match known.lookup key with
    | some bytes => .ok bytes
    | none => .error (.notFound key)

/-- The answer about a file with what reading it gives, and about a file that is not there. -/
def answer (key : String) : Option (Except FileFault ByteArray) → Except ResolveFault ByteArray
  | some (.ok bytes) => .ok bytes
  | some (.error cause) => .error (.unreadable key cause)
  | none => .error (.notFound key)

/-- Resources that a directory holds: `file?` tells what reading a file in it gives. A path that
begins with two dots is not looked for. -/
def ofDirectory (file? : List String → Option (Except FileFault ByteArray)) : Resolver :=
  fun path =>
  let key := normalizePath path
  answer key (if key.isEmpty || key.startsWith ".." then none else file? (normalSegments path))

/-- The first of several resolvers that has a resource answers, even if the resource cannot be
read. -/
def chain : List Resolver → Resolver
  | [] => fun path => .error (.notFound (normalizePath path))
  | first :: rest => fun path =>
    match first path with
    | .ok bytes => .ok bytes
    | .error (.notFound _) => chain rest path
    | .error (.unreadable key cause) => .error (.unreadable key cause)

end Resolver

end Schematron.Resource
