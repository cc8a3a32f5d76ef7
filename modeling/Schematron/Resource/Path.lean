import Schematron.Text.Blank

/-!
# Resource paths

A resource is named by a path of segments. The normal form of a path has no empty segments, no
`.`, and `..` at its beginning only.
-/

namespace Schematron.Resource

/-- The segments between slashes. -/
def segments (path : String) : List String :=
  (Text.splitAt (· == '/') path.toList).map String.ofList

/-- Adds a segment to a normal path, whose segments are kept last first. -/
def addSegment (path : List String) (segment : String) : List String :=
  if segment == "" || segment == "." then path
  else if segment == ".." then
    match path with
    | [] => [segment]
    | last :: rest => if last == ".." then segment :: path else rest
  else segment :: path

/-- The segments of the normal form of a path. -/
def normalSegments (path : String) : List String :=
  ((segments path).foldl addSegment []).reverse

/-- The normal form of a path. -/
def normalizePath (path : String) : String := String.intercalate "/" (normalSegments path)

/-- The path that a reference means in a resource: it starts where the resource is, or, with a
slash at its beginning, at the top. -/
def joinPath (base reference : String) : String :=
  match reference.toList with
  | '/' :: _ => normalizePath reference
  | _ =>
    match (segments base).dropLast with
    | [] => normalizePath reference
    | folders => normalizePath (String.intercalate "/" (folders ++ [reference]))

end Schematron.Resource
