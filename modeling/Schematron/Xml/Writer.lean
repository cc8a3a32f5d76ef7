import Schematron.Xml.Tree
import Schematron.Xml.Reference

/-!
# Writing documents

An element is written with its own declarations, followed by a declaration for each of its names
whose namespace is not yet bound to the name's prefix. An element without children is written as
an empty tag.
-/

namespace Schematron.Xml

namespace Tree

/-- The declarations of an element with the one that a name needs: none if the prefix already
stands for the namespace of the name there or further out, or if the element declares it. -/
def bind (outer declared : List Declaration) (name : Name) : List Declaration :=
  if name.pre == some "xml" || name.uri == some xmlNamespace then declared
  else
    let wanted := name.uri.getD ""
    let bound := ((declared ++ outer).find? (·.pre == name.pre)).elim "" (·.uri)
    if bound != wanted && !declared.any (·.pre == name.pre) then
      declared ++ [⟨name.pre, wanted⟩]
    else declared

/-- The declarations that an element is written with. -/
def writtenDeclarations (outer declarations : List Declaration) (name : Name)
    (attributes : List (Name × String)) : List Declaration :=
  (attributes.map (·.1)).foldl
    (fun declared name => if name.pre.isSome then bind outer declared name else declared)
    (bind outer declarations name)

/-- An attribute as it is written, with the space before it. -/
def writeAttribute (key value : String) : String :=
  " " ++ key ++ "=\"" ++ Reference.escape value ++ "\""

/-- The key of a declaration. -/
def declarationKey (d : Declaration) : String :=
  match d.pre with
  | some pre => "xmlns:" ++ pre
  | none => "xmlns"

mutual

/-- Writes a tree at the end of a text, inside elements that put `outer` in scope. -/
def write (outer : List Declaration) (out : String) : Tree → String
  | element name declarations attributes children =>
    let declared := writtenDeclarations outer declarations name attributes
    let out := declared.foldl
      (fun out d => out ++ writeAttribute (declarationKey d) d.uri) (out ++ "<" ++ name.written)
    let out := attributes.foldl
      (fun out (name, value) => out ++ writeAttribute name.written value) out
    match children with
    | [] => out ++ "/>"
    | child :: rest =>
      writeAll (declared ++ outer) (write (declared ++ outer) (out ++ ">") child) rest
        ++ "</" ++ name.written ++ ">"
  | text value => out ++ Reference.escape value
  | comment value => out ++ "<!--" ++ value ++ "-->"

/-- Writes trees one after the other. -/
def writeAll (outer : List Declaration) (out : String) : List Tree → String
  | [] => out
  | tree :: rest => writeAll outer (write outer out tree) rest

end

end Tree

namespace Document

/-- The text of a document. -/
def toXml (doc : Document) : String := Tree.writeAll [] "" doc.forest

end Document

end Schematron.Xml
