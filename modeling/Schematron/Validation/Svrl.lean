import Schematron.Validation.Run
import Schematron.Xml.Writer

/-!
# The report language

The record of a run is written as a document in the validation report language: one element under
the root for each namespace of the schema and for each thing that happened, in order.
-/

namespace Schematron.Schema.AssertionKind

/-- The name of the element that reports a fired assertion. -/
def reportElement : AssertionKind → String
  | assert => "failed-assert"
  | report => "successful-report"

end Schematron.Schema.AssertionKind

namespace Schematron.Validation.Svrl

open Schema
open Xml (Document Name Tree)

/-- The namespace of reports. -/
def reportNamespace : String := "http://purl.oclc.org/dsdl/svrl"

/-- The name of an element of a report. -/
def elementName (localPart : String) : Name := .qualified "svrl" localPart reportNamespace

/-- Attributes without namespace; those without a value are left out. -/
def attributes (values : List (String × Option String)) : List (Name × String) :=
  values.filterMap fun (key, value) => value.map fun value => (Name.plain key, value)

/-- An element of a report. -/
def element (localPart : String) (values : List (String × Option String))
    (children : List Tree := []) : Tree :=
  .element (elementName localPart) [] (attributes values) children

/-- An element that holds a text. -/
def textElement (value : String) : Tree := element "text" [] [.text value]

/-- The element of a fired assertion. -/
def ofFiring (firing : Firing) : Tree :=
  let assertion := firing.assertion
  element assertion.kind.reportElement
    [("test", some assertion.test.source), ("location", some firing.location),
      ("flag", some assertion.channel.flag), ("id", assertion.id), ("role", assertion.role)]
    ((firing.diagnostics.map fun (id, text) =>
        element "diagnostic-reference" [("diagnostic", some id)] [textElement text]) ++
      [textElement firing.message])

/-- The element of an event. -/
def ofEvent : Event → Tree
  | .activePattern pattern =>
    element "active-pattern" [("id", pattern.id), ("name", pattern.title)]
  | .firedRule rule =>
    element "fired-rule"
      [("context", some rule.context.source), ("id", rule.id), ("role", rule.role),
        ("flag", rule.flag)]
  | .firing firing => ofFiring firing

/-- The element of a namespace that the schema binds to a prefix. -/
def ofNamespace (pre uri : String) : Tree :=
  element "ns-prefix-in-attribute-values" [("prefix", some pre), ("uri", some uri)]

/-- The tree of the report about a run of a program. -/
def ofRecord (program : Program) (record : Record) : Tree :=
  .element (elementName "schematron-output") [⟨some "svrl", reportNamespace⟩]
    (attributes
      [("title", program.title), ("phase", program.phase), ("schemaVersion", program.version)])
    ((program.namespaces.map fun (pre, uri) => ofNamespace pre uri) ++
      record.events.map ofEvent)

/-- The document of the report about a run of a program. -/
def document (program : Program) (record : Record) : Document :=
  Document.empty.graftAll Document.rootNode [ofRecord program record]

end Schematron.Validation.Svrl
