import Schematron.Text.Blank
import Schematron.Validation.Svrl

/-!
# Reports

What a document in the validation report language says: the fired assertions, sorted into errors
and warnings by their flags, each list in document order. A report with errors is not valid;
warnings count unless they are suppressed.
-/

namespace Schematron.Validation

open Schema
open Xml (Document NodeId)

/-- A fired assertion as it is reported. -/
structure Finding where
  channel : Channel
  kind : AssertionKind
  message : String
  location : String
  test : String
  id : Option String
  role : Option String
  diagnostics : List String
  deriving DecidableEq, Repr, Inhabited

/-- The findings about a document, whether warnings are suppressed, and the text that the report
was read from. -/
structure Report where
  errors : List Finding
  warnings : List Finding
  suppressWarnings : Bool
  svrl : String
  deriving DecidableEq, Repr, Inhabited

/-! ## Reading -/

namespace Finding

/-- The kind of assertions that an element reports. -/
def kindOf? (doc : Document) (node : NodeId) : Option AssertionKind :=
  if doc.isElement node then
    [AssertionKind.assert, .report].find? fun kind =>
      (doc.name? node).any (·.isIn Svrl.reportNamespace kind.reportElement)
  else none

/-- The channel of an assertion without a flag. -/
def defaultChannel : AssertionKind → Channel
  | .assert => .error
  | .report => .warning

/-- The normalized texts of the children of a name. -/
def childTexts (doc : Document) (node : NodeId) (localPart : String) : List String :=
  ((doc.elementChildren node).filter fun child =>
    (doc.name? child).any (·.isIn Svrl.reportNamespace localPart)).map fun child =>
      Text.normalize (doc.stringValue child)

/-- The finding that a node reports. -/
def read? (doc : Document) (node : NodeId) : Option Finding :=
  (kindOf? doc node).map fun kind =>
    { channel := ((doc.attribute? node "flag").bind Channel.ofFlag?).getD (defaultChannel kind)
      kind
      message := (childTexts doc node "text").head?.getD ""
      location := (doc.attribute? node "location").getD ""
      test := (doc.attribute? node "test").getD ""
      id := doc.attribute? node "id"
      role := doc.attribute? node "role"
      diagnostics := childTexts doc node "diagnostic-reference" }

/-- The findings of a document. -/
def readAll (doc : Document) : List Finding := (List.range doc.size).filterMap (read? doc)

end Finding

namespace Report

/-- Reads a report from its document. -/
def ofSvrl (suppressWarnings : Bool) (doc : Document) : Report :=
  let findings := Finding.readAll doc
  { errors := findings.filter (·.channel == .error)
    warnings := findings.filter (·.channel == .warning)
    suppressWarnings
    svrl := doc.toXml }

/-- The report about a run of a program. -/
def ofRecord (suppressWarnings : Bool) (program : Program) (record : Record) : Report :=
  ofSvrl suppressWarnings (Svrl.document program record)

/-! ## Verdicts -/

/-- The verdict when warnings are suppressed or not. -/
def isValidWith (report : Report) (suppressWarnings : Bool) : Bool :=
  report.errors.isEmpty && (report.warnings.isEmpty || suppressWarnings)

/-- The verdict. -/
def isValid (report : Report) : Bool := report.isValidWith report.suppressWarnings

/-- The messages of the errors. -/
def errorMessages (report : Report) : List String := report.errors.map (·.message)

/-- The messages of the warnings that count. -/
def countedWarnings (report : Report) : List String :=
  if report.suppressWarnings then [] else report.warnings.map (·.message)

/-- A header followed by the messages of all findings that count, each with a line feed. -/
def failureMessage (report : Report) (header : String) : String :=
  header ++ String.join ((report.errorMessages ++ report.countedWarnings).map (· ++ "\n"))

end Report

end Schematron.Validation
