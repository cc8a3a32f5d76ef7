import Schematron.Main
import Schematron.Validation.Ingest
import Schematron.Proofs.Resource.Resolvers
import Schematron.Proofs.Schema.Comments
import Schematron.Proofs.Schema.Concrete
import Schematron.Proofs.Schema.Extension
import Schematron.Proofs.Schema.ParameterWarnings
import Schematron.Proofs.Schema.SelfContained
import Schematron.Proofs.Schema.VariableReferences
import Schematron.Proofs.Validation.Composition
import Schematron.Proofs.Validation.Findings
import Schematron.Proofs.Validation.FirstMatch
import Schematron.Proofs.Validation.History
import Schematron.Proofs.Validation.LexicalScope
import Schematron.Proofs.Validation.Phases
import Schematron.Proofs.Validation.ReportText
import Schematron.Proofs.Validation.Requests
import Schematron.Proofs.Validation.Scope
import Schematron.Proofs.Validation.Verdicts
import Schematron.Proofs.XPath.Anchoring
import Schematron.Proofs.XPath.Comparisons
import Schematron.Proofs.XPath.DistinctLocations
import Schematron.Proofs.XPath.Location
import Schematron.Proofs.XPath.NodeSets
import Schematron.Proofs.XPath.PrintRoundTrip
import Schematron.Proofs.XPath.Spacing
import Schematron.Proofs.XPath.StaticChecks
import Schematron.Proofs.Xml.Copying
import Schematron.Proofs.Xml.Declaring
import Schematron.Proofs.Xml.DocumentOrder
import Schematron.Proofs.Xml.Preorder
import Schematron.Proofs.Xml.Reachable
import Schematron.Proofs.Xml.Resolution
import Schematron.Proofs.Xml.RoundTrip
import Schematron.Proofs.Xml.Tags
