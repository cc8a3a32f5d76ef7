import Schematron.Schema.Diagnostic
import Schematron.Schema.Program
import Schematron.Schema.StageProgram
import Schematron.Schema.Vocabulary

/-!
# Skeleton compilation

A schema without references and instances is compiled to a program. Every expression is compiled
in the scope it is written in: the variables of the schema, of the phase and of the active
patterns are known everywhere, those of a rule from their place in the rule on. An abstract rule
that a rule extends is compiled in its place, as often as it is named.
-/

namespace Schematron.Schema

open Xml (Document Tree)
open XPath (Query StaticContext)

variable [Regex.Engine]

namespace Skeleton

/-- What a compilation looks up: the options, and the abstract rules and diagnostics by id. -/
structure Setting where
  options : SkeletonOptions
  abstractRules : List (String × Tree)
  diagnostics : List (String × Tree)

/-- A part that has to be there. -/
def require {α : Type} (message : String) : Option α → StageRun α
  | some x => pure x
  | none => throw (.diagnostic (.error message))

/-- A compiled expression; `what` says which one is at fault. -/
def compiled (what : String) : Except XPath.Fault Query → StageRun Query
  | .ok query => pure query
  | .error fault => throw (.diagnostic (.error (what ++ ": " ++ fault.message)))

/-! ## Variables and messages -/

/-- Compiles a variable. -/
def compileLet (names : StaticContext) (tree : Tree) : StageRun Variable := do
  let name ← require "<let> without a name" (tree.setting? "name")
  match tree.attribute? "value" with
  | some source =>
    let query ← compiled ("Invalid value of $" ++ name) (Query.compile names source)
    pure ⟨name, .expression query⟩
  | none => pure ⟨name, .literal tree.stringValue⟩

mutual

/-- The parts of a message in a child of the element that holds it. -/
def messageParts (names : StaticContext) : Tree → StageRun (List MessagePart)
  | .text value => pure [.text value]
  | .comment _ => pure []
  | .element name declarations attributes children => do
    let tree := Tree.element name declarations attributes children
    match tree.schemaName? with
    | some "value-of" =>
      let select ← require "<value-of> without a select" (tree.setting? "select")
      let query ← compiled ("Invalid value-of '" ++ select ++ "'") (Query.compile names select)
      pure [.valueOf query]
    | some "name" =>
      match tree.setting? "path" with
      | some path =>
        let query ← compiled ("Invalid name path '" ++ path ++ "'") (Query.compile names path)
        pure [.nodeName (some query)]
      | none => pure [.nodeName none]
    | _ => messagePartsOfAll names children

/-- The parts of a message in children one after the other. -/
def messagePartsOfAll (names : StaticContext) : List Tree → StageRun (List MessagePart)
  | [] => pure []
  | tree :: rest => do
    let parts ← messageParts names tree
    let others ← messagePartsOfAll names rest
    pure (parts ++ others)

end

/-- Compiles the content of an element as a message. -/
def compileMessage (names : StaticContext) (tree : Tree) : StageRun MessageTemplate := do
  pure (.ofParts (← messagePartsOfAll names tree.children))

/-! ## Rules -/

/-- A rule while it is compiled: its role and flag, and what there is of its content, with the
names that are known at this place. -/
structure RuleBody where
  names : StaticContext
  role : Option String
  flag : Option String
  lets : List Variable := []
  assertions : List Assertion := []

namespace Setting

/-- The channel that a role or flag asks for. -/
def channelOfMarker? (options : SkeletonOptions) (marker : String) : Option Channel :=
  if options.warningRoles.any (Text.equalIgnoringCase · marker) then some .warning
  else if options.errorRoles.any (Text.equalIgnoringCase · marker) then some .error
  else none

/-- The channel of an assertion: its role decides, then its flag, then its kind. -/
def channel (options : SkeletonOptions) (kind : AssertionKind) (role flag : Option String) :
    Channel :=
  match (role.bind (channelOfMarker? options)) <|> flag.bind (channelOfMarker? options) with
  | some channel => channel
  | none =>
    match kind with
    | .assert => options.assertDefault
    | .report => options.reportDefault

/-- Compiles the diagnostics that an assertion refers to. -/
def compileDiagnostics (setting : Setting) (body : RuleBody) (label : String) (tree : Tree) :
    StageRun (List DiagnosticTemplate) := do
  let ids := Text.words ((tree.attribute? "diagnostics").getD "").toList
  let found ← ids.mapM fun word => do
    let id := String.ofList word
    match setting.diagnostics.lookup id with
    | some diagnostic =>
      let message ← compileMessage body.names diagnostic
      pure (some (DiagnosticTemplate.mk id message))
    | none =>
      StageRun.warn (label ++ " references unknown diagnostic '" ++ id ++ "'")
      pure none
  pure (found.filterMap id)

/-- Warns about a flag of an assertion that is not the one of its channel. -/
def warnOfReplacedFlag (label : String) (channel : Channel) : Option String → StageRun Unit
  | some flag =>
    StageRun.warnIf (!Text.equalIgnoringCase flag channel.flag) ("flag '" ++ flag ++ "' on " ++
      label ++ " is replaced by severity marker '" ++ channel.flag ++ "'")
  | none => pure ()

/-- Compiles an assertion in the scope of a rule. -/
def compileAssertion (setting : Setting) (kind : AssertionKind) (body : RuleBody) (tree : Tree) :
    StageRun Assertion := do
  let element := kind.schemaElement
  let source ← require ("<" ++ element ++ "> without a test") (tree.setting? "test")
  let test ← compiled ("Invalid test '" ++ source ++ "'") (Query.compile body.names source)
  let label := "<" ++ element ++ " test=\"" ++ source ++ "\">"
  let role := tree.setting? "role" <|> body.role
  let flag := tree.setting? "flag"
  let channel := channel setting.options kind role (flag <|> body.flag)
  warnOfReplacedFlag label channel flag
  let message ← compileMessage body.names tree
  StageRun.warnIf message.isBlank (label ++ " has an empty message")
  let diagnostics ← setting.compileDiagnostics body label tree
  pure { kind, id := tree.setting? "id", test, channel, role, message, diagnostics }

/-- Compiles a child of a rule; `extend` compiles an abstract rule in its place. -/
def compileChild (setting : Setting) (extend : String → RuleBody → StageRun RuleBody)
    (body : RuleBody) (child : Tree) : StageRun RuleBody :=
  let assertion (kind : AssertionKind) : StageRun RuleBody := do
    let assertion ← setting.compileAssertion kind body child
    pure { body with assertions := body.assertions ++ [assertion] }
  match child.schemaName? with
  | some "let" => do
    let bound ← compileLet body.names child
    pure
      { body with
        names := body.names.withVariable bound.name
        lets := body.lets ++ [bound] }
  | some "assert" => assertion .assert
  | some "report" => assertion .report
  | some "extends" => do
    let id ← require "<extends> needs a rule attribute (href references are expanded earlier)"
      (child.setting? "rule")
    extend id body
  | some "title" | some "p" | none => pure body
  | some other => do
    StageRun.warn ("Unknown Schematron element <" ++ other ++ "> in rule ignored")
    pure body

/-- Compiles the abstract rule of an id into a rule, inside the abstract rules of a chain. As many
as `depth` more can be opened; a chain that holds all of them cannot be made longer. -/
def extend (setting : Setting) :
    (depth : Nat) → (chain : List String) → (id : String) → RuleBody → StageRun RuleBody
  | depth, chain, id, body => do
    let target ← require ("<extends> names unknown abstract rule '" ++ id ++ "'")
      (setting.abstractRules.lookup id)
    let cycle : StageFault := .diagnostic (.error
      ("Abstract rules extend each other in a cycle: " ++ String.intercalate " -> " chain ++
        " -> " ++ id))
    if chain.contains id then throw cycle
    else
      match depth with
      | 0 => throw cycle
      | depth + 1 =>
        target.children.foldlM (setting.compileChild (extend setting depth (chain ++ [id]))) body

/-- Compiles a rule of a pattern. -/
def compileRule (setting : Setting) (names : StaticContext) (pattern : String) (tree : Tree) :
    StageRun Rule := do
  let source ← require ("Rule in pattern '" ++ pattern ++ "' has no context")
    (tree.setting? "context")
  let context ← compiled ("Invalid rule context '" ++ source ++ "'")
    (Query.compilePattern names source)
  let role := tree.setting? "role"
  let flag := tree.setting? "flag"
  let extend := setting.extend setting.abstractRules.length []
  let body ← tree.children.foldlM (setting.compileChild extend) { names, role, flag }
  pure
    { id := tree.setting? "id", context, role, flag, lets := body.lets
      assertions := body.assertions }

/-- Compiles a child of a pattern, after the rules before it. -/
def compilePatternChild (setting : Setting) (names : StaticContext) (label : String)
    (rules : List Rule) (child : Tree) : StageRun (List Rule) := do
  match child.schemaName? with
  | some "rule" =>
    if child.isAbstract then pure rules
    else
      let rule ← setting.compileRule names label child
      StageRun.warnIf (rules.any (·.context.source == rule.context.source))
        ("Rule with context '" ++ rule.context.source ++ "' in pattern '" ++ label ++
          "' never fires: an earlier rule has the same context")
      pure (rules ++ [rule])
  | some "let" | some "title" | some "p" | some "param" | none => pure rules
  | some other =>
    StageRun.warn ("Unknown Schematron element <" ++ other ++ "> in pattern '" ++ label ++
      "' ignored")
    pure rules

/-- Compiles a pattern. -/
def compilePattern (setting : Setting) (names : StaticContext) (tree : Tree) :
    StageRun Pattern := do
  let id := tree.setting? "id"
  let label := id.getD "(anonymous)"
  let rules ← tree.children.foldlM (setting.compilePatternChild names label) []
  StageRun.warnIf rules.isEmpty ("Pattern '" ++ label ++ "' has no rules")
  let title := (tree.schemaChildren "title").head?.map fun t => Text.normalize t.stringValue
  pure { id, title, rules }

end Setting

/-! ## Phases -/

/-- The phase that is asked for; none if all patterns are active. -/
def selectPhase (options : SkeletonOptions) (requested : Option String) (schema : Tree) :
    StageRun (Option (String × Tree)) := do
  let requested := requested.getD options.phase
  let name :=
    if requested == "#DEFAULT" then (schema.setting? "defaultPhase").getD "#ALL" else requested
  if name == "#ALL" then pure none
  else
    let phase ← require ("Unknown phase '" ++ name ++ "'")
      ((schema.schemaChildren "phase").find? (·.setting? "id" == some name))
    pure (some (name, phase))

/-- Warns about an id of a pattern that one of the patterns before it has. -/
def warnOfDuplicate (patterns : List Tree) : Option String → StageRun Unit
  | some id =>
    StageRun.warnIf (patterns.any (·.setting? "id" == some id))
      ("Duplicate pattern id '" ++ id ++ "'")
  | none => pure ()

/-- The patterns of a schema that can be active, with warnings about others and about ids that
stand twice. -/
def concretePatterns (schema : Tree) : StageRun (List Tree) := do
  let patterns := (schema.schemaChildren "pattern").filter (!·.isAbstract)
  patterns.foldlM (fun concrete pattern => do
    match pattern.setting? "is-a" with
    | some name =>
      StageRun.warn ("Unexpanded instance of abstract pattern '" ++ name ++ "' ignored")
      pure concrete
    | none =>
      warnOfDuplicate concrete (pattern.setting? "id")
      pure (concrete ++ [pattern])) []

/-- The patterns of a schema that are active in a phase, in the order of the schema. -/
def activePatterns (phase : Option (String × Tree)) (schema : Tree) : StageRun (List Tree) := do
  let concrete ← concretePatterns schema
  match phase with
  | none => pure concrete
  | some (name, phase) =>
    let active ← (phase.schemaChildren "active").mapM fun child => do
      let id ← require ("<active> without a pattern in phase '" ++ name ++ "'")
        (child.setting? "pattern")
      StageRun.warnIf (!concrete.any (·.setting? "id" == some id))
        ("Phase '" ++ name ++ "' activates unknown pattern '" ++ id ++ "'")
      pure id
    pure (concrete.filter fun pattern => (pattern.setting? "id").any active.contains)

/-! ## Schemas -/

/-- The elements that are known as children of a schema. -/
def schemaParts : List String :=
  ["ns", "title", "p", "let", "phase", "pattern", "diagnostics", "properties", "rules"]

/-- The query binding of a schema, which has to be one of the accepted ones. -/
def readQueryBinding (options : SkeletonOptions) (schema : Tree) : StageRun (Option String) :=
  match (schema.setting? "queryBinding").map Text.lowerAscii with
  | some binding =>
    if options.queryBindings.any (Text.equalIgnoringCase · binding) then pure (some binding)
    else
      throw (.diagnostic (.error ("Unsupported queryBinding '" ++ binding ++ "' (accepted: " ++
        String.intercalate ", " options.queryBindings ++ ")")))
  | none => pure none

/-- Warns about unknown children of a schema. -/
def warnOfUnknownParts (schema : Tree) : StageRun Unit :=
  (schema.children.filterMap (·.schemaName?)).forM fun name =>
    StageRun.warnIf (!schemaParts.contains name)
      ("Unknown Schematron element <" ++ name ++ "> in <schema> ignored")

/-- The namespaces that a schema binds to prefixes, in order. -/
def readNamespaces (schema : Tree) : StageRun (List (String × String)) :=
  (schema.schemaChildren "ns").mapM fun child =>
    match child.setting? "prefix", child.setting? "uri" with
    | some pre, some uri => pure (pre, uri)
    | _, _ => throw (.diagnostic (.error "<ns> needs both a prefix and a uri"))

/-- The abstract rules of a schema by id, the last one first. -/
def readAbstractRules (schema : Tree) : StageRun (List (String × Tree)) := do
  let rules := schema.descendants.filter fun tree => tree.isSchemaElement "rule" && tree.isAbstract
  let rules ← rules.mapM fun tree => do
    pure (← require "Abstract rule without an id" (tree.setting? "id"), tree)
  pure rules.reverse

/-- The diagnostics of a schema by id, the last one first. -/
def readDiagnostics (schema : Tree) : List (String × Tree) :=
  ((schema.descendants.filter (·.isSchemaElement "diagnostic")).filterMap fun tree =>
    (tree.setting? "id").map fun id => (id, tree)).reverse

/-- Compiles the variables that all patterns share. No name stands for two of them. -/
def compileGlobals (names : StaticContext) (lets : List Tree) :
    StageRun (StaticContext × List Variable) :=
  lets.foldlM (fun (names, globals) tree => do
    let bound ← compileLet names tree
    if globals.any (·.name == bound.name) then
      throw (.diagnostic (.error ("Variable $" ++ bound.name ++ " is declared twice")))
    else pure (names.withVariable bound.name, globals ++ [bound])) (names, [])

end Skeleton

open Skeleton in
/-- Compiles a schema, for a phase if one is asked for, to a program with the path and the digest
of its source. -/
def compileSkeleton (options : SkeletonOptions) (requestedPhase : Option String)
    (resource digest : String) (schema : Document) : StageRun Program := do
  let some schema := schema.documentTree?.filter (·.isSchemaElement "schema")
    | throw (.diagnostic (.fatal "Document element is not a Schematron <schema>"))
  let queryBinding ← readQueryBinding options schema
  warnOfUnknownParts schema
  let namespaces ← readNamespaces schema
  let setting : Setting :=
    { options
      abstractRules := ← readAbstractRules schema
      diagnostics := readDiagnostics schema }
  let phase ← selectPhase options requestedPhase schema
  let patterns ← activePatterns phase schema
  let names := namespaces.foldl (fun names (pre, uri) => names.withNamespace pre uri) {}
  let lets := (schema :: (phase.map (·.2)).toList ++ patterns).flatMap (·.schemaChildren "let")
  let (names, globals) ← compileGlobals names lets
  let patterns ← patterns.mapM (setting.compilePattern names)
  let title := (schema.schemaChildren "title").head?.map fun t => Text.normalize t.stringValue
  pure
    { resource, digest, title, version := schema.setting? "schemaVersion", queryBinding
      phase := phase.map (·.1), namespaces, globals, patterns }

end Schematron.Schema
