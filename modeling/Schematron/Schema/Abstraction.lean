import Schematron.Schema.Diagnostic
import Schematron.Schema.StageProgram
import Schematron.Schema.Substitution
import Schematron.Schema.Vocabulary

/-!
# Abstraction expansion

An instance of an abstract pattern keeps its own attributes and children and takes over the
content of the abstract pattern, in which the references to its parameters are replaced in the
attributes that the options list. Abstract patterns themselves are left out.

The content of an abstract pattern can hold instances, which are expanded when it is taken over.
Where that leads back to the same pattern the expansion has no end. An unfolding that is deeper
than there are abstract patterns has met one twice, so their number is the depth that is enough
for every schema that has an expansion.
-/

namespace Schematron.Schema

open Xml (Declaration Document Name NodeId Tree)

/-- A pattern that instances refer to: its content, and the namespaces in scope around that. -/
structure AbstractPattern where
  name : String
  scope : List Declaration
  content : List Tree

/-- An instance of an abstract pattern. -/
structure Instance where
  name : String
  pattern : AbstractPattern
  parameters : Parameters

namespace Abstraction

/-- What an expansion looks up: the options, the abstract patterns, the ids of all other patterns
and the names of all variables. -/
structure Setting where
  options : AbstractionOptions
  abstracts : List AbstractPattern
  concrete : List String
  variableNames : List String

/-- A part of an expansion. The instances are kept in the order in which they are completed. -/
abbrev Expansion := StateT (List Instance) (Except StageFault)

namespace Setting

/-- The abstract pattern of a name; of two the later one counts. -/
def pattern? (setting : Setting) (name : String) : Option AbstractPattern :=
  setting.abstracts.reverse.find? (·.name == name)

/-- The element is an abstract pattern that is left out. -/
def leavesOut (setting : Setting) (tree : Tree) : Bool :=
  setting.options.removeAbstract && tree.isSchemaElement "pattern" && tree.isAbstract

/-- The name of the pattern that an element is an instance of. -/
def instanceOf? (tree : Tree) : Option String :=
  if tree.isSchemaElement "pattern" then tree.setting? "is-a" else none

/-- References to parameters are replaced in this attribute. -/
def takesParameters (setting : Setting) (name : Name) : Bool :=
  name.uri.isNone && setting.options.paramAttributes.contains name.localPart

/-- The parameters that the children of an instance give. -/
def readParameters (instanceName : String) (children : List Tree) :
    Except Diagnostic Parameters :=
  (children.filter (·.isSchemaElement "param")).mapM fun child =>
    match child.setting? "name" with
    | some name => .ok (name, (child.attribute? "value").getD "")
    | none =>
      .error (.error ("Parameter without a name in pattern '" ++ instanceName ++ "'"))

/-- Reads an instance of the pattern of a name. -/
def readInstance (setting : Setting) (patternName : String) (tree : Tree) :
    Except Diagnostic Instance := do
  let name := (tree.setting? "id").getD "(anonymous)"
  match setting.pattern? patternName with
  | some pattern => .ok ⟨name, pattern, ← readParameters name tree.children⟩
  | none =>
    if setting.concrete.contains patternName then
      .error (.error ("Pattern '" ++ name ++ "' instantiates '" ++ patternName ++
        "', which is not an abstract pattern"))
    else
      .error (.error ("Pattern '" ++ name ++ "' instantiates unknown abstract pattern '" ++
        patternName ++ "'"))

/-- The attributes of a copied element. Inside of the content of an abstract pattern there are
parameters. -/
def copyAttributes (setting : Setting) (parameters : Option Parameters)
    (attributes : List (Name × String)) : List (Name × String) :=
  match parameters with
  | none => attributes
  | some parameters => attributes.map fun (name, value) =>
    if setting.takesParameters name then (name, Substitution.apply parameters value)
    else (name, value)

/-- The attributes of the pattern that takes the place of an instance. -/
def instanceAttributes (attributes : List (Name × String)) : List (Name × String) :=
  attributes.filter fun (name, _) => !(name.uri.isNone && name.localPart == "is-a")

end Setting

/-! ## Copying -/

mutual

/-- Copies a tree and expands the instances in it; `unfold` gives what an instance takes over. -/
def copy (setting : Setting) (unfold : Instance → Expansion (List Tree))
    (parameters : Option Parameters) (scope : List Declaration) :
    Tree → Expansion (List Tree)
  | .element name declarations attributes children => do
    let tree := Tree.element name declarations attributes children
    if setting.leavesOut tree then pure []
    else
      match Setting.instanceOf? tree with
      | some patternName =>
        match setting.readInstance patternName tree with
        | .error d => throw (.diagnostic d)
        | .ok found =>
          let own ← copyOwn setting unfold (declarations ++ scope) children
          let taken ← unfold found
          modify (· ++ [found])
          pure [.element name (declarations ++ scope) (Setting.instanceAttributes attributes)
            (own ++ taken)]
      | none =>
        let children ← copyAll setting unfold parameters (declarations ++ scope) children
        pure [.element name declarations (setting.copyAttributes parameters attributes) children]
  | tree => pure [tree]

/-- Copies trees one after the other. -/
def copyAll (setting : Setting) (unfold : Instance → Expansion (List Tree))
    (parameters : Option Parameters) (scope : List Declaration) :
    List Tree → Expansion (List Tree)
  | [] => pure []
  | tree :: rest => do
    let copied ← copy setting unfold parameters scope tree
    let others ← copyAll setting unfold parameters scope rest
    pure (copied ++ others)

/-- Copies the children of an instance except its parameters. -/
def copyOwn (setting : Setting) (unfold : Instance → Expansion (List Tree))
    (scope : List Declaration) : List Tree → Expansion (List Tree)
  | [] => pure []
  | tree :: rest => do
    let copied ←
      if tree.isSchemaElement "param" then pure [] else copy setting unfold none scope tree
    let others ← copyOwn setting unfold scope rest
    pure (copied ++ others)

end

/-- What an instance takes over, in which patterns are unfolded to a depth. -/
def unfold (setting : Setting) : (depth : Nat) → Instance → Expansion (List Tree)
  | 0, _ => throw .endless
  | depth + 1, found =>
    copyAll setting (unfold setting depth) (some found.parameters) found.pattern.scope
      found.pattern.content

/-! ## Warnings -/

mutual

/-- The texts in a tree in which references to parameters are replaced, in order. -/
def parameterTexts (setting : Setting) : Tree → List String
  | .element name declarations attributes children =>
    let tree := Tree.element name declarations attributes children
    if setting.leavesOut tree || (Setting.instanceOf? tree).isSome then []
    else
      (attributes.filter fun (name, _) => setting.takesParameters name).map (·.2) ++
        parameterTextsOfAll setting children
  | _ => []

/-- The texts in trees in which references to parameters are replaced. -/
def parameterTextsOfAll (setting : Setting) : List Tree → List String
  | [] => []
  | tree :: rest => parameterTexts setting tree ++ parameterTextsOfAll setting rest

end

/-- The warnings about an instance: its parameters that are not used, and the references that it
leaves open. -/
def Setting.instanceWarnings (setting : Setting) (found : Instance) : List String :=
  let texts := parameterTextsOfAll setting found.pattern.content
  let used := texts.flatMap Substitution.references
  let names := found.parameters.map (·.1)
  let known (name : String) : Bool := names.contains name || setting.variableNames.contains name
  ((names.filter (!used.contains ·)).map fun name =>
    "Parameter '" ++ name ++ "' of pattern '" ++ found.name ++
      "' is not used by abstract pattern '" ++ found.pattern.name ++ "'") ++
  (Substitution.unresolved known texts).map fun name =>
    "Abstract pattern '" ++ found.pattern.name ++ "' references $" ++ name ++
      ", which pattern '" ++ found.name ++ "' does not supply"

/-- The warnings about abstract patterns without instances. -/
def Setting.unusedWarnings (setting : Setting) (instances : List Instance) : List String :=
  (setting.abstracts.filter fun pattern =>
    !instances.any (·.pattern.name == pattern.name)).map fun pattern =>
      "Abstract pattern '" ++ pattern.name ++ "' is never instantiated"

/-! ## Schemas -/

/-- The abstract pattern that an element of a document is; none if it is no abstract pattern. -/
def abstractPattern? (doc : Document) (id : NodeId) :
    Except Diagnostic (Option AbstractPattern) :=
  match doc.tree? id with
  | some tree =>
    if tree.isSchemaElement "pattern" && tree.isAbstract then
      match tree.setting? "id" with
      | some name => .ok (some ⟨name, doc.namespacesInScope id, tree.children⟩)
      | none => .error (.error "Abstract pattern without an id")
    else .ok none
  | none => .ok none

/-- What the expansion of a schema looks up. -/
def settingOf (options : AbstractionOptions) (doc : Document) : Except Diagnostic Setting := do
  let some schema := doc.documentElement? | .error (.fatal "Schema has no document element")
  let nodes := doc.descendants schema
  let abstracts ← nodes.mapM (abstractPattern? doc)
  let trees := nodes.filterMap doc.tree?
  .ok
    { options
      abstracts := abstracts.filterMap id
      concrete := (trees.filter fun tree => tree.isSchemaElement "pattern" && !tree.isAbstract)
        |>.filterMap (·.setting? "id")
      variableNames := (trees.filter (·.isSchemaElement "let")).filterMap (·.setting? "name") }

end Abstraction

/-- Expands the instances of abstract patterns in a schema. -/
def expandAbstractions (options : AbstractionOptions) (schema : Document) :
    StageRun Document := do
  let setting ← .ofExcept (Abstraction.settingOf options schema)
  let unfold := Abstraction.unfold setting setting.abstracts.length
  let (trees, instances) ← (Abstraction.copyAll setting unfold none [] schema.forest).run []
  (instances.flatMap setting.instanceWarnings ++ setting.unusedWarnings instances).forM
    StageRun.warn
  pure (Document.ofForest trees)

end Schematron.Schema
