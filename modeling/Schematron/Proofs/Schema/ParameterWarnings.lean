import Mathlib.Data.List.Forall2
import Schematron.Proofs.Schema.Concrete
import Schematron.Proofs.Schema.References

/-!
# Warnings about parameters

An expansion warns of no instance more and of none less than there is reason to
(`warns_of_expandAbstractions`). Which instances it completes, and in which order, is told by a walk
over the trees of the schema (`Completes`): an instance comes after those in its own children and
after those in the content that it takes over, which can be taken over many times. What is warned of
an instance can then be read off two elements, its own and that of its pattern
(`Expanded.warnings`), and whether a pattern is ever taken over is known at the end only.

Copying completes the instances of the walk, because a copy is made of parts each of which adds what
its part of the walk does (`Adds.bind`); the depth to which contents are unfolded does not matter as
long as there is a result.
-/

namespace Schematron.Schema.Abstraction

open Xml (Declaration Document Name NodeId Tree)

/-! ## Schemas -/

/-- The trees below the document element, in document order. All patterns and variables of a schema
are among them, since its document element is neither. -/
def treesBelow (schema : Document) (root : NodeId) : List Tree :=
  (schema.descendants root).filterMap schema.tree?

/-- The abstract patterns among trees. -/
def abstractPatterns (trees : List Tree) : List Tree :=
  trees.filter fun tree => tree.isSchemaElement "pattern" && tree.isAbstract

/-- The names of the variables among trees. -/
def variableNames (trees : List Tree) : List String :=
  (trees.filter (·.isSchemaElement "let")).filterMap (·.setting? "name")

/-- The pattern of an id; of two the later one. -/
def patternNamed? (patterns : List Tree) (name : String) : Option Tree :=
  patterns.reverse.find? (·.setting? "id" == some name)

/-- The values of the listed attributes of a tree; only those without a namespace are listed. -/
def listedValues (options : AbstractionOptions) (tree : Tree) : List String :=
  (tree.attributes.filter fun (name, _) =>
    name.uri.isNone && options.paramAttributes.contains name.localPart).map (·.2)

/-! ## Instances -/

/-- An instance that is expanded, and the abstract pattern whose content it takes over. -/
structure Expanded where
  element : Tree
  pattern : Tree

namespace Expanded

/-- The name of an instance in warnings. -/
def name (expanded : Expanded) : String := (expanded.element.setting? "id").getD "(anonymous)"

/-- The name that an instance has for its pattern. -/
def patternName (expanded : Expanded) : String := (expanded.element.setting? "is-a").getD ""

/-- The names of the parameters that an instance gives, in order. -/
def parameterNames (expanded : Expanded) : List String :=
  (expanded.element.schemaChildren "param").filterMap (·.setting? "name")

/-- The names that the listed attributes on all elements of the content refer to, in order. -/
def referenceNames (options : AbstractionOptions) (expanded : Expanded) : List String :=
  (expanded.pattern.descendants.flatMap (listedValues options)).flatMap fun text =>
    namesBehindDollars text.toList

/-- The content holds no patterns. -/
def HoldsNoPattern (expanded : Expanded) : Prop :=
  ∀ tree ∈ expanded.pattern.descendants, tree.isSchemaElement "pattern" = false

def unusedWarning (expanded : Expanded) (name : String) : String :=
  "Parameter '" ++ name ++ "' of pattern '" ++ expanded.name ++
    "' is not used by abstract pattern '" ++ expanded.patternName ++ "'"

def missingWarning (expanded : Expanded) (name : String) : String :=
  "Abstract pattern '" ++ expanded.patternName ++ "' references $" ++ name ++
    ", which pattern '" ++ expanded.name ++ "' does not supply"

/-- What is warned of an instance: of each of its parameters that nothing refers to, and then of
each name that is referred to and neither a parameter nor a variable, in the order in which the
names come first. -/
def warnings (options : AbstractionOptions) (known : List String) (expanded : Expanded) :
    List String :=
  let names := expanded.referenceNames options
  (expanded.parameterNames.filter (· ∉ names)).map expanded.unusedWarning ++
    ((names.filter fun name =>
      name ≠ "" ∧ name ∉ expanded.parameterNames ∧ name ∉ known).eraseDups).map
        expanded.missingWarning

end Expanded

/-- What is warned of abstract patterns: of each one whose id no instance names. -/
def neverInstantiated (patterns : List Tree) (completed : List Expanded) : List String :=
  ((patterns.filterMap (·.setting? "id")).filter (· ∉ completed.map (·.patternName))).map
    fun name => "Abstract pattern '" ++ name ++ "' is never instantiated"

/-! ## The order of expansion -/

/-- The tree is an abstract pattern that is left out. -/
def leftOut (options : AbstractionOptions) (tree : Tree) : Bool :=
  options.removeAbstract && tree.isSchemaElement "pattern" && tree.isAbstract

theorem leftOut_eq_false {options : AbstractionOptions} {tree : Tree}
    (h : tree.isSchemaElement "pattern" = false) : leftOut options tree = false := by
  rw [leftOut, h, Bool.and_false, Bool.false_and]

/-- The expansion of the trees completes these instances, in this order. -/
inductive Completes (options : AbstractionOptions) (patterns : List Tree) :
    List Tree → List Expanded → Prop
  | nil : Completes options patterns [] []
  | left {tree rest later} : leftOut options tree = true →
      Completes options patterns rest later → Completes options patterns (tree :: rest) later
  | kept {tree rest inside later} : leftOut options tree = false →
      Setting.instanceOf? tree = none → Completes options patterns tree.children inside →
      Completes options patterns rest later →
      Completes options patterns (tree :: rest) (inside ++ later)
  /-- An instance keeps its own children except for its parameters, all of which have a name, and
  takes over the content of its pattern. -/
  | taken {tree rest name pattern own inside later} : leftOut options tree = false →
      Setting.instanceOf? tree = some name → patternNamed? patterns name = some pattern →
      (∀ param ∈ tree.schemaChildren "param", (param.setting? "name").isSome = true) →
      Completes options patterns (tree.children.filter fun child =>
        !child.isSchemaElement "param") own →
      Completes options patterns pattern.children inside →
      Completes options patterns rest later →
      Completes options patterns (tree :: rest) (own ++ inside ++ ⟨tree, pattern⟩ :: later)

namespace Completes

variable {options : AbstractionOptions} {patterns trees more : List Tree}
  {completed later : List Expanded}

/-- An expansion completes its instances in one order only. -/
theorem unique (h : Completes options patterns trees completed)
    (hother : Completes options patterns trees later) : completed = later := by
  induction h generalizing later with
  | nil =>
      cases hother
      rfl
  | left hleft _ ihrest =>
      cases hother with
      | left _ hrest => exact ihrest hrest
      | kept hnot => rw [hleft] at hnot; cases hnot
      | taken hnot => rw [hleft] at hnot; cases hnot
  | kept hnot hnone _ _ ihinside ihrest =>
      cases hother with
      | left hleft => rw [hnot] at hleft; cases hleft
      | kept _ _ hinside hrest => rw [ihinside hinside, ihrest hrest]
      | taken _ hsome => rw [hnone] at hsome; cases hsome
  | taken hnot hsome hpattern _ _ _ _ ihown ihinside ihrest =>
      cases hother with
      | left hleft => rw [hnot] at hleft; cases hleft
      | kept _ hnone => rw [hsome] at hnone; cases hnone
      | taken _ hsome' hpattern' _ hown hinside hrest =>
          obtain rfl := Option.some.inj (hsome.symm.trans hsome')
          obtain rfl := Option.some.inj (hpattern.symm.trans hpattern')
          rw [ihown hown, ihinside hinside, ihrest hrest]

theorem kept_singleton {tree : Tree} (hnot : leftOut options tree = false)
    (hnone : Setting.instanceOf? tree = none)
    (hinside : Completes options patterns tree.children completed) :
    Completes options patterns [tree] completed := by
  rw [← List.append_nil completed]
  exact .kept hnot hnone hinside .nil

/-- Trees are expanded one after the other. -/
theorem append (h : Completes options patterns trees completed)
    (hmore : Completes options patterns more later) :
    Completes options patterns (trees ++ more) (completed ++ later) := by
  induction h with
  | nil => exact hmore
  | left hleft _ ih => exact .left hleft ih
  | kept hnot hnone hinside _ _ ih =>
      rw [List.append_assoc]
      exact .kept hnot hnone hinside ih
  | taken hnot hsome hpattern hnamed hown hinside _ _ _ ih =>
      rw [List.append_assoc, List.cons_append]
      exact .taken hnot hsome hpattern hnamed hown hinside ih

end Completes

/-! ## What expansions look up -/

/-- The pattern is kept for look-ups of the element. -/
structure Describes (pattern : AbstractPattern) (tree : Tree) : Prop where
  name : tree.setting? "id" = some pattern.name
  content : pattern.content = tree.children

variable {options : AbstractionOptions} {setting : Setting} {patterns : List Tree}

/-- An abstract pattern is kept with its id, and nothing of any other tree. -/
theorem describes_of_abstractPattern? {schema : Document} {id : NodeId}
    {found : Option AbstractPattern} (h : abstractPattern? schema id = .ok found) :
    List.Forall₂ Describes found.toList (abstractPatterns (schema.tree? id).toList) := by
  rw [abstractPattern?] at h
  split at h
  · next tree htree =>
      rw [htree, Option.toList_some, abstractPatterns, List.filter_singleton]
      split at h
      · next hpattern =>
          rw [hpattern]
          split at h
          · next name hname =>
              cases h
              exact .cons ⟨hname, rfl⟩ .nil
          · cases h
      · next hpattern =>
          rw [Bool.not_eq_true] at hpattern
          rw [hpattern]
          cases h
          exact .nil
  · next htree =>
      rw [htree]
      cases h
      exact .nil

theorem abstractPatterns_append (trees more : List Tree) :
    abstractPatterns (trees ++ more) = abstractPatterns trees ++ abstractPatterns more :=
  List.filter_append ..

theorem describes_of_forall₂ {schema : Document} {nodes : List NodeId}
    {found : List (Option AbstractPattern)}
    (h : List.Forall₂ (fun id found => abstractPattern? schema id = .ok found) nodes found) :
    List.Forall₂ Describes (found.filterMap id)
      (abstractPatterns (nodes.filterMap schema.tree?)) := by
  simp only [List.filterMap_eq_flatMap_toList]
  induction h with
  | nil => exact .nil
  | cons hid _ ih =>
      rw [List.flatMap_cons, List.flatMap_cons, abstractPatterns_append]
      exact List.rel_append (describes_of_abstractPattern? hid) ih

/-- What is looked up in a schema is what there is below its document element. -/
theorem describes_of_settingOf {schema : Document}
    (hsetting : settingOf options schema = .ok setting) :
    ∃ root, schema.documentElement? = some root ∧ setting.options = options ∧
      List.Forall₂ Describes setting.abstracts (abstractPatterns (treesBelow schema root)) ∧
      setting.variableNames = variableNames (treesBelow schema root) := by
  cases hroot : schema.documentElement? with
  | none =>
      rw [settingOf, hroot] at hsetting
      cases hsetting
  | some root =>
      rw [settingOf_eq hroot] at hsetting
      obtain ⟨found, hfound, rfl⟩ := map_eq_ok.mp hsetting
      exact ⟨root, rfl, rfl, describes_of_forall₂ (mapM_eq_ok.mp hfound), rfl⟩

/-- A pattern that is found by its id is kept of the element that is. -/
theorem describes_of_pattern? (hpatterns : List.Forall₂ Describes setting.abstracts patterns)
    {name : String} {pattern : AbstractPattern} (h : setting.pattern? name = some pattern) :
    ∃ tree, patternNamed? patterns name = some tree ∧ Describes pattern tree := by
  rw [Setting.pattern?] at h
  rw [patternNamed?]
  have hreverse := List.rel_reverse hpatterns
  generalize setting.abstracts.reverse = kept at h hreverse
  generalize patterns.reverse = trees at hreverse
  induction hreverse with
  | nil => cases h
  | @cons first tree _ _ hfirst _ ih =>
      have hsame : (tree.setting? "id" == some name) = (first.name == name) := by
        rw [hfirst.name]
        rfl
      rw [List.find?_cons] at h ⊢
      rw [hsame]
      split at h
      · obtain rfl := Option.some.inj h
        exact ⟨tree, rfl, hfirst⟩
      · exact ih h

/-! ## What instances are -/

/-- What an expansion keeps of an instance is what is said of it. -/
structure Keeps (found : Instance) (expanded : Expanded) : Prop where
  name : found.name = expanded.name
  patternName : found.pattern.name = expanded.patternName
  content : found.pattern.content = expanded.pattern.children
  parameterNames : found.parameters.map (·.1) = expanded.parameterNames

/-- Parameters are read if all of them have a name. -/
theorem names_of_readParameters {name : String} {children : List Tree} {parameters : Parameters}
    (h : Setting.readParameters name children = .ok parameters) :
    (∀ param ∈ children.filter (·.isSchemaElement "param"),
      (param.setting? "name").isSome = true) ∧
    parameters.map (·.1) =
      (children.filter (·.isSchemaElement "param")).filterMap (·.setting? "name") := by
  rw [Setting.readParameters] at h
  have hread := mapM_eq_ok.mp h
  generalize children.filter (·.isSchemaElement "param") = params at hread
  clear h
  induction hread with
  | nil => exact ⟨nofun, rfl⟩
  | @cons param parameter params rest hparam _ ih =>
      cases hname : param.setting? "name" with
      | none =>
          rw [hname] at hparam
          cases hparam
      | some name =>
          rw [hname] at hparam
          cases hparam
          refine ⟨List.forall_mem_cons.mpr ⟨by rw [hname]; rfl, ih.1⟩, ?_⟩
          rw [List.map_cons, List.filterMap_cons, hname, ih.2]

theorem keeps_of_readInstance (hpatterns : List.Forall₂ Describes setting.abstracts patterns)
    {name : String} {tree : Tree} {found : Instance}
    (hinstance : Setting.instanceOf? tree = some name)
    (hread : setting.readInstance name tree = .ok found) :
    ∃ pattern, patternNamed? patterns name = some pattern ∧
      (∀ param ∈ tree.schemaChildren "param", (param.setting? "name").isSome = true) ∧
      Keeps found ⟨tree, pattern⟩ := by
  have hname : tree.setting? "is-a" = some name := by
    rw [Setting.instanceOf?] at hinstance
    split at hinstance
    · exact hinstance
    · cases hinstance
  have hfound := Setting.pattern_of_readInstance hread
  obtain ⟨pattern, hpattern, hdescribes⟩ := describes_of_pattern? hpatterns hfound
  have hpatternName : found.pattern.name = name := by
    simpa using List.find?_some hfound
  rw [Setting.readInstance, hfound] at hread
  obtain ⟨parameters, hparameters, hread⟩ := bind_eq_ok.mp hread
  have hfound := (Except.ok.inj hread).symm
  obtain ⟨hnamed, hnames⟩ := names_of_readParameters hparameters
  refine ⟨pattern, hpattern, hnamed, congrArg Instance.name hfound, ?_, hdescribes.content,
    (congrArg (·.parameters.map (·.1)) hfound).trans hnames⟩
  rw [Expanded.patternName, hname]
  exact hpatternName

/-! ## What expansions complete -/

/-- Whenever the part of an expansion has a result, it has completed such instances. -/
def Adds {α : Type} (m : Expansion α) (P : List Expanded → Prop) : Prop :=
  ∀ done x done', m.run done = .ok (x, done') →
    ∃ found completed, done' = done ++ found ∧ List.Forall₂ Keeps found completed ∧ P completed

namespace Adds

variable {α β : Type} {P Q R : List Expanded → Prop}

theorem pure {x : α} (h : P []) : Adds (Pure.pure x) P := by
  intro done y done' hrun
  cases hrun
  exact ⟨[], [], (List.append_nil _).symm, .nil, h⟩

theorem bind {m : Expansion α} {f : α → Expansion β} (hm : Adds m P) (hf : ∀ x, Adds (f x) Q)
    (h : ∀ first second, P first → Q second → R (first ++ second)) : Adds (m >>= f) R := by
  intro done y done' hrun
  rw [StateT.run_bind] at hrun
  obtain ⟨⟨x, middle⟩, hx, hy⟩ := bind_eq_ok.mp hrun
  obtain ⟨found, first, rfl, hfirst, hP⟩ := hm done x middle hx
  obtain ⟨others, second, rfl, hsecond, hQ⟩ := hf x _ y done' hy
  exact ⟨found ++ others, first ++ second, List.append_assoc .., List.rel_append hfirst hsecond,
    h first second hP hQ⟩

/-- What comes after completes nothing more. -/
theorem map {m : Expansion α} (hm : Adds m P) (f : α → β) :
    Adds (m >>= fun x => Pure.pure (f x)) P :=
  hm.bind (Q := (· = [])) (fun _ => pure rfl) fun first _ hP hnil => by
    rw [hnil, List.append_nil]
    exact hP

/-- An instance is completed itself. -/
theorem complete {found : Instance} {expanded : Expanded} (h : Keeps found expanded) :
    Adds (modify (· ++ [found]) : Expansion PUnit) (· = [expanded]) := by
  intro done x done' hrun
  cases hrun
  exact ⟨[found], [expanded], rfl, .cons h .nil, rfl⟩

end Adds

section

variable {taken : Instance → Expansion (List Tree)}

mutual

theorem copy_adds (hpatterns : List.Forall₂ Describes setting.abstracts patterns)
    (htaken : ∀ found,
      Adds (taken found) (Completes setting.options patterns found.pattern.content))
    (parameters : Option Parameters) (scope : List Declaration) :
    (tree : Tree) →
      Adds (copy setting taken parameters scope tree) (Completes setting.options patterns [tree])
  | .text value => .pure (.kept_singleton (leftOut_eq_false rfl) rfl .nil)
  | .comment value => .pure (.kept_singleton (leftOut_eq_false rfl) rfl .nil)
  | .element name declarations attributes children => by
      rw [copy.eq_1]
      cases hleft : setting.leavesOut (.element name declarations attributes children) with
      | true => exact .pure (.left hleft .nil)
      | false =>
          cases hinstance :
              Setting.instanceOf? (.element name declarations attributes children) with
          | none =>
              refine (copyAll_adds hpatterns htaken parameters _ children).bind
                (Q := (· = [])) (fun _ => .pure rfl) fun inside _ hinside hnil => ?_
              rw [hnil, List.append_nil]
              exact .kept_singleton hleft hinstance hinside
          | some patternName =>
              simp only
              cases hread : setting.readInstance patternName
                  (.element name declarations attributes children) with
              | error d => exact fun _ _ _ hrun => nomatch hrun
              | ok found =>
                  obtain ⟨pattern, hpattern, hnamed, hkeeps⟩ :=
                    keeps_of_readInstance hpatterns hinstance hread
                  have hinside := htaken found
                  rw [hkeeps.content] at hinside
                  -- the content is taken over behind the own children, and then the instance is
                  -- completed
                  refine (copyOwn_adds hpatterns htaken (declarations ++ scope) children).bind
                    (Q := fun completed => ∃ inside,
                      completed = inside ++ [⟨.element name declarations attributes children,
                        pattern⟩] ∧ Completes setting.options patterns pattern.children inside)
                    (fun own => hinside.bind (fun content => (Adds.complete hkeeps).map _)
                      fun inside _ hinside hself => ⟨inside, by rw [hself], hinside⟩) ?_
                  rintro own _ hown ⟨inside, rfl, hinside⟩
                  rw [← List.append_assoc]
                  exact .taken hleft hinstance hpattern hnamed hown hinside .nil

/-- Copying trees completes what an expansion of them does, if taking over contents does. -/
theorem copyAll_adds (hpatterns : List.Forall₂ Describes setting.abstracts patterns)
    (htaken : ∀ found,
      Adds (taken found) (Completes setting.options patterns found.pattern.content))
    (parameters : Option Parameters) (scope : List Declaration) :
    (trees : List Tree) →
      Adds (copyAll setting taken parameters scope trees)
        (Completes setting.options patterns trees)
  | [] => .pure .nil
  | tree :: rest =>
      (copy_adds hpatterns htaken parameters scope tree).bind
        (fun _ => (copyAll_adds hpatterns htaken parameters scope rest).map _)
        fun _ _ htree hrest => htree.append hrest

theorem copyOwn_adds (hpatterns : List.Forall₂ Describes setting.abstracts patterns)
    (htaken : ∀ found,
      Adds (taken found) (Completes setting.options patterns found.pattern.content))
    (scope : List Declaration) :
    (trees : List Tree) →
      Adds (copyOwn setting taken scope trees)
        (Completes setting.options patterns
          (trees.filter fun child => !child.isSchemaElement "param"))
  | [] => .pure .nil
  | tree :: rest => by
      have hrest := copyOwn_adds hpatterns htaken scope rest
      rw [copyOwn.eq_2]
      cases hparam : tree.isSchemaElement "param" with
      | true =>
          rw [List.filter_cons_of_neg (by simp [hparam]), if_pos rfl, pure_bind]
          exact hrest.map _
      | false =>
          rw [List.filter_cons_of_pos (by simp [hparam])]
          exact (copy_adds hpatterns htaken none scope tree).bind (fun _ => hrest.map _)
            fun _ _ htree hrest => htree.append hrest

end

end

theorem unfold_adds (hpatterns : List.Forall₂ Describes setting.abstracts patterns) (depth : Nat)
    (found : Instance) :
    Adds (unfold setting depth found)
      (Completes setting.options patterns found.pattern.content) := by
  induction depth generalizing found with
  | zero => exact fun _ _ _ hrun => nomatch hrun
  | succ depth ih => exact copyAll_adds hpatterns ih _ _ found.pattern.content

/-- The instances of an expansion are those that it completes, in their order. -/
theorem completes_of_expansion (hpatterns : List.Forall₂ Describes setting.abstracts patterns)
    {trees copied : List Tree} {instances : List Instance} {depth : Nat}
    (h : setting.expansion trees depth = .ok (copied, instances)) :
    ∃ completed, List.Forall₂ Keeps instances completed ∧
      Completes setting.options patterns trees completed := by
  obtain ⟨found, completed, rfl, hkeeps, hcompletes⟩ :=
    copyAll_adds hpatterns (unfold_adds hpatterns depth) none [] trees [] copied instances h
  exact ⟨completed, hkeeps, hcompletes⟩

/-! ## What is warned of -/

mutual

/-- Without patterns in a tree all its elements count. -/
theorem parameterTexts_eq (setting : Setting) :
    (tree : Tree) → (∀ inner ∈ tree.preorder, inner.isSchemaElement "pattern" = false) →
      parameterTexts setting tree = tree.preorder.flatMap (listedValues setting.options)
  | .text value, _ => rfl
  | .comment value, _ => rfl
  | .element name declarations attributes children, h => by
      rw [Tree.preorder, List.forall_mem_cons] at h
      have hleft : setting.leavesOut (.element name declarations attributes children) = false :=
        leftOut_eq_false h.1
      have hinstance :
          Setting.instanceOf? (.element name declarations attributes children) = none := by
        rw [Setting.instanceOf?, h.1]
        rfl
      rw [parameterTexts.eq_1, hleft, hinstance, parameterTextsOfAll_eq setting children h.2,
        Tree.preorder, List.flatMap_cons]
      rfl

theorem parameterTextsOfAll_eq (setting : Setting) :
    (trees : List Tree) →
      (∀ inner ∈ Tree.preorderOfAll trees, inner.isSchemaElement "pattern" = false) →
      parameterTextsOfAll setting trees =
        (Tree.preorderOfAll trees).flatMap (listedValues setting.options)
  | [], _ => rfl
  | tree :: rest, h => by
      rw [Tree.preorderOfAll, List.forall_mem_append] at h
      rw [parameterTextsOfAll, Tree.preorderOfAll, List.flatMap_append,
        parameterTexts_eq setting tree h.1, parameterTextsOfAll_eq setting rest h.2]

end

/-- The warnings about an instance are read off its element and that of its pattern. -/
theorem instanceWarnings_eq {found : Instance} {expanded : Expanded} (hkeeps : Keeps found expanded)
    (h : expanded.HoldsNoPattern) :
    setting.instanceWarnings found =
      expanded.warnings setting.options setting.variableNames := by
  have htexts : (parameterTextsOfAll setting found.pattern.content).flatMap
      Substitution.references = expanded.referenceNames setting.options := by
    rw [hkeeps.content, parameterTextsOfAll_eq setting _ h,
      funext references_eq_namesBehindDollars]
    rfl
  rw [Setting.instanceWarnings, Expanded.warnings, Substitution.unresolved, foldl_eq_eraseDups,
    htexts, hkeeps.parameterNames, hkeeps.name, hkeeps.patternName]
  congr 2
  · refine List.filter_congr fun name _ => ?_
    simp
  · congr 1
    refine List.filter_congr fun name _ => ?_
    rw [Bool.eq_iff_iff]
    simp

/-- The warnings about patterns are those about the ids that no instance names. -/
theorem unusedWarnings_eq (hpatterns : List.Forall₂ Describes setting.abstracts patterns)
    {instances : List Instance} {completed : List Expanded}
    (hkeeps : List.Forall₂ Keeps instances completed) :
    setting.unusedWarnings instances = neverInstantiated patterns completed := by
  have hnames : instances.map (·.pattern.name) = completed.map (·.patternName) := by
    induction hkeeps with
    | nil => rfl
    | cons hfirst _ ih => rw [List.map_cons, List.map_cons, hfirst.patternName, ih]
  have hids : patterns.filterMap (·.setting? "id") = setting.abstracts.map (·.name) := by
    generalize setting.abstracts = abstracts at hpatterns
    induction hpatterns with
    | nil => rfl
    | cons hfirst _ ih => rw [List.filterMap_cons, hfirst.name, List.map_cons, ih]
  rw [Setting.unusedWarnings, neverInstantiated, hids, ← hnames, List.filter_map, List.map_map]
  congr 1
  refine List.filter_congr fun pattern _ => ?_
  rw [Bool.eq_iff_iff]
  simp

/-! ## Expansions of schemas -/

/-- What the expansion of a schema warns of. -/
structure Warns (options : AbstractionOptions) (schema : Document) (root : NodeId)
    (completed : List Expanded) (blocks : List (List String)) (added : List String) : Prop where
  documentElement : schema.documentElement? = some root
  /-- These instances are completed, in this order. -/
  completes : Completes options (abstractPatterns (treesBelow schema root)) schema.forest completed
  unique : ∀ other, Completes options (abstractPatterns (treesBelow schema root)) schema.forest
    other → other = completed
  /-- There is a block of warnings about each of them, which is exact if the content that it takes
  over holds no patterns. -/
  block : List.Forall₂ (fun expanded block => expanded.HoldsNoPattern →
    block = expanded.warnings options (variableNames (treesBelow schema root))) completed blocks
  /-- Each abstract pattern has an id. -/
  named : ∀ pattern ∈ abstractPatterns (treesBelow schema root),
    (pattern.setting? "id").isSome = true
  /-- The blocks are added in the order of the instances, and then the warnings about patterns. -/
  added : added = blocks.flatten ++
    neverInstantiated (abstractPatterns (treesBelow schema root)) completed

/-- What is added to the warnings by an expansion is known from the elements of the schema. -/
theorem warns_of_expandAbstractions {options : AbstractionOptions} {schema doc : Document}
    {sink sink' : Sink} (h : (expandAbstractions options schema).run sink = .ok (doc, sink')) :
    ∃ root completed blocks added, Warns options schema root completed blocks added ∧
      sink'.warnings = sink.warnings ++ added := by
  obtain ⟨setting, trees, instances, hsetting, hexpansion, -⟩ := exists_expansion_of_run h
  obtain ⟨root, hroot, rfl, hpatterns, hvariables⟩ := describes_of_settingOf hsetting
  obtain ⟨completed, hkeeps, hcompletes⟩ := completes_of_expansion hpatterns hexpansion
  refine ⟨root, completed, instances.map setting.instanceWarnings,
    instances.flatMap setting.instanceWarnings ++ setting.unusedWarnings instances,
    ⟨hroot, hcompletes, fun other hother => hother.unique hcompletes, ?_, ?_, ?_⟩, ?_⟩
  · rw [List.forall₂_map_right_iff, ← hvariables]
    exact hkeeps.flip.imp fun expanded found hkeep hplain => instanceWarnings_eq hkeep hplain
  · intro pattern hpattern
    obtain ⟨kept, -, hdescribes⟩ := forall₂_mem_left hpatterns.flip hpattern
    rw [hdescribes.name]
    rfl
  · rw [List.flatMap_def, unusedWarnings_eq hpatterns hkeeps]
  · rw [run_expandAbstractions hsetting, hexpansion] at h
    obtain ⟨_, hresult, h⟩ := bind_eq_ok.mp h
    cases hresult
    simp only [StateT.run_bind, run_warnings] at h
    cases h
    rfl

/-- A schema with two instances of one pattern: the first gives a parameter that is named only where
nothing is replaced, and lacks one, and the second lacks two. -/
def looseInstances : Tree :=
  schemaElement "schema" []
    [schemaElement "let" [("name", "limit"), ("value", "10")] [],
      schemaElement "pattern" [("abstract", "true"), ("id", "a")]
        [.comment "$extra",
          schemaElement "rule" [("context", "$ctx"), ("role", "$extra")]
            [schemaElement "assert" [("test", "$ctx = $limit and $missing and $missing")]
              [.text "$extra"]]],
      schemaElement "pattern" [("abstract", "true"), ("id", "b")] [],
      schemaElement "pattern" [("is-a", "a"), ("id", "p")]
        [schemaElement "param" [("name", "ctx"), ("value", "x")] [],
          schemaElement "param" [("name", "extra"), ("value", "1")] []],
      schemaElement "pattern" [("is-a", "a")] []]

/-- The warnings about the first instance, the second one and a pattern without instances. -/
def looseWarnings : List String :=
  ["Parameter 'extra' of pattern 'p' is not used by abstract pattern 'a'",
    "Abstract pattern 'a' references $missing, which pattern 'p' does not supply",
    "Abstract pattern 'a' references $ctx, which pattern '(anonymous)' does not supply",
    "Abstract pattern 'a' references $missing, which pattern '(anonymous)' does not supply",
    "Abstract pattern 'b' is never instantiated"]

theorem warns_of_expandAbstractions_looseInstances :
    ∃ doc sink, (expandAbstractions {} (.ofForest [looseInstances])).run ⟨[]⟩ = .ok (doc, sink) ∧
      sink.warnings = looseWarnings ∧
      ∃ root completed blocks added,
        Warns {} (.ofForest [looseInstances]) root completed blocks added ∧
          sink.warnings = [] ++ added := by
  have hwarned : ((expandAbstractions {} (.ofForest [looseInstances])).run ⟨[]⟩).toOption.any
      (fun result => result.2.warnings == looseWarnings) = true := by
    decide +kernel
  obtain ⟨⟨doc, sink⟩, hrun, hwarnings⟩ := (Option.any_eq_true _ _).mp hwarned
  rw [toOption_eq_some] at hrun
  exact ⟨doc, sink, hrun, eq_of_beq hwarnings, warns_of_expandAbstractions hrun⟩

end Schematron.Schema.Abstraction
