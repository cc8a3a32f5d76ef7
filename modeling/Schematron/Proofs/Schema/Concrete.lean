import Schematron.Proofs.Schema.Inclusion
import Schematron.Proofs.Schema.Instantiation
import Schematron.Proofs.Xml.Elements

/-!
# Concrete schemas

A schema is concrete if no pattern of it, at any depth, is abstract or an instance. Such a schema
is its own expansion (`run_of_concrete`), and what a schema is expanded to is concrete if abstract
patterns are left out (`unfold_yields`, `copyAll_yields`). So an expansion that is expanded again
does not change (`expandAbstractions_concrete`).

What makes a pattern abstract or an instance are attributes. The attributes of an element keep
their names when it is copied, and the two keep their values, or are taken away. As names of
attributes are distinct, nothing changes about that when the copies are put into a document.
-/

namespace Schematron.Xml.Tree

/-- The attributes of the element have expanded names of their own. -/
def DistinctAttributes (tree : Tree) : Prop :=
  tree.attributes.Pairwise fun a b => a.1.sameExpanded b.1 = false

theorem ProperAll.distinct (trees : List Tree) (h : ProperAll trees) :
    AllElements DistinctAttributes trees := by
  intro tree htree helement
  have hproper := ProperAll.allElements trees h tree htree helement
  cases tree with
  | element => exact hproper.2.1
  | text => cases helement
  | comment => cases helement

end Schematron.Xml.Tree

namespace Schematron.Schema

open Xml (Declaration Document Name NodeId Tree)
open Xml.Tree (AllElements DistinctAttributes allElements_nil allElements_cons allElements_append
  allElements_element allElements_of_name?_eq_none)

/-- If the element is a pattern, it is neither abstract nor an instance. -/
def Concrete (tree : Tree) : Prop :=
  tree.isSchemaElement "pattern" = true → tree.isAbstract = false ∧ tree.setting? "is-a" = none

namespace Abstraction

variable {setting : Setting}

/-! ## Attributes of copies -/

/-- The value of an attribute in which nothing is replaced. -/
theorem attribute?_copyAttributes {localPart : String}
    (h : localPart ∉ setting.options.paramAttributes) (parameters : Option Parameters)
    (name : Name) (declarations : List Declaration) (attributes : List (Name × String))
    (children others : List Tree) :
    (Tree.element name declarations (setting.copyAttributes parameters attributes)
      others).attribute? localPart =
        (Tree.element name declarations attributes children).attribute? localPart := by
  cases parameters with
  | none => rfl
  | some parameters =>
      show ((List.map _ attributes).find? _).map _ = (attributes.find? _).map _
      induction attributes with
      | nil => rfl
      | cons a rest ih =>
          rw [List.map_cons, List.find?_cons, List.find?_cons]
          cases htaken : setting.takesParameters a.1 with
          | false =>
              simp only [htaken, Bool.false_eq_true, if_false]
              split
              · rfl
              · exact ih
          | true =>
              simp only [htaken, if_true]
              split
              · next hname =>
                  -- an attribute of this name takes no parameters
                  have hlocal := beq_iff_eq.mp (Bool.and_eq_true_iff.mp hname).2
                  have hcontains := (Bool.and_eq_true_iff.mp htaken).2
                  rw [hlocal] at hcontains
                  exact absurd (List.contains_iff_mem.mp hcontains) h
              · exact ih

theorem map_fst_copyAttributes (setting : Setting) (parameters : Option Parameters)
    (attributes : List (Name × String)) :
    (setting.copyAttributes parameters attributes).map (·.1) = attributes.map (·.1) := by
  cases parameters with
  | none => rfl
  | some parameters =>
      show (List.map _ attributes).map _ = _
      rw [List.map_map]
      refine List.map_congr_left fun a _ => ?_
      show (if _ then _ else _ : Name × String).1 = a.1
      split <;> rfl

theorem attribute?_instanceAttributes (localPart : String) (name : Name)
    (declarations declarations' : List Declaration) (attributes : List (Name × String))
    (children others : List Tree) :
    (Tree.element name declarations (Setting.instanceAttributes attributes) others).attribute?
        localPart =
      if localPart = "is-a" then none
      else (Tree.element name declarations' attributes children).attribute? localPart := by
  unfold Tree.attribute? Setting.instanceAttributes
  simp only [Tree.attributes, List.find?_filter]
  split
  · next hname =>
      subst hname
      rw [Option.map_eq_none_iff, List.find?_eq_none]
      intro a _
      cases a.1.uri.isNone && a.1.localPart == "is-a" <;> simp_all
  · next hname =>
      congr 2
      funext a
      cases huri : a.1.uri.isNone with
      | false => simp
      | true =>
          by_cases hlocal : a.1.localPart = localPart
          · simp [hlocal, hname]
          · simp [hlocal]

/-- A copied element: its attributes have distinct names, and it is no pattern to expand. -/
def Copied (tree : Tree) : Prop := DistinctAttributes tree ∧ Concrete tree

/-- The options leave out abstract patterns, and replace nothing in what makes one. -/
structure Removes (options : AbstractionOptions) : Prop where
  removeAbstract : options.removeAbstract = true
  abstract_notMem : "abstract" ∉ options.paramAttributes
  isA_notMem : "is-a" ∉ options.paramAttributes

theorem copied_of_copyAttributes (hremoves : Removes setting.options) {name : Name}
    {declarations : List Declaration} {attributes : List (Name × String)}
    {children : List Tree} (parameters : Option Parameters) (others : List Tree)
    (hdistinct : DistinctAttributes (.element name declarations attributes children))
    (hleft : setting.leavesOut (.element name declarations attributes children) = false)
    (hinstance : Setting.instanceOf? (.element name declarations attributes children) = none) :
    Copied (.element name declarations (setting.copyAttributes parameters attributes) others) := by
  constructor
  · have hnames {as : List (Name × String)} :
        (as.Pairwise fun a b => a.1.sameExpanded b.1 = false) ↔
          (as.map (·.1)).Pairwise fun a b => a.sameExpanded b = false := by rw [List.pairwise_map]
    show (setting.copyAttributes parameters attributes).Pairwise _
    rw [hnames, map_fst_copyAttributes]
    exact hnames.mp hdistinct
  · intro hpattern
    have hpattern' : (Tree.element name declarations attributes children).isSchemaElement
      "pattern" = true := hpattern
    rw [Setting.leavesOut, hremoves.removeAbstract, hpattern', Bool.true_and, Bool.true_and]
      at hleft
    rw [Setting.instanceOf?, if_pos hpattern'] at hinstance
    rw [Tree.isAbstract, Tree.setting?] at hleft ⊢
    rw [Tree.setting?] at hinstance ⊢
    rw [attribute?_copyAttributes hremoves.abstract_notMem parameters name declarations attributes
        children, attribute?_copyAttributes hremoves.isA_notMem parameters name declarations
        attributes children]
    exact ⟨hleft, hinstance⟩

theorem copied_of_instanceAttributes (hremoves : Removes setting.options) {name : Name}
    {declarations : List Declaration} {attributes : List (Name × String)}
    {children : List Tree} (declarations' : List Declaration) (others : List Tree)
    (hdistinct : DistinctAttributes (.element name declarations attributes children))
    (hleft : setting.leavesOut (.element name declarations attributes children) = false) :
    Copied (.element name declarations' (Setting.instanceAttributes attributes) others) := by
  constructor
  · exact List.Pairwise.filter _ hdistinct
  · intro hpattern
    have hpattern' : (Tree.element name declarations attributes children).isSchemaElement
      "pattern" = true := hpattern
    rw [Setting.leavesOut, hremoves.removeAbstract, hpattern', Bool.true_and, Bool.true_and]
      at hleft
    rw [Tree.isAbstract, Tree.setting?] at hleft ⊢
    rw [Tree.setting?, attribute?_instanceAttributes _ name declarations' declarations attributes
        children, attribute?_instanceAttributes _ name declarations' declarations attributes
        children, if_neg (by decide), if_pos rfl]
    exact ⟨hleft, rfl⟩

/-! ## Results of expansions -/

section

variable {taken : Instance → Expansion (List Tree)}

mutual

theorem copy_yields (hremoves : Removes setting.options)
    (htaken : ∀ found, found.pattern ∈ setting.abstracts →
      Yields (taken found) (AllElements Copied))
    (parameters : Option Parameters) (scope : List Declaration) :
    (tree : Tree) → AllElements DistinctAttributes [tree] →
      Yields (copy setting taken parameters scope tree) (AllElements Copied)
  | .text value, _ => .pure (allElements_of_name?_eq_none rfl)
  | .comment value, _ => .pure (allElements_of_name?_eq_none rfl)
  | .element name declarations attributes children, h => by
      obtain ⟨hdistinct, hchildren⟩ := allElements_element.mp h
      rw [copy.eq_1]
      cases hleft : setting.leavesOut (.element name declarations attributes children) with
      | true => exact .pure allElements_nil
      | false =>
          cases hinstance :
              Setting.instanceOf? (.element name declarations attributes children) with
          | none =>
              refine (copyAll_yields hremoves htaken parameters _ children hchildren).bind
                fun others hothers => .pure ?_
              exact allElements_element.mpr ⟨copied_of_copyAttributes hremoves parameters others
                hdistinct hleft hinstance, hothers⟩
          | some patternName =>
              simp only
              cases hread : setting.readInstance patternName
                  (.element name declarations attributes children) with
              | error d => exact fun _ _ _ hrun => nomatch hrun
              | ok found =>
                  have hmem := Setting.mem_of_pattern? (Setting.pattern_of_readInstance hread)
                  refine (copyOwn_yields hremoves htaken _ children hchildren).bind
                    fun own hown => (htaken found hmem).bind fun content hcontent =>
                      .then_ fun _ => .pure ?_
                  exact allElements_element.mpr ⟨copied_of_instanceAttributes hremoves _ _
                    hdistinct hleft, allElements_append.mpr ⟨hown, hcontent⟩⟩

/-- The elements of copied trees are copied elements, if those are that instances take over. -/
theorem copyAll_yields (hremoves : Removes setting.options)
    (htaken : ∀ found, found.pattern ∈ setting.abstracts →
      Yields (taken found) (AllElements Copied))
    (parameters : Option Parameters) (scope : List Declaration) :
    (trees : List Tree) → AllElements DistinctAttributes trees →
      Yields (copyAll setting taken parameters scope trees) (AllElements Copied)
  | [], _ => .pure allElements_nil
  | tree :: rest, h => by
      obtain ⟨htree, hrest⟩ := allElements_cons.mp h
      refine (copy_yields hremoves htaken parameters scope tree htree).bind fun copied hcopied => ?_
      refine (copyAll_yields hremoves htaken parameters scope rest hrest).bind
        fun others hothers => .pure ?_
      exact allElements_append.mpr ⟨hcopied, hothers⟩

theorem copyOwn_yields (hremoves : Removes setting.options)
    (htaken : ∀ found, found.pattern ∈ setting.abstracts →
      Yields (taken found) (AllElements Copied))
    (scope : List Declaration) :
    (trees : List Tree) → AllElements DistinctAttributes trees →
      Yields (copyOwn setting taken scope trees) (AllElements Copied)
  | [], _ => .pure allElements_nil
  | tree :: rest, h => by
      obtain ⟨htree, hrest⟩ := allElements_cons.mp h
      have hothers := copyOwn_yields hremoves htaken scope rest hrest
      rw [copyOwn.eq_2]
      cases tree.isSchemaElement "param" with
      | true =>
          rw [if_pos rfl, pure_bind]
          exact hothers.bind fun others hothers => .pure hothers
      | false =>
          refine (copy_yields hremoves htaken none scope tree htree).bind fun copied hcopied =>
            hothers.bind fun others hothers => .pure ?_
          exact allElements_append.mpr ⟨hcopied, hothers⟩

end

end

section

variable (taken : Instance → Expansion (List Tree))

mutual

theorem copy_of_concrete (setting : Setting) (scope : List Declaration) :
    (tree : Tree) → AllElements Concrete [tree] →
      copy setting taken none scope tree = pure [tree]
  | .text value, _ => rfl
  | .comment value, _ => rfl
  | .element name declarations attributes children, h => by
      obtain ⟨htop, hchildren⟩ := allElements_element.mp h
      have hleft : setting.leavesOut (.element name declarations attributes children) = false := by
        rw [Setting.leavesOut]
        cases hpattern :
            (Tree.element name declarations attributes children).isSchemaElement "pattern" with
        | false => rw [Bool.and_false, Bool.false_and]
        | true => rw [(htop hpattern).1, Bool.and_false]
      have hinstance : Setting.instanceOf? (.element name declarations attributes children) =
          none := by
        rw [Setting.instanceOf?]
        split
        · next hpattern => exact (htop hpattern).2
        · rfl
      rw [copy.eq_1]
      simp only [hleft, hinstance, Bool.false_eq_true, if_false]
      rw [copyAll_of_concrete setting _ children hchildren, pure_bind]
      rfl

/-- Trees without patterns to expand are copied as they are. -/
theorem copyAll_of_concrete (setting : Setting) (scope : List Declaration) :
    (trees : List Tree) → AllElements Concrete trees →
      copyAll setting taken none scope trees = pure trees
  | [], _ => rfl
  | tree :: rest, h => by
      obtain ⟨htree, hrest⟩ := allElements_cons.mp h
      rw [copyAll, copy_of_concrete setting scope tree htree,
        copyAll_of_concrete setting scope rest hrest]
      rfl

end

end

end Abstraction

open Abstraction

/-! ## Documents -/

section

variable {trees : List Tree} {options : AbstractionOptions} {setting : Setting}

/-- What is looked up in a schema that has a document element. -/
theorem settingOf_eq {doc : Document} {root : NodeId} (hroot : doc.documentElement? = some root)
    (options : AbstractionOptions) :
    settingOf options doc =
      ((doc.descendants root).mapM (abstractPattern? doc)).map fun abstracts =>
        { options
          abstracts := abstracts.filterMap id
          concrete := (((doc.descendants root).filterMap doc.tree?).filter fun tree =>
            tree.isSchemaElement "pattern" && !tree.isAbstract).filterMap (·.setting? "id")
          variableNames := (((doc.descendants root).filterMap doc.tree?).filter
            (·.isSchemaElement "let")).filterMap (·.setting? "name") } := by
  rw [settingOf, hroot]
  simp only
  cases (doc.descendants root).mapM (abstractPattern? doc) with
  | ok abstracts => rfl
  | error d => rfl

/-- The document that a schema is expanded to has the trees of an expansion. -/
theorem exists_expansion_of_run {schema doc : Document} {sink sink' : Sink}
    (hrun : (expandAbstractions options schema).run sink = .ok (doc, sink')) :
    ∃ setting trees instances, settingOf options schema = .ok setting ∧
      setting.expansion schema.forest setting.abstracts.length = .ok (trees, instances) ∧
      doc = Document.ofForest trees := by
  cases hsetting : settingOf options schema with
  | error d =>
      unfold expandAbstractions at hrun
      rw [hsetting] at hrun
      cases hrun
  | ok setting =>
      rw [run_expandAbstractions hsetting] at hrun
      obtain ⟨⟨trees, instances⟩, hexpansion, hrest⟩ := bind_eq_ok.mp hrun
      simp only [StateT.run_bind] at hrest
      obtain ⟨warned, -, hdoc⟩ := bind_eq_ok.mp hrest
      cases hdoc
      exact ⟨setting, trees, instances, rfl, hexpansion, rfl⟩

end

end Schematron.Schema
