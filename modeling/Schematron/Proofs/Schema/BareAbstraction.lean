import Schematron.Proofs.Schema.Lockstep
import Schematron.Proofs.Xml.Sites
import Schematron.Schema.Abstraction

/-!
# Instances without comments

Documents that differ in comments, whose instances are expanded, end with the same fault, or in
documents that differ in comments, with the same warnings (`expandAbstractions_same`). Comments are
copied as they are, and the patterns that instances take over differ in comments only.
-/

namespace Schematron.Schema

open Xml (Declaration Document NodeId Site Tree)
open Xml.Document (SameDocument)
open Xml.Tree (OfElements SameButComments bareAll)

/-- The pattern without the comments in its content. -/
def AbstractPattern.bare (pattern : AbstractPattern) : AbstractPattern :=
  { pattern with content := bareAll pattern.content }

/-- The instance of the pattern without comments. -/
def Instance.bare (found : Instance) : Instance := { found with pattern := found.pattern.bare }

namespace Abstraction

@[simp] theorem pattern_bare_bare (pattern : AbstractPattern) :
    pattern.bare.bare = pattern.bare := by
  simp [AbstractPattern.bare]

@[simp] theorem instance_bare_bare (found : Instance) : found.bare.bare = found.bare := by
  simp [Instance.bare]

/-! ## Instances -/

namespace Setting

variable (setting : Setting)

/-- What is looked up, without comments. -/
def bare : Setting := { setting with abstracts := setting.abstracts.map AbstractPattern.bare }

theorem pattern?_bare (name : String) :
    setting.bare.pattern? name = (setting.pattern? name).map AbstractPattern.bare := by
  rw [pattern?, pattern?, bare, ← List.map_reverse, List.find?_map]
  rfl

theorem leavesOut_bare (tree : Tree) :
    setting.bare.leavesOut tree.bare = setting.leavesOut tree := by
  rw [leavesOut, leavesOut, Xml.Tree.isSchemaElement_bare, Xml.Tree.isAbstract_bare, bare]

theorem instanceOf?_bare (tree : Tree) : instanceOf? tree.bare = instanceOf? tree := by
  rw [instanceOf?, instanceOf?, Xml.Tree.isSchemaElement_bare, Xml.Tree.setting?_bare]

theorem readParameters_bare (name : String) (children : List Tree) :
    readParameters name (bareAll children) = readParameters name children := by
  rw [readParameters, readParameters, Xml.Tree.filter_bareAll (.isSchemaElement "param"),
    List.mapM_map]
  simp only [Function.comp_def, Xml.Tree.setting?_bare, Xml.Tree.attribute?_bare]

theorem readInstance_bare (patternName : String) (tree : Tree) :
    setting.bare.readInstance patternName tree.bare =
      (setting.readInstance patternName tree).map Instance.bare := by
  simp only [readInstance, Xml.Tree.setting?_bare, Xml.Tree.children_bare, readParameters_bare,
    pattern?_bare]
  cases setting.pattern? patternName with
  | none =>
      have hconcrete : setting.bare.concrete = setting.concrete := rfl
      rw [hconcrete]
      cases setting.concrete.contains patternName <;> rfl
  | some pattern =>
      dsimp only [Option.map_some]
      cases readParameters ((tree.setting? "id").getD "(anonymous)") tree.children <;> rfl

end Setting

/-! ## Copying -/

/-- The instances differ in the comments of their patterns. -/
def SameInstances (done done' : List Instance) : Prop :=
  done.map Instance.bare = done'.map Instance.bare

/-- What instances take over differs in comments. -/
def UnfoldSame (unfold unfold' : Instance → Expansion (List Tree)) : Prop :=
  ∀ found, Together SameInstances SameButComments (unfold found) (unfold' found.bare)

theorem complete_same (found : Instance) :
    Together SameInstances (fun _ _ => True)
      (modify (· ++ [found]) : Expansion Unit) (modify (· ++ [found.bare])) := by
  intro done done' h
  refine .result ⟨trivial, ?_⟩
  show (done ++ [found]).map Instance.bare = (done' ++ [found.bare]).map Instance.bare
  rw [List.map_append, List.map_append, show done.map Instance.bare = _ from h]
  simp

section

variable (setting : Setting) (unfold : Instance → Expansion (List Tree))

theorem gathers_copy (parameters : Option Parameters) (scope : List Declaration) :
    Gathers (copy setting unfold parameters scope) (copyAll setting unfold parameters scope)
      (fun value => [.text value]) fun value => [.comment value] where
  nil := rfl
  cons _ _ := rfl
  text _ := rfl
  comment _ := rfl

/-- The copy of a child of an instance. -/
def copyChild (scope : List Declaration) (tree : Tree) : Expansion (List Tree) :=
  if tree.isSchemaElement "param" then pure [] else copy setting unfold none scope tree

theorem gathers_copyChild (scope : List Declaration) :
    Gathers (copyChild setting unfold scope) (copyOwn setting unfold scope)
      (fun value => [.text value]) fun value => [.comment value] where
  nil := rfl
  cons tree rest := by
    rw [copyOwn, copyChild]
    split <;> rfl
  text _ := rfl
  comment _ := rfl

end

section

variable {unfold unfold' : Instance → Expansion (List Tree)}

mutual

theorem copy_bare (setting : Setting) (h : UnfoldSame unfold unfold')
    (parameters : Option Parameters) (scope : List Declaration) :
    (tree : Tree) → Together SameInstances SameButComments
      (copy setting unfold parameters scope tree)
      (copy setting.bare unfold' parameters scope tree.bare)
  | .text _ => .pure rfl
  | .comment _ => .pure rfl
  | .element name declarations attributes children => by
      have hleaves := setting.leavesOut_bare (.element name declarations attributes children)
      have hinstance := Setting.instanceOf?_bare (.element name declarations attributes children)
      have hread (patternName : String) :=
        setting.readInstance_bare patternName (.element name declarations attributes children)
      have hattributes : setting.bare.copyAttributes parameters attributes =
        setting.copyAttributes parameters attributes := rfl
      rw [Xml.Tree.bare] at hleaves hinstance hread
      rw [Xml.Tree.bare, copy, copy, hleaves, hinstance, hattributes]
      split
      · exact .pure rfl
      · split
        · next patternName _ =>
            rw [hread]
            cases setting.readInstance patternName
                (.element name declarations attributes children) with
            | error d => exact .throw
            | ok found =>
                refine (copyOwn_bare setting h (declarations ++ scope) children).bind
                  fun own own' hown => ?_
                refine (h found).bind fun taken taken' htaken => ?_
                refine (complete_same found).bind fun _ _ _ => .pure ?_
                exact .element name _ _ (hown.append htaken)
        · exact (copyAll_bare setting h parameters (declarations ++ scope) children).bind
            fun _ _ hchildren => .pure (.element name declarations _ hchildren)

theorem copyAll_bare (setting : Setting) (h : UnfoldSame unfold unfold')
    (parameters : Option Parameters) (scope : List Declaration) :
    (trees : List Tree) → Together SameInstances SameButComments
      (copyAll setting unfold parameters scope trees)
      (copyAll setting.bare unfold' parameters scope (bareAll trees))
  | [] => .pure rfl
  | tree :: rest =>
      (gathers_copy setting unfold parameters scope).together_cons merging_trees
        (gathers_copy setting.bare unfold' parameters scope)
        (fun _ => copy_bare setting h parameters scope tree)
        (copyAll_bare setting h parameters scope rest)

theorem copyOwn_bare (setting : Setting) (h : UnfoldSame unfold unfold')
    (scope : List Declaration) :
    (trees : List Tree) → Together SameInstances SameButComments
      (copyOwn setting unfold scope trees) (copyOwn setting.bare unfold' scope (bareAll trees))
  | [] => .pure rfl
  | tree :: rest =>
      (gathers_copyChild setting unfold scope).together_cons merging_trees
        (gathers_copyChild setting.bare unfold' scope)
        (fun _ => by
          rw [copyChild, copyChild, Xml.Tree.isSchemaElement_bare]
          split
          · exact .pure rfl
          · exact copy_bare setting h none scope tree)
        (copyOwn_bare setting h scope rest)

end

end

theorem unfoldSame_unfold (setting : Setting) (depth : Nat) :
    UnfoldSame (unfold setting depth) (unfold setting.bare depth) := by
  induction depth with
  | zero => exact fun _ => .throw
  | succ depth ih =>
      exact fun found => copyAll_bare setting ih (some found.parameters) found.pattern.scope
        found.pattern.content

/-- Trees that differ in comments are copied to trees that do so. -/
theorem copyAll_same {setting setting' : Setting} (hsetting : setting.bare = setting'.bare)
    {trees trees' : List Tree} (htrees : SameButComments trees trees') :
    Together SameInstances SameButComments
      (copyAll setting (unfold setting setting.abstracts.length) none [] trees)
      (copyAll setting' (unfold setting' setting'.abstracts.length) none [] trees') := by
  have hlength : setting.abstracts.length = setting'.abstracts.length := by
    have := congrArg (·.abstracts.length) hsetting
    simpa [Setting.bare] using this
  have hleft := copyAll_bare setting (unfoldSame_unfold setting setting.abstracts.length) none []
    trees
  have hright := copyAll_bare setting' (unfoldSame_unfold setting' setting'.abstracts.length) none
    [] trees'
  rw [hlength] at hleft ⊢
  rw [hsetting, show bareAll trees = _ from htrees] at hleft
  exact hleft.trans (fun _ _ => Eq.symm) (fun _ _ _ => Eq.trans) (fun _ _ _ => .trans)
    (hright.symm (fun _ _ => eq_comm) fun _ _ => .symm)

/-! ## Warnings -/

section

variable (setting : Setting)

theorem parameterTextsOfAll_putText (value : String) (trees : List Tree) :
    parameterTextsOfAll setting (Xml.Tree.putText value trees) =
      parameterTextsOfAll setting trees := by
  cases trees with
  | nil => rfl
  | cons tree rest => cases tree <;> rfl

mutual

theorem parameterTextsOfAll_bareOnto : (tree : Tree) → ∀ rest : List Tree,
    parameterTextsOfAll setting.bare (Xml.Tree.bareOnto tree rest) =
      parameterTexts setting tree ++ parameterTextsOfAll setting.bare rest
  | .element name declarations attributes children => by
      intro rest
      have hleaves := setting.leavesOut_bare (.element name declarations attributes children)
      have hinstance := Setting.instanceOf?_bare (.element name declarations attributes children)
      rw [Xml.Tree.bare] at hleaves hinstance
      rw [Xml.Tree.bareOnto, parameterTextsOfAll, parameterTexts, parameterTexts]
      dsimp only
      rw [hleaves, hinstance, parameterTextsOfAll_bareAll children]
      rfl
  | .text value => parameterTextsOfAll_putText setting.bare value
  | .comment _ => fun _ => rfl

theorem parameterTextsOfAll_bareAll : (trees : List Tree) →
    parameterTextsOfAll setting.bare (bareAll trees) = parameterTextsOfAll setting trees
  | [] => rfl
  | tree :: rest => by
      rw [bareAll, parameterTextsOfAll_bareOnto tree, parameterTextsOfAll_bareAll rest,
        parameterTextsOfAll]

end

theorem instanceWarnings_bare (found : Instance) :
    setting.bare.instanceWarnings found.bare = setting.instanceWarnings found := by
  have htexts := parameterTextsOfAll_bareAll setting found.pattern.content
  rw [Setting.instanceWarnings, Setting.instanceWarnings]
  dsimp only [Instance.bare, AbstractPattern.bare]
  rw [htexts]
  rfl

theorem unusedWarnings_bare (instances : List Instance) :
    setting.bare.unusedWarnings (instances.map Instance.bare) =
      setting.unusedWarnings instances := by
  rw [Setting.unusedWarnings, Setting.unusedWarnings, Setting.bare, List.filter_map, List.map_map]
  simp only [List.any_map]
  rfl

end

/-- The warnings about instances are the same without comments. -/
theorem warnings_same {setting setting' : Setting} (hsetting : setting.bare = setting'.bare)
    {done done' : List Instance} (h : SameInstances done done') :
    done.flatMap setting.instanceWarnings ++ setting.unusedWarnings done =
      done'.flatMap setting'.instanceWarnings ++ setting'.unusedWarnings done' := by
  have hbare (setting : Setting) (done : List Instance) :
      done.flatMap setting.instanceWarnings ++ setting.unusedWarnings done =
        (done.map Instance.bare).flatMap setting.bare.instanceWarnings ++
          setting.bare.unusedWarnings (done.map Instance.bare) := by
    rw [List.flatMap_map, unusedWarnings_bare]
    simp only [instanceWarnings_bare]
  rw [hbare, hsetting, show done.map Instance.bare = _ from h, ← hbare]

/-! ## What is looked up -/

theorem abstractPattern?_of_isElement {doc : Document} {id : NodeId}
    (h : doc.isElement id = false) : abstractPattern? doc id = .ok none := by
  have htree : ∀ tree, doc.tree? id = some tree → tree.isSchemaElement "pattern" = false := by
    intro tree htree
    rw [Document.tree?] at htree
    cases hsize : doc.size with
    | zero =>
        rw [hsize] at htree
        cases htree
    | succ depth =>
        rw [hsize, Document.treeWithin] at htree
        rw [Document.isElement] at h
        cases hkind : doc.kind id <;> rw [hkind] at htree h <;> cases htree
        · cases h
        · rfl
        · rfl
  rw [abstractPattern?]
  split
  · next tree hfound => rw [htree tree hfound]; rfl
  · rfl

theorem isConcretePattern :
    OfElements fun tree => tree.isSchemaElement "pattern" && !tree.isAbstract where
  text _ := rfl
  comment _ := rfl
  bare tree := by rw [Xml.Tree.isSchemaElement_bare, Xml.Tree.isAbstract_bare]

theorem filterMap_setting?_congr {trees trees' : List Tree}
    (h : trees.map Xml.Tree.bare = trees'.map Xml.Tree.bare) (localPart : String) :
    trees.filterMap (·.setting? localPart) = trees'.filterMap (·.setting? localPart) := by
  have hbare (trees : List Tree) : trees.filterMap (·.setting? localPart) =
      (trees.map Xml.Tree.bare).filterMap (·.setting? localPart) := by
    rw [List.filterMap_map]
    simp only [Function.comp_def, Xml.Tree.setting?_bare]
  rw [hbare, h, ← hbare]

section

variable {doc doc' : Document} {target target' : NodeId}

theorem abstractPattern?_same (hdoc : SameDocument doc doc')
    (h : doc.SameElement doc' target target') :
    Corresponds (fun x y => x.map AbstractPattern.bare = y.map AbstractPattern.bare)
      (abstractPattern? doc target) (abstractPattern? doc' target') := by
  obtain ⟨hlinked, hlinked'⟩ := hdoc.linked
  obtain ⟨tree, tree', htree, htree', hsame⟩ := h.tree?
  have hchildren : bareAll tree.children = bareAll tree'.children := by
    rw [← Xml.Tree.children_bare, hsame, Xml.Tree.children_bare]
  rw [abstractPattern?, abstractPattern?, htree, htree', h.namespacesInScope hlinked hlinked']
  dsimp only
  rw [← Xml.Tree.isSchemaElement_bare tree, ← Xml.Tree.isAbstract_bare tree,
    ← Xml.Tree.setting?_bare tree, hsame, Xml.Tree.isSchemaElement_bare, Xml.Tree.isAbstract_bare,
    Xml.Tree.setting?_bare]
  split
  · cases tree'.setting? "id" with
    | none => exact .fault _
    | some name => exact .result (by simp [AbstractPattern.bare, hchildren])
  · exact .result rfl

/-- The abstract patterns below elements that differ in comments do so. -/
theorem abstracts_same (hdoc : SameDocument doc doc') (h : doc.SameElement doc' target target') :
    Corresponds (fun xs ys => xs.map AbstractPattern.bare = ys.map AbstractPattern.bare)
      (((doc.descendants target).mapM (abstractPattern? doc)).map (List.filterMap id))
      (((doc'.descendants target').mapM (abstractPattern? doc')).map (List.filterMap id)) := by
  obtain ⟨hlinked, hlinked'⟩ := hdoc.linked
  -- other nodes than elements are no abstract patterns
  have hskip (doc : Document) (nodes : List NodeId) :
      (nodes.mapM (abstractPattern? doc)).map (List.filterMap id) =
        ((nodes.filter doc.isElement).mapM (abstractPattern? doc)).map (List.filterMap id) :=
    filterMap_mapM_filter (fun _ => abstractPattern?_of_isElement) nodes
  rw [hskip doc, hskip doc']
  refine (Corresponds.mapM (h.descendants hlinked hlinked') fun _ _ =>
    abstractPattern?_same hdoc).map fun xs ys hall => ?_
  induction hall with
  | nil => rfl
  | @cons x y xs ys hxy _ ih =>
      cases x <;> cases y <;> simp_all

/-- What is looked up in documents that differ in comments does so. -/
theorem settingOf_same (options : AbstractionOptions) (hdoc : SameDocument doc doc') :
    Corresponds (fun setting setting' => setting.bare = setting'.bare) (settingOf options doc)
      (settingOf options doc') := by
  obtain ⟨hlinked, hlinked'⟩ := hdoc.linked
  have hroot := hdoc.documentElement?
  have hbind {α β γ : Type} (x : Except Diagnostic α) (f : α → β) (g : β → γ) :
      (x >>= fun a => .ok (g (f a))) = x.map f >>= fun b => .ok (g b) := by
    cases x <;> rfl
  rw [settingOf, settingOf]
  revert hroot
  generalize doc.documentElement? = root
  generalize doc'.documentElement? = root'
  intro hroot
  cases hroot with
  | none => exact .fault _
  | @some target target' helement =>
      have hpatterns := helement.filter_descendants hlinked hlinked' isConcretePattern
      have hlets := helement.filter_descendants hlinked hlinked' (.isSchemaElement "let")
      dsimp only
      rw [hbind _ (List.filterMap id) fun abstracts => Setting.mk options abstracts _ _,
        hbind _ (List.filterMap id) fun abstracts => Setting.mk options abstracts _ _]
      refine (abstracts_same hdoc helement).bind fun abstracts abstracts' habstracts => ?_
      refine .result ?_
      rw [Setting.bare, Setting.bare, habstracts, filterMap_setting?_congr hpatterns,
        filterMap_setting?_congr hlets]

end

end Abstraction

/-- Documents that differ in comments are expanded to documents that differ in comments. -/
theorem expandAbstractions_same (options : AbstractionOptions) {schema schema' : Document}
    (hschema : SameDocument schema schema') :
    Together Eq SameDocument (expandAbstractions options schema)
      (expandAbstractions options schema') := by
  rw [expandAbstractions, expandAbstractions]
  refine (Together.ofExcept (Abstraction.settingOf_same options hschema)).bind
    fun setting setting' hsetting => ?_
  have hcopied := Abstraction.copyAll_same hsetting hschema.forest
  refine (Together.lift (hcopied [] [] rfl)).bind fun result result' hresult => ?_
  obtain ⟨htrees, hinstances⟩ := hresult
  dsimp only
  rw [Abstraction.warnings_same hsetting hinstances]
  exact (Together.refl _).bind fun _ _ _ => .pure (.ofForest htrees)

end Schematron.Schema
