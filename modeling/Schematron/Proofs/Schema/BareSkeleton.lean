import Schematron.Proofs.Schema.Lockstep
import Schematron.Schema.Skeleton

/-!
# Compiling without comments

A schema is compiled to the same program, with the same warnings, whether there are comments in it
or not (`compileSkeleton_bare`). Comments are no elements, so no part of the program is made of
one. They have no text, and the parts of a message that one stands between are texts, which are
made one anyway (`messagePartsOfAll_bare`).
-/

namespace Schematron.Schema

open Xml (Document Tree)
open Xml.Tree (OfElements SameButComments bare bareAll)
open XPath (StaticContext)

/-! ## Messages -/

namespace MessageTemplate

/-- A part before a message, made one with a text that it begins with. -/
def onto : MessagePart → MessageTemplate → MessageTemplate
  | .text value, .text more :: rest => .text (value ++ more) :: rest
  | part, rest => part :: rest

theorem ofParts_cons (part : MessagePart) (rest : List MessagePart) :
    ofParts (part :: rest) = onto part (ofParts rest) := by
  cases part with
  | text value =>
      rw [ofParts]
      cases ofParts rest with
      | nil => rfl
      | cons next more => cases next <;> rfl
  | _ => rfl

theorem ofParts_append (xs ys : List MessagePart) :
    ofParts (xs ++ ys) = xs.foldr onto (ofParts ys) := by
  induction xs with
  | nil => rfl
  | cons x xs ih => rw [List.cons_append, ofParts_cons, ih, List.foldr_cons]

theorem foldr_onto (part : MessagePart) (parts rest : MessageTemplate) :
    (onto part parts).foldr onto rest = onto part (parts.foldr onto rest) := by
  cases part with
  | text value =>
      cases parts with
      | nil => rfl
      | cons next parts =>
          cases next with
          | text more =>
              show onto (.text (value ++ more)) _ = onto (.text value) (onto (.text more) _)
              cases parts.foldr onto rest with
              | nil => rfl
              | cons next _ => cases next <;> simp [onto, String.append_assoc]
          | _ => rfl
  | _ => rfl

theorem foldr_ofParts (parts : List MessagePart) (rest : MessageTemplate) :
    (ofParts parts).foldr onto rest = parts.foldr onto rest := by
  induction parts with
  | nil => rfl
  | cons part parts ih => rw [ofParts_cons, foldr_onto, ih, List.foldr_cons]

theorem merging_parts :
    Merging (fun xs ys => ofParts xs = ofParts ys) (fun value => [.text value]) fun _ => [] where
  refl _ := rfl
  trans _ _ _ := Eq.trans
  append xs xs' ys ys' hx hy := by
    rw [ofParts_append, ofParts_append, ← foldr_ofParts xs, ← foldr_ofParts xs', hx, hy]
  texts _ _ := rfl
  comment _ := rfl

end MessageTemplate

namespace Skeleton

variable {names : StaticContext}

section

variable [Regex.Engine]

theorem gathers_messageParts (names : StaticContext) :
    Gathers (messageParts names) (messagePartsOfAll names) (fun value => [.text value])
      fun _ => [] where
  nil := rfl
  cons _ _ := rfl
  text _ := rfl
  comment _ := rfl

mutual

theorem messageParts_bare (names : StaticContext) :
    (tree : Tree) → Together Eq (fun xs ys => MessageTemplate.ofParts xs = .ofParts ys)
      (messageParts names tree) (messageParts names tree.bare)
  | .text _ => .pure rfl
  | .comment _ => .pure rfl
  | .element name declarations attributes children => by
      have hchildren := messagePartsOfAll_bare names children
      have hsame : (Tree.element name declarations attributes (bareAll children)) =
          (Tree.element name declarations attributes children).bare := rfl
      rw [bare, messageParts, messageParts, hsame]
      simp only [Xml.Tree.schemaName?_bare, Xml.Tree.setting?_bare]
      split
      · exact (Together.refl _).mono fun _ _ h => h ▸ rfl
      · exact (Together.refl _).mono fun _ _ h => h ▸ rfl
      · exact hchildren

theorem messagePartsOfAll_bare (names : StaticContext) :
    (trees : List Tree) → Together Eq (fun xs ys => MessageTemplate.ofParts xs = .ofParts ys)
      (messagePartsOfAll names trees) (messagePartsOfAll names (bareAll trees))
  | [] => .pure rfl
  | tree :: rest =>
      (gathers_messageParts names).together_cons MessageTemplate.merging_parts
        (gathers_messageParts names) (fun _ => messageParts_bare names tree)
        (messagePartsOfAll_bare names rest)

end

@[simp] theorem compileMessage_bare (names : StaticContext) (tree : Tree) :
    compileMessage names tree.bare = compileMessage names tree := by
  refine Together.eq ?_ |>.symm
  rw [compileMessage, compileMessage, Xml.Tree.children_bare]
  exact (messagePartsOfAll_bare names tree.children).bind fun _ _ h => .pure h

@[simp] theorem compileLet_bare (names : StaticContext) (tree : Tree) :
    compileLet names tree.bare = compileLet names tree := by
  simp only [compileLet, Xml.Tree.setting?_bare, Xml.Tree.attribute?_bare,
    Xml.Tree.stringValue_bare]

end

/-! ## Rules -/

/-- Trees by id, without comments. -/
def bareEntries (entries : List (String × Tree)) : List (String × Tree) :=
  entries.map fun (id, tree) => (id, tree.bare)

theorem lookup_bareEntries (entries : List (String × Tree)) (id : String) :
    (bareEntries entries).lookup id = (entries.lookup id).map bare := by
  induction entries with
  | nil => rfl
  | cons entry rest ih =>
      rw [bareEntries, List.map_cons, List.lookup_cons, List.lookup_cons, ← bareEntries, ih]
      split <;> rfl

theorem require_map {α β : Type} (message : String) (f : α → β) (x : Option α) :
    require message (x.map f) = f <$> require message x := by
  cases x <;> rfl

/-- A fold that passes over texts passes over comments as well. -/
theorem foldlM_bareAll {β : Type} {f : β → Tree → StageRun β}
    (htext : ∀ b value, f b (.text value) = pure b)
    (hcomment : ∀ b value, f b (.comment value) = pure b) (trees : List Tree) (b : β) :
    (bareAll trees).foldlM f b = trees.foldlM (fun b tree => f b tree.bare) b := by
  have hput (value : String) (trees : List Tree) (b : β) :
      (Xml.Tree.putText value trees).foldlM f b = trees.foldlM f b := by
    have hplain : (.text value :: trees : List Tree).foldlM f b = trees.foldlM f b := by
      rw [List.foldlM_cons, htext, pure_bind]
    cases trees with
    | nil => exact hplain
    | cons tree rest =>
        cases tree with
        | text more =>
            rw [Xml.Tree.putText, List.foldlM_cons, List.foldlM_cons, htext, htext]
        | _ => exact hplain
  induction trees generalizing b with
  | nil => rfl
  | cons tree rest ih =>
      rw [bareAll, List.foldlM_cons]
      cases tree with
      | element name declarations attributes children =>
          rw [Xml.Tree.bareOnto, List.foldlM_cons]
          exact congrArg _ (funext fun b => ih b)
      | text value =>
          rw [Xml.Tree.bareOnto, hput, ih, Xml.Tree.bare_text, htext, pure_bind]
      | comment value =>
          rw [Xml.Tree.bareOnto, ih, Xml.Tree.bare_comment, hcomment, pure_bind]

namespace Setting

variable (setting : Setting)

/-- What is looked up, without comments. -/
def bare : Setting :=
  { setting with
    abstractRules := bareEntries setting.abstractRules
    diagnostics := bareEntries setting.diagnostics }

variable [Regex.Engine]

theorem compileDiagnostics_bare (body : RuleBody) (label : String) (tree : Tree) :
    setting.bare.compileDiagnostics body label tree.bare =
      setting.compileDiagnostics body label tree := by
  rw [compileDiagnostics, compileDiagnostics, Xml.Tree.attribute?_bare]
  refine congrArg (fun f => List.mapM f _ >>= _) (funext fun word => ?_)
  dsimp only [Setting.bare]
  rw [lookup_bareEntries]
  cases setting.diagnostics.lookup (String.ofList word) with
  | none => rfl
  | some diagnostic => simp only [Option.map_some, compileMessage_bare]

theorem compileAssertion_bare (kind : AssertionKind) (body : RuleBody) (tree : Tree) :
    setting.bare.compileAssertion kind body tree.bare =
      setting.compileAssertion kind body tree := by
  simp only [compileAssertion, Xml.Tree.setting?_bare, compileMessage_bare,
    compileDiagnostics_bare]
  rfl

theorem compileChild_bare (extend : String → RuleBody → StageRun RuleBody) (body : RuleBody)
    (child : Tree) :
    setting.bare.compileChild extend body child.bare =
      setting.compileChild extend body child := by
  simp only [compileChild, Xml.Tree.schemaName?_bare, compileLet_bare, compileAssertion_bare,
    Xml.Tree.setting?_bare]

theorem foldlM_compileChild_bare (extend : String → RuleBody → StageRun RuleBody)
    (body : RuleBody) (tree : Tree) :
    tree.bare.children.foldlM (setting.bare.compileChild extend) body =
      tree.children.foldlM (setting.compileChild extend) body := by
  rw [Xml.Tree.children_bare, foldlM_bareAll (fun _ _ => rfl) (fun _ _ => rfl)]
  simp only [compileChild_bare]

theorem extend_bare (depth : Nat) (chain : List String) :
    setting.bare.extend depth chain = setting.extend depth chain := by
  induction depth generalizing chain with
  | zero =>
      funext id body
      rw [extend, extend, Setting.bare, lookup_bareEntries, require_map]
      simp only [bind_map_left]
  | succ depth ih =>
      funext id body
      have hlookup : setting.bare.abstractRules.lookup id =
          (setting.abstractRules.lookup id).map Xml.Tree.bare := lookup_bareEntries _ _
      simp only [extend, ih, hlookup, require_map, bind_map_left, foldlM_compileChild_bare]

theorem compileRule_bare (names : StaticContext) (pattern : String) (tree : Tree) :
    setting.bare.compileRule names pattern tree.bare = setting.compileRule names pattern tree := by
  have hlength : setting.bare.abstractRules.length = setting.abstractRules.length :=
    List.length_map _
  simp only [compileRule, Xml.Tree.setting?_bare, extend_bare, foldlM_compileChild_bare, hlength]

theorem compilePatternChild_bare (names : StaticContext) (label : String) (rules : List Rule)
    (child : Tree) :
    setting.bare.compilePatternChild names label rules child.bare =
      setting.compilePatternChild names label rules child := by
  simp only [compilePatternChild, Xml.Tree.schemaName?_bare, Xml.Tree.isAbstract_bare,
    compileRule_bare]

theorem compilePattern_bare (names : StaticContext) (tree : Tree) :
    setting.bare.compilePattern names tree.bare = setting.compilePattern names tree := by
  rw [compilePattern, compilePattern, Xml.Tree.children_bare,
    foldlM_bareAll (fun _ _ => rfl) (fun _ _ => rfl)]
  simp only [compilePatternChild_bare, Xml.Tree.setting?_bare, Xml.Tree.schemaChildren_bare,
    List.head?_map, Option.map_map, Function.comp_def, Xml.Tree.stringValue_bare]

end Setting

/-! ## Phases -/

/-- A fold over mapped elements, of which the results so far are mapped as well. -/
theorem foldlM_map_map {α α' β β' : Type} {f : α → α'} {h : β → β'}
    {g : β → α → StageRun β} {g' : β' → α' → StageRun β'}
    (hstep : ∀ b x, g' (h b) (f x) = h <$> g b x) (xs : List α) (b : β) :
    (xs.map f).foldlM g' (h b) = h <$> xs.foldlM g b := by
  induction xs generalizing b with
  | nil => exact (map_pure h b).symm
  | cons x xs ih => simp only [List.map_cons, List.foldlM_cons, hstep, bind_map_left, ih, map_bind]

/-- The part that is named, without comments. -/
def barePart (part : String × Tree) : String × Tree := (part.1, part.2.bare)

theorem selectPhase_bare (options : SkeletonOptions) (requested : Option String) (schema : Tree) :
    selectPhase options requested schema.bare =
      Option.map barePart <$> selectPhase options requested schema := by
  have hfind (name : String) : ((schema.schemaChildren "phase").map Xml.Tree.bare).find?
      (·.setting? "id" == some name) =
        ((schema.schemaChildren "phase").find? (·.setting? "id" == some name)).map
          Xml.Tree.bare := by
    rw [List.find?_map]
    simp only [Function.comp_def, Xml.Tree.setting?_bare]
  simp only [selectPhase, Xml.Tree.setting?_bare, Xml.Tree.schemaChildren_bare, hfind, require_map]
  generalize (if requested.getD options.phase == "#DEFAULT" then _ else _ : String) = name
  cases name == "#ALL" with
  | true => rfl
  | false => simp [barePart]

theorem concretePatterns_bare (schema : Tree) :
    concretePatterns schema.bare = List.map Xml.Tree.bare <$> concretePatterns schema := by
  have hpatterns : (schema.bare.schemaChildren "pattern").filter (!·.isAbstract) =
      ((schema.schemaChildren "pattern").filter (!·.isAbstract)).map Xml.Tree.bare := by
    rw [Xml.Tree.schemaChildren_bare, List.filter_map]
    simp only [Function.comp_def, Xml.Tree.isAbstract_bare]
  have hany (patterns : List Tree) (id : Option String) :
      warnOfDuplicate (patterns.map Xml.Tree.bare) id = warnOfDuplicate patterns id := by
    cases id <;> simp [warnOfDuplicate, Function.comp_def]
  rw [concretePatterns, concretePatterns, hpatterns]
  refine foldlM_map_map (h := List.map Xml.Tree.bare) (fun concrete pattern => ?_) _ []
  rw [Xml.Tree.setting?_bare, Xml.Tree.setting?_bare, hany]
  split <;> simp

theorem activePatterns_bare (phase : Option (String × Tree)) (schema : Tree) :
    activePatterns (phase.map barePart) schema.bare =
      List.map Xml.Tree.bare <$> activePatterns phase schema := by
  rw [activePatterns, activePatterns, concretePatterns_bare, bind_map_left]
  cases phase with
  | none => simp
  | some phase =>
      simp [barePart, List.mapM_map, Function.comp_def, List.filter_map]

/-! ## What is looked up in all of a schema -/

theorem isAbstractRule :
    OfElements fun tree => tree.isSchemaElement "rule" && tree.isAbstract where
  text _ := rfl
  comment _ := rfl
  bare tree := by rw [Xml.Tree.isSchemaElement_bare, Xml.Tree.isAbstract_bare]

/-- What is done to every result can as well be done to all of them. -/
theorem mapM_map_right {α β γ : Type} (f : α → StageRun β) (h : β → γ) (xs : List α) :
    xs.mapM (fun x => h <$> f x) = List.map h <$> xs.mapM f := by
  induction xs with
  | nil => simp
  | cons x xs ih => simp only [List.mapM_cons, ih, bind_map_left, map_bind, map_pure, List.map_cons]

theorem readAbstractRules_bare (schema : Tree) :
    readAbstractRules schema.bare = bareEntries <$> readAbstractRules schema := by
  have hentry (tree : Tree) : (do
      pure (← require "Abstract rule without an id" (tree.bare.setting? "id"), tree.bare)) =
        barePart <$> (do
          pure (← require "Abstract rule without an id" (tree.setting? "id"), tree)) := by
    simp [barePart]
  rw [readAbstractRules, readAbstractRules, Xml.Tree.filter_descendants_bare isAbstractRule,
    List.mapM_map]
  simp only [Function.comp_def, hentry, mapM_map_right]
  simp only [bind_map_left, map_bind, map_pure, bareEntries, List.map_reverse]
  rfl

theorem readDiagnostics_bare (schema : Tree) :
    readDiagnostics schema.bare = bareEntries (readDiagnostics schema) := by
  rw [readDiagnostics, readDiagnostics,
    Xml.Tree.filter_descendants_bare (.isSchemaElement "diagnostic"), List.filterMap_map,
    bareEntries, List.map_reverse, List.map_filterMap]
  simp [Function.comp_def]

theorem warnOfUnknownParts_bare (schema : Tree) :
    warnOfUnknownParts schema.bare = warnOfUnknownParts schema := by
  have hnames (trees : List Tree) :
      (bareAll trees).filterMap Tree.schemaName? = trees.filterMap Tree.schemaName? := by
    have hsplit (trees : List Tree) : trees.filterMap Tree.schemaName? =
        (trees.filter (·.isAnyElement)).filterMap Tree.schemaName? := by
      rw [List.filterMap_filter]
      refine List.filterMap_congr fun tree _ => ?_
      cases tree <;> rfl
    rw [hsplit, Xml.Tree.filter_bareAll .isAnyElement, List.filterMap_map, hsplit trees]
    simp only [Function.comp_def, Xml.Tree.schemaName?_bare]
  rw [warnOfUnknownParts, warnOfUnknownParts, Xml.Tree.children_bare, hnames]

theorem readNamespaces_bare (schema : Tree) :
    readNamespaces schema.bare = readNamespaces schema := by
  rw [readNamespaces, readNamespaces, Xml.Tree.schemaChildren_bare, List.mapM_map]
  simp only [Function.comp_def, Xml.Tree.setting?_bare]

variable [Regex.Engine]

theorem compileGlobals_bare (names : StaticContext) (lets : List Tree) :
    compileGlobals names (lets.map Xml.Tree.bare) = compileGlobals names lets := by
  rw [compileGlobals, compileGlobals, List.foldlM_map]
  simp only [compileLet_bare]

/-! ## Schemas -/

/-- Compiles a schema of which the tree is there. -/
def compileTree (options : SkeletonOptions) (requestedPhase : Option String)
    (resource digest : String) (schema : Tree) : StageRun Program := do
  let queryBinding ← readQueryBinding options schema
  warnOfUnknownParts schema
  let namespaces ← readNamespaces schema
  let setting : Setting :=
    { options
      abstractRules := ← readAbstractRules schema
      diagnostics := readDiagnostics schema }
  let phase ← selectPhase options requestedPhase schema
  let patterns ← activePatterns phase schema
  let names := namespaces.foldl (fun names (pre, uri) => names.withNamespace pre uri) {}
  let lets := (schema :: (phase.map (·.2)).toList ++ patterns).flatMap (·.schemaChildren "let")
  let (names, globals) ← compileGlobals names lets
  let patterns ← patterns.mapM (setting.compilePattern names)
  let title := (schema.schemaChildren "title").head?.map fun t => Text.normalize t.stringValue
  pure
    { resource, digest, title, version := schema.setting? "schemaVersion", queryBinding
      phase := phase.map (·.1), namespaces, globals, patterns }

theorem compileSkeleton_eq (options : SkeletonOptions) (requestedPhase : Option String)
    (resource digest : String) (schema : Document) :
    compileSkeleton options requestedPhase resource digest schema =
      match schema.documentTree?.filter (·.isSchemaElement "schema") with
      | some tree => compileTree options requestedPhase resource digest tree
      | none => throw (.diagnostic (.fatal "Document element is not a Schematron <schema>")) := by
  unfold compileSkeleton
  cases schema.documentTree?.filter (·.isSchemaElement "schema") <;> rfl

theorem compileTree_bare (options : SkeletonOptions) (requestedPhase : Option String)
    (resource digest : String) (schema : Tree) :
    compileTree options requestedPhase resource digest schema.bare =
      compileTree options requestedPhase resource digest schema := by
  have hlets (phase : Option (String × Tree)) (patterns : List Tree) :
      (schema.bare :: ((phase.map barePart).map (·.2)).toList ++
          patterns.map Xml.Tree.bare).flatMap (·.schemaChildren "let") =
        ((schema :: (phase.map (·.2)).toList ++ patterns).flatMap
          (·.schemaChildren "let")).map Xml.Tree.bare := by
    cases phase <;>
      simp [barePart, List.flatMap_map, List.map_flatMap]
  have hphase (phase : Option (String × Tree)) :
      (phase.map barePart).map (·.1) = phase.map (·.1) := by
    cases phase <;> rfl
  have hpattern (rules : List (String × Tree)) (names : StaticContext) :
      Setting.compilePattern ⟨options, bareEntries rules, bareEntries (readDiagnostics schema)⟩
          names ∘ Xml.Tree.bare =
        Setting.compilePattern ⟨options, rules, readDiagnostics schema⟩ names :=
    funext (Setting.compilePattern_bare ⟨options, rules, readDiagnostics schema⟩ names)
  have htitle : (((schema.schemaChildren "title").map Xml.Tree.bare).head?.map fun t =>
      Text.normalize t.stringValue) =
        (schema.schemaChildren "title").head?.map fun t => Text.normalize t.stringValue := by
    simp [Function.comp_def]
  simp only [compileTree, readQueryBinding, Xml.Tree.setting?_bare, warnOfUnknownParts_bare,
    readNamespaces_bare, readAbstractRules_bare, readDiagnostics_bare, selectPhase_bare,
    activePatterns_bare, bind_map_left, hlets, compileGlobals_bare, hphase, List.mapM_map, hpattern,
    Xml.Tree.schemaChildren_bare, htitle]

theorem compileTree_digest (options : SkeletonOptions) (requestedPhase : Option String)
    (resource digest digest' : String) (schema : Tree) :
    compileTree options requestedPhase resource digest' schema =
      (fun program => { program with digest := digest' }) <$>
        compileTree options requestedPhase resource digest schema := by
  simp only [compileTree, map_bind, map_pure]

end Skeleton

/-- Schemas that differ in comments are compiled to programs that differ in the digest. -/
theorem compileSkeleton_bare [Regex.Engine] (options : SkeletonOptions)
    (requestedPhase : Option String) (resource digest digest' : String) {schema schema' : Document}
    (h : SameButComments schema.forest schema'.forest) :
    compileSkeleton options requestedPhase resource digest' schema' =
      (fun program => { program with digest := digest' }) <$>
        compileSkeleton options requestedPhase resource digest schema := by
  have hfind (schema : Document) :
      (schema.documentTree?.filter (·.isSchemaElement "schema")).map Xml.Tree.bare =
        ((bareAll schema.forest).find? (·.isAnyElement)).filter (·.isSchemaElement "schema") := by
    rw [Xml.Tree.find?_bareAll .isAnyElement, Option.filter_map]
    simp only [Function.comp_def, Xml.Tree.isSchemaElement_bare, Document.documentTree?]
  have htree := hfind schema
  rw [show bareAll schema.forest = bareAll schema'.forest from h, ← hfind schema'] at htree
  rw [Skeleton.compileSkeleton_eq, Skeleton.compileSkeleton_eq]
  revert htree
  generalize schema.documentTree?.filter (·.isSchemaElement "schema") = found
  generalize schema'.documentTree?.filter (·.isSchemaElement "schema") = found'
  intro htree
  cases found with
  | none =>
      cases found' with
      | none => rfl
      | some tree' => cases htree
  | some tree =>
      cases found' with
      | none => cases htree
      | some tree' =>
          have hbare : tree.bare = tree'.bare := Option.some.inj htree
          dsimp only
          rw [← Skeleton.compileTree_bare, ← hbare, Skeleton.compileTree_bare]
          exact Skeleton.compileTree_digest options requestedPhase resource digest digest' tree

end Schematron.Schema
