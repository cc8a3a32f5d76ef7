import Schematron.Proofs.Validation.ReportTree
import Schematron.Proofs.Xml.RoundTrip
import Schematron.Validation.Report

/-!
# Reports as texts

The document of a report is written as a text that is read as the same document again, whatever the
texts in it are: the messages, tests and titles of the schema, and what a run has put into them. So
the report can be read from its text as well as from its document (`ofSvrl_parse_toXml`).

The texts stand in attributes and in texts only. All names are fixed, and the one prefix is declared
at the outermost element (`Spelled`).
-/

namespace Schematron.Validation

open Schema
open Xml (Declaration Document Name Scope Tree)

namespace Svrl

open Xml.Tree

/-! ## Names -/

/-- The scope that the elements of a report stand in. -/
def reportScope : Scope := [⟨some "svrl", reportNamespace⟩]

/-- A key that is read as the name of an attribute without prefix. -/
def PlainKey (key : String) : Prop :=
  Xml.Legible key.toList ∧ Scope.splitName key.toList = (none, key) ∧
    Xml.declaration? key.toList "" = none ∧ key.toList ≠ []

instance (key : String) : Decidable (PlainKey key) :=
  inferInstanceAs (Decidable (_ ∧ _ ∧ _ ∧ _))

theorem PlainKey.attributeName {key : String} (h : PlainKey key) (scope : Scope) :
    AttributeName scope (.plain key) := by
  obtain ⟨-, hsplit, hdeclaration, hnil⟩ := h
  refine ⟨?_, declaration?_eq_none hdeclaration, hnil⟩
  show scope.resolve false key.toList = _
  rw [Scope.resolve, hsplit]
  rfl

theorem resolve_elementName (localPart : String) :
    reportScope.resolve true (elementName localPart).written.toList =
      .ok (elementName localPart) := by
  have hsplit : Scope.splitName (elementName localPart).written.toList =
      (some "svrl", localPart) := by
    simp [Scope.splitName, elementName, Name.qualified, Name.written, Text.cutAt?,
      List.span_eq_takeWhile_dropWhile]
  rw [Scope.resolve, hsplit]
  rfl

/-- Keys that an element of a report can have. -/
def Keys (keys : List String) : Prop := keys.Nodup ∧ ∀ key ∈ keys, PlainKey key

instance (keys : List String) : Decidable (Keys keys) := inferInstanceAs (Decidable (_ ∧ _))

theorem exists_key_of_mem {values : List (String × Option String)} {a : Name × String}
    (h : a ∈ attributes values) : ∃ key ∈ values.map (·.1), a.1 = .plain key := by
  obtain ⟨⟨key, value⟩, hmem, hsome⟩ := List.mem_filterMap.mp h
  obtain ⟨text, -, rfl⟩ := Option.map_eq_some_iff.mp hsome
  exact ⟨key, List.mem_map_of_mem hmem, rfl⟩

/-! ## Trees that are written and read -/

/-- The tree can be written inside of a report and found there by a reader. -/
structure Spelled (tree : Tree) : Prop where
  readable : Readable reportScope tree
  writable : Writable tree

theorem readableAll_of_forall {trees : List Tree} (h : ∀ tree ∈ trees, Spelled tree) :
    ReadableAll reportScope trees ∧ WritableAll trees := by
  induction trees with
  | nil => exact ⟨trivial, trivial⟩
  | cons tree rest ih =>
      obtain ⟨hreadable, hwritable⟩ := ih fun t ht => h t (List.mem_cons_of_mem _ ht)
      have hfirst := h tree List.mem_cons_self
      exact ⟨⟨hfirst.readable, hreadable⟩, ⟨hfirst.writable, hwritable⟩⟩

section
variable {localPart : String} {values : List (String × Option String)}

/-- An element can stand where the declarations before it and its own ones make the scope of a
report. -/
theorem tag_element {scope : Scope} {declarations : List Declaration}
    (hscope : declarations.reverse ++ scope = reportScope)
    (hdeclared : declarations.Pairwise fun a b => a.pre ≠ b.pre)
    (hkeys : Keys (values.map (·.1))) :
    Tag scope (elementName localPart) declarations (attributes values) where
  declared := hdeclared
  apart := attributes_distinct hkeys.1
  resolves := by rw [hscope, resolve_elementName]
  attributes a ha := by
    obtain ⟨key, hkey, hname⟩ := exists_key_of_mem ha
    rw [hname]
    exact (hkeys.2 key hkey).attributeName _

theorem legibleTag_element {declarations : List Declaration} (hname : Xml.Legible localPart.toList)
    (hprefixes : ∀ d ∈ declarations, ∀ pre ∈ d.pre, Xml.Legible pre.toList)
    (hkeys : Keys (values.map (·.1))) :
    LegibleTag (elementName localPart) declarations (attributes values) where
  name := by
    have hstart : Xml.Legible "svrl:".toList := by decide
    have hwritten : (elementName localPart).written.toList =
        "svrl:".toList ++ localPart.toList := by
      simp [elementName, Name.qualified, Name.written]
    rw [hwritten]
    exact hstart.append hname
  declarations := hprefixes
  attributes a ha := by
    obtain ⟨key, hkey, hname⟩ := exists_key_of_mem ha
    rw [hname]
    exact (hkeys.2 key hkey).1

theorem written_elementName_ne (localPart : String) : (elementName localPart).written ≠ "" := by
  simp [elementName, Name.qualified, Name.written]

theorem spelled_element {children : List Tree} (hname : Xml.Legible localPart.toList)
    (hkeys : Keys (values.map (·.1))) (hapart : TextsApart children)
    (hchildren : ∀ tree ∈ children, Spelled tree) :
    Spelled (element localPart values children) := by
  obtain ⟨hreadable, hwritable⟩ := readableAll_of_forall hchildren
  exact ⟨⟨tag_element rfl .nil hkeys, hapart, hreadable⟩, legibleTag_element hname (by simp) hkeys,
    fun h => absurd h (written_elementName_ne localPart), hwritable⟩

theorem isText_tidy (tree : Tree) : (tidy tree).isText = tree.isText := by
  cases tree <;> rfl

/-- Elements stay elements when empty texts are left out. -/
theorem forall_mem_tidyAll {children : List Tree}
    (h : ∀ tree ∈ children, tree.isText = false ∧ Spelled (tidy tree)) :
    ∀ tree ∈ tidyAll children, tree.isText = false ∧ Spelled tree := by
  intro tree htree
  obtain ⟨original, hmem, rfl⟩ := mem_tidyAll htree
  rw [isText_tidy]
  exact h original hmem

theorem spelled_tidy_element {children : List Tree} (hname : Xml.Legible localPart.toList)
    (hkeys : Keys (values.map (·.1)))
    (hchildren : ∀ tree ∈ children, tree.isText = false ∧ Spelled (tidy tree)) :
    Spelled (tidy (element localPart values children)) := by
  have htidy := forall_mem_tidyAll hchildren
  exact spelled_element hname hkeys (textsApart_of_elements fun t ht => (htidy t ht).1)
    fun t ht => (htidy t ht).2

end

/-! ## The trees of a report -/

/-- An empty message has an element without a text. -/
theorem spelled_textElement (value : String) : Spelled (tidy (textElement value)) := by
  have hname : Xml.Legible "text".toList := by decide
  have hkeys : Keys [] := by decide
  cases hvalue : value.isEmpty with
  | true =>
      have htidy : tidy (textElement value) = element "text" [] [] := by
        simp [textElement, element, tidy, tidyAll, weight, hvalue]
      rw [htidy]
      exact spelled_element hname hkeys .nil (by simp)
  | false =>
      have htidy : tidy (textElement value) = element "text" [] [.text value] := by
        simp [textElement, element, tidy, tidyAll, weight, hvalue]
      rw [htidy]
      refine spelled_element hname hkeys (.singleton _) fun tree htree => ?_
      rw [List.mem_singleton.mp htree]
      exact ⟨hvalue, trivial⟩

theorem spelled_ofFiring (firing : Firing) : Spelled (tidy (ofFiring firing)) := by
  have hname : Xml.Legible firing.assertion.kind.reportElement.toList := by
    cases firing.assertion.kind <;> decide
  have hkeys : Keys ["test", "location", "flag", "id", "role"] := by decide
  refine spelled_tidy_element hname hkeys fun tree htree => ?_
  rcases List.mem_append.mp htree with h | h
  · obtain ⟨diagnostic, -, rfl⟩ := List.mem_map.mp h
    have hname : Xml.Legible "diagnostic-reference".toList := by decide
    have hkeys : Keys ["diagnostic"] := by decide
    refine ⟨rfl, spelled_tidy_element hname hkeys fun text htext => ?_⟩
    rw [List.mem_singleton.mp htext]
    exact ⟨rfl, spelled_textElement _⟩
  · rw [List.mem_singleton.mp h]
    exact ⟨rfl, spelled_textElement _⟩

theorem spelled_ofEvent (event : Event) : Spelled (tidy (ofEvent event)) := by
  cases event with
  | activePattern pattern =>
      have hname : Xml.Legible "active-pattern".toList := by decide
      have hkeys : Keys ["id", "name"] := by decide
      exact spelled_tidy_element hname hkeys (by simp)
  | firedRule rule =>
      have hname : Xml.Legible "fired-rule".toList := by decide
      have hkeys : Keys ["context", "id", "role", "flag"] := by decide
      exact spelled_tidy_element hname hkeys (by simp)
  | firing firing => exact spelled_ofFiring firing

theorem spelled_ofNamespace (pre uri : String) : Spelled (tidy (ofNamespace pre uri)) := by
  have hname : Xml.Legible "ns-prefix-in-attribute-values".toList := by decide
  have hkeys : Keys ["prefix", "uri"] := by decide
  exact spelled_tidy_element hname hkeys (by simp)

/-- The outermost element declares the prefix of all names in it. -/
theorem readable_ofRecord (program : Program) (record : Record) :
    Readable [] (tidy (ofRecord program record)) ∧ Writable (tidy (ofRecord program record)) := by
  have hname : Xml.Legible "schematron-output".toList := by decide
  have hprefix : Xml.Legible "svrl".toList := by decide
  have hkeys : Keys ["title", "phase", "schemaVersion"] := by decide
  have hchildren : ∀ tree ∈ (program.namespaces.map fun n => ofNamespace n.1 n.2) ++
      record.events.map ofEvent, tree.isText = false ∧ Spelled (tidy tree) := by
    intro tree htree
    rcases List.mem_append.mp htree with h | h <;> obtain ⟨x, -, rfl⟩ := List.mem_map.mp h
    · exact ⟨rfl, spelled_ofNamespace x.1 x.2⟩
    · exact ⟨ofEvent_isText x, spelled_ofEvent x⟩
  have htidy := forall_mem_tidyAll hchildren
  have hapart := textsApart_of_elements fun t ht => (htidy t ht).1
  obtain ⟨hreadable, hwritable⟩ := readableAll_of_forall fun t ht => (htidy t ht).2
  exact ⟨⟨tag_element rfl (List.pairwise_singleton _ _) hkeys, hapart, hreadable⟩,
    legibleTag_element hname (by simpa using hprefix) hkeys,
    fun h => absurd h (written_elementName_ne _), hwritable⟩

/-! ## Main result -/

/-- The text of the document of a report is read as that document. -/
theorem parse_toXml_document (program : Program) (record : Record) :
    Document.parse (document program record).toXml = .ok (document program record) := by
  obtain ⟨hreadable, hwritable⟩ := readable_ofRecord program record
  have htidy : tidyAll [ofRecord program record] = [tidy (ofRecord program record)] := by
    simp [tidyAll, ofRecord, weight]
  have htop : TopLevel true [tidy (ofRecord program record)] := .element _ _ _ _ .nil
  refine Document.parse_toXml_graftAll ⟨ofRecord_proper program record, trivial⟩ (.singleton _)
    ?_ ?_ ?_ <;> rw [htidy]
  · exact htop
  · exact ⟨hreadable, trivial⟩
  · exact ⟨hwritable, trivial⟩

end Svrl

/-- A report can be read from the text of its document: a reader takes the text, and what it reads
says under either policy what the document of the run says. -/
theorem Report.ofSvrl_parse_toXml (program : Program) (record : Record) :
    ∃ svrl, Document.parse (Svrl.document program record).toXml = .ok svrl ∧
      ∀ suppress, Report.ofSvrl suppress svrl = Report.ofRecord suppress program record :=
  ⟨_, Svrl.parse_toXml_document program record, fun _ => rfl⟩

end Schematron.Validation
