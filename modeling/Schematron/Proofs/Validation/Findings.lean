import Schematron.Proofs.Validation.FiredRules
import Schematron.Proofs.Validation.ReportTree
import Schematron.Regex.Builtin
import Schematron.Validation.Report

/-!
# Findings and fired assertions

A report loses and invents nothing. What fires in a run is said without any record or document
(`emissions`): pattern after pattern, in a pattern node after node, and at a node the assertions
of the first rule that selects it. The report that is read back from the document of the run has
one finding for each of them, in this order, sorted into errors and warnings by the channel that
the assertion was compiled with (`findings_of_run`).

The way there has two halves. The record of a run has the firings of its emissions
(`emissions_of_run`), and reading the document of a record finds its firings, since nothing but
the element of a firing reads as a finding (`readAll_document`).
-/

namespace Schematron.Validation

open Schema
open Xml (Document Name NodeId Tree)
open XPath (Context)

/-! ## What fires -/

section

variable [Regex.Engine]

/-- An assertion that fires, with the context of the node its rule fired on. -/
structure Emission where
  context : Context
  assertion : Assertion

/-- The assertion in a context, if it fires there. -/
def assertionEmissions (context : Context) (assertion : Assertion) :
    Except RunFault (List Emission) := do
  let holds ← withSource assertion.test (assertion.test.evaluateBool context)
  .ok (if assertion.kind.fires holds then [⟨context, assertion⟩] else [])

/-- The assertions of a rule that fire on a node, in order. -/
def ruleEmissions (doc : Document) (globals : Bindings) (rule : Rule) (node : NodeId) :
    Except RunFault (List Emission) := do
  let bindings ← bindAll doc node globals rule.lets
  let parts ← rule.assertions.mapM (assertionEmissions { doc, node, bindings })
  .ok parts.flatten

/-- The assertions of a pattern that fire, node after node. -/
def patternEmissions (doc : Document) (globals : Bindings) (pattern : Pattern) :
    Except RunFault (List Emission) := do
  let selected ← selectNodes doc globals pattern
  let parts ← (firstSelecting doc.size selected).mapM fun (rule, node) =>
    ruleEmissions doc globals rule node
  .ok parts.flatten

/-- The assertions of a program that fire on a document, pattern after pattern. -/
def emissions (program : Program) (doc : Document) : Except RunFault (List Emission) := do
  let globals ← bindAll doc Document.rootNode [] program.globals
  let parts ← program.patterns.mapM (patternEmissions doc globals)
  .ok parts.flatten

/-- The finding about an assertion that fires: what was compiled, the location of the node, and
the normalized texts of its message and of its diagnostics, in order. -/
def Emission.finding (emission : Emission) : Except RunFault Finding := do
  let assertion := emission.assertion
  let (message, _) ← messageText emission.context assertion.message
  let diagnostics ← assertion.diagnostics.mapM fun diagnostic =>
    messageText emission.context diagnostic.message
  .ok
    { channel := assertion.channel
      kind := assertion.kind
      message := Text.normalize message
      location := emission.context.doc.location emission.context.node
      test := assertion.test.source
      id := assertion.id
      role := assertion.role
      diagnostics := diagnostics.map fun (text, _) => Text.normalize text }

end

/-! ## Reading a finding from a tree -/

namespace Finding

/-- The finding about a firing as it is recorded. -/
def ofFiring (firing : Firing) : Finding :=
  { channel := firing.assertion.channel
    kind := firing.assertion.kind
    message := Text.normalize firing.message
    location := firing.location
    test := firing.assertion.test.source
    id := firing.assertion.id
    role := firing.assertion.role
    diagnostics := firing.diagnostics.map fun (_, text) => Text.normalize text }

/-- The normalized texts of the children of a name. -/
def treeTexts (tree : Tree) (localPart : String) : List String :=
  (tree.children.filter (·.isElement Svrl.reportNamespace localPart)).map fun child =>
    Text.normalize child.stringValue

/-- The finding that a tree reports. -/
def ofTree? (tree : Tree) : Option Finding :=
  ([AssertionKind.assert, .report].find? fun kind =>
    tree.isElement Svrl.reportNamespace kind.reportElement).map fun kind =>
      { channel := ((tree.attribute? "flag").bind Channel.ofFlag?).getD (defaultChannel kind)
        kind
        message := (treeTexts tree "text").head?.getD ""
        location := (tree.attribute? "location").getD ""
        test := (tree.attribute? "test").getD ""
        id := tree.attribute? "id"
        role := tree.attribute? "role"
        diagnostics := treeTexts tree "diagnostic-reference" }

theorem map_filter_eq_filterMap {α β : Type} (p : α → Bool) (f : α → β) (xs : List α) :
    (xs.filter p).map f = xs.filterMap fun x => if p x then some (f x) else none := by
  induction xs with
  | nil => rfl
  | cons x xs ih => cases h : p x <;> simp [h, ih]

/-- A node is an element of a name if its tree is. -/
theorem isIn_of_holds {doc : Document} {parent start : NodeId} {tree : Tree}
    (h : doc.Holds parent start tree) (hweight : tree.weight ≠ 0) (uri localPart : String) :
    (doc.isElement start && (doc.name? start).any (·.isIn uri localPart)) =
      tree.isElement uri localPart := by
  cases tree with
  | text value =>
      have hvalue : value.isEmpty = false := by
        cases hempty : value.isEmpty with
        | false => rfl
        | true => exact absurd (by simp [Tree.weight, hempty]) hweight
      simp [Document.isElement, h.text_kind hvalue, Tree.isElement]
  | comment value => simp [Document.isElement, h.comment_kind, Tree.isElement]
  | element name declarations attributes children =>
      simp [Document.isElement, Document.name?, h.element_kind, Tree.isElement]

theorem childTexts_of_holds {doc : Document} {parent start : NodeId} {name : Name}
    {declarations : List Xml.Declaration} {attributes : List (Name × String)}
    {children : List Tree}
    (h : doc.Holds parent start (.element name declarations attributes children))
    (localPart : String) :
    childTexts doc start localPart =
      treeTexts (.element name declarations attributes children) localPart := by
  have hfilter : (doc.elementChildren start).filter (fun child =>
        (doc.name? child).any (·.isIn Svrl.reportNamespace localPart)) =
      (doc.children start).filter fun child => doc.isElement child &&
        (doc.name? child).any (·.isIn Svrl.reportNamespace localPart) := by
    rw [Document.elementChildren, List.filter_filter]
    simp only [Bool.and_comm]
  rw [childTexts, treeTexts, hfilter, map_filter_eq_filterMap, map_filter_eq_filterMap,
    h.element_children]
  refine Document.filterMap_tops (fun parent start tree htree hweight => ?_)
    (fun tree hweight => ?_) h.content
  · rw [isIn_of_holds htree hweight]
    cases tree with
    | text value => rfl
    | comment value => rfl
    | element => rw [htree.stringValue_eq, Tree.stringValue]
  · cases tree with
    | text value => rfl
    | comment value => rfl
    | element =>
        rw [Tree.weight] at hweight
        omega

/-- What a node reports is what its tree reports. -/
theorem read?_of_holds {doc : Document} {parent start : NodeId} {tree : Tree}
    (h : doc.Holds parent start tree) (hweight : tree.weight ≠ 0) :
    read? doc start = ofTree? tree := by
  have hkind : kindOf? doc start =
      [AssertionKind.assert, .report].find? fun kind =>
        tree.isElement Svrl.reportNamespace kind.reportElement := by
    simp only [← isIn_of_holds h hweight]
    rw [kindOf?]
    cases doc.isElement start <;> simp
  rw [read?, ofTree?, hkind]
  cases tree with
  | text value => rfl
  | comment value => rfl
  | element name declarations attributes children =>
      simp only [h.attribute?_eq, childTexts_of_holds h]

/-! ## The findings of a record -/

theorem ofFlag?_flag (channel : Channel) : Channel.ofFlag? channel.flag = some channel := by
  cases channel <;> decide

/-- The value of a key of an element is the value that it was made with. -/
theorem attribute?_element {localPart : String} {values : List (String × Option String)}
    {children : List Tree} {key : String} {value : Option String}
    (hkeys : (values.map (·.1)).Nodup) (hmem : (key, value) ∈ values) :
    (Svrl.element localPart values children).attribute? key = value := by
  show ((Svrl.attributes values).find? _).map _ = value
  induction values with
  | nil => cases hmem
  | cons head rest ih =>
      obtain ⟨k, v⟩ := head
      rw [List.map_cons, List.nodup_cons] at hkeys
      have hne : ∀ other, (key, other) ∈ rest → k ≠ key := fun other hother hk =>
        hkeys.1 (List.mem_map.mpr ⟨_, hother, hk.symm⟩)
      rcases List.mem_cons.mp hmem with heq | hrest
      · cases heq
        cases value with
        | some text => simp [Svrl.attributes, Name.plain]
        | none =>
            -- no later key can be this one
            rw [Option.map_eq_none_iff, List.find?_eq_none]
            rintro ⟨name, text⟩ hattribute
            obtain ⟨⟨k', v'⟩, hin, hsome⟩ := List.mem_filterMap.mp hattribute
            rcases List.mem_cons.mp hin with heq | hin
            · cases heq
              cases hsome
            · obtain ⟨text', -, hpair⟩ := Option.map_eq_some_iff.mp hsome
              cases hpair
              have hk : k' ≠ key := fun hk => hne v' (hk ▸ hin) rfl
              simp [Name.plain, hk]
      · have hskip := ih hkeys.2 hrest
        have hk : k ≠ key := hne value hrest
        cases v with
        | none => exact hskip
        | some text =>
            have hhead :
                ((Name.plain k).uri.isNone && (Name.plain k).localPart == key) = false := by
              simp [Name.plain, hk]
            show (List.find? _ ((Name.plain k, text) :: Svrl.attributes rest)).map _ = value
            rw [List.find?_cons_of_neg (by simp [hhead])]
            exact hskip

/-- The texts of the children of a firing's element, its diagnostics first. -/
theorem treeTexts_ofFiring (firing : Firing) :
    treeTexts (Svrl.ofFiring firing) "text" = [Text.normalize firing.message] ∧
      treeTexts (Svrl.ofFiring firing) "diagnostic-reference" =
        firing.diagnostics.map fun (_, text) => Text.normalize text := by
  have hchildren : (Svrl.ofFiring firing).children =
      (firing.diagnostics.map fun (id, text) => Svrl.element "diagnostic-reference"
        [("diagnostic", some id)] [Svrl.textElement text]) ++ [Svrl.textElement firing.message] := rfl
  constructor
  · rw [treeTexts, hchildren, List.filter_append, List.filter_map]
    simp [Function.comp_def, Svrl.isElement_element, Svrl.textElement, Svrl.stringValue_element,
      Tree.stringValue, Tree.stringValueOfAll]
  · rw [treeTexts, hchildren, List.filter_append, List.filter_map]
    simp [Function.comp_def, Svrl.isElement_element, Svrl.textElement, Svrl.stringValue_element,
      Tree.stringValue, Tree.stringValueOfAll]

/-- The element of a firing reads as the finding about it. -/
theorem ofTree?_ofFiring (firing : Firing) :
    ofTree? (Svrl.ofFiring firing) = some (ofFiring firing) := by
  have hattribute (key : String) (value : Option String)
      (hmem : (key, value) ∈ [("test", some firing.assertion.test.source),
        ("location", some firing.location), ("flag", some firing.assertion.channel.flag),
        ("id", firing.assertion.id), ("role", firing.assertion.role)]) :
      (Svrl.ofFiring firing).attribute? key = value := attribute?_element (by simp) hmem
  have hkind : ([AssertionKind.assert, .report].find? fun kind =>
      (Svrl.ofFiring firing).isElement Svrl.reportNamespace kind.reportElement) =
        some firing.assertion.kind := by
    have h := Svrl.isElement_ofEvent (.firing firing)
    simp only [Svrl.ofEvent, Svrl.eventName] at h
    simp only [h]
    cases firing.assertion.kind <;> decide
  rw [ofTree?, hkind, hattribute "flag" (some firing.assertion.channel.flag) (by simp),
    hattribute "location" (some firing.location) (by simp),
    hattribute "test" (some firing.assertion.test.source) (by simp),
    hattribute "id" firing.assertion.id (by simp),
    hattribute "role" firing.assertion.role (by simp), (treeTexts_ofFiring firing).1,
    (treeTexts_ofFiring firing).2]
  simp [ofFiring, ofFlag?_flag]

theorem ofTree?_element {localPart : String} (h : localPart ≠ "failed-assert")
    (h' : localPart ≠ "successful-report") (values : List (String × Option String))
    (children : List Tree) : ofTree? (Svrl.element localPart values children) = none := by
  rw [ofTree?]
  simp [Svrl.isElement_element, AssertionKind.reportElement, h, h']

theorem filterMap_preorderOfAll {β : Type} (f : Tree → Option β) (trees : List Tree) :
    (Tree.preorderOfAll trees).filterMap f =
      trees.flatMap fun tree => tree.preorder.filterMap f := by
  induction trees with
  | nil => rfl
  | cons tree rest ih =>
      rw [Tree.preorderOfAll, List.filterMap_append, ih, List.flatMap_cons]

/-- An element reports what it reports itself and what its children report. -/
theorem filterMap_element (localPart : String) (values : List (String × Option String))
    (children : List Tree) :
    (Svrl.element localPart values children).preorder.filterMap ofTree? =
      (ofTree? (Svrl.element localPart values children)).toList ++
        children.flatMap fun tree => tree.preorder.filterMap ofTree? := by
  rw [← filterMap_preorderOfAll, Svrl.element, Tree.preorder, List.filterMap_cons]
  split <;> simp_all

theorem filterMap_textElement (value : String) :
    (Svrl.textElement value).preorder.filterMap ofTree? = [] := by
  have htext : ofTree? (Tree.text value) = none := rfl
  rw [Svrl.textElement, filterMap_element, ofTree?_element (by simp) (by simp)]
  simp [Tree.preorder, htext]

/-- The findings of an event: one if it is a firing. -/
def ofEvent : Event → List Finding
  | .firing firing => [ofFiring firing]
  | _ => []

/-- Of the trees of an event only the element of a firing reports anything. -/
theorem filterMap_ofEvent (event : Event) :
    (Svrl.ofEvent event).preorder.filterMap ofTree? = ofEvent event := by
  cases event with
  | activePattern pattern =>
      rw [Svrl.ofEvent, filterMap_element, ofTree?_element (by simp) (by simp)]
      rfl
  | firedRule rule =>
      rw [Svrl.ofEvent, filterMap_element, ofTree?_element (by simp) (by simp)]
      rfl
  | firing firing =>
      have hchildren : ∀ tree ∈ (Svrl.ofFiring firing).children,
          tree.preorder.filterMap ofTree? = [] := by
        intro tree htree
        rcases List.mem_append.mp htree with h | h
        · obtain ⟨x, -, rfl⟩ := List.mem_map.mp h
          rw [filterMap_element, ofTree?_element (by simp) (by simp)]
          simp [filterMap_textElement]
        · rw [List.mem_singleton.mp h, filterMap_textElement]
      refine (filterMap_element firing.assertion.kind.reportElement _ _).trans ?_
      show (ofTree? (Svrl.ofFiring firing)).toList ++ (Svrl.ofFiring firing).children.flatMap _ = _
      rw [ofTree?_ofFiring, List.flatMap_eq_nil_iff.mpr hchildren]
      rfl

/-- Reading the document of a record finds its firings, in order. -/
theorem readAll_document (program : Program) (record : Record) :
    readAll (Svrl.document program record) = record.events.flatMap ofEvent := by
  have hholds := Svrl.document_holds program record
  have hsize : (Svrl.document program record).size =
      1 + (Svrl.ofRecord program record).weight := by
    rw [Document.size, ← Array.length_toList, Svrl.document_nodes, List.length_append,
      Tree.length_layout]
    rfl
  have hroot : read? (Svrl.document program record) 0 = none := by
    have hnode : (Svrl.document program record).node ([] : List Xml.Node).length = _ :=
      Document.node_of_nodes (Svrl.document_nodes program record)
    rw [List.length_nil] at hnode
    rw [read?, kindOf?, Document.isElement, Document.kind, hnode]
    rfl
  have hblock := Document.filterMap_tree (f := read? (Svrl.document program record)) (g := ofTree?)
    (fun _ _ _ h hweight => read?_of_holds h hweight)
    (fun tree hweight => by
      cases tree with
      | text value => rfl
      | comment value => rfl
      | element =>
          rw [Tree.weight] at hweight
          omega)
    (fun id hattribute => by
      rw [read?, kindOf?, Document.isElement]
      rw [Document.isAttribute] at hattribute
      cases hkind : (Svrl.document program record).kind id <;> simp_all)
    _ hholds
  rw [readAll, hsize, List.range_eq_range', Nat.add_comm, List.range'_succ, List.filterMap_cons,
    hroot]
  refine hblock.trans ?_
  have hown : ofTree? (Svrl.ofRecord program record) = none := rfl
  have hnamespace (x : String × String) :
      (Svrl.ofNamespace x.1 x.2).preorder.filterMap ofTree? = [] := by
    rw [Svrl.ofNamespace, filterMap_element, ofTree?_element (by simp) (by simp)]
    rfl
  rw [Svrl.ofRecord] at hown ⊢
  rw [Tree.preorder, List.filterMap_cons, hown, filterMap_preorderOfAll, List.flatMap_append]
  simp [List.flatMap_map, hnamespace, filterMap_ofEvent]

end Finding

/-! ## The firings of a run -/

/-- The firing that an event is, if it is one. -/
def Event.firing? : Event → Option Firing
  | .firing f => some f
  | _ => none

/-- The firings of a record, in order. -/
def Record.firings (record : Record) : List Firing := record.events.filterMap Event.firing?

theorem flatMap_ofEvent (record : Record) :
    record.events.flatMap Finding.ofEvent = record.firings.map Finding.ofFiring := by
  rw [Record.firings]
  induction record.events with
  | nil => rfl
  | cons event rest ih =>
      rw [List.flatMap_cons, ih, List.filterMap_cons]
      cases event <;> rfl

theorem firings_append (a b : Record) : (a.append b).firings = a.firings ++ b.firings := by
  simp [Record.firings, Record.append]

section

variable [Regex.Engine]

/-- The firings of a record are those of some emissions, one for each and in the same order, and
each says what there is to say about its emission. -/
def Accounts (record : Record) (fired : List Emission) : Prop :=
  fired.mapM Emission.finding = .ok (record.firings.map Finding.ofFiring)

namespace Accounts

theorem nil {record : Record} (h : record.events.filterMap Event.firing? = []) :
    Accounts record [] := by
  rw [Accounts, Record.firings, h]
  rfl

theorem append {a b : Record} {xs ys : List Emission} (ha : Accounts a xs) (hb : Accounts b ys) :
    Accounts (a.append b) (xs ++ ys) := by
  rw [Accounts, List.mapM_append, ha, hb, firings_append, List.map_append]
  rfl

/-- Parts that are each accounted for are accounted for together. -/
theorem mapM {α : Type} {f : α → Except RunFault Record}
    {g : α → Except RunFault (List Emission)}
    (h : ∀ x record, f x = .ok record → ∃ fired, g x = .ok fired ∧ Accounts record fired)
    {xs : List α} {records : List Record} (hxs : xs.mapM f = .ok records) :
    ∃ parts, xs.mapM g = .ok parts ∧ Accounts (.join records) parts.flatten := by
  induction xs generalizing records with
  | nil =>
      cases hxs
      exact ⟨[], rfl, nil rfl⟩
  | cons x xs ih =>
      rw [List.mapM_cons] at hxs
      cases hx : f x with
      | error e => rw [hx] at hxs; cases hxs
      | ok record =>
          cases hrest : xs.mapM f with
          | error e => rw [hx, hrest] at hxs; cases hxs
          | ok rest =>
              rw [hx, hrest] at hxs
              cases hxs
              obtain ⟨fired, hfired, haccounts⟩ := h x record hx
              obtain ⟨parts, hparts, hall⟩ := ih hrest
              refine ⟨fired :: parts, ?_, haccounts.append hall⟩
              rw [List.mapM_cons, hfired, hparts]
              rfl

end Accounts

/-- What a message leaves is notes only. -/
theorem partText_events {context : Context} {part : MessagePart} {text : String} {notes : Record}
    (h : partText context part = .ok (text, notes)) : notes.events = [] := by
  match part with
  | .text value =>
      cases h
      rfl
  | .valueOf query =>
      obtain ⟨value, -, h⟩ := bind_eq_ok.mp h
      cases h
      rfl
  | .nodeName none =>
      cases h
      rfl
  | .nodeName (some path) =>
      obtain ⟨ids, -, h⟩ := bind_eq_ok.mp h
      cases hname : firstName? context.doc ids with
      | some name =>
          rw [hname] at h
          cases h
          rfl
      | none =>
          rw [hname] at h
          cases h
          rfl

omit [Regex.Engine] in
theorem events_join {records : List Record} (h : ∀ record ∈ records, record.events = []) :
    (Record.join records).events = [] := List.flatMap_eq_nil_iff.mpr h

theorem messageText_events {context : Context} {message : MessageTemplate} {text : String}
    {notes : Record} (h : messageText context message = .ok (text, notes)) :
    notes.events = [] := by
  obtain ⟨parts, hparts, h⟩ := bind_eq_ok.mp h
  cases h
  refine events_join fun record hrecord => ?_
  obtain ⟨x, hx, rfl⟩ := List.mem_map.mp hrecord
  exact forall_of_mapM (P := fun y : String × Record => y.2.events = []) hparts
    (fun _ _ _ hy => partText_events hy) x hx

theorem diagnosticText_eq_ok {context : Context} {diagnostic : DiagnosticTemplate}
    {x : (String × String) × Record} (h : diagnosticText context diagnostic = .ok x) :
    messageText context diagnostic.message = .ok (x.1.2, x.2) ∧ x.2.events = [] := by
  obtain ⟨⟨text, notes⟩, htext, h⟩ := bind_eq_ok.mp h
  cases h
  exact ⟨htext, messageText_events htext⟩

theorem events_of_diagnostics {context : Context} {templates : List DiagnosticTemplate}
    {diagnostics : List ((String × String) × Record)}
    (h : templates.mapM (diagnosticText context) = .ok diagnostics) :
    (Record.join (diagnostics.map (·.2))).events = [] := by
  refine events_join fun record hrecord => ?_
  obtain ⟨x, hx, rfl⟩ := List.mem_map.mp hrecord
  exact forall_of_mapM (P := fun y : (String × String) × Record => y.2.events = []) h
    (fun _ _ _ hy => (diagnosticText_eq_ok hy).2) x hx

/-- Of an assertion nothing is recorded but that it fires. -/
theorem event_of_assertionRecord {context : Context} {assertion : Assertion} {record : Record}
    (h : assertionRecord context assertion = .ok record) :
    ∀ event ∈ record.events, ∃ firing, event = .firing firing := by
  obtain ⟨holds, -, h⟩ := bind_eq_ok.mp h
  split at h
  · obtain ⟨⟨message, notes⟩, hmessage, h⟩ := bind_eq_ok.mp h
    obtain ⟨diagnostics, hdiagnostics, h⟩ := bind_eq_ok.mp h
    cases h
    have hnotes : notes.events = [] := messageText_events hmessage
    simp [Record.append, hnotes, events_of_diagnostics hdiagnostics]
  · cases h
    exact List.forall_mem_nil _

/-- The record of an assertion that fires has one firing, which says what there is to say. -/
theorem firingRecord_accounts {context : Context} {assertion : Assertion} {record : Record}
    (h : firingRecord context assertion = .ok record) :
    Accounts record [⟨context, assertion⟩] := by
  obtain ⟨⟨message, notes⟩, hmessage, h⟩ := bind_eq_ok.mp h
  obtain ⟨diagnostics, hdiagnostics, h⟩ := bind_eq_ok.mp h
  cases h
  have hnotes : notes.events = [] := messageText_events hmessage
  have hjoin := events_of_diagnostics hdiagnostics
  -- the texts of the diagnostics are read without their ids and notes
  have htexts : assertion.diagnostics.mapM (fun d => messageText context d.message) =
      .ok (diagnostics.map fun x => (x.1.2, x.2)) := by
    rw [mapM_eq_ok] at hdiagnostics ⊢
    rw [List.forall₂_map_right_iff]
    exact hdiagnostics.imp fun _ _ hx => (diagnosticText_eq_ok hx).1
  have hfinding : Emission.finding ⟨context, assertion⟩ = .ok (Finding.ofFiring
      { assertion, location := context.doc.location context.node, message
        diagnostics := diagnostics.map (·.1) }) := by
    rw [Emission.finding]
    show messageText context assertion.message >>= _ = _
    rw [hmessage]
    show (assertion.diagnostics.mapM fun d => messageText context d.message) >>= _ = _
    rw [htexts]
    show Except.ok _ = Except.ok _
    simp [Finding.ofFiring, Function.comp_def]
  rw [Accounts, List.mapM_cons, hfinding]
  simp only [Record.join_cons, Record.firings, Record.append, List.filterMap_append, hnotes, hjoin]
  rfl

/-- An assertion is accounted for by itself if it fires and by nothing if it does not. -/
theorem assertionRecord_accounts {context : Context} {assertion : Assertion} {record : Record}
    (h : assertionRecord context assertion = .ok record) :
    ∃ fired, assertionEmissions context assertion = .ok fired ∧ Accounts record fired := by
  obtain ⟨holds, hholds, h⟩ := bind_eq_ok.mp h
  refine ⟨_, bind_eq_ok.mpr ⟨holds, hholds, rfl⟩, ?_⟩
  cases hfires : assertion.kind.fires holds with
  | true =>
      rw [hfires] at h
      exact firingRecord_accounts h
  | false =>
      rw [hfires] at h
      cases h
      exact .nil rfl

theorem ruleRecord_accounts {doc : Document} {globals : Bindings} {rule : Rule} {node : NodeId}
    {record : Record} (h : ruleRecord doc globals rule node = .ok record) :
    ∃ fired, ruleEmissions doc globals rule node = .ok fired ∧ Accounts record fired := by
  obtain ⟨bindings, hbindings, h⟩ := bind_eq_ok.mp h
  obtain ⟨records, hrecords, h⟩ := bind_eq_ok.mp h
  cases h
  obtain ⟨parts, hparts, haccounts⟩ :=
    Accounts.mapM (fun _ _ h => assertionRecord_accounts h) hrecords
  refine ⟨parts.flatten, ?_, Accounts.append (.nil rfl) haccounts⟩
  exact bind_eq_ok.mpr ⟨bindings, hbindings, bind_eq_ok.mpr ⟨parts, hparts, rfl⟩⟩

/-! ## The findings of a run -/

theorem patternRecord_accounts {doc : Document} {globals : Bindings} {pattern : Pattern}
    {record : Record} (h : patternRecord doc globals pattern = .ok record) :
    ∃ fired, patternEmissions doc globals pattern = .ok fired ∧ Accounts record fired := by
  obtain ⟨selected, hselected, h⟩ := bind_eq_ok.mp h
  obtain ⟨records, hrecords, h⟩ := bind_eq_ok.mp h
  cases h
  obtain ⟨parts, hparts, haccounts⟩ := Accounts.mapM
    (g := fun x : Rule × NodeId => ruleEmissions doc globals x.1 x.2)
    (fun _ _ h => ruleRecord_accounts h) hrecords
  refine ⟨parts.flatten, ?_, Accounts.append (.nil rfl) haccounts⟩
  rw [firedRules_eq] at hparts
  exact bind_eq_ok.mpr ⟨selected, hselected, bind_eq_ok.mpr ⟨parts, hparts, rfl⟩⟩

/-- The record of a run has the firings of its emissions. -/
theorem emissions_of_run {program : Program} {doc : Document} {record : Record}
    (h : run program doc = .ok record) :
    ∃ fired, emissions program doc = .ok fired ∧ Accounts record fired := by
  rw [run_eq] at h
  obtain ⟨globals, hglobals, h⟩ := bind_eq_ok.mp h
  obtain ⟨records, hrecords, rfl⟩ := map_eq_ok.mp h
  obtain ⟨parts, hparts, haccounts⟩ :=
    Accounts.mapM (fun _ _ h => patternRecord_accounts h) hrecords
  refine ⟨parts.flatten, ?_, haccounts⟩
  exact bind_eq_ok.mpr ⟨globals, hglobals, bind_eq_ok.mpr ⟨parts, hparts, rfl⟩⟩

/-- The report of a run has a finding for each assertion that fires and no other, in the order in
which they fire, among the errors or among the warnings as the assertion was compiled. -/
theorem findings_of_run (program : Program) (doc : Document) (record : Record) (suppress : Bool)
    (h : run program doc = .ok record) :
    ∃ fired findings, emissions program doc = .ok fired ∧
      fired.mapM Emission.finding = .ok findings ∧
      (Report.ofRecord suppress program record).errors =
        findings.filter (·.channel == .error) ∧
      (Report.ofRecord suppress program record).warnings =
        findings.filter (·.channel == .warning) := by
  obtain ⟨fired, hfired, haccounts⟩ := emissions_of_run h
  have hread : Finding.readAll (Svrl.document program record) =
      record.firings.map Finding.ofFiring := by
    rw [Finding.readAll_document, flatMap_ofEvent]
  refine ⟨fired, _, hfired, haccounts, ?_, ?_⟩
  · rw [← hread]
    rfl
  · rw [← hread]
    rfl

end

/-- A program that warns of every document. -/
def alarm : Program :=
  let assertion : Assertion :=
    { kind := .assert, id := some "a", test := ⟨"false()", .call .false []⟩, channel := .warning
      role := none, message := [.text " no  good"], diagnostics := [⟨"d", [.text "see there "]⟩] }
  let rule : Rule :=
    { id := none, context := ⟨"/", .path .root []⟩, role := none, flag := none, lets := []
      assertions := [assertion] }
  { (default : Program) with patterns := [{ id := none, title := none, rules := [rule] }] }

theorem findings_of_run_alarm :
    ∃ record, run alarm Document.empty = .ok record ∧
      ∃ fired findings, emissions alarm Document.empty = .ok fired ∧
        fired.mapM Emission.finding = .ok findings ∧
        (Report.ofRecord true alarm record).errors = findings.filter (·.channel == .error) ∧
        (Report.ofRecord true alarm record).warnings = findings.filter (·.channel == .warning) :=
  ⟨_, rfl, findings_of_run alarm Document.empty _ true rfl⟩

end Schematron.Validation
