import Schematron.Proofs.Schema.NeverFires
import Schematron.Proofs.Validation.Phases
import Schematron.Regex.Builtin

/-!
# The first rule that matches

In the segment of a pattern the report of a run has one element for each node that a rule of the
pattern selects, in document order, and it is that of the first such rule
(`reportsFirst_of_patternRecord`). A rule whose nodes are all selected by rules before it can be
deleted: what is reported stays the same (`run_deleteRule`). This is so of each rule that was
reported never to fire when the program was compiled, on every document: the rule before it has
the same context, so that both contexts select the same nodes or have the same fault
(`covered_of_repeated`).
-/

namespace Schematron.Schema

def Pattern.deleteRule (pattern : Pattern) (place : Nat) : Pattern :=
  { pattern with rules := pattern.rules.eraseIdx place }

/-- The program without a rule, which is given by its place in a pattern and that of the pattern. -/
def Program.deleteRule (program : Program) (pattern rule : Nat) : Program :=
  { program with patterns := program.patterns.modify pattern (·.deleteRule rule) }

end Schematron.Schema

namespace Schematron.Validation

open Schema
open Xml (Document NodeId Tree)
open XPath (Query)

/-! ## First rules -/

section

variable [Regex.Engine]

/-- The context of the rule selects the node of the document. -/
def SelectsNode (doc : Document) (globals : Bindings) (rule : Rule) (node : NodeId) : Prop :=
  node < doc.size ∧ ∃ ids, rule.context.selectFromRoot doc globals = .ok ids ∧ node ∈ ids

/-- The rule is the first one of some rules that selects the node. -/
def FiresOn (doc : Document) (globals : Bindings) (rules : List Rule) (rule : Rule)
    (node : NodeId) : Prop :=
  ∃ before after, rules = before ++ rule :: after ∧ SelectsNode doc globals rule node ∧
    ∀ earlier ∈ before, ¬ SelectsNode doc globals earlier node

/-- The rule with the nodes that its context selects. -/
def IsSelection (doc : Document) (globals : Bindings) (rule : Rule)
    (selection : Rule × List NodeId) : Prop :=
  selection.1 = rule ∧ rule.context.selectFromRoot doc globals = .ok selection.2

section

variable {doc : Document} {globals : Bindings}

omit [Regex.Engine] in
theorem withSource_eq_ok {α : Type} {query : Query} {x : Except XPath.EvalFault α} {a : α} :
    withSource query x = .ok a ↔ x = .ok a := by
  cases x <;> simp [withSource]

theorem selectNodes_eq_ok {pattern : Pattern} {selected : List (Rule × List NodeId)} :
    selectNodes doc globals pattern = .ok selected ↔
      List.Forall₂ (IsSelection doc globals) pattern.rules selected := by
  have hone (rule : Rule) (selection : Rule × List NodeId) :
      (do .ok (rule, ← withSource rule.context (rule.context.selectFromRoot doc globals)) :
          Except RunFault (Rule × List NodeId)) = .ok selection ↔
        IsSelection doc globals rule selection := by
    simp only [bind_eq_ok, withSource_eq_ok, Except.ok.injEq, IsSelection]
    constructor
    · rintro ⟨ids, hids, rfl⟩
      exact ⟨rfl, hids⟩
    · rintro ⟨rfl, hids⟩
      exact ⟨_, hids, rfl⟩
  rw [selectNodes, mapM_eq_ok]
  simp only [hone]

theorem IsSelection.contains_iff {rule : Rule} {selection : Rule × List NodeId}
    (h : IsSelection doc globals rule selection) {node : NodeId} (hnode : node < doc.size) :
    selection.2.contains node = true ↔ SelectsNode doc globals rule node := by
  rw [List.contains_iff_mem, SelectsNode, h.2]
  simp [hnode]

theorem any_contains_iff {rules : List Rule} {selected : List (Rule × List NodeId)}
    (h : List.Forall₂ (IsSelection doc globals) rules selected) {node : NodeId}
    (hnode : node < doc.size) :
    selected.any (·.2.contains node) = true ↔ ∃ rule ∈ rules, SelectsNode doc globals rule node := by
  induction h with
  | nil => simp
  | cons hselection _ ih =>
      rw [List.any_cons, Bool.or_eq_true, ih, hselection.contains_iff hnode]
      simp

theorem firesOn_of_find? {rules : List Rule} {selected : List (Rule × List NodeId)}
    (h : List.Forall₂ (IsSelection doc globals) rules selected) {node : NodeId}
    (hnode : node < doc.size) {rule : Rule} {ids : List NodeId}
    (hfind : selected.find? (·.2.contains node) = some (rule, ids)) :
    FiresOn doc globals rules rule node := by
  induction h with
  | nil => cases hfind
  | @cons first selection rules selected hselection _ ih =>
      rw [List.find?_cons] at hfind
      split at hfind
      next hcontains =>
        cases hfind
        obtain rfl := hselection.1
        exact ⟨[], rules, rfl, (hselection.contains_iff hnode).mp hcontains, nofun⟩
      next hnot =>
        obtain ⟨before, after, rfl, hselects, hbefore⟩ := ih hfind
        refine ⟨first :: before, after, rfl, hselects, List.forall_mem_cons.mpr ⟨?_, hbefore⟩⟩
        rw [← hselection.contains_iff hnode, hnot]
        exact Bool.false_ne_true

omit [Regex.Engine] in
/-- The nodes on which a rule fires, in document order. -/
theorem map_snd_firstSelecting (size : Nat) (selected : List (Rule × List NodeId)) :
    (firstSelecting size selected).map (·.2) =
      (List.range size).filter fun node => selected.any (·.2.contains node) := by
  rw [firstSelecting, List.map_filterMap, ← List.filterMap_eq_filter]
  refine List.filterMap_congr fun node _ => ?_
  have hany : selected.any (·.2.contains node) = (selected.find? (·.2.contains node)).isSome := by
    rw [Bool.eq_iff_iff, List.find?_isSome, List.any_eq_true]
  rw [Option.map_map, Option.guard, hany]
  cases selected.find? (·.2.contains node) <;> rfl

end

/-! ## Elements of fired rules -/

namespace Svrl

/-- The element of a report that says that a rule fired. -/
def isFiredRule (tree : Tree) : Bool := tree.isElement reportNamespace "fired-rule"

end Svrl

/-- The rule that fired, if the event is that one did. -/
def Event.firedRule? : Event → Option Rule
  | .firedRule rule => some rule
  | _ => none

omit [Regex.Engine] in
theorem filter_ofEvents (record : Record) :
    (Svrl.ofEvents record).filter Svrl.isFiredRule =
      (record.events.filterMap Event.firedRule?).map fun rule => Svrl.ofEvent (.firedRule rule) := by
  obtain ⟨events, notes⟩ := record
  rw [Svrl.ofEvents]
  induction events with
  | nil => rfl
  | cons event rest ih =>
      rw [List.map_cons, Tree.tidyAll, if_neg (Svrl.weight_ofEvent event), List.filter_append, ih]
      have hfilter : [(Svrl.ofEvent event).tidy].filter Svrl.isFiredRule =
          (event.firedRule?.map fun rule => Svrl.ofEvent (.firedRule rule)).toList := by
        rw [List.filter_singleton, Svrl.isFiredRule, Tree.isElement_tidy, Svrl.isElement_ofEvent]
        cases event with
        | activePattern pattern => simp [Svrl.eventName, Event.firedRule?]
        | firedRule rule => simp [Svrl.eventName, Event.firedRule?, Svrl.ofEvent, Svrl.element,
            Tree.tidy, Tree.tidyAll]
        | firing firing =>
            cases hkind : firing.assertion.kind <;>
              simp [Svrl.eventName, hkind, AssertionKind.reportElement, Event.firedRule?]
      rw [hfilter]
      cases h : event.firedRule? <;> simp [h]

/-! ## Reports of patterns -/

/-- Of a pattern it is reported, for the nodes that any of its rules selects, in document order, that
the first rule fired which selects the node, and of no other rule that it did. -/
def ReportsFirst (doc : Document) (globals : Bindings) (pattern : Pattern) (segment : List Tree) :
    Prop :=
  ∃ fired : List (Rule × NodeId),
    segment.filter Svrl.isFiredRule = fired.map (fun x => Svrl.ofEvent (.firedRule x.1)) ∧
      (fired.map (·.2)).Pairwise (· < ·) ∧
      (∀ node, node ∈ fired.map (·.2) ↔ ∃ rule ∈ pattern.rules, SelectsNode doc globals rule node) ∧
      ∀ x ∈ fired, FiresOn doc globals pattern.rules x.1 x.2

section

variable {doc : Document} {globals : Bindings}

theorem firedRule?_of_ruleRecord {rule : Rule} {node : NodeId} {record : Record}
    (h : ruleRecord doc globals rule node = .ok record) :
    record.events.filterMap Event.firedRule? = [rule] := by
  obtain ⟨bindings, -, h⟩ := bind_eq_ok.mp h
  obtain ⟨records, hrecords, h⟩ := bind_eq_ok.mp h
  cases h
  have hnone : (records.flatMap (·.events)).filterMap Event.firedRule? = [] := by
    rw [List.filterMap_eq_nil_iff]
    intro event hevent
    obtain ⟨record, hrecord, hevent⟩ := List.mem_flatMap.mp hevent
    obtain ⟨a, -, ha⟩ := (mem_of_mapM hrecords).mp hrecord
    obtain ⟨firing, rfl⟩ := event_of_assertionRecord ha event hevent
    rfl
  exact congrArg (rule :: ·) hnone

theorem firedRule?_of_mapM {fired : List (Rule × NodeId)} {records : List Record}
    (h : fired.mapM (fun (rule, node) => ruleRecord doc globals rule node) = .ok records) :
    (records.flatMap (·.events)).filterMap Event.firedRule? = fired.map (·.1) := by
  rw [mapM_eq_ok] at h
  induction h with
  | nil => rfl
  | cons hrecord _ ih =>
      rw [List.flatMap_cons, List.filterMap_append, ih, firedRule?_of_ruleRecord hrecord]
      rfl

theorem firedRule?_of_patternRecord {pattern : Pattern} {selected : List (Rule × List NodeId)}
    {record : Record} (hselected : selectNodes doc globals pattern = .ok selected)
    (h : patternRecord doc globals pattern = .ok record) :
    record.events.filterMap Event.firedRule? = (firstSelecting doc.size selected).map (·.1) := by
  obtain ⟨selected', hselected', h⟩ := bind_eq_ok.mp h
  obtain rfl := Except.ok.inj (hselected'.symm.trans hselected)
  obtain ⟨records, hrecords, h⟩ := bind_eq_ok.mp h
  cases h
  rw [firedRules_eq] at hrecords
  show (records.flatMap (·.events)).filterMap Event.firedRule? = _
  exact firedRule?_of_mapM hrecords

/-- The rules that are reported as fired are the first ones to select their nodes. -/
theorem reportsFirst_of_patternRecord {pattern : Pattern} {record : Record}
    (h : patternRecord doc globals pattern = .ok record) :
    ReportsFirst doc globals pattern (Svrl.ofEvents record) := by
  obtain ⟨selected, hselected, -⟩ := bind_eq_ok.mp h
  have hselections := selectNodes_eq_ok.mp hselected
  refine ⟨firstSelecting doc.size selected, ?_, ?_, fun node => ?_, ?_⟩
  · rw [filter_ofEvents, firedRule?_of_patternRecord hselected h, List.map_map]
    rfl
  · rw [map_snd_firstSelecting]
    exact List.pairwise_lt_range.filter _
  · rw [map_snd_firstSelecting, List.mem_filter, List.mem_range]
    constructor
    · rintro ⟨hnode, hany⟩
      exact (any_contains_iff hselections hnode).mp hany
    · rintro ⟨rule, hrule, hselects⟩
      exact ⟨hselects.1, (any_contains_iff hselections hselects.1).mpr ⟨rule, hrule, hselects⟩⟩
  · rintro ⟨rule, node⟩ hfired
    obtain ⟨node', hnode, hfound⟩ := List.mem_filterMap.mp hfired
    obtain ⟨⟨first, ids⟩, hfind, heq⟩ := Option.map_eq_some_iff.mp hfound
    cases heq
    exact firesOn_of_find? hselections (List.mem_range.mp hnode) hfind

theorem reportsFirst_of_run {program : Program} {record : Record}
    (hglobals : bindAll doc Document.rootNode [] program.globals = .ok globals)
    (h : run program doc = .ok record) :
    List.Forall₂ (ReportsFirst doc globals) program.patterns
      (Svrl.segments (Svrl.body (Svrl.document program record))) := by
  rw [run_eq, hglobals] at h
  obtain ⟨records, hrecords, rfl⟩ := map_eq_ok.mp h
  have hreports := isReport_of_mapM hrecords
  have hsegments : List.Forall₂ Svrl.IsSegment program.patterns (records.map Svrl.ofEvents) :=
    hreports.imp fun _ _ ⟨_, hrecord, htrees⟩ => htrees ▸ isSegment_of_patternRecord hrecord
  rw [Svrl.body_join, List.flatMap_def, Svrl.segments_flatten hsegments]
  exact hreports.imp fun _ _ ⟨_, hrecord, htrees⟩ =>
    htrees ▸ reportsFirst_of_patternRecord hrecord

end

end

/-! ## Rules that can be deleted -/

/-- Records of which the same is reported. -/
structure ReportedAlike (a b : Record) : Prop where
  elements : a.events.map Svrl.ofEvent = b.events.map Svrl.ofEvent
  notes : a.notes = b.notes

theorem ReportedAlike.refl (a : Record) : ReportedAlike a a := ⟨rfl, rfl⟩

theorem ReportedAlike.join {as bs : List Record} (h : List.Forall₂ ReportedAlike as bs) :
    ReportedAlike (.join as) (.join bs) := by
  induction h with
  | nil => exact .refl _
  | cons hone _ ih =>
      constructor
      · simp only [Record.join_cons, Record.append, List.map_append, hone.elements, ih.elements]
      · simp only [Record.join_cons, Record.append, hone.notes, ih.notes]

/-- Wherever the contexts of the rules before it have values, that of the rule has one, and it
selects no nodes but those that they select. -/
def Covered [Regex.Engine] (doc : Document) (globals : Bindings) (before : List Rule)
    (rule : Rule) : Prop :=
  ∀ selected, List.Forall₂ (IsSelection doc globals) before selected →
    ∃ ids, rule.context.selectFromRoot doc globals = .ok ids ∧
      ∀ node < doc.size, node ∈ ids → selected.any (·.2.contains node) = true

section

variable {doc : Document} {globals : Bindings}

/-- On no node a rule fires first whose nodes are all selected before it. -/
theorem firstSelecting_of_covered {size : Nat} {before after : List (Rule × List NodeId)}
    {selection : Rule × List NodeId}
    (h : ∀ node < size, node ∈ selection.2 → before.any (·.2.contains node) = true) :
    firstSelecting size (before ++ selection :: after) = firstSelecting size (before ++ after) := by
  refine List.filterMap_congr fun node hnode => ?_
  rw [List.find?_append, List.find?_append, List.find?_cons]
  cases hcontains : selection.2.contains node with
  | false => rfl
  | true =>
      have hany := h node (List.mem_range.mp hnode) (List.contains_iff_mem.mp hcontains)
      have hfound : (before.find? (·.2.contains node)).isSome := by
        rw [List.find?_isSome, ← List.any_eq_true, hany]
      obtain ⟨first, hfirst⟩ := Option.isSome_iff_exists.mp hfound
      rw [hfirst]
      rfl

variable [Regex.Engine]

theorem selectNodes_append (pattern : Pattern) (before after : List Rule) :
    selectNodes doc globals { pattern with rules := before ++ after } =
      selectNodes doc globals { pattern with rules := before } >>= fun selected =>
        (selectNodes doc globals { pattern with rules := after }).map (selected ++ ·) :=
  mapM_append _ before after

/-- Without a rule whose nodes are selected before it, the same is reported of a pattern. -/
theorem patternRecord_of_covered (pattern : Pattern) {before : List Rule} {rule : Rule}
    (hcovered : Covered doc globals before rule) (after : List Rule) :
    Corresponds ReportedAlike
      (patternRecord doc globals { pattern with rules := before ++ after })
      (patternRecord doc globals { pattern with rules := before ++ rule :: after }) := by
  have hsplit : before ++ rule :: after = before ++ ([rule] ++ after) := rfl
  rw [patternRecord, patternRecord, hsplit, selectNodes_append, selectNodes_append,
    selectNodes_append pattern [rule]]
  cases hbefore : selectNodes doc globals { pattern with rules := before } with
  | error fault => exact .fault fault
  | ok first =>
      obtain ⟨ids, hids, hnodes⟩ := hcovered first (selectNodes_eq_ok.mp hbefore)
      have hrule : selectNodes doc globals { pattern with rules := [rule] } = .ok [(rule, ids)] :=
        selectNodes_eq_ok.mpr (.cons ⟨rfl, hids⟩ .nil)
      rw [hrule]
      cases selectNodes doc globals { pattern with rules := after } with
      | error fault => exact .fault fault
      | ok rest =>
          show Corresponds ReportedAlike
            ((firedRules doc.size (first ++ rest)).mapM _ >>= _)
            ((firedRules doc.size (first ++ (rule, ids) :: rest)).mapM _ >>= _)
          rw [firedRules_eq, firedRules_eq, firstSelecting_of_covered hnodes]
          refine (Corresponds.of_eq rfl).bind fun records _ heq => .result ?_
          subst heq
          exact ⟨rfl, rfl⟩

theorem patternRecord_deleteRule {pattern : Pattern} {place : Nat}
    (h : ∀ rule, pattern.rules[place]? = some rule →
      Covered doc globals (pattern.rules.take place) rule) :
    Corresponds ReportedAlike (patternRecord doc globals (pattern.deleteRule place))
      (patternRecord doc globals pattern) := by
  by_cases hplace : place < pattern.rules.length
  · have hcovered := h _ (List.getElem?_eq_getElem hplace)
    have hpattern : { pattern with rules := pattern.rules.take place ++
        pattern.rules[place] :: pattern.rules.drop (place + 1) } = pattern := by
      rw [List.getElem_cons_drop, List.take_append_drop]
    have hdeleted : pattern.deleteRule place = { pattern with
        rules := pattern.rules.take place ++ pattern.rules.drop (place + 1) } := by
      rw [Pattern.deleteRule, List.eraseIdx_eq_take_drop_succ]
    have halike := patternRecord_of_covered pattern hcovered (pattern.rules.drop (place + 1))
    rwa [← hdeleted, hpattern] at halike
  · -- there is no rule at this place
    have hdeleted : pattern.deleteRule place = pattern := by
      rw [Pattern.deleteRule, List.eraseIdx_of_length_le (Nat.le_of_not_lt hplace)]
    rw [hdeleted]
    exact (Corresponds.of_eq rfl).mono fun _ _ heq => heq ▸ .refl _

end

theorem forall₂_modify {α : Type} {R : α → α → Prop} (hrefl : ∀ x, R x x) {f : α → α}
    (xs : List α) (place : Nat) (h : ∀ x, xs[place]? = some x → R (f x) x) :
    List.Forall₂ R (xs.modify place f) xs := by
  induction xs generalizing place with
  | nil => simp
  | cons x xs ih =>
      cases place with
      | zero =>
          rw [List.modify_zero_cons]
          exact .cons (h x rfl) (List.forall₂_same.mpr fun x _ => hrefl x)
      | succ place =>
          rw [List.modify_succ_cons]
          exact .cons (hrefl x) (ih place h)

/-- Without a rule whose nodes are selected by rules before it in its pattern, the same is
reported of a document. -/
theorem run_deleteRule [Regex.Engine] {program : Program} {doc : Document} {place rule : Nat}
    (h : ∀ globals, bindAll doc Document.rootNode [] program.globals = .ok globals →
      ∀ pattern deleted, program.patterns[place]? = some pattern →
        pattern.rules[rule]? = some deleted →
          Covered doc globals (pattern.rules.take rule) deleted) :
    Corresponds ReportedAlike (run (program.deleteRule place rule) doc) (run program doc) := by
  rw [run_eq, run_eq]
  show Corresponds ReportedAlike (bindAll doc Document.rootNode [] program.globals >>= _) _
  cases hglobals : bindAll doc Document.rootNode [] program.globals with
  | error fault => exact .fault fault
  | ok globals =>
      have hpatterns := forall₂_modify (f := (·.deleteRule rule)) (R := fun one other =>
        Corresponds ReportedAlike (patternRecord doc globals one) (patternRecord doc globals other))
        (fun _ => (Corresponds.of_eq rfl).mono fun _ _ heq => heq ▸ .refl _) program.patterns place
        fun pattern hpattern => patternRecord_deleteRule fun deleted hdeleted =>
          h globals hglobals pattern deleted hpattern hdeleted
      exact (Corresponds.mapM hpatterns fun _ _ halike => halike).map fun _ _ halike =>
        ReportedAlike.join halike

/-- What is given out about a run: the document of the report, and the messages. -/
def output (program : Program) (record : Record) : Document × List String :=
  (Svrl.document program record, record.notes)

theorem output_deleteRule {program : Program} {place rule : Nat}
    {x y : Except RunFault Record} (h : Corresponds ReportedAlike x y) :
    x.map (output (program.deleteRule place rule)) = y.map (output program) := by
  refine (h.map fun a b halike => ?_).eq
  rw [output, output, Svrl.document, Svrl.document, Svrl.ofRecord, Svrl.ofRecord, halike.elements,
    halike.notes]
  rfl

/-- If a rule selects no nodes but those that rules before it select, and the contexts all have
values, the rule is covered. -/
theorem covered_of_selects [Regex.Engine] {doc : Document} {globals : Bindings} {pattern : Pattern}
    {place : Nat} {rule : Rule} {record : Record} (hrecord : patternRecord doc globals pattern = .ok record)
    (hrule : pattern.rules[place]? = some rule)
    (h : ∀ node, SelectsNode doc globals rule node →
      ∃ earlier ∈ pattern.rules.take place, SelectsNode doc globals earlier node) :
    Covered doc globals (pattern.rules.take place) rule := by
  intro first hfirst
  obtain ⟨selected, hselected, -⟩ := bind_eq_ok.mp hrecord
  obtain ⟨selection, -, hselection⟩ := forall₂_mem_left (selectNodes_eq_ok.mp hselected)
    (List.mem_of_getElem? hrule)
  refine ⟨selection.2, hselection.2, fun node hnode hmem => ?_⟩
  exact (any_contains_iff hfirst hnode).mpr (h node ⟨hnode, selection.2, hselection.2, hmem⟩)

/-- In a compiled program the rules that were reported are covered: one before each has the same
context. -/
theorem covered_of_repeated [Regex.Engine] {options : CompilerOptions}
    {resolver : Resource.Resolver} {source : SchemaSource} {program : Program}
    {warnings : List CompileWarning}
    (h : compile options resolver source = .ok (program, warnings)) {pattern : Pattern}
    (hpattern : pattern ∈ program.patterns) {place : Nat} (hplace : place ∈ repeated pattern.rules)
    {rule : Rule} (hrule : pattern.rules[place]? = some rule) (doc : Document)
    (globals : Bindings) : Covered doc globals (pattern.rules.take place) rule := by
  obtain ⟨earlier, hearlier, hcontext⟩ := context_of_repeated h hpattern hplace hrule
  intro first hfirst
  obtain ⟨selection, hmem, hselection⟩ := forall₂_mem_left hfirst hearlier
  refine ⟨selection.2, hcontext ▸ hselection.2, fun node _ hnode => ?_⟩
  exact List.any_eq_true.mpr ⟨selection, hmem, List.contains_iff_mem.mpr hnode⟩

/-- In the report about a document the rules that fired in a pattern are, for the nodes that rules
of the pattern select, in document order, the first ones that select them. Hence a rule can be
deleted all of whose nodes are selected by rules before it in its pattern. When a program was
compiled, the repeated rules were reported never to fire, and no others; on every document the
program without one of them gives what it gives with it. -/
theorem firstMatch [Regex.Engine] (program : Program) :
    (∀ doc record, run program doc = .ok record →
      ∃ globals, bindAll doc Document.rootNode [] program.globals = .ok globals ∧
        List.Forall₂ (ReportsFirst doc globals) program.patterns
          (Svrl.segments (Svrl.body (Svrl.document program record))) ∧
        ∀ place rule,
          (∀ pattern deleted, program.patterns[place]? = some pattern →
            pattern.rules[rule]? = some deleted → ∀ node, SelectsNode doc globals deleted node →
              ∃ earlier ∈ pattern.rules.take rule, SelectsNode doc globals earlier node) →
          (run (program.deleteRule place rule) doc).map
            (output (program.deleteRule place rule)) = .ok (output program record)) ∧
    ∀ options resolver source warnings,
      compile options resolver source = .ok (program, warnings) →
        warnings.filter CompileWarning.isReport =
            (program.patterns.flatMap Pattern.reports).map (CompileWarning.mk .skeleton) ∧
          ∀ place pattern rule, program.patterns[place]? = some pattern →
            rule ∈ repeated pattern.rules → ∀ bytes,
              (runBytes (program.deleteRule place rule) bytes).map
                  (output (program.deleteRule place rule)) =
                (runBytes program bytes).map (output program) := by
  constructor
  · intro doc record h
    have hrun := h
    rw [run_eq] at hrun
    obtain ⟨globals, hglobals, hrun⟩ := bind_eq_ok.mp hrun
    obtain ⟨records, hrecords, -⟩ := map_eq_ok.mp hrun
    refine ⟨globals, hglobals, reportsFirst_of_run hglobals h, fun place rule hselects => ?_⟩
    refine (output_deleteRule (run_deleteRule fun globals' hglobals' pattern deleted hpattern
      hdeleted => ?_)).trans (congrArg (Except.map (output program)) h)
    obtain rfl := Except.ok.inj (hglobals'.symm.trans hglobals)
    obtain ⟨record', -, hrecord'⟩ := forall₂_mem_left (mapM_eq_ok.mp hrecords)
      (List.mem_of_getElem? hpattern)
    exact covered_of_selects hrecord' hdeleted (hselects pattern deleted hpattern hdeleted)
  · intro options resolver source warnings h
    refine ⟨reports_of_compile h, fun place pattern rule hpattern hrule bytes => ?_⟩
    refine output_deleteRule ?_
    rw [runBytes, runBytes]
    cases Document.parseBytes bytes with
    | error cause => exact .fault _
    | ok doc =>
        refine run_deleteRule fun globals _ pattern' deleted hpattern' hdeleted => ?_
        obtain rfl := Option.some.inj (hpattern'.symm.trans hpattern)
        exact covered_of_repeated h (List.mem_of_getElem? hpattern) hrule hdeleted doc globals

/-- A schema of a pattern with two rules for the document node. -/
def twiceSource : SchemaSource :=
  .ofContent "s" ("<schema xmlns='http://purl.oclc.org/dsdl/schematron'>" ++
    "<pattern><rule context='/'/><rule context='/'/></pattern></schema>").toUTF8

/-- The second rule is reported never to fire, and can be deleted. -/
theorem firstMatch_twiceSource :
    ∃ program warnings, compile kindOptions kindResolver twiceSource = .ok (program, warnings) ∧
      warnings.map (·.message) = ["Rule with context '/' in pattern '(anonymous)' never fires: " ++
        "an earlier rule has the same context"] ∧
      (∀ bytes, (runBytes (program.deleteRule 0 1) bytes).map (output (program.deleteRule 0 1)) =
        (runBytes program bytes).map (output program)) ∧
      ∃ record globals, run program .empty = .ok record ∧
        List.Forall₂ (ReportsFirst .empty globals) program.patterns
          (Svrl.segments (Svrl.body (Svrl.document program record))) ∧
        (run (program.deleteRule 0 1) .empty).map (output (program.deleteRule 0 1)) =
          .ok (output program record) := by
  -- evaluated at once, so that the source is read only once
  have hresults : (compile kindOptions kindResolver twiceSource).toOption.any (fun result =>
      (result.2.map (·.message) == ["Rule with context '/' in pattern '(anonymous)' never fires: " ++
        "an earlier rule has the same context"]) &&
      (result.1.patterns.head?.any fun pattern => (repeated pattern.rules).contains 1) &&
      (run result.1 .empty).isOk) = true := by
    decide +kernel
  match h : compile kindOptions kindResolver twiceSource with
  | .error fault =>
      rw [h] at hresults
      cases hresults
  | .ok (program, warnings) =>
      rw [h] at hresults
      simp only [Except.toOption, Option.any_some, Bool.and_eq_true, beq_iff_eq,
        Option.any_eq_true, List.contains_iff_mem, List.head?_eq_getElem?] at hresults
      obtain ⟨⟨hwarnings, pattern, hpattern, hrepeated⟩, hok⟩ := hresults
      have hmatch := firstMatch program
      cases hrun : run program .empty with
      | error fault =>
          rw [hrun] at hok
          cases hok
      | ok record =>
          obtain ⟨globals, -, hreports, hdelete⟩ := hmatch.1 .empty record hrun
          refine ⟨program, warnings, rfl, hwarnings,
            (hmatch.2 _ _ _ warnings h).2 0 pattern 1 hpattern hrepeated,
            record, globals, hrun, hreports, hdelete 0 1 fun pattern' deleted hpattern' hdeleted
              node hselects => ?_⟩
          obtain rfl := Option.some.inj (hpattern'.symm.trans hpattern)
          obtain ⟨earlier, hearlier, hcontext⟩ :=
            context_of_repeated h (List.mem_of_getElem? hpattern) hrepeated hdeleted
          exact ⟨earlier, hearlier, by rwa [SelectsNode, hcontext]⟩

end Schematron.Validation
