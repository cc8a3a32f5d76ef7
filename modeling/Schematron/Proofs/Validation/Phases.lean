import Mathlib.Data.List.SplitBy
import Schematron.Proofs.Schema.Phases
import Schematron.Proofs.Validation.Findings
import Schematron.Proofs.Validation.LexicalScope
import Schematron.Regex.Builtin

/-!
# Phases in reports

A program that was compiled for a phase reports what the program of all patterns reports about the
patterns that the phase activates, and nothing else (`phase_projection`).

The shared variables of the two programs differ: those of the patterns that are left out are
missing. The ones that are there have the same values (`sameOn_globals`), an active pattern was
compiled against no others, and so its record is the same on both stacks
(`patternRecord_sameOn`).
-/

namespace Schematron.Validation

open Schema
open Xml (Document NodeId Tree)
open XPath (Context Query)

/-! ## Stacks of variables -/

/-- The names stand for the same values, or for none, on both stacks. -/
def SameOn (names : List String) (b b' : Bindings) : Prop :=
  ∀ name ∈ names, b'.lookup name = b.lookup name

section

variable {names : List String} {b b' : Bindings} {doc : Document} {node : NodeId}

theorem SameOn.agreesOn (h : SameOn names b b') {some : List String} (hsome : some ⊆ names) :
    Context.AgreesOn some { doc, node, bindings := b } b' :=
  XPath.Context.agreesOn_of_lookup fun name hname => h name (hsome hname)

theorem SameOn.push (h : SameOn names b b') (name : String) (value : XPath.Value) :
    SameOn (name :: names) ((name, value) :: b) ((name, value) :: b') := by
  intro other hother
  rw [List.lookup_cons, List.lookup_cons]
  cases heq : other == name with
  | true => rfl
  | false =>
      refine h other ((List.mem_cons.mp hother).resolve_left ?_)
      rintro rfl
      simp at heq

variable [Regex.Engine]

theorem evaluate_sameOn {query : Query} (hchecked : query.expr.Checked names)
    (h : SameOn names b b') :
    query.evaluate { doc, node, bindings := b' } = query.evaluate { doc, node, bindings := b } :=
  XPath.Expr.eval_withBindings hchecked (h.agreesOn hchecked.variables)

theorem Variable.evaluate_sameOn {v : Variable} (hchecked : v.Checked names)
    (h : SameOn names b b') :
    Variable.evaluate { doc, node, bindings := b' } v =
      Variable.evaluate { doc, node, bindings := b } v := by
  rw [Variable.Checked] at hchecked
  rw [Variable.evaluate, Variable.evaluate]
  split
  next query hvalue =>
    rw [hvalue] at hchecked
    rw [Validation.evaluate_sameOn hchecked h]
  · rfl

theorem assertionRecord_sameOn {a : Assertion} (hchecked : a.Checked names)
    (h : SameOn names b b') :
    assertionRecord { doc, node, bindings := b' } a =
      assertionRecord { doc, node, bindings := b } a := by
  refine assertionRecord_withBindings hchecked (h.agreesOn fun name hname => ?_)
  obtain ⟨query, hquery, hname⟩ := List.mem_flatMap.mp hname
  exact (checked_of_assertionQuery hchecked hquery).variables hname

/-- Variables that are checked against the names are bound to the same values on both stacks. -/
theorem bindAll_sameOn {lets : List Variable} (hchecked : LetsChecked names lets)
    (h : SameOn names b b') :
    Corresponds (SameOn (namesAfter names lets)) (bindAll doc node b lets)
      (bindAll doc node b' lets) := by
  induction lets generalizing names b b' with
  | nil => exact .result h
  | cons v rest ih =>
      have hnames : namesAfter (v.name :: names) rest = namesAfter names (v :: rest) := by
        simp [namesAfter]
      rw [bindAll, bindAll, List.foldlM_cons, List.foldlM_cons,
        Variable.evaluate_sameOn hchecked.1 h, ← hnames]
      cases Variable.evaluate { doc, node, bindings := b } v with
      | error e => exact .fault e
      | ok value => exact ih hchecked.2 (h.push v.name value)

/-! ## Rules and patterns -/

theorem ruleRecord_sameOn {rule : Rule} (hchecked : rule.Checked names) (h : SameOn names b b') :
    ruleRecord doc b' rule node = ruleRecord doc b rule node := by
  refine (Corresponds.bind (bindAll_sameOn hchecked.lets h) fun c c' hc => ?_).eq.symm
  refine .of_eq ?_
  rw [mapM_congr fun a ha => assertionRecord_sameOn (hchecked.assertions a ha) hc]

theorem selectNodes_sameOn {pattern : Pattern}
    (hchecked : ∀ rule ∈ pattern.rules, rule.Checked names)
    (h : SameOn names b b') : selectNodes doc b' pattern = selectNodes doc b pattern := by
  refine mapM_congr fun rule hrule => ?_
  rw [Query.selectFromRoot, Query.selectFromRoot, evaluate_sameOn (hchecked rule hrule).context h]

/-- The record of a pattern is the same one wherever the names that it was checked against stand
for the same values. -/
theorem patternRecord_sameOn {pattern : Pattern}
    (hchecked : ∀ rule ∈ pattern.rules, rule.Checked names) (h : SameOn names b b') :
    patternRecord doc b' pattern = patternRecord doc b pattern := by
  rw [patternRecord, patternRecord, selectNodes_sameOn hchecked h]
  cases hselected : selectNodes doc b pattern with
  | error e => rfl
  | ok selected =>
      have hrecords : (firedRules doc.size selected).mapM
            (fun fired => ruleRecord doc b' fired.1 fired.2) =
          (firedRules doc.size selected).mapM fun fired => ruleRecord doc b fired.1 fired.2 :=
        mapM_congr fun fired hfired =>
          ruleRecord_sameOn (hchecked _ (mem_rules_of_fired hselected hfired)) h
      exact ((Corresponds.of_eq hrecords).bind fun _ _ h => .of_eq (h ▸ rfl)).eq

/-- Shared variables have the same values, whichever others with other names are bound between
them. -/
theorem sameOn_globals {some all : List Variable} (hsublist : some.Sublist all)
    (hdistinct : (all.map (·.name)).Nodup) (hnew : ∀ v ∈ all, v.name ∉ names)
    (hchecked : LetsChecked names some) (h : SameOn names b b') {c c' : Bindings}
    (hc : bindAll doc node b some = .ok c) (hc' : bindAll doc node b' all = .ok c') :
    SameOn (namesAfter names some) c c' := by
  induction hsublist generalizing names b b' with
  | slnil =>
      cases hc
      cases hc'
      exact h
  | @cons some all v _ ih =>
      rw [bindAll, List.foldlM_cons] at hc'
      obtain ⟨next, hnext, hc'⟩ := bind_eq_ok.mp hc'
      obtain ⟨value, -, hnext⟩ := bind_eq_ok.mp hnext
      cases hnext
      rw [List.map_cons, List.nodup_cons] at hdistinct
      have hpushed : SameOn names b ((v.name, value) :: b') := by
        intro name hname
        have hne : (name == v.name) = false :=
          beq_false_of_ne fun heq => hnew v List.mem_cons_self (heq ▸ hname)
        rw [List.lookup_cons, hne, h name hname]
      exact ih hdistinct.2 (fun w hw => hnew w (List.mem_cons_of_mem _ hw)) hchecked hpushed hc hc'
  | @cons_cons some all v _ ih =>
      rw [bindAll, List.foldlM_cons] at hc hc'
      obtain ⟨next, hnext, hc⟩ := bind_eq_ok.mp hc
      obtain ⟨value, hvalue, hnext⟩ := bind_eq_ok.mp hnext
      cases hnext
      obtain ⟨next, hnext, hc'⟩ := bind_eq_ok.mp hc'
      obtain ⟨value', hvalue', hnext⟩ := bind_eq_ok.mp hnext
      cases hnext
      rw [Variable.evaluate_sameOn hchecked.1 h, hvalue] at hvalue'
      obtain rfl := Except.ok.inj hvalue'
      rw [List.map_cons, List.nodup_cons] at hdistinct
      have hnames : namesAfter (v.name :: names) some = namesAfter names (v :: some) := by
        simp [namesAfter]
      rw [← hnames]
      refine ih hdistinct.2 (fun w hw => ?_) hchecked.2 (h.push v.name value) hc hc'
      rw [List.mem_cons, not_or]
      refine ⟨fun heq => hdistinct.1 ?_, hnew w (List.mem_cons_of_mem _ hw)⟩
      exact heq ▸ List.mem_map_of_mem hw

end

/-! ## Segments of a report -/

namespace Svrl

/-- The element of a report that says that a pattern is active. -/
def isActivePattern (tree : Tree) : Bool := tree.isElement reportNamespace "active-pattern"

/-- The body of a report cut before each active pattern. -/
def segments (body : List Tree) : List (List Tree) :=
  body.splitBy fun _ next => !isActivePattern next

/-- The segment is about a pattern of one of these ids. -/
def IsAbout (ids : List String) (segment : List Tree) : Bool :=
  Skeleton.Selects ids (segment.head?.bind (·.attribute? "id"))

/-- What a body says about the patterns of these ids. -/
def restrict (ids : List String) (body : List Tree) : List Tree :=
  ((segments body).filter (IsAbout ids)).flatten

/-- The elements of a record. -/
def ofEvents (record : Record) : List Tree := Tree.tidyAll (record.events.map ofEvent)

theorem body_join (program : Program) (records : List Record) :
    body (document program (.join records)) = records.flatMap ofEvents := by
  rw [body_document, Record.join]
  induction records with
  | nil => rfl
  | cons record rest ih =>
      rw [List.flatMap_cons, List.map_append, Tree.tidyAll_append, ih, List.flatMap_cons]
      rfl

/-- The elements begin with the one of a pattern and go on without another pattern. -/
def IsSegment (pattern : Pattern) (trees : List Tree) : Prop :=
  ∃ first rest, trees = first :: rest ∧ isActivePattern first = true ∧
    first.attribute? "id" = pattern.id ∧ ∀ tree ∈ rest, isActivePattern tree = false

theorem IsSegment.isAbout {pattern : Pattern} {trees : List Tree} (h : IsSegment pattern trees)
    (ids : List String) : IsAbout ids trees = Skeleton.Selects ids pattern.id := by
  obtain ⟨first, rest, rfl, -, hid, -⟩ := h
  rw [IsAbout, List.head?_cons, Option.bind_some, hid]

theorem isChain_of_quiet {rest : List Tree} (first : Tree)
    (h : ∀ tree ∈ rest, isActivePattern tree = false) :
    (first :: rest).IsChain fun _ next => !isActivePattern next := by
  induction rest generalizing first with
  | nil => exact .singleton first
  | cons next rest ih =>
      obtain ⟨hnext, hrest⟩ := List.forall_mem_cons.mp h
      exact List.isChain_cons_cons.mpr ⟨by rw [hnext]; rfl, ih next hrest⟩

/-- A body is cut where its segments were put together. -/
theorem segments_flatten {patterns : List Pattern} {parts : List (List Tree)}
    (h : List.Forall₂ IsSegment patterns parts) : segments parts.flatten = parts := by
  induction h with
  | nil => rfl
  | @cons pattern part patterns parts hpart hparts ih =>
      obtain ⟨first, rest, rfl, -, -, hrest⟩ := hpart
      have hchain : segments (first :: rest) = [first :: rest] :=
        List.splitBy_of_isChain (List.cons_ne_nil _ _) (isChain_of_quiet first hrest)
      rw [List.flatten_cons, segments, List.splitBy_append, ← segments, ← segments, hchain, ih]
      · rfl
      · intro last _ next hnext
        cases hparts with
        | nil => cases hnext
        | cons hpart _ =>
            obtain ⟨first', rest', rfl, hfirst, -⟩ := hpart
            cases hnext
            rw [hfirst]
            rfl

end Svrl

/-! ## Records of patterns -/

/-- Nothing is recorded of a pattern being active. -/
def Quiet (record : Record) : Prop :=
  ∀ event ∈ record.events, Svrl.eventName event ≠ "active-pattern"

theorem quiet_join {records : List Record} (h : ∀ record ∈ records, Quiet record) :
    Quiet (.join records) := by
  intro event hevent
  obtain ⟨record, hrecord, hevent⟩ := List.mem_flatMap.mp hevent
  exact h record hrecord event hevent

theorem quiet_firedRule (rule : Rule) : Quiet ⟨[.firedRule rule], []⟩ := by
  intro event hevent
  obtain rfl := List.mem_singleton.mp hevent
  simp [Svrl.eventName]

section

variable [Regex.Engine]

theorem quiet_of_assertionRecord {context : Context} {a : Assertion} {record : Record}
    (h : assertionRecord context a = .ok record) : Quiet record := by
  intro event hevent
  obtain ⟨firing, rfl⟩ := event_of_assertionRecord h event hevent
  cases hkind : firing.assertion.kind <;> simp [Svrl.eventName, hkind, AssertionKind.reportElement]

theorem quiet_of_ruleRecord {doc : Document} {globals : Bindings} {rule : Rule} {node : NodeId}
    {record : Record} (h : ruleRecord doc globals rule node = .ok record) : Quiet record := by
  obtain ⟨bindings, -, h⟩ := bind_eq_ok.mp h
  obtain ⟨records, hrecords, h⟩ := bind_eq_ok.mp h
  cases h
  refine quiet_join (List.forall_mem_cons.mpr ⟨quiet_firedRule rule, ?_⟩)
  exact forall_of_mapM hrecords fun _ _ _ hrecord => quiet_of_assertionRecord hrecord

omit [Regex.Engine] in
theorem isActivePattern_ofEvents {record : Record} (h : Quiet record) :
    ∀ tree ∈ Svrl.ofEvents record, Svrl.isActivePattern tree = false := by
  intro tree htree
  obtain ⟨original, horiginal, rfl⟩ := Tree.mem_tidyAll htree
  obtain ⟨event, hevent, rfl⟩ := List.mem_map.mp horiginal
  rw [Svrl.isActivePattern, Tree.isElement_tidy, Svrl.isElement_ofEvent]
  exact beq_false_of_ne (h event hevent)

/-- The elements of the record of a pattern are a segment about it. -/
theorem isSegment_of_patternRecord {doc : Document} {globals : Bindings} {pattern : Pattern}
    {record : Record} (h : patternRecord doc globals pattern = .ok record) :
    Svrl.IsSegment pattern (Svrl.ofEvents record) := by
  obtain ⟨selected, -, h⟩ := bind_eq_ok.mp h
  obtain ⟨records, hrecords, h⟩ := bind_eq_ok.mp h
  cases h
  have hquiet : Quiet (.join records) := quiet_join <|
    forall_of_mapM hrecords fun _ _ _ hrecord => quiet_of_ruleRecord hrecord
  refine ⟨Svrl.ofEvent (.activePattern pattern), Svrl.ofEvents (.join records), ?_, ?_, ?_,
    isActivePattern_ofEvents hquiet⟩
  · rw [Svrl.ofEvents, Record.join_cons, Record.append, List.singleton_append, List.map_cons,
      Tree.tidyAll, if_neg (Svrl.weight_ofEvent _)]
    rfl
  · exact Svrl.isElement_element ..
  · exact Finding.attribute?_element (by simp) (by simp)

/-- The elements are those of the record of a pattern. -/
def IsReport (doc : Document) (globals : Bindings) (pattern : Pattern) (trees : List Tree) : Prop :=
  ∃ record, patternRecord doc globals pattern = .ok record ∧ Svrl.ofEvents record = trees

theorem rightUnique_isReport (doc : Document) (globals : Bindings) :
    Relator.RightUnique (IsReport doc globals) := by
  rintro pattern one two ⟨record, hrecord, rfl⟩ ⟨record', hrecord', rfl⟩
  obtain rfl := Except.ok.inj (hrecord.symm.trans hrecord')
  rfl

theorem isReport_of_mapM {doc : Document} {globals : Bindings} {patterns : List Pattern}
    {records : List Record} (h : patterns.mapM (patternRecord doc globals) = .ok records) :
    List.Forall₂ (IsReport doc globals) patterns (records.map Svrl.ofEvents) :=
  List.forall₂_map_right_iff.mpr
    ((mapM_eq_ok.mp h).imp fun _ record hrecord => ⟨record, hrecord, rfl⟩)

/-- What is reported of the patterns of some ids is what is reported of all patterns, without the
segments of the others. -/
theorem restrict_of_mapM {doc : Document} {globals : Bindings} {patterns : List Pattern}
    {ids : List String} {some all : List Record}
    (hsome : (patterns.filter fun pattern => Skeleton.Selects ids pattern.id).mapM
      (patternRecord doc globals) = .ok some)
    (hall : patterns.mapM (patternRecord doc globals) = .ok all) :
    some.flatMap Svrl.ofEvents = Svrl.restrict ids (all.flatMap Svrl.ofEvents) := by
  have hreports := isReport_of_mapM hall
  have hsegments : List.Forall₂ Svrl.IsSegment patterns (all.map Svrl.ofEvents) :=
    hreports.imp fun pattern trees ⟨record, hrecord, htrees⟩ =>
      htrees ▸ isSegment_of_patternRecord hrecord
  have hkept : List.Forall₂ (IsReport doc globals)
      (patterns.filter fun pattern => Skeleton.Selects ids pattern.id)
      ((all.map Svrl.ofEvents).filter (Svrl.IsAbout ids)) := by
    refine List.rel_filter (fun pattern trees ⟨record, hrecord, htrees⟩ => ?_) hreports
    have hsegment : Svrl.IsSegment pattern trees := htrees ▸ isSegment_of_patternRecord hrecord
    exact iff_of_eq (congrArg (· = true) (hsegment.isAbout ids).symm)
  have hparts : some.map Svrl.ofEvents = (all.map Svrl.ofEvents).filter (Svrl.IsAbout ids) :=
    (rightUnique_isReport doc globals).forall₂ (isReport_of_mapM hsome) hkept
  rw [Svrl.restrict, List.flatMap_def, List.flatMap_def, Svrl.segments_flatten hsegments, hparts]

/-! ## Programs of a phase -/

/-- Of two checked programs one has some of the patterns and of the shared variables of the other.
What it reports about a document is what the other one reports about these patterns. -/
theorem body_of_phase {program whole : Program} {ids : List String} (hchecked : program.Checked)
    (hpatterns : program.patterns =
      whole.patterns.filter fun pattern => Skeleton.Selects ids pattern.id)
    (hglobals : program.globals.Sublist whole.globals)
    (hdistinct : (whole.globals.map (·.name)).Nodup) {doc : Document} {a b : Record}
    (ha : run program doc = .ok a) (hb : run whole doc = .ok b) :
    Svrl.body (Svrl.document program a) = Svrl.restrict ids (Svrl.body (Svrl.document whole b)) := by
  rw [run_eq] at ha hb
  obtain ⟨g, hg, ha⟩ := bind_eq_ok.mp ha
  obtain ⟨some, hsome, rfl⟩ := map_eq_ok.mp ha
  obtain ⟨g', hg', hb⟩ := bind_eq_ok.mp hb
  obtain ⟨all, hall, rfl⟩ := map_eq_ok.mp hb
  have hsame : SameOn (namesAfter [] program.globals) g g' :=
    sameOn_globals hglobals hdistinct (fun _ _ => List.not_mem_nil) hchecked.globals nofun hg hg'
  -- an active pattern makes the same record on the variables of both programs
  have hrecords : program.patterns.mapM (patternRecord doc g') = .ok some := by
    rw [← hsome]
    refine mapM_congr fun pattern hpattern => patternRecord_sameOn (fun rule hrule => ?_) hsame
    exact hchecked.rules rule (List.mem_flatMap.mpr ⟨pattern, hpattern, hrule⟩)
  rw [hpatterns] at hrecords
  rw [Svrl.body_join, Svrl.body_join]
  exact restrict_of_mapM hrecords hall

/-- Compiled for a phase without variables of its own, a source has those of its patterns that the
phase activates, as they are without a phase and in the same order. Whatever document both programs
run on, the report for the phase is the one on all patterns, restricted to the patterns of the
phase. -/
theorem phase_projection (options : CompilerOptions) (resolver : Resource.Resolver)
    (source : SchemaSource) (id : String) (hdefault : id ≠ "#DEFAULT") (hid : id ≠ "#ALL")
    (schema : Document) (hschema : expand options resolver source = .ok schema) (phase : Tree)
    (hphase : schema.documentTree?.bind (Skeleton.phaseOf? · id) = some phase)
    (hlets : phase.schemaChildren "let" = []) (program whole : Program)
    (warnings others : List CompileWarning)
    (h : compile { options with phase := some id } resolver source = .ok (program, warnings))
    (hwhole : compile { options with phase := some "#ALL" } resolver source = .ok (whole, others)) :
    program.patterns = whole.patterns.filter (fun pattern =>
        Skeleton.Selects (Skeleton.activated phase) pattern.id) ∧
      ∀ doc a b, run program doc = .ok a → run whole doc = .ok b →
        Svrl.body (Svrl.document program a) =
          Svrl.restrict (Skeleton.activated phase) (Svrl.body (Svrl.document whole b)) := by
  have hchecked := checked_of_compile h
  obtain ⟨doc, set, hdoc, hset, hgives⟩ := gives_of_compile h
  obtain ⟨doc', set', hdoc', hset', hgives'⟩ := gives_of_compile hwhole
  -- the stages before the last one do not ask for the phase
  obtain rfl : doc = schema := Except.ok.inj (hdoc.symm.trans hschema)
  obtain rfl : doc' = doc := Except.ok.inj (hdoc'.symm.trans hschema)
  obtain rfl : set' = set := by simpa using hset'.symm.trans hset
  obtain ⟨tree, parts, htree, hparts⟩ := Skeleton.parts_of_gives hgives
  obtain ⟨tree', all, htree', hall⟩ := Skeleton.parts_of_gives hgives'
  obtain rfl : tree' = tree := Option.some.inj (htree'.symm.trans htree)
  obtain ⟨phase', hphase', hselect⟩ := hparts.select hdefault hid hall
  have hroot := (Option.filter_eq_some_iff.mp htree).1
  rw [hroot, Option.bind_some, hphase'] at hphase
  obtain rfl := Option.some.inj hphase
  obtain ⟨hpatterns, hglobals⟩ := hselect hlets
  exact ⟨hpatterns, fun doc a b ha hb =>
    body_of_phase hchecked hpatterns hglobals hall.distinct ha hb⟩

end

/-- A schema of a pattern with a variable, another pattern, and a phase that activates the other
one. -/
def phaseSource : SchemaSource :=
  .ofContent "s" ("<schema xmlns='http://purl.oclc.org/dsdl/schematron'>" ++
    "<phase id='f'><active pattern='q'/></phase>" ++
    "<pattern id='p'><let name='m' value='a'/></pattern>" ++
    "<pattern id='q'><rule context='a'><report test='b'/></rule></pattern></schema>").toUTF8

theorem phase_projection_phaseSource :
    ∃ phase program whole, Skeleton.activated phase = ["q"] ∧
      whole.patterns.map (·.id) = [some "p", some "q"] ∧
      program.patterns = whole.patterns.filter (fun pattern =>
        Skeleton.Selects (Skeleton.activated phase) pattern.id) ∧
      ∀ doc a b, run program doc = .ok a → run whole doc = .ok b →
        Svrl.body (Svrl.document program a) =
          Svrl.restrict (Skeleton.activated phase) (Svrl.body (Svrl.document whole b)) := by
  -- evaluated at once, so that the source is read only once
  have hresults : (((expand kindOptions kindResolver phaseSource).toOption.bind fun schema =>
        schema.documentTree?.bind (Skeleton.phaseOf? · "f")).any (fun phase =>
          (phase.schemaChildren "let").isEmpty && Skeleton.activated phase == ["q"]) &&
      (compile { kindOptions with phase := some "f" } kindResolver phaseSource).isOk &&
      (compile { kindOptions with phase := some "#ALL" } kindResolver phaseSource).toOption.any
        (fun result => result.1.patterns.map (·.id) == [some "p", some "q"])) = true := by
    decide +kernel
  rw [Bool.and_eq_true, Bool.and_eq_true] at hresults
  obtain ⟨⟨hexpand, hprogram⟩, hwhole⟩ := hresults
  match hs : expand kindOptions kindResolver phaseSource,
    hp : compile { kindOptions with phase := some "f" } kindResolver phaseSource,
    hw : compile { kindOptions with phase := some "#ALL" } kindResolver phaseSource with
  | .ok schema, .ok (program, warnings), .ok (whole, others) =>
      rw [hs] at hexpand
      rw [hw] at hwhole
      obtain ⟨phase, hphase, hparts⟩ := (Option.any_eq_true _ _).mp hexpand
      rw [Bool.and_eq_true, List.isEmpty_iff, beq_iff_eq] at hparts
      exact ⟨phase, program, whole, hparts.2, beq_iff_eq.mp hwhole,
        phase_projection kindOptions kindResolver phaseSource "f" (by decide) (by decide)
          schema hs phase hphase hparts.1 program whole warnings others hp hw⟩
  | .error fault, _, _ =>
      rw [hs] at hexpand
      cases hexpand
  | _, .error fault, _ =>
      rw [hp] at hprogram
      cases hprogram
  | _, _, .error fault =>
      rw [hw] at hwhole
      cases hwhole

end Schematron.Validation
