import Schematron.Proofs.Schema.Scope
import Schematron.Proofs.Validation.FiredRules
import Schematron.Proofs.XPath.Faults
import Schematron.Regex.Builtin

/-!
# Variables of a run

Scopes are made twice: when a schema is compiled, as lists of names, and when a program runs, as a
stack of values. Here the two meet.

* `Evaluates` — the expressions that a run comes to, each with the context that it is evaluated in;
* `run_failsWith` — a run fails only where it comes to an expression;
* `Evaluates.binds` — in a checked program every name that an expression was checked against has a
  value in that context;
* `fault_of_compiled` — so what a compiled program has against a document lies in the document.

The invariant is that the names of the variables on the stack are the names that are known at the
place of the expression (`bindAll_namesAfter`).
-/

namespace Schematron.Validation

open Schema
open Xml (Document NodeId)
open XPath (Context EvalFault Query)

/-! ## Where expressions are evaluated -/

/-- The expression of a part of a message. -/
def partQuery? : MessagePart → Option Query
  | .valueOf query => some query
  | .nodeName path => path
  | .text _ => none

/-- The expressions in a message. -/
def messageQueries (message : MessageTemplate) : List Query := message.filterMap partQuery?

/-- The expressions of an assertion: its test, and those of its message and its diagnostics. -/
def assertionQueries (assertion : Assertion) : List Query :=
  assertion.test ::
    (messageQueries assertion.message ++
      assertion.diagnostics.flatMap fun diagnostic => messageQueries diagnostic.message)

section

variable [Regex.Engine]

/-- The expressions that a run of a program on a document comes to, with their contexts. -/
inductive Evaluates (program : Program) (doc : Document) : Query → Context → Prop where
  | global {before after : List Variable} {v : Variable} {query : Query} {bindings : Bindings}
      (hglobals : program.globals = before ++ v :: after) (hvalue : v.value = .expression query)
      (hbindings : bindAll doc Document.rootNode [] before = .ok bindings) :
      Evaluates program doc query { doc, node := Document.rootNode, bindings }
  | ruleContext {rule : Rule} {globals : Bindings} (hrule : rule ∈ program.rules)
      (hglobals : bindAll doc Document.rootNode [] program.globals = .ok globals) :
      Evaluates program doc rule.context { doc, node := Document.rootNode, bindings := globals }
  | ruleLet {rule : Rule} {globals bindings : Bindings} {node : NodeId}
      {before after : List Variable} {v : Variable} {query : Query} (hrule : rule ∈ program.rules)
      (hglobals : bindAll doc Document.rootNode [] program.globals = .ok globals)
      (hlets : rule.lets = before ++ v :: after) (hvalue : v.value = .expression query)
      (hbindings : bindAll doc node globals before = .ok bindings) :
      Evaluates program doc query { doc, node, bindings }
  | assertion {rule : Rule} {globals bindings : Bindings} {node : NodeId} {assertion : Assertion}
      {query : Query} (hrule : rule ∈ program.rules)
      (hglobals : bindAll doc Document.rootNode [] program.globals = .ok globals)
      (hbindings : bindAll doc node globals rule.lets = .ok bindings)
      (hassertion : assertion ∈ rule.assertions) (hquery : query ∈ assertionQueries assertion) :
      Evaluates program doc query { doc, node, bindings }

/-! ## Where a run fails -/

/-- The fault of an expression that a run comes to: it has no value, or its value is no node-set
where one is needed. -/
def IsFaultOf (program : Program) (doc : Document) (fault : RunFault) : Prop :=
  ∃ query context cause, Evaluates program doc query context ∧
    fault = .evaluation query.source cause ∧
      (query.evaluate context = .error cause ∨ ∃ use found, cause = .notNodes use found)

section

variable {program : Program} {doc : Document}

theorem withSource_failsWith {α : Type} {query : Query} {context : Context}
    (h : Evaluates program doc query context) {x : Except EvalFault α}
    (hx : FailsWith (fun cause => query.evaluate context = .error cause ∨
      ∃ use found, cause = .notNodes use found) x) :
    FailsWith (IsFaultOf program doc) (withSource query x) := by
  cases x with
  | ok a => exact .ok a
  | error cause => exact .error ⟨query, context, cause, h, rfl, hx cause rfl⟩

theorem evaluate_failsWith {query : Query} {context : Context} :
    FailsWith (fun cause => query.evaluate context = .error cause ∨
      ∃ use found, cause = .notNodes use found) (query.evaluate context) := fun _ h => .inl h

theorem toNodes_failsWith {query : Query} {context : Context} (use : XPath.NodeSetUse)
    (v : XPath.Value) :
    FailsWith (fun cause => query.evaluate context = .error cause ∨
      ∃ use found, cause = .notNodes use found) (v.toNodes use) := by
  cases v with
  | nodes ids => exact .ok ids
  | _ => exact .error (.inr ⟨_, _, rfl⟩)

/-- Binding variables fails only where it comes to an expression. -/
theorem bindAll_failsWith {node : NodeId} {lets : List Variable} {b : Bindings}
    (h : ∀ before v after query bindings, lets = before ++ v :: after →
      v.value = .expression query → bindAll doc node b before = .ok bindings →
        Evaluates program doc query { doc, node, bindings }) :
    FailsWith (IsFaultOf program doc) (bindAll doc node b lets) := by
  induction lets generalizing b with
  | nil => exact .ok b
  | cons v rest ih =>
      have hfirst : FailsWith (IsFaultOf program doc)
          (Variable.evaluate { doc, node, bindings := b } v) := by
        rw [Variable.evaluate]
        split
        next query hvalue =>
          exact withSource_failsWith (h [] v rest query b rfl hvalue rfl) evaluate_failsWith
        · exact .ok _
      rw [bindAll, List.foldlM_cons]
      refine FailsWith.bind_of_ok (hfirst.bind fun _ => .ok _) fun b' hb' => ih ?_
      -- what stands before a variable of the rest stands in the whole list after the head
      intro before v' after query bindings hrest hvalue hbindings
      refine h (v :: before) v' after query bindings (by rw [hrest]; rfl) hvalue ?_
      rw [bindAll, List.foldlM_cons]
      exact bind_eq_ok.mpr ⟨b', hb', hbindings⟩

theorem messageText_failsWith {context : Context} {message : MessageTemplate}
    (h : ∀ query ∈ messageQueries message, Evaluates program doc query context) :
    FailsWith (IsFaultOf program doc) (messageText context message) := by
  refine (FailsWith.mapM fun part hpart => ?_).bind fun _ => .ok _
  have hquery (query : Query) (hsome : partQuery? part = some query) :
      Evaluates program doc query context :=
    h query (List.mem_filterMap.mpr ⟨part, hpart, hsome⟩)
  match part with
  | .text value => exact .ok _
  | .valueOf query =>
      refine FailsWith.bind (withSource_failsWith (hquery query rfl) ?_) fun _ => .ok _
      exact evaluate_failsWith.bind fun _ => .ok _
  | .nodeName none => exact .ok _
  | .nodeName (some path) =>
      refine FailsWith.bind (withSource_failsWith (hquery path rfl) ?_) fun ids => ?_
      · exact evaluate_failsWith.bind fun v => toNodes_failsWith _ v
      · split <;> exact .ok _

theorem assertionRecord_failsWith {context : Context} {assertion : Assertion}
    (h : ∀ query ∈ assertionQueries assertion, Evaluates program doc query context) :
    FailsWith (IsFaultOf program doc) (assertionRecord context assertion) := by
  have hmessage : ∀ query ∈ messageQueries assertion.message, Evaluates program doc query context :=
    fun query hquery => h query (List.mem_cons_of_mem _ (List.mem_append_left _ hquery))
  have hdiagnostic (diagnostic : DiagnosticTemplate) (hmem : diagnostic ∈ assertion.diagnostics) :
      ∀ query ∈ messageQueries diagnostic.message, Evaluates program doc query context :=
    fun query hquery => h query (List.mem_cons_of_mem _ (List.mem_append_right _
      (List.mem_flatMap.mpr ⟨diagnostic, hmem, hquery⟩)))
  rw [assertionRecord]
  refine FailsWith.bind (withSource_failsWith (h _ List.mem_cons_self) ?_) fun holds => ?_
  · exact evaluate_failsWith.bind fun _ => .ok _
  · split
    · refine (messageText_failsWith hmessage).bind fun _ => FailsWith.bind ?_ fun _ => .ok _
      exact .mapM fun diagnostic hmem =>
        (messageText_failsWith (hdiagnostic diagnostic hmem)).bind fun _ => .ok _
    · exact .ok _

theorem ruleRecord_failsWith {globals : Bindings} {rule : Rule} (hrule : rule ∈ program.rules)
    (hglobals : bindAll doc Document.rootNode [] program.globals = .ok globals) (node : NodeId) :
    FailsWith (IsFaultOf program doc) (ruleRecord doc globals rule node) := by
  rw [ruleRecord]
  refine FailsWith.bind_of_ok (bindAll_failsWith fun before v after query bindings hlets hvalue hb =>
    .ruleLet hrule hglobals hlets hvalue hb) fun bindings hbindings => ?_
  refine FailsWith.bind (.mapM fun assertion hassertion => ?_) fun _ => .ok _
  exact assertionRecord_failsWith fun query hquery =>
    .assertion hrule hglobals hbindings hassertion hquery

theorem patternRecord_failsWith {globals : Bindings} {pattern : Pattern}
    (hpattern : pattern ∈ program.patterns)
    (hglobals : bindAll doc Document.rootNode [] program.globals = .ok globals) :
    FailsWith (IsFaultOf program doc) (patternRecord doc globals pattern) := by
  -- all rules are asked for nodes before the first of them fires
  have hmem (rule : Rule) (hrule : rule ∈ pattern.rules) : rule ∈ program.rules :=
    List.mem_flatMap.mpr ⟨pattern, hpattern, hrule⟩
  have hselect : FailsWith (IsFaultOf program doc) (selectNodes doc globals pattern) := by
    refine .mapM fun rule hrule => FailsWith.bind (withSource_failsWith
      (.ruleContext (hmem rule hrule) hglobals) ?_) fun _ => .ok _
    exact evaluate_failsWith.bind fun v => toNodes_failsWith _ v
  refine hselect.bind_of_ok fun selected hselected => FailsWith.bind ?_ fun _ => .ok _
  exact .mapM fun fired hfired =>
    ruleRecord_failsWith (hmem _ (mem_rules_of_fired hselected hfired)) hglobals fired.2

/-- A run fails only where it comes to an expression. -/
theorem run_failsWith (program : Program) (doc : Document) :
    FailsWith (IsFaultOf program doc) (run program doc) := by
  rw [run_eq]
  refine FailsWith.bind_of_ok (bindAll_failsWith fun before v after query bindings hlets hvalue hb =>
    .global hlets hvalue hb) fun globals hglobals => .map _ (.mapM fun pattern hpattern => ?_)
  exact patternRecord_failsWith hpattern hglobals

/-! ## The variables that have values -/

omit [Regex.Engine] in
theorem binds_names (context : Context) : context.Binds (context.bindings.map (·.1)) := by
  intro name hname
  rw [Context.lookup]
  cases hlookup : context.bindings.lookup name with
  | some v => exact ⟨v, rfl⟩
  | none =>
      obtain ⟨⟨_, v⟩, hmem, rfl⟩ := List.mem_map.mp hname
      exact absurd (List.lookup_eq_none_iff.mp hlookup _ hmem) (by simp)

/-- The names on the stack are those that are known after the variables that were bound. -/
theorem bindAll_namesAfter {node : NodeId} {lets : List Variable} {b b' : Bindings}
    (h : bindAll doc node b lets = .ok b') :
    b'.map (·.1) = namesAfter (b.map (·.1)) lets := by
  obtain ⟨new, rfl, hnew⟩ := bindAll_names h
  rw [List.map_append, hnew, namesAfter]

theorem checked_of_let {names : List String} {lets before after : List Variable} {v : Variable}
    {query : Query} (h : LetsChecked names lets) (hlets : lets = before ++ v :: after)
    (hvalue : v.value = .expression query) : query.expr.Checked (namesAfter names before) := by
  rw [hlets, letsChecked_append] at h
  have hv := h.2.1
  rwa [Variable.Checked, hvalue] at hv

theorem checked_of_messageQuery {names : List String} {message : MessageTemplate}
    (h : message.Checked names) {query : Query} (hquery : query ∈ messageQueries message) :
    query.expr.Checked names := by
  obtain ⟨part, hpart, hsome⟩ := List.mem_filterMap.mp hquery
  have hchecked := h part hpart
  match part with
  | .text value => cases hsome
  | .valueOf query =>
      cases hsome
      exact hchecked
  | .nodeName none => cases hsome
  | .nodeName (some path) =>
      cases hsome
      exact hchecked

theorem checked_of_assertionQuery {names : List String} {assertion : Assertion}
    (h : assertion.Checked names) {query : Query} (hquery : query ∈ assertionQueries assertion) :
    query.expr.Checked names := by
  rcases List.mem_cons.mp hquery with rfl | hquery
  · exact h.test
  · rcases List.mem_append.mp hquery with hquery | hquery
    · exact checked_of_messageQuery h.message hquery
    · obtain ⟨diagnostic, hdiagnostic, hquery⟩ := List.mem_flatMap.mp hquery
      exact checked_of_messageQuery (h.diagnostics diagnostic hdiagnostic) hquery

/-- In a checked program an expression was checked against the names of the variables that have
values when a run comes to it. -/
theorem Evaluates.checked (hprogram : program.Checked) {query : Query} {context : Context}
    (h : Evaluates program doc query context) :
    query.expr.Checked (context.bindings.map (·.1)) := by
  cases h with
  | global hglobals hvalue hbindings =>
      rw [bindAll_namesAfter hbindings]
      exact checked_of_let hprogram.globals hglobals hvalue
  | ruleContext hrule hglobals =>
      rw [bindAll_namesAfter hglobals]
      exact (hprogram.rules _ hrule).context
  | ruleLet hrule hglobals hlets hvalue hbindings =>
      rw [bindAll_namesAfter hbindings, bindAll_namesAfter hglobals]
      exact checked_of_let (hprogram.rules _ hrule).lets hlets hvalue
  | assertion hrule hglobals hbindings hassertion hquery =>
      rw [bindAll_namesAfter hbindings, bindAll_namesAfter hglobals]
      exact checked_of_assertionQuery ((hprogram.rules _ hrule).assertions _ hassertion) hquery

end

/-! ## Compiled programs -/

/-- A fault that lies in the document: it is not well-formed, or its values are none that an
expression can be evaluated with. -/
def RunFault.LiesInDocument : RunFault → Prop
  | malformed _ => True
  | evaluation _ (.notNodes _ _) => True
  | evaluation _ (.regex _ _) => True
  | evaluation _ (.undefinedVariable _) => False

/-- A checked program runs without faults of its own. -/
theorem run_liesInDocument {program : Program} (hprogram : program.Checked) (doc : Document) :
    FailsWith RunFault.LiesInDocument (run program doc) := by
  intro fault hfault
  obtain ⟨query, context, cause, hevaluates, rfl, hcause⟩ := run_failsWith program doc fault hfault
  rcases hcause with hcause | ⟨use, found, rfl⟩
  -- the stack at the expression is what it was checked against, so no variable is missing
  · have hdynamic := query.expr.eval_failsWith (binds_names context)
      (hevaluates.checked hprogram) cause hcause
    cases cause with
    | notNodes _ _ => trivial
    | regex _ _ => trivial
    | undefinedVariable _ => exact hdynamic.elim
  · trivial

/-- A compiled program has nothing against a document but what lies in the document, whatever
bytes it is offered. Whenever its run comes to an expression, each variable in the expression has
a value, and each call in it has as many arguments as its function accepts. -/
theorem fault_of_compiled (options : CompilerOptions) (resolver : Resource.Resolver)
    (source : SchemaSource) (program : Program) (warnings : List CompileWarning)
    (h : compile options resolver source = .ok (program, warnings)) :
    (∀ bytes fault, runBytes program bytes = .error fault → fault.LiesInDocument) ∧
      ∀ doc query context, Evaluates program doc query context →
        (∀ name ∈ query.expr.variables, ∃ v, context.lookup name = .ok v) ∧
          ∀ function arguments, .call function arguments ∈ query.expr.parts →
            function.arity.accepts arguments.length := by
  have hprogram := checked_of_compile h
  refine ⟨fun bytes fault hfault => ?_, fun doc query context hevaluates => ⟨?_, ?_⟩⟩
  · rw [runBytes] at hfault
    split at hfault
    next doc _ => exact run_liesInDocument hprogram doc fault hfault
    · cases hfault
      trivial
  · intro name hname
    exact binds_names context name ((hevaluates.checked hprogram).variables hname)
  · exact fun function arguments hcall => (hevaluates.checked hprogram).accepts hcall

end

/-- A resolver that has for the name of every kind a stage program of the kind. -/
def kindResolver : Resource.Resolver := fun path => .ok ("kind=\"" ++ path ++ "\"").toUTF8

/-- A schema with a variable in a rule. -/
def letSource : SchemaSource :=
  .ofContent "s" ("<schema xmlns='http://purl.oclc.org/dsdl/schematron'><pattern>" ++
    "<rule context='a'><let name='n' value='b'/><report test='$n'/></rule></pattern>" ++
    "</schema>").toUTF8

def kindOptions : CompilerOptions :=
  { inclusionProgram := Stage.inclusion.programKind
    abstractionProgram := Stage.abstraction.programKind
    skeletonProgram := Stage.skeleton.programKind }

theorem fault_of_compiled_letSource :
    ∃ program warnings, compile kindOptions kindResolver letSource = .ok (program, warnings) ∧
      (∀ bytes fault, runBytes program bytes = .error fault → fault.LiesInDocument) ∧
        ∀ doc query context, Evaluates program doc query context →
          (∀ name ∈ query.expr.variables, ∃ v, context.lookup name = .ok v) ∧
            ∀ function arguments, .call function arguments ∈ query.expr.parts →
              function.arity.accepts arguments.length := by
  have hok : (compile kindOptions kindResolver letSource).isOk = true := by decide +kernel
  match h : compile kindOptions kindResolver letSource with
  | .ok (program, warnings) =>
      exact ⟨program, warnings, rfl, fault_of_compiled _ _ _ program warnings h⟩
  | .error fault =>
      rw [h] at hok
      cases hok

end Schematron.Validation
