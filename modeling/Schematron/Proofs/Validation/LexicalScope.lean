import Schematron.Proofs.Schema.Splicing
import Schematron.Proofs.Validation.Scope
import Schematron.Proofs.XPath.Variables
import Schematron.Regex.Builtin

/-!
# The scope of an assertion

An assertion is checked against the variables that stand before it in its rule, and evaluated
under all variables of the rule. The record it makes is the same one unless a variable after it
has the name of one that it refers to (`assertionRecord_before`): that one hides the other
(`assertionRecord_hidden`).
-/

namespace Schematron.Validation

open Schema
open Xml (Document NodeId Tree)
open XPath (Context Query StaticContext)

/-! ## What an assertion reads of the variables -/

/-- The names of the variables that the expressions of an assertion refer to. -/
def assertionVariables (a : Assertion) : List String :=
  (assertionQueries a).flatMap fun query => query.expr.variables

section

variable [Regex.Engine]

section

variable {context : Context} {bindings : Bindings}

/-- The expressions have the same values, or faults, under the other variables. -/
def SameValues (context : Context) (bindings : Bindings) (queries : List Query) : Prop :=
  ∀ query ∈ queries, query.evaluate (context.withBindings bindings) = query.evaluate context

theorem partText_withBindings {part : MessagePart}
    (h : ∀ query, partQuery? part = some query →
      query.evaluate (context.withBindings bindings) = query.evaluate context) :
    partText (context.withBindings bindings) part = partText context part := by
  match part with
  | .text value => rfl
  | .nodeName none => rfl
  | .valueOf query =>
      simp only [partText, Query.evaluateText, h query rfl]
      rfl
  | .nodeName (some path) =>
      simp only [partText, h path rfl]
      rfl

theorem messageText_withBindings {message : MessageTemplate}
    (h : SameValues context bindings (messageQueries message)) :
    messageText (context.withBindings bindings) message = messageText context message := by
  have hparts : message.mapM (partText (context.withBindings bindings)) =
      message.mapM (partText context) :=
    mapM_congr fun part hpart => partText_withBindings fun query hquery =>
      h query (List.mem_filterMap.mpr ⟨part, hpart, hquery⟩)
  rw [messageText, messageText, hparts]

theorem firingRecord_withBindings {a : Assertion}
    (h : SameValues context bindings (assertionQueries a)) :
    firingRecord (context.withBindings bindings) a = firingRecord context a := by
  have hmessage : messageText (context.withBindings bindings) a.message =
      messageText context a.message := messageText_withBindings fun query hquery =>
    h query (List.mem_cons_of_mem _ (List.mem_append_left _ hquery))
  have hdiagnostics : a.diagnostics.mapM (diagnosticText (context.withBindings bindings)) =
      a.diagnostics.mapM (diagnosticText context) := by
    refine mapM_congr fun diagnostic hmem => ?_
    rw [diagnosticText, diagnosticText, messageText_withBindings fun query hquery => ?_]
    exact h query (List.mem_cons_of_mem _ (List.mem_append_right _
      (List.mem_flatMap.mpr ⟨diagnostic, hmem, hquery⟩)))
  rw [firingRecord, firingRecord, hmessage, hdiagnostics]
  rfl

theorem assertionRecord_withBindings {names : List String} {a : Assertion}
    (hchecked : a.Checked names) (h : context.AgreesOn (assertionVariables a) bindings) :
    assertionRecord (context.withBindings bindings) a = assertionRecord context a := by
  have hvalues : SameValues context bindings (assertionQueries a) := by
    intro query hquery
    refine XPath.Expr.eval_withBindings (checked_of_assertionQuery hchecked hquery) ?_
    exact fun name hname => h name (List.mem_flatMap.mpr ⟨query, hquery, hname⟩)
  have htest : a.test.evaluateBool (context.withBindings bindings) = a.test.evaluateBool context := by
    rw [Query.evaluateBool, Query.evaluateBool, hvalues a.test List.mem_cons_self]
  rw [assertionRecord, assertionRecord, htest, firingRecord_withBindings hvalues]

end

/-! ## Variables that are bound later -/

/-- Variables that are bound after some others leave the values of all names but their own. -/
theorem lookup_of_bindAll {doc : Document} {node : NodeId} {before after : List Variable}
    {b b' : Bindings} (h : bindAll doc node b (before ++ after) = .ok b') :
    ∃ scope, bindAll doc node b before = .ok scope ∧
      ∀ name, (∀ v ∈ after, v.name ≠ name) → b'.lookup name = scope.lookup name := by
  rw [bindAll, List.foldlM_append] at h
  obtain ⟨scope, hscope, hrest⟩ := bind_eq_ok.mp h
  obtain ⟨new, rfl, hnames⟩ := bindAll_names hrest
  refine ⟨scope, hscope, fun name hname => ?_⟩
  have hnone : new.lookup name = none := by
    rw [List.lookup_eq_none_iff]
    intro binding hbinding
    have hmem : binding.1 ∈ after.map (·.name) := by
      rw [← List.mem_reverse, ← hnames]
      exact List.mem_map_of_mem hbinding
    obtain ⟨v, hv, heq⟩ := List.mem_map.mp hmem
    simpa [← heq] using (hname v hv).symm
  rw [List.lookup_append, hnone, Option.none_or]

/-- The record of an assertion does not depend on variables that are bound later, if none of them
has a name that the assertion refers to. -/
theorem assertionRecord_of_bindAll {names : List String} {a : Assertion} (hchecked : a.Checked names)
    {before after : List Variable} (hafter : ∀ v ∈ after, v.name ∉ assertionVariables a)
    {doc : Document} {node : NodeId} {globals bindings : Bindings}
    (hbindings : bindAll doc node globals (before ++ after) = .ok bindings) :
    ∃ scope, bindAll doc node globals before = .ok scope ∧
      assertionRecord { doc, node, bindings } a = assertionRecord { doc, node, bindings := scope } a := by
  obtain ⟨scope, hscope, hlookup⟩ := lookup_of_bindAll hbindings
  refine ⟨scope, hscope, ?_⟩
  have hagrees : Context.AgreesOn (assertionVariables a) { doc, node, bindings := scope } bindings :=
    XPath.Context.agreesOn_of_lookup fun name hname =>
      hlookup name fun v hv heq => hafter v hv (heq ▸ hname)
  exact assertionRecord_withBindings hchecked hagrees

/-! ## Compiled rules -/

/-- In a compiled rule, whose abstract rules are spliced in, an assertion is checked against the
variables before it. What it makes of a node is what it makes there under those variables alone,
unless one of the variables after it has a name that the assertion refers to. -/
theorem assertionRecord_before (setting : Skeleton.Setting) (names : StaticContext)
    (pattern : String) (tree : Tree) (rule : Rule) (sink sink' : Sink)
    (h : (setting.compileRule names pattern tree).run sink = .ok (rule, sink')) :
    ∃ elements items, Skeleton.Splices setting.abstractRules tree.children elements ∧
      Skeleton.InOrder setting (Skeleton.Setting.startOf names tree) elements items ∧
      rule.lets = Skeleton.RuleItem.lets items ∧
      rule.assertions = Skeleton.RuleItem.assertions items ∧
      ∀ before a after, items = before ++ .assertion a :: after →
        a.Checked (namesAfter names.variableNames (Skeleton.RuleItem.lets before)) ∧
        ((∀ v ∈ Skeleton.RuleItem.lets after, v.name ∉ assertionVariables a) →
          ∀ doc node globals bindings, bindAll doc node globals rule.lets = .ok bindings →
            ∃ scope, bindAll doc node globals (Skeleton.RuleItem.lets before) = .ok scope ∧
              assertionRecord { doc, node, bindings } a =
                assertionRecord { doc, node, bindings := scope } a) := by
  obtain ⟨elements, items, hsplices, horder, hlets, hassertions⟩ :=
    setting.compileRule_items names pattern tree sink rule sink' h
  refine ⟨elements, items, hsplices, horder, hlets, hassertions, fun before a after hitems => ?_⟩
  have hchecked : a.Checked (namesAfter names.variableNames (Skeleton.RuleItem.lets before)) := by
    subst hitems
    exact horder.checked
  refine ⟨hchecked, fun hafter doc node globals bindings hbindings => ?_⟩
  have hsplit : rule.lets = Skeleton.RuleItem.lets before ++ Skeleton.RuleItem.lets after := by
    rw [hlets, hitems, Skeleton.RuleItem.lets_append, Skeleton.RuleItem.lets_assertion]
  rw [hsplit] at hbindings
  exact assertionRecord_of_bindAll hchecked hafter hbindings

/-! ## A variable that hides another -/

/-- A variable of a rule. -/
def letElement (name value : String) : Tree :=
  schemaElement "let" [("name", name), ("value", value)] []

/-- A rule for the document node, which asserts that a variable is not empty. One variable stands
before the assertion and one after it. -/
def letRule (later : String) : Tree :=
  schemaElement "rule" [("context", "/")]
    [letElement "x" "'1'",
      schemaElement "assert" [("test", "$x")] [.text "x is empty"],
      letElement later "''"]

/-- The variable of a rule with a text for its value. -/
def textVariable (name text : String) : Variable :=
  ⟨name, .expression ⟨"'" ++ text ++ "'", .literal text⟩⟩

/-- The assertion of the rule, as it is compiled. -/
def letAssertion : Assertion :=
  { kind := .assert, id := none, test := ⟨"$x", .variableRef "x"⟩, channel := .error, role := none
    message := [.text "x is empty"], diagnostics := [] }

/-- Nothing but the options of compilation. -/
def bareSetting : Skeleton.Setting := ⟨{}, [], []⟩

/-- The rule, as it is compiled. -/
def compiledRule (later : String) : Rule :=
  { id := none, context := ⟨"/", .path .root []⟩, role := none, flag := none
    lets := [textVariable "x" "1", textVariable later ""], assertions := [letAssertion] }

theorem compileRule_letRule (later : String) (h : later = "x" ∨ later = "y") :
    (bareSetting.compileRule {} "p" (letRule later)).run {} = .ok (compiledRule later, {}) := by
  rcases h with rfl | rfl <;> rfl

end

/-- Where the later variable has another name, the assertion of the rule is checked under the first
variable, and the second one does not change its record. -/
theorem assertionRecord_before_letRule :
    (bareSetting.compileRule {} "p" (letRule "y")).run {} = .ok (compiledRule "y", {}) ∧
      ∃ before after,
        (compiledRule "y").lets = Skeleton.RuleItem.lets before ++ Skeleton.RuleItem.lets after ∧
        letAssertion.Checked (namesAfter [] (Skeleton.RuleItem.lets before)) ∧
        (∀ v ∈ Skeleton.RuleItem.lets after, v.name ∉ assertionVariables letAssertion) ∧
        ∀ doc node, ∃ bindings scope,
          bindAll doc node [] (compiledRule "y").lets = .ok bindings ∧
          bindAll doc node [] (Skeleton.RuleItem.lets before) = .ok scope ∧
          assertionRecord { doc, node, bindings } letAssertion =
            assertionRecord { doc, node, bindings := scope } letAssertion := by
  have hcompiled := compileRule_letRule "y" (.inr rfl)
  obtain ⟨elements, items, -, -, hlets, hassertions, hrecord⟩ :=
    assertionRecord_before bareSetting {} "p" (letRule "y") (compiledRule "y") {} {} hcompiled
  have hmem : letAssertion ∈ Skeleton.RuleItem.assertions items :=
    hassertions ▸ List.mem_singleton_self letAssertion
  obtain ⟨before, after, rfl⟩ := List.append_of_mem (Skeleton.RuleItem.mem_assertions.mp hmem)
  obtain ⟨hchecked, hbefore⟩ := hrecord before letAssertion after rfl
  rw [Skeleton.RuleItem.lets_append, Skeleton.RuleItem.lets_assertion] at hlets
  have hlater : ∀ v ∈ Skeleton.RuleItem.lets after, v.name ∉ assertionVariables letAssertion := by
    -- the variable that it was checked for is one before it, so that `y` alone can come after it
    have hx : "x" ∈ namesAfter [] (Skeleton.RuleItem.lets before) :=
      XPath.checked_variableRef.mp hchecked.test
    cases hfirst : Skeleton.RuleItem.lets before with
    | nil => simp [hfirst, namesAfter] at hx
    | cons first rest =>
        rw [hfirst, compiledRule, List.cons_append, List.cons.injEq] at hlets
        intro v hv hname
        have hvar : v ∈ [textVariable "y" ""] := hlets.2 ▸ List.mem_append_right rest hv
        rw [List.mem_singleton.mp hvar] at hname
        exact absurd hname (by decide)
  refine ⟨hcompiled, before, after, hlets, hchecked, hlater, fun doc node => ?_⟩
  obtain ⟨scope, hscope, hsame⟩ := hbefore hlater doc node [] _ rfl
  exact ⟨_, scope, rfl, hscope, hsame⟩

/-- Where the later variable has the name of the one before, the assertion, which holds under the
variables before it, fires. -/
theorem assertionRecord_hidden :
    (bareSetting.compileRule {} "p" (letRule "x")).run {} = .ok (compiledRule "x", {}) ∧
      Skeleton.Splices [] (letRule "x").children (letRule "x").children ∧
      Skeleton.InOrder bareSetting (Skeleton.Setting.startOf {} (letRule "x"))
        (letRule "x").children
        [.binding (textVariable "x" "1"), .assertion letAssertion,
          .binding (textVariable "x" "")] ∧
      ∀ doc, (compiledRule "x").context.selectFromRoot doc [] = .ok [Document.rootNode] ∧
        ∃ bindings scope firing,
          bindAll doc Document.rootNode [] (compiledRule "x").lets = .ok bindings ∧
          bindAll doc Document.rootNode [] [textVariable "x" "1"] = .ok scope ∧
          assertionRecord { doc, node := Document.rootNode, bindings := scope } letAssertion =
            .ok {} ∧
          assertionRecord { doc, node := Document.rootNode, bindings } letAssertion =
            .ok ⟨[.firing firing], []⟩ := by
  refine ⟨compileRule_letRule "x" (.inl rfl), ?_, ?_, fun doc => ⟨rfl, ?_⟩⟩
  · have hkept (name : String) (h : name ∈ Skeleton.itemNames) {tree : Tree} {rest : List Tree}
        (hname : tree.schemaName? = some name) (hrest : Skeleton.Splices [] rest rest) :
        Skeleton.Splices [] (tree :: rest) (tree :: rest) := .kept hname h hrest
    exact hkept "let" (by decide) rfl (hkept "assert" (by decide) rfl
      (hkept "let" (by decide) rfl .nil))
  · exact .binding {} {} rfl rfl (.assertion .assert {} {} rfl rfl
      (.binding {} {} rfl rfl .nil))
  · exact ⟨_, _, _, rfl, rfl, rfl, rfl⟩

end Schematron.Validation
