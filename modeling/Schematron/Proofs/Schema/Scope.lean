import Schematron.Proofs.Schema.StageRun
import Schematron.Proofs.XPath.Checked
import Schematron.Schema.Compilation

/-!
# Scopes of compiled schemas

In a compiled program every expression refers to variables that are bound before it is reached: a
shared variable to those before it, the context of a rule to the shared variables, a variable of a
rule to these and to those before it in the rule, and all expressions of an assertion to the
shared variables and those of its rule (`Program.Checked`, `checked_of_compile`).

A rule is compiled child by child, and the abstract rules it extends in their places. What is kept
from child to child is `RuleBody.InScope`: the names that are known are those of the variables that
are there, and what is there was checked against no others.
-/

namespace Schematron.Schema

open Xml (Document Tree)
open XPath (Query StaticContext)

/-! ## Checked programs -/

/-- The names that are known after some variables, the last one first. -/
def namesAfter (names : List String) (lets : List Variable) : List String :=
  (lets.map (·.name)).reverse ++ names

variable [Regex.Engine]

def Variable.Checked (names : List String) (v : Variable) : Prop :=
  match v.value with
  | .expression query => query.expr.Checked names
  | .literal _ => True

/-- Each variable is checked against the names before it. -/
def LetsChecked : List String → List Variable → Prop
  | _, [] => True
  | names, v :: rest => v.Checked names ∧ LetsChecked (v.name :: names) rest

def MessagePart.Checked (names : List String) : MessagePart → Prop
  | .valueOf query => query.expr.Checked names
  | .nodeName (some query) => query.expr.Checked names
  | .nodeName none => True
  | .text _ => True

def MessageTemplate.Checked (names : List String) (message : MessageTemplate) : Prop :=
  ∀ part ∈ message, part.Checked names

structure Assertion.Checked (names : List String) (assertion : Assertion) : Prop where
  test : assertion.test.expr.Checked names
  message : assertion.message.Checked names
  diagnostics : ∀ diagnostic ∈ assertion.diagnostics, diagnostic.message.Checked names

structure Rule.Checked (names : List String) (rule : Rule) : Prop where
  context : rule.context.expr.Checked names
  lets : LetsChecked names rule.lets
  assertions : ∀ assertion ∈ rule.assertions, assertion.Checked (namesAfter names rule.lets)

/-- Every expression of a program is checked against the names that are known at its place. -/
structure Program.Checked (program : Program) : Prop where
  globals : LetsChecked [] program.globals
  rules : ∀ rule ∈ program.rules, rule.Checked (namesAfter [] program.globals)

section

variable {names : List String}

omit [Regex.Engine] in
theorem namesAfter_append (names : List String) (lets : List Variable) (v : Variable) :
    namesAfter names (lets ++ [v]) = v.name :: namesAfter names lets := by
  simp [namesAfter]

theorem letsChecked_append {lets rest : List Variable} :
    LetsChecked names (lets ++ rest) ↔
      LetsChecked names lets ∧ LetsChecked (namesAfter names lets) rest := by
  induction lets generalizing names with
  | nil => simp [LetsChecked, namesAfter]
  | cons v lets ih =>
      have hnames : namesAfter (v.name :: names) lets = namesAfter names (v :: lets) := by
        simp [namesAfter]
      rw [List.cons_append, LetsChecked, LetsChecked, ih, hnames, and_assoc]

theorem MessagePart.Checked.mono {part : MessagePart} (h : part.Checked names)
    {more : List String} (hnames : names ⊆ more) : part.Checked more := by
  match part with
  | .valueOf query => exact XPath.Expr.Checked.mono h hnames
  | .nodeName (some query) => exact XPath.Expr.Checked.mono h hnames
  | .nodeName none => trivial
  | .text _ => trivial

theorem Assertion.Checked.mono {assertion : Assertion} (h : assertion.Checked names)
    {more : List String} (hnames : names ⊆ more) : assertion.Checked more where
  test := h.test.mono hnames
  message part hpart := (h.message part hpart).mono hnames
  diagnostics d hd part hpart := (h.diagnostics d hd part hpart).mono hnames

/-- Putting texts side by side makes one text of them and leaves the expressions. -/
theorem MessageTemplate.checked_ofParts {parts : List MessagePart}
    (h : ∀ part ∈ parts, part.Checked names) : (ofParts parts).Checked names := by
  fun_induction ofParts parts with
  | case1 => exact nofun
  | case2 value rest more others hrest ih =>
      have hothers := ih (List.forall_mem_cons.mp h).2
      rw [hrest] at hothers
      exact List.forall_mem_cons.mpr ⟨trivial, (List.forall_mem_cons.mp hothers).2⟩
  | case3 value rest _ ih =>
      exact List.forall_mem_cons.mpr ⟨trivial, ih (List.forall_mem_cons.mp h).2⟩
  | case4 part rest _ ih =>
      obtain ⟨hpart, hrest⟩ := List.forall_mem_cons.mp h
      exact List.forall_mem_cons.mpr ⟨hpart, ih hrest⟩

end

namespace Skeleton

/-! ## Variables and messages -/

theorem compiled_yields {names : StaticContext} {what source : String} :
    Yields (compiled what (Query.compile names source)) fun query =>
      query.expr.Checked names.variableNames := by
  cases h : Query.compile names source with
  | ok query => exact .pure (Query.checked_of_compile h)
  | error fault => exact .throw

theorem compiledPattern_yields {names : StaticContext} {what source : String} :
    Yields (compiled what (Query.compilePattern names source)) fun query =>
      query.expr.Checked names.variableNames := by
  cases h : Query.compilePattern names source with
  | ok query => exact .pure (Query.checked_of_compilePattern h)
  | error fault => exact .throw

theorem compileLet_yields (names : StaticContext) (tree : Tree) :
    Yields (compileLet names tree) fun v => v.Checked names.variableNames := by
  rw [compileLet]
  refine .then_ fun name => ?_
  split
  · exact compiled_yields.bind fun query hquery => .pure hquery
  · exact .pure trivial

mutual

theorem messageParts_yields (names : StaticContext) :
    (tree : Tree) → Yields (messageParts names tree) fun parts =>
      ∀ part ∈ parts, part.Checked names.variableNames
  | .text value => .pure (List.forall_mem_singleton.mpr trivial)
  | .comment _ => .pure nofun
  | .element name declarations attributes children => by
      rw [messageParts]
      split
      · refine .then_ fun select => compiled_yields.bind fun query hquery => ?_
        exact .pure (List.forall_mem_singleton.mpr hquery)
      · split
        · refine compiled_yields.bind fun query hquery => ?_
          exact .pure (List.forall_mem_singleton.mpr hquery)
        · exact .pure (List.forall_mem_singleton.mpr trivial)
      · exact messagePartsOfAll_yields names children

theorem messagePartsOfAll_yields (names : StaticContext) :
    (trees : List Tree) → Yields (messagePartsOfAll names trees) fun parts =>
      ∀ part ∈ parts, part.Checked names.variableNames
  | [] => .pure nofun
  | tree :: rest =>
      (messageParts_yields names tree).bind fun _ hparts =>
        (messagePartsOfAll_yields names rest).bind fun _ hothers =>
          .pure (List.forall_mem_append.mpr ⟨hparts, hothers⟩)

end

theorem compileMessage_yields (names : StaticContext) (tree : Tree) :
    Yields (compileMessage names tree) fun message => message.Checked names.variableNames :=
  (messagePartsOfAll_yields names tree.children).bind fun _ hparts =>
    .pure (MessageTemplate.checked_ofParts hparts)

/-! ## Rules -/

/-- A rule while it is compiled knows its variables and was checked against no others. -/
structure RuleBody.InScope (names : List String) (body : RuleBody) : Prop where
  known : body.names.variableNames = namesAfter names body.lets
  lets : LetsChecked names body.lets
  assertions : ∀ assertion ∈ body.assertions, assertion.Checked body.names.variableNames

namespace RuleBody.InScope

variable {names : List String} {body : RuleBody}

theorem addLet (h : body.InScope names) {v : Variable} (hv : v.Checked body.names.variableNames) :
    RuleBody.InScope names
      { body with names := body.names.withVariable v.name, lets := body.lets ++ [v] } where
  known := by
    rw [namesAfter_append, ← h.known]
    rfl
  lets := by
    rw [letsChecked_append, ← h.known]
    exact ⟨h.lets, hv, trivial⟩
  assertions assertion hassertion :=
    (h.assertions assertion hassertion).mono (List.subset_cons_self _ _)

theorem addAssertion (h : body.InScope names) {assertion : Assertion}
    (hassertion : assertion.Checked body.names.variableNames) :
    RuleBody.InScope names { body with assertions := body.assertions ++ [assertion] } where
  known := h.known
  lets := h.lets
  assertions := List.forall_mem_append.mpr
    ⟨h.assertions, List.forall_mem_singleton.mpr hassertion⟩

end RuleBody.InScope

namespace Setting

variable (setting : Setting)

theorem compileDiagnostics_yields (body : RuleBody) (label : String) (tree : Tree) :
    Yields (setting.compileDiagnostics body label tree) fun diagnostics =>
      ∀ diagnostic ∈ diagnostics, diagnostic.message.Checked body.names.variableNames := by
  rw [compileDiagnostics]
  refine (Yields.mapM (Q := fun found : Option DiagnosticTemplate =>
    ∀ diagnostic ∈ found, diagnostic.message.Checked body.names.variableNames)
    fun word _ => ?_).bind fun found hfound => .pure ?_
  · dsimp only
    split
    · refine (compileMessage_yields body.names _).bind fun message hmessage => .pure ?_
      rintro diagnostic ⟨⟩
      exact hmessage
    · exact .then_ fun _ => .pure nofun
  · intro diagnostic hdiagnostic
    obtain ⟨_, hmem, rfl⟩ := List.mem_filterMap.mp hdiagnostic
    exact hfound _ hmem diagnostic rfl

theorem compileAssertion_yields (kind : AssertionKind) (body : RuleBody) (tree : Tree) :
    Yields (setting.compileAssertion kind body tree) fun assertion =>
      assertion.Checked body.names.variableNames :=
  .then_ fun _ => compiled_yields.bind fun _ htest => .then_ fun _ =>
    (compileMessage_yields body.names tree).bind fun _ hmessage => .then_ fun _ =>
      (setting.compileDiagnostics_yields body _ tree).bind fun _ hdiagnostics =>
        .pure ⟨htest, hmessage, hdiagnostics⟩

/-- A child of a rule leaves what was there in scope, if an abstract rule does. -/
theorem compileChild_yields {names : List String} {extend : String → RuleBody → StageRun RuleBody}
    (hextend : ∀ id body, body.InScope names → Yields (extend id body) (·.InScope names))
    {body : RuleBody} (hbody : body.InScope names) (child : Tree) :
    Yields (setting.compileChild extend body child) (·.InScope names) := by
  rw [compileChild]
  dsimp only
  split
  -- a variable, the two kinds of assertion and an abstract rule; nothing else adds to the rule
  · exact (compileLet_yields body.names child).bind fun v hv => .pure (hbody.addLet hv)
  · exact (setting.compileAssertion_yields _ body child).bind fun _ hassertion =>
      .pure (hbody.addAssertion hassertion)
  · exact (setting.compileAssertion_yields _ body child).bind fun _ hassertion =>
      .pure (hbody.addAssertion hassertion)
  · exact .then_ fun id => hextend id body hbody
  · exact .pure hbody
  · exact .pure hbody
  · exact .pure hbody
  · exact .then_ fun _ => .pure hbody

/-- Children one after the other, whatever chain of abstract rules they are in. -/
theorem extend_yields {names : List String} (depth : Nat) (chain : List String) (id : String)
    (body : RuleBody) (hbody : body.InScope names) :
    Yields (setting.extend depth chain id body) (·.InScope names) := by
  induction depth generalizing chain id body with
  | zero =>
      rw [extend]
      refine .then_ fun target => ?_
      split <;> exact .throw
  | succ depth ih =>
      rw [extend]
      refine .then_ fun target => ?_
      split
      · exact .throw
      -- a rule that the target extends in turn is met with one name more in the chain
      · have hextend (other : String) (body : RuleBody) (hbody : body.InScope names) :
            Yields (setting.extend depth (chain ++ [id]) other body) (·.InScope names) :=
          ih (chain ++ [id]) other body hbody
        exact .foldlM hbody fun body hbody child _ =>
          setting.compileChild_yields hextend hbody child

theorem compileRule_yields (names : StaticContext) (pattern : String) (tree : Tree) :
    Yields (setting.compileRule names pattern tree) fun rule =>
      rule.Checked names.variableNames := by
  refine .then_ fun source => compiledPattern_yields.bind fun context hcontext => ?_
  have hstart : RuleBody.InScope names.variableNames
      { names, role := tree.setting? "role", flag := tree.setting? "flag" } :=
    ⟨rfl, trivial, nofun⟩
  refine (Yields.foldlM hstart fun body hbody child _ => setting.compileChild_yields
    (setting.extend_yields _ []) hbody child).bind fun body hbody => .pure ?_
  exact ⟨hcontext, hbody.lets, hbody.known ▸ hbody.assertions⟩

theorem compilePatternChild_yields (names : StaticContext) (label : String) {rules : List Rule}
    (hrules : ∀ rule ∈ rules, rule.Checked names.variableNames) (child : Tree) :
    Yields (setting.compilePatternChild names label rules child) fun rules =>
      ∀ rule ∈ rules, rule.Checked names.variableNames := by
  rw [compilePatternChild]
  split
  · split
    · exact .pure hrules
    · exact (setting.compileRule_yields names label child).bind fun rule hrule =>
        .then_ fun _ => .pure
          (List.forall_mem_append.mpr ⟨hrules, List.forall_mem_singleton.mpr hrule⟩)
  · exact .pure hrules
  · exact .pure hrules
  · exact .pure hrules
  · exact .pure hrules
  · exact .pure hrules
  · exact .then_ fun _ => .pure hrules

theorem compilePattern_yields (names : StaticContext) (tree : Tree) :
    Yields (setting.compilePattern names tree) fun pattern =>
      ∀ rule ∈ pattern.rules, rule.Checked names.variableNames :=
  (Yields.foldlM (Q := fun rules : List Rule => ∀ rule ∈ rules, rule.Checked names.variableNames)
    (List.forall_mem_nil _) fun _ hrules child _ =>
      setting.compilePatternChild_yields names _ hrules child).bind
      fun _ hrules => .then_ fun _ => .pure hrules

end Setting

/-! ## Schemas -/

/-- The shared variables are known from their places on. -/
theorem compileGlobals_yields {names : StaticContext} (hnames : names.variableNames = [])
    (lets : List Tree) :
    Yields (compileGlobals names lets) fun result =>
      result.1.variableNames = namesAfter [] result.2 ∧ LetsChecked [] result.2 := by
  refine Yields.foldlM ⟨hnames, trivial⟩ fun result hresult tree _ => ?_
  obtain ⟨names, globals⟩ := result
  obtain ⟨hknown, hchecked⟩ := hresult
  refine (compileLet_yields names tree).bind fun v hv => ?_
  split
  · exact .throw
  · refine .pure ⟨?_, ?_⟩
    · rw [namesAfter_append, ← hknown]
      rfl
    · rw [letsChecked_append, ← hknown]
      exact ⟨hchecked, hv, trivial⟩

omit [Regex.Engine] in
theorem variableNames_withNamespaces (namespaces : List (String × String))
    (names : StaticContext) :
    (namespaces.foldl (fun names (pre, uri) => names.withNamespace pre uri) names).variableNames =
      names.variableNames := by
  induction namespaces generalizing names with
  | nil => rfl
  | cons head rest ih => exact ih _

end Skeleton

open Skeleton in
theorem compileSkeleton_yields (options : SkeletonOptions) (requestedPhase : Option String)
    (resource digest : String) (schema : Document) :
    Yields (compileSkeleton options requestedPhase resource digest schema) (·.Checked) := by
  rw [compileSkeleton]
  split
  · refine .then_ fun queryBinding => .then_ fun _ => .then_ fun namespaces => .then_ fun rules =>
      .then_ fun phase => .then_ fun patterns => ?_
    -- declaring namespaces makes no variable known, so the shared ones begin with none
    refine (compileGlobals_yields (variableNames_withNamespaces namespaces {}) _).bind
      fun result hglobals => ?_
    refine (Yields.mapM fun pattern _ => Setting.compilePattern_yields _ _ pattern).bind
      fun patterns hpatterns => .pure ⟨hglobals.2, ?_⟩
    intro rule hrule
    obtain ⟨pattern, hpattern, hrule⟩ := List.mem_flatMap.mp hrule
    rw [← hglobals.1]
    exact hpatterns pattern hpattern rule hrule
  · exact .throw

/-! ## Compilation -/

section

variable {options : CompilerOptions} {resolver : Resource.Resolver} {source : SchemaSource}
  {program : Program} {warnings : List CompileWarning}

omit [Regex.Engine] in
/-- What is answered is the result of a run of the stage, with the warnings of the run. -/
theorem run_of_runStage {α : Type} {resource : String} {stage : Stage} {m : StageRun α} {x : α}
    (h : runStage resource stage m = .ok (x, warnings)) :
    ∃ sink, m.run {} = .ok (x, sink) ∧ warnings = sink.warnings.map (CompileWarning.mk stage) := by
  rw [runStage] at h
  split at h
  next sink hrun =>
    cases h
    exact ⟨sink, hrun, rfl⟩
  · cases h

/-- A compiled program is the result of the last stage, and the warnings of this stage come after
those of the others. -/
theorem lastRun_of_compile (h : compile options resolver source = .ok (program, warnings)) :
    ∃ set schema sink others,
      (compileSkeleton set options.phase source.resource source.digest schema).run {} =
          .ok (program, sink) ∧
        warnings = others ++ sink.warnings.map (CompileWarning.mk .skeleton) ∧
          ∀ warning ∈ others, warning.stage ≠ .skeleton := by
  obtain ⟨schema, -, h⟩ := bind_eq_ok.mp h
  obtain ⟨⟨included, ofInclusion⟩, hinclusion, h⟩ := bind_eq_ok.mp h
  obtain ⟨⟨concrete, ofAbstraction⟩, habstraction, h⟩ := bind_eq_ok.mp h
  obtain ⟨⟨compiled, ofSkeleton⟩, hskeleton, h⟩ := bind_eq_ok.mp h
  cases h
  obtain ⟨inclusion, -, hinclusion⟩ := bind_eq_ok.mp hinclusion
  obtain ⟨abstraction, -, habstraction⟩ := bind_eq_ok.mp habstraction
  obtain ⟨skeleton, -, hskeleton⟩ := bind_eq_ok.mp hskeleton
  -- each stage is run with a program of its own
  cases inclusion with
  | abstraction _ => cases hinclusion
  | skeleton _ => cases hinclusion
  | inclusion _ =>
  cases abstraction with
  | inclusion _ => cases habstraction
  | skeleton _ => cases habstraction
  | abstraction _ =>
  cases skeleton with
  | inclusion _ => cases hskeleton
  | abstraction _ => cases hskeleton
  | skeleton set =>
  obtain ⟨first, -, rfl⟩ := run_of_runStage hinclusion
  obtain ⟨second, -, rfl⟩ := run_of_runStage habstraction
  obtain ⟨sink, hrun, rfl⟩ := run_of_runStage hskeleton
  refine ⟨set, concrete, sink, _, hrun, rfl, fun warning hwarning => ?_⟩
  rcases List.mem_append.mp hwarning with hwarning | hwarning <;>
    obtain ⟨message, -, rfl⟩ := List.mem_map.mp hwarning <;> exact nofun

/-- Every expression of a compiled schema is checked against the names that are known at its
place. -/
theorem checked_of_compile (h : compile options resolver source = .ok (program, warnings)) :
    program.Checked := by
  obtain ⟨_, _, _, _, hrun, -⟩ := lastRun_of_compile h
  exact compileSkeleton_yields _ _ _ _ _ _ _ _ hrun

end

end Schematron.Schema
