import Schematron.Proofs.XPath.Rules
import Schematron.XPath.Query

/-!
# Checked expressions

Reading an expression checks the names in it: a variable is one of those that the expression may
refer to, and a call has arguments that its function accepts. Here the checks are said of the
expression alone.

* `Expr.Checked` — every part of an expression passes the check for its kind;
* `checked_of_parse` — every expression that is read is checked;
* `checked_anchor` — and still is when it is made to select from everywhere in a document.
-/

namespace Schematron.XPath

/-! ## Checks -/

variable [Regex.Engine]

/-- What reading checks of an expression besides the expressions in it. -/
def Expr.Allowed (names : List String) : Expr → Prop
  | .variableRef name => name ∈ names
  | .call function arguments => Parser.checkCall function arguments = .ok ()
  | _ => True

/-- All parts of an expression pass their checks. -/
def Expr.Checked (names : List String) (e : Expr) : Prop := ∀ part ∈ e.parts, part.Allowed names

def Step.Checked (names : List String) (step : Step) : Prop :=
  ∀ part ∈ step.parts, part.Allowed names

section

variable {names : List String}

@[simp] theorem checked_binary {operator : BinaryOperator} {left right : Expr} :
    (Expr.binary operator left right).Checked names ↔ left.Checked names ∧ right.Checked names :=
  every_binary.trans (and_iff_right trivial)

@[simp] theorem checked_negate {operand : Expr} :
    (Expr.negate operand).Checked names ↔ operand.Checked names :=
  every_negate.trans (and_iff_right trivial)

@[simp] theorem checked_variableRef {name : String} :
    (Expr.variableRef name).Checked names ↔ name ∈ names := every_variableRef

@[simp] theorem checked_call {function : Function} {arguments : List Expr} :
    (Expr.call function arguments).Checked names ↔
      Parser.checkCall function arguments = .ok () ∧ ∀ e ∈ arguments, e.Checked names := every_call

@[simp] theorem checked_filter {operand : Expr} {predicates : List Expr} :
    (Expr.filter operand predicates).Checked names ↔
      operand.Checked names ∧ ∀ e ∈ predicates, e.Checked names :=
  every_filter.trans (and_iff_right trivial)

theorem checked_path {start : PathStart} {steps : List Step} :
    (Expr.path start steps).Checked names ↔
      (∀ part ∈ start.parts, part.Allowed names) ∧ ∀ step ∈ steps, step.Checked names :=
  every_path.trans (and_iff_right trivial)

@[simp] theorem checked_path_root {steps : List Step} :
    (Expr.path .root steps).Checked names ↔ ∀ step ∈ steps, step.Checked names := by
  simp [checked_path, PathStart.parts]

@[simp] theorem checked_path_context {steps : List Step} :
    (Expr.path .context steps).Checked names ↔ ∀ step ∈ steps, step.Checked names := by
  simp [checked_path, PathStart.parts]

@[simp] theorem checked_step {axis : Axis} {test : NodeTest} {predicates : List Expr} :
    (Step.mk axis test predicates).Checked names ↔ ∀ e ∈ predicates, e.Checked names := every_step

@[simp] theorem checked_anyDepth : Step.anyDepth.Checked names := by
  simp [Step.anyDepth]

/-- With more names an expression is still checked. -/
theorem Expr.Checked.mono {e : Expr} (h : e.Checked names) {more : List String}
    (hnames : names ⊆ more) : e.Checked more := by
  intro part hpart
  have hallowed := h part hpart
  cases part with
  | variableRef name => exact hnames hallowed
  | call function arguments => exact hallowed
  | _ => trivial

/-- A checked expression refers to no other variables than those it may refer to. -/
theorem Expr.Checked.variables {e : Expr} (h : e.Checked names) : e.variables ⊆ names :=
  fun _ hname => h _ (mem_variables.mp hname)

theorem accepts_of_checkCall {function : Function} {arguments : List Expr}
    (h : Parser.checkCall function arguments = .ok ()) :
    function.arity.accepts arguments.length = true := by
  cases haccepts : function.arity.accepts arguments.length with
  | true => rfl
  | false =>
      rw [Parser.checkCall, haccepts] at h
      cases h

/-- Every call in a checked expression has as many arguments as its function accepts. -/
theorem Expr.Checked.accepts {e : Expr} (h : e.Checked names) {function : Function}
    {arguments : List Expr} (hcall : .call function arguments ∈ e.parts) :
    function.arity.accepts arguments.length = true := accepts_of_checkCall (h _ hcall)

/-- Selecting from everywhere in a document asks for nothing more. -/
theorem checked_anchor {e : Expr} (h : e.Checked names) : e.anchor.Checked names := by
  fun_induction Expr.anchor e with
  | case1 left right ihLeft ihRight =>
      rw [checked_binary] at h ⊢
      exact ⟨ihLeft h.1, ihRight h.2⟩
  | case2 steps =>
      rw [checked_path_context] at h
      rw [checked_path_root, List.forall_mem_cons]
      exact ⟨checked_anyDepth, h⟩
  | case3 => exact h

end

/-! ## Reading -/

/-- The checks of a setting are rules for any tokens. -/
theorem rules_allowed (setting : Parser.Setting) :
    Parser.Rules setting (fun _ => True) (Expr.Allowed setting.names.variableNames) where
  binary := trivial
  negate := trivial
  literal _ := trivial
  number _ := trivial
  variableRef _ hname := hname
  call hcheck := hcheck
  filter _ := trivial
  path _ _ := trivial

/-- Every expression that is read is checked against the names it may refer to. -/
theorem checked_of_parse {names : StaticContext} {source : String} {e : Expr}
    (h : Expr.parse names source = .ok e) : e.Checked names.variableNames :=
  every_of_parse (rules_allowed _) (fun _ _ _ _ => trivial) h

/-! ## Compiled expressions -/

theorem Query.checked_of_compile {names : StaticContext} {source : String} {query : Query}
    (h : Query.compile names source = .ok query) : query.expr.Checked names.variableNames := by
  obtain ⟨e, he, h⟩ := bind_eq_ok.mp h
  cases h
  exact checked_of_parse he

theorem Query.checked_of_compilePattern {names : StaticContext} {source : String} {query : Query}
    (h : Query.compilePattern names source = .ok query) :
    query.expr.Checked names.variableNames := by
  obtain ⟨e, he, h⟩ := bind_eq_ok.mp h
  cases h
  exact checked_anchor (checked_of_parse he)

end Schematron.XPath
