import Schematron.XPath.Expression

/-!
# Parts of expressions

An expression with all expressions in it, at any depth (`Expr.parts`). What holds of all parts of an
expression is told kind by kind (`every_binary` and so on), and what follows from it is shown by
induction over the expression (`Expr.induct_every`), however calls, predicates and steps nest.
-/

namespace Schematron.XPath

/-! ## Parts of expressions -/

mutual

/-- An expression and all expressions in it. -/
def Expr.parts : Expr → List Expr
  | .binary operator left right => .binary operator left right :: (left.parts ++ right.parts)
  | .negate operand => .negate operand :: operand.parts
  | .literal value => [.literal value]
  | .number value => [.number value]
  | .variableRef name => [.variableRef name]
  | .call function arguments => .call function arguments :: partsOfAll arguments
  | .filter operand predicates =>
    .filter operand predicates :: (operand.parts ++ partsOfAll predicates)
  | .path start steps => .path start steps :: (start.parts ++ partsOfSteps steps)

def partsOfAll : List Expr → List Expr
  | [] => []
  | e :: rest => e.parts ++ partsOfAll rest

/-- The expressions in the start of a path. -/
def PathStart.parts : PathStart → List Expr
  | .root => []
  | .context => []
  | .nodes operand => operand.parts

/-- The expressions in a step. -/
def Step.parts : Step → List Expr
  | .mk _ _ predicates => partsOfAll predicates

def partsOfSteps : List Step → List Expr
  | [] => []
  | step :: rest => step.parts ++ partsOfSteps rest

end

attribute [local simp] Expr.parts partsOfAll PathStart.parts Step.parts partsOfSteps

theorem partsOfAll_eq (es : List Expr) : partsOfAll es = es.flatMap Expr.parts := by
  induction es with
  | nil => rfl
  | cons e rest ih => rw [partsOfAll, ih, List.flatMap_cons]

theorem partsOfSteps_eq (steps : List Step) : partsOfSteps steps = steps.flatMap Step.parts := by
  induction steps with
  | nil => rfl
  | cons step rest ih => rw [partsOfSteps, ih, List.flatMap_cons]

/-- The names of the variables in an expression. -/
def Expr.variables (e : Expr) : List String :=
  e.parts.filterMap fun
    | .variableRef name => some name
    | _ => none

theorem mem_variables {e : Expr} {name : String} :
    name ∈ e.variables ↔ .variableRef name ∈ e.parts := by
  rw [Expr.variables, List.mem_filterMap]
  constructor
  · rintro ⟨part, hpart, hname⟩
    cases part <;> cases hname
    exact hpart
  · exact fun h => ⟨_, h, rfl⟩

/-! ## Properties of all parts -/

/-- The property holds of an expression and of all expressions in it. -/
def Expr.Every (P : Expr → Prop) (e : Expr) : Prop := ∀ part ∈ e.parts, P part

/-- The property holds of all expressions in a step. -/
def Step.Every (P : Expr → Prop) (step : Step) : Prop := ∀ part ∈ step.parts, P part

section

variable {P : Expr → Prop}

theorem every_binary {operator : BinaryOperator} {left right : Expr} :
    (Expr.binary operator left right).Every P ↔
      P (.binary operator left right) ∧ left.Every P ∧ right.Every P := by
  simp [Expr.Every, or_imp, forall_and]

theorem every_negate {operand : Expr} :
    (Expr.negate operand).Every P ↔ P (.negate operand) ∧ operand.Every P := by
  simp [Expr.Every]

theorem every_variableRef {name : String} :
    (Expr.variableRef name).Every P ↔ P (.variableRef name) := by
  simp [Expr.Every]

theorem every_call {function : Function} {arguments : List Expr} :
    (Expr.call function arguments).Every P ↔
      P (.call function arguments) ∧ ∀ e ∈ arguments, e.Every P := by
  simp only [Expr.Every, Expr.parts, partsOfAll_eq, List.forall_mem_cons, List.forall_mem_flatMap]

theorem every_filter {operand : Expr} {predicates : List Expr} :
    (Expr.filter operand predicates).Every P ↔
      P (.filter operand predicates) ∧ operand.Every P ∧ ∀ e ∈ predicates, e.Every P := by
  simp only [Expr.Every, Expr.parts, partsOfAll_eq, List.forall_mem_cons, List.forall_mem_append,
    List.forall_mem_flatMap]

theorem every_path {start : PathStart} {steps : List Step} :
    (Expr.path start steps).Every P ↔
      P (.path start steps) ∧ (∀ part ∈ start.parts, P part) ∧ ∀ step ∈ steps, step.Every P := by
  simp only [Expr.Every, Step.Every, Expr.parts, partsOfSteps_eq, List.forall_mem_cons,
    List.forall_mem_append, List.forall_mem_flatMap]

theorem every_step {axis : Axis} {test : NodeTest} {predicates : List Expr} :
    (Step.mk axis test predicates).Every P ↔ ∀ e ∈ predicates, e.Every P := by
  simp only [Step.Every, Step.parts, partsOfAll_eq, List.forall_mem_flatMap, Expr.Every]

end

/-! ## Induction -/

/-- A property follows for an expression from another one of it, `Q`, and from the property itself
of the expressions directly in it. -/
structure Expr.Inductive (Q P : Expr → Prop) : Prop where
  binary : ∀ {operator left right}, Q (.binary operator left right) → P left → P right →
    P (.binary operator left right)
  negate : ∀ {operand}, Q (.negate operand) → P operand → P (.negate operand)
  literal : ∀ {value}, Q (.literal value) → P (.literal value)
  number : ∀ {value}, Q (.number value) → P (.number value)
  variableRef : ∀ {name}, Q (.variableRef name) → P (.variableRef name)
  call : ∀ {function arguments}, Q (.call function arguments) → (∀ e ∈ arguments, P e) →
    P (.call function arguments)
  filter : ∀ {operand predicates}, Q (.filter operand predicates) → P operand →
    (∀ e ∈ predicates, P e) → P (.filter operand predicates)
  path : ∀ {start steps}, Q (.path start steps) → (∀ operand, start = .nodes operand → P operand) →
    (∀ axis test predicates, .mk axis test predicates ∈ steps → ∀ e ∈ predicates, P e) →
      P (.path start steps)

namespace Expr.Inductive

variable {Q P : Expr → Prop}

mutual

/-- Induction over an expression all of whose parts have a property. -/
theorem of_every (cases : Inductive Q P) : (e : Expr) → e.Every Q → P e
  | .binary operator left right, h => by
      obtain ⟨hthis, hleft, hright⟩ := every_binary.mp h
      exact cases.binary hthis (cases.of_every left hleft) (cases.of_every right hright)
  | .negate operand, h => by
      obtain ⟨hthis, hoperand⟩ := every_negate.mp h
      exact cases.negate hthis (cases.of_every operand hoperand)
  | .literal value, h => cases.literal (List.forall_mem_singleton.mp h)
  | .number value, h => cases.number (List.forall_mem_singleton.mp h)
  | .variableRef name, h => cases.variableRef (every_variableRef.mp h)
  | .call function arguments, h => by
      obtain ⟨hthis, harguments⟩ := every_call.mp h
      exact cases.call hthis (cases.all_of_every arguments harguments)
  | .filter operand predicates, h => by
      obtain ⟨hthis, hoperand, hpredicates⟩ := every_filter.mp h
      exact cases.filter hthis (cases.of_every operand hoperand)
        (cases.all_of_every predicates hpredicates)
  | .path start steps, h => by
      obtain ⟨hthis, hstart, hsteps⟩ := every_path.mp h
      exact cases.path hthis (cases.start_of_every start hstart) (cases.steps_of_every steps hsteps)

theorem all_of_every (cases : Inductive Q P) : (es : List Expr) → (∀ e ∈ es, e.Every Q) →
    ∀ e ∈ es, P e
  | [], _ => nofun
  | e :: rest, h => by
      obtain ⟨he, hrest⟩ := List.forall_mem_cons.mp h
      exact List.forall_mem_cons.mpr ⟨cases.of_every e he, cases.all_of_every rest hrest⟩

theorem start_of_every (cases : Inductive Q P) : (start : PathStart) →
    (∀ part ∈ start.parts, Q part) → ∀ operand, start = .nodes operand → P operand
  | .root, _ => nofun
  | .context, _ => nofun
  | .nodes operand, h => by
      rintro _ ⟨⟩
      exact cases.of_every operand h

theorem step_of_every (cases : Inductive Q P) : (step : Step) → step.Every Q →
    ∀ axis test predicates, step = .mk axis test predicates → ∀ e ∈ predicates, P e
  | .mk _ _ predicates, h => by
      rintro _ _ _ ⟨⟩
      exact cases.all_of_every predicates (every_step.mp h)

theorem steps_of_every (cases : Inductive Q P) : (steps : List Step) →
    (∀ step ∈ steps, step.Every Q) →
      ∀ axis test predicates, .mk axis test predicates ∈ steps → ∀ e ∈ predicates, P e
  | [], _ => nofun
  | step :: rest, h => by
      obtain ⟨hstep, hrest⟩ := List.forall_mem_cons.mp h
      intro axis test predicates hmem
      rcases List.mem_cons.mp hmem with hfirst | hmore
      · exact cases.step_of_every step hstep axis test predicates hfirst.symm
      · exact cases.steps_of_every rest hrest axis test predicates hmore

end

end Expr.Inductive

end Schematron.XPath
