import Schematron.Proofs.XPath.Checked

/-!
# What an expression reads of its context

Besides the variables a context has two nodes, the one at which the expression is evaluated and
the one that `current()` means.

* An expression that does not call `current()` has the same value whatever node this would be
  (`Expr.eval_withCurrent`).
* Predicates and steps are given the nodes they go on from, and do not ask where the expression is
  evaluated that they stand in (`select_at`, `walkSteps_at`).
-/

namespace Schematron.XPath

open Xml

/-- The context with another current node. -/
def Context.withCurrent (context : Context) (current : NodeId) : Context := { context with current }

/-- The expression itself is no call of `current()`. -/
def Expr.IsNotCurrent : Expr → Prop
  | .call function _ => function ≠ .current
  | _ => True

variable [Regex.Engine]

/-- Only `current()` asks for the current node. -/
theorem Function.apply_withCurrent {function : Function} (h : function ≠ .current)
    (arguments : Arguments) (context : Context) (current : NodeId) :
    function.apply arguments (context.withCurrent current) = function.apply arguments context := by
  cases function
  case current => exact absurd rfl h
  all_goals rfl

section

variable {current : NodeId}

mutual

/-- The value of an expression without `current()` does not depend on the current node. -/
theorem Expr.eval_withCurrent (context : Context) :
    (e : Expr) → e.Every Expr.IsNotCurrent →
      e.eval (context.withCurrent current) = e.eval context
  | .binary operator left right, h => by
      have hleft := left.eval_withCurrent context (every_binary.mp h).2.1
      have hright := right.eval_withCurrent context (every_binary.mp h).2.2
      cases operator <;> simp only [Expr.eval, hleft, hright] <;> rfl
  | .negate operand, h => by
      have hoperand := operand.eval_withCurrent context (every_negate.mp h).2
      simp only [Expr.eval, hoperand]
      rfl
  | .literal _, _ => rfl
  | .number _, _ => rfl
  | .variableRef _, _ => rfl
  | .call function arguments, h => by
      have harguments := evalAll_withCurrent context arguments (every_call.mp h).2
      rw [Expr.eval, Expr.eval, harguments, Function.apply_withCurrent (every_call.mp h).1]
  | .filter operand predicates, h => by
      have hoperand := operand.eval_withCurrent context (every_filter.mp h).2.1
      have hselect := select_withCurrent context predicates (every_filter.mp h).2.2
      simp only [Expr.eval, hoperand, hselect]
  | .path start steps, h => by
      have hstart := start.eval_withCurrent context (every_path.mp h).2.1
      have hsteps := walkSteps_withCurrent context steps (every_path.mp h).2.2
      simp only [Expr.eval, hstart, hsteps]

theorem evalAll_withCurrent (context : Context) :
    (es : List Expr) → (∀ e ∈ es, e.Every Expr.IsNotCurrent) →
      evalAll (context.withCurrent current) es = evalAll context es
  | [], _ => rfl
  | e :: rest, h => by
      have hfirst := e.eval_withCurrent context (List.forall_mem_cons.mp h).1
      have hrest := evalAll_withCurrent context rest (List.forall_mem_cons.mp h).2
      rw [evalAll, evalAll, hfirst, hrest]

theorem PathStart.eval_withCurrent (context : Context) :
    (start : PathStart) → (∀ part ∈ start.parts, part.IsNotCurrent) →
      start.eval (context.withCurrent current) = start.eval context
  | .root, _ => rfl
  | .context, _ => rfl
  | .nodes operand, h => by
      have hoperand := operand.eval_withCurrent context h
      simp only [PathStart.eval, hoperand]

theorem select_withCurrent (context : Context) :
    (predicates : List Expr) → (∀ e ∈ predicates, e.Every Expr.IsNotCurrent) →
      (ids : List NodeId) →
        select (context.withCurrent current) predicates ids = select context predicates ids
  | [], _, _ => rfl
  | predicate :: rest, h, ids => by
      -- at each of the nodes the current node is still the other one
      have hpredicate (id : NodeId) (position : Nat) :
          predicate.eval ((context.withCurrent current).at id position ids.length) =
            predicate.eval (context.at id position ids.length) :=
        predicate.eval_withCurrent (context.at id position ids.length)
          (List.forall_mem_cons.mp h).1
      have hrest := select_withCurrent context rest (List.forall_mem_cons.mp h).2
      simp only [select, hpredicate, hrest]

theorem Step.eval_withCurrent (context : Context) :
    (step : Step) → step.Every Expr.IsNotCurrent → (id : NodeId) →
      step.eval (context.withCurrent current) id = step.eval context id
  | .mk axis test predicates, h, id => by
      rw [Step.eval, Step.eval]
      exact select_withCurrent context predicates (every_step.mp h) _

theorem walkSteps_withCurrent (context : Context) :
    (steps : List Step) → (∀ step ∈ steps, step.Every Expr.IsNotCurrent) → (ids : List NodeId) →
      walkSteps (context.withCurrent current) steps ids = walkSteps context steps ids
  | [], _, _ => rfl
  | step :: rest, h, ids => by
      have hstep : step.eval (context.withCurrent current) = step.eval context :=
        funext (step.eval_withCurrent context (List.forall_mem_cons.mp h).1)
      have hrest := walkSteps_withCurrent context rest (List.forall_mem_cons.mp h).2
      simp only [walkSteps, hstep, hrest]

end

end

/-! ## The node of the context -/

section

variable {context : Context} (node : NodeId) (position size : Nat)

theorem select_at (predicates : List Expr) (ids : List NodeId) :
    select (context.at node position size) predicates ids = select context predicates ids := by
  induction predicates generalizing ids with
  | nil => rfl
  | cons predicate rest ih =>
      simp only [select, ih]
      rfl

theorem walkSteps_at (steps : List Step) (ids : List NodeId) :
    walkSteps (context.at node position size) steps ids = walkSteps context steps ids := by
  have hstep (step : Step) : step.eval (context.at node position size) = step.eval context := by
    obtain ⟨axis, test, predicates⟩ := step
    funext id
    rw [Step.eval, Step.eval, select_at]
    rfl
  induction steps generalizing ids with
  | nil => rfl
  | cons step rest ih => simp only [walkSteps, hstep, ih]

end

end Schematron.XPath
