import Schematron.Proofs.XPath.Checked

/-!
# What an expression reads of the variables

The value of an expression depends on no other variables than those it refers to
(`Expr.eval_withBindings`): where these stand for the same values, all others may be bound, hidden
or left out.
-/

namespace Schematron.XPath

open Xml

namespace Context

/-- The context with other variables. -/
def withBindings (context : Context) (bindings : List (String × Value)) : Context :=
  { context with bindings }

/-- The names stand for the same values, or for none, under the other variables. -/
def AgreesOn (names : List String) (context : Context) (bindings : List (String × Value)) : Prop :=
  ∀ name ∈ names, (context.withBindings bindings).lookup name = context.lookup name

theorem agreesOn_of_lookup {names : List String} {context : Context}
    {bindings : List (String × Value)}
    (h : ∀ name ∈ names, bindings.lookup name = context.bindings.lookup name) :
    context.AgreesOn names bindings := by
  intro name hname
  simp only [lookup, withBindings, h name hname]

theorem AgreesOn.at {names : List String} {context : Context}
    {bindings : List (String × Value)} (h : context.AgreesOn names bindings) (node : NodeId)
    (position size : Nat) : (context.at node position size).AgreesOn names bindings := h

end Context

variable [Regex.Engine]

/-- An expression that was checked against some names is checked against those it refers to. -/
theorem Expr.Checked.restrict {names : List String} {e : Expr} (h : e.Checked names) :
    e.Checked e.variables := by
  intro part hpart
  have hallowed := h part hpart
  cases part with
  | variableRef name => exact mem_variables.mpr hpart
  | call function arguments => exact hallowed
  | _ => trivial

/-- No function looks at the variables; they reach a call only through its arguments. -/
theorem Function.apply_withBindings (function : Function) (arguments : Arguments)
    (context : Context) (bindings : List (String × Value)) :
    function.apply arguments (context.withBindings bindings) = function.apply arguments context := by
  cases function <;> rfl

section

variable {names : List String} {bindings : List (String × Value)}

mutual

theorem Expr.eval_agrees {context : Context} (h : context.AgreesOn names bindings) :
    (e : Expr) → e.Checked names → e.eval (context.withBindings bindings) = e.eval context
  | .binary operator left right, hchecked => by
      have hleft := left.eval_agrees h (checked_binary.mp hchecked).1
      have hright := right.eval_agrees h (checked_binary.mp hchecked).2
      cases operator <;> simp only [Expr.eval, hleft, hright] <;> rfl
  | .negate operand, hchecked => by
      have hoperand := operand.eval_agrees h (checked_negate.mp hchecked)
      simp only [Expr.eval, hoperand]
      rfl
  | .literal _, _ => rfl
  | .number _, _ => rfl
  | .variableRef name, hchecked => h name (checked_variableRef.mp hchecked)
  | .call function arguments, hchecked => by
      have harguments := evalAll_agrees h arguments (checked_call.mp hchecked).2
      rw [Expr.eval, Expr.eval, harguments, Function.apply_withBindings]
  | .filter operand predicates, hchecked => by
      have hoperand := operand.eval_agrees h (checked_filter.mp hchecked).1
      have hselect := select_agrees h predicates (checked_filter.mp hchecked).2
      simp only [Expr.eval, hoperand, hselect]
  | .path start steps, hchecked => by
      have hstart := start.eval_agrees h (checked_path.mp hchecked).1
      have hsteps := walkSteps_agrees h steps (checked_path.mp hchecked).2
      simp only [Expr.eval, hstart, hsteps]

theorem evalAll_agrees {context : Context} (h : context.AgreesOn names bindings) :
    (es : List Expr) → (∀ e ∈ es, e.Checked names) →
      evalAll (context.withBindings bindings) es = evalAll context es
  | [], _ => rfl
  | e :: rest, hchecked => by
      have hfirst := e.eval_agrees h (List.forall_mem_cons.mp hchecked).1
      have hrest := evalAll_agrees h rest (List.forall_mem_cons.mp hchecked).2
      rw [evalAll, evalAll, hfirst, hrest]

theorem PathStart.eval_agrees {context : Context} (h : context.AgreesOn names bindings) :
    (start : PathStart) → (∀ part ∈ start.parts, part.Allowed names) →
      start.eval (context.withBindings bindings) = start.eval context
  | .root, _ => rfl
  | .context, _ => rfl
  | .nodes operand, hchecked => by
      have hoperand := operand.eval_agrees h hchecked
      simp only [PathStart.eval, hoperand]

theorem select_agrees {context : Context} (h : context.AgreesOn names bindings) :
    (predicates : List Expr) → (∀ e ∈ predicates, e.Checked names) → (ids : List NodeId) →
      select (context.withBindings bindings) predicates ids = select context predicates ids
  | [], _, _ => rfl
  | predicate :: rest, hchecked, ids => by
      -- a predicate is evaluated at each of the nodes, where the variables are the same ones
      have hpredicate (id : NodeId) (position : Nat) :
          predicate.eval ((context.withBindings bindings).at id position ids.length) =
            predicate.eval (context.at id position ids.length) :=
        predicate.eval_agrees (h.at id position ids.length) (List.forall_mem_cons.mp hchecked).1
      have hrest := select_agrees h rest (List.forall_mem_cons.mp hchecked).2
      simp only [select, hpredicate, hrest]

theorem Step.eval_agrees {context : Context} (h : context.AgreesOn names bindings) :
    (step : Step) → step.Checked names → (id : NodeId) →
      step.eval (context.withBindings bindings) id = step.eval context id
  | .mk axis test predicates, hchecked, id => by
      rw [Step.eval, Step.eval]
      exact select_agrees h predicates (checked_step.mp hchecked) _

theorem walkSteps_agrees {context : Context} (h : context.AgreesOn names bindings) :
    (steps : List Step) → (∀ step ∈ steps, step.Checked names) → (ids : List NodeId) →
      walkSteps (context.withBindings bindings) steps ids = walkSteps context steps ids
  | [], _, _ => rfl
  | step :: rest, hchecked, ids => by
      have hstep : step.eval (context.withBindings bindings) = step.eval context :=
        funext (step.eval_agrees h (List.forall_mem_cons.mp hchecked).1)
      have hrest := walkSteps_agrees h rest (List.forall_mem_cons.mp hchecked).2
      simp only [walkSteps, hstep, hrest]

end

/-- The value of a checked expression stays the same when the variables change to others, as long
as those it refers to keep their values. -/
theorem Expr.eval_withBindings {e : Expr} {context : Context} (hchecked : e.Checked names)
    (h : context.AgreesOn e.variables bindings) :
    e.eval (context.withBindings bindings) = e.eval context := e.eval_agrees h hchecked.restrict

end

end Schematron.XPath
