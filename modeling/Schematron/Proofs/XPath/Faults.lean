import Schematron.Proofs.XPath.Checked

/-!
# Faults of evaluation

An expression that was checked when it was read can still have no value, but only because of the
document: a value is no node-set where one is needed, or a text is no regular expression. The
faults that are found by looking at the expression alone are not met again, provided that the
variables it may refer to have values (`Expr.eval_failsWith`).

More generally, an evaluation fails with faults of one kind if this is so of each call in the
expression that is given arguments of which it is so (`Expr.eval_failsWithin`).
-/

namespace Schematron.XPath

open Xml

/-- A fault that depends on the values in an expression. -/
def EvalFault.IsDynamic : EvalFault → Prop
  | notNodes _ _ => True
  | regex _ _ => True
  | undefinedVariable _ => False

section

variable {P : EvalFault → Prop} (hnodes : ∀ use found, P (.notNodes use found))

/-! ## Calls -/

include hnodes in
theorem Value.toNodes_failsWith (use : NodeSetUse) (v : Value) : FailsWith P (v.toNodes use) := by
  cases v with
  | nodes ids => exact .ok ids
  | _ => exact .error (hnodes _ _)

theorem regexOf_failsWith [Regex.Engine] (hregex : ∀ pattern cause, P (.regex pattern cause))
    (pattern flags : String) : FailsWith P (regexOf pattern flags) := by
  rw [regexOf]
  split
  · exact .ok _
  · exact .error (hregex _ _)

/-- Where a function that takes a regular expression, which is its second argument, takes flags. -/
def Function.flagsIndex? : Function → Option Nat
  | .matches => some 2
  | .replace => some 3
  | _ => none

namespace Arguments

variable {arguments : Arguments}

/-- The matcher of the regular expression and the flags among the arguments. -/
def matcher [Regex.Engine] (arguments : Arguments) (context : Context) (flagsIndex : Nat) :
    Except EvalFault Regex.Matcher := do
  let flags ← arguments.textOrEmpty context flagsIndex
  let pattern ← arguments.text context 1
  regexOf pattern flags

section

variable (h : ∀ a ∈ arguments, FailsWith P a) (context : Context) (i : Nat)

include h

theorem text_failsWith : FailsWith P (arguments.text context i) := by
  rw [text]
  split
  next a ha => exact (h a (List.mem_of_getElem? ha)).bind fun v => .ok _
  · exact .ok _

theorem chars_failsWith : FailsWith P (arguments.chars context i) :=
  (text_failsWith h context i).bind fun s => .ok s.toList

theorem number_failsWith : FailsWith P (arguments.number context i) := by
  rw [number]
  split
  next a ha => exact (h a (List.mem_of_getElem? ha)).bind fun v => .ok _
  · exact .ok _

include hnodes in
theorem nodes_failsWith (function : Function) :
    FailsWith P (arguments.nodes context function i) := by
  rw [nodes]
  split
  next a ha => exact (h a (List.mem_of_getElem? ha)).bind fun v => v.toNodes_failsWith hnodes _
  · exact .ok _

theorem textOrEmpty_failsWith : FailsWith P (arguments.textOrEmpty context i) := by
  rw [textOrEmpty]
  split
  · exact text_failsWith h context i
  · exact .ok ""

theorem value_failsWith : FailsWith P (arguments.value context i) := by
  rw [value]
  cases ha : arguments[i]? with
  | none => exact .ok _
  | some a => exact h a (List.mem_of_getElem? ha)

theorem matcher_failsWith [Regex.Engine] (hregex : ∀ pattern cause, P (.regex pattern cause)) :
    FailsWith P (arguments.matcher context i) :=
  (textOrEmpty_failsWith h context i).bind fun _ =>
    (text_failsWith h context 1).bind fun _ => regexOf_failsWith hregex _ _

end

/-- What is done with the matcher does not matter, if it is no fault of its own. -/
theorem bind_matcher_failsWith [Regex.Engine] {α : Type} {context : Context} {i : Nat}
    (h : FailsWith P (arguments.matcher context i)) (f : Regex.Matcher → Except EvalFault α)
    (hf : ∀ matcher, FailsWith P (f matcher)) :
    FailsWith P (do
      let flags ← arguments.textOrEmpty context i
      let matcher ← regexOf (← arguments.text context 1) flags
      f matcher) := by
  have hbind := h.bind hf
  simpa only [matcher, bind_assoc] using hbind

end Arguments

include hnodes in
/-- A call fails with a fault of its arguments or of its regular expression, or because an argument
is no node-set. -/
theorem Function.apply_failsWith [Regex.Engine] (function : Function) {arguments : Arguments}
    (h : ∀ a ∈ arguments, FailsWith P a) (context : Context)
    (hmatcher : ∀ i, function.flagsIndex? = some i → FailsWith P (arguments.matcher context i)) :
    FailsWith P (function.apply arguments context) := by
  have text := Arguments.text_failsWith h context
  have chars := Arguments.chars_failsWith h context
  have number := Arguments.number_failsWith h context
  have textOrEmpty := Arguments.textOrEmpty_failsWith h context
  have nodes := fun i => Arguments.nodes_failsWith hnodes h context i function
  have value := Arguments.value_failsWith h context
  cases function
  -- the cases follow the order in which each function asks for its arguments
  case last | position | true | false | current => exact .ok _
  case count => exact (nodes 0).bind fun _ => .ok _
  case localName | name | namespaceUri | sum => exact (nodes 0).bind fun _ => .ok _
  case string | normalizeSpace | upperCase | lowerCase => exact (text 0).bind fun _ => .ok _
  case concat => exact (FailsWith.mapM fun i _ => text i).bind fun _ => .ok _
  case startsWith | endsWith | contains | substringBefore | substringAfter =>
    exact (chars 0).bind fun _ => (chars 1).bind fun _ => .ok _
  case substring =>
    refine (chars 0).bind fun _ => (number 1).bind fun _ => ?_
    dsimp only
    split
    · exact ((number 2).map some).bind fun _ => .ok _
    · exact .ok _
  case stringLength => exact (chars 0).bind fun _ => .ok _
  case translate =>
    exact (chars 0).bind fun _ => (chars 1).bind fun _ => (chars 2).bind fun _ => .ok _
  case boolean | not => exact (value 0).bind fun _ => .ok _
  case number | floor | ceiling | round => exact (number 0).bind fun _ => .ok _
  case «exists» | empty =>
    refine (value 0).bind fun v => ?_
    cases v <;> exact .ok _
  case «matches» =>
    exact (chars 0).bind fun _ =>
      Arguments.bind_matcher_failsWith (hmatcher 2 rfl) _ fun _ => .ok _
  case replace =>
    exact (chars 0).bind fun _ =>
      Arguments.bind_matcher_failsWith (hmatcher 3 rfl) _ fun _ => (chars 2).bind fun _ => .ok _
  case stringJoin =>
    refine (textOrEmpty 1).bind fun _ => (value 0).bind fun v => ?_
    cases v <;> exact .ok _
  case max | min | avg =>
    refine (nodes 0).bind fun ids => ?_
    dsimp only
    split <;> exact .ok _

/-! ## Expressions -/

theorem keepWith_failsWith {α : Type} {test : α → Except EvalFault Bool} {xs : List α}
    (h : ∀ x ∈ xs, FailsWith P (test x)) : FailsWith P (keepWith test xs) :=
  (FailsWith.foldlM (fun _ x hx => (h x hx).bind fun _ => .ok _) []).bind fun _ => .ok _

/-- Every one of the names has a value in the context. -/
def Context.Binds (context : Context) (names : List String) : Prop :=
  ∀ name ∈ names, ∃ v, context.lookup name = .ok v

theorem Context.Binds.at {context : Context} {names : List String} (h : context.Binds names)
    (node : NodeId) (position size : Nat) : (context.at node position size).Binds names := h

variable [Regex.Engine]

/-- An expression does not fail with any other faults, if the expressions in it do not and the
variables of the given names have values. -/
def Expr.FailsWithin (P : EvalFault → Prop) (names : List String) : Expr → Prop
  | .variableRef name => name ∈ names
  | .call function arguments => ∀ context, (∀ a ∈ evalAll context arguments, FailsWith P a) →
      FailsWith P (function.apply (evalAll context arguments) context)
  | _ => True

mutual

/-- An expression fails with the faults that its calls fail with, or because a value is no
node-set. -/
theorem Expr.eval_failsWithin (hnodes : ∀ use found, P (.notNodes use found))
    {names : List String} {context : Context} (hbinds : context.Binds names) :
    (e : Expr) → e.Every (Expr.FailsWithin P names) → FailsWith P (e.eval context)
  | .binary operator left right, h => by
      have hleft := left.eval_failsWithin hnodes hbinds (every_binary.mp h).2.1
      have hright := right.eval_failsWithin hnodes hbinds (every_binary.mp h).2.2
      cases operator with
      -- the right operand is evaluated only if the left one leaves the answer open
      | or =>
          refine hleft.bind fun a => ?_
          split
          · exact .ok _
          · exact hright.bind fun _ => .ok _
      | and =>
          refine hleft.bind fun a => ?_
          split
          · exact hright.bind fun _ => .ok _
          · exact .ok _
      | compare | arithmetic => exact hleft.bind fun _ => hright.bind fun _ => .ok _
      | union =>
          exact hleft.bind fun a => (a.toNodes_failsWith hnodes _).bind fun _ =>
            hright.bind fun b => (b.toNodes_failsWith hnodes _).bind fun _ => .ok _
  | .negate operand, h =>
      (operand.eval_failsWithin hnodes hbinds (every_negate.mp h).2).bind fun _ => .ok _
  | .literal _, _ => .ok _
  | .number _, _ => .ok _
  | .variableRef name, h => by
      obtain ⟨v, hv⟩ := hbinds name (every_variableRef.mp h)
      rw [Expr.eval, hv]
      exact .ok v
  | .call _ arguments, h =>
      (every_call.mp h).1 context (evalAll_failsWithin hnodes hbinds arguments (every_call.mp h).2)
  | .filter operand predicates, h =>
      (operand.eval_failsWithin hnodes hbinds (every_filter.mp h).2.1).bind fun a =>
        (a.toNodes_failsWith hnodes _).bind fun ids =>
          (select_failsWithin hnodes hbinds predicates (every_filter.mp h).2.2 ids).bind
            fun _ => .ok _
  | .path start steps, h =>
      (start.eval_failsWithin hnodes hbinds (every_path.mp h).2.1).bind fun ids =>
        (walkSteps_failsWithin hnodes hbinds steps (every_path.mp h).2.2 ids).bind fun _ => .ok _

theorem evalAll_failsWithin (hnodes : ∀ use found, P (.notNodes use found))
    {names : List String} {context : Context} (hbinds : context.Binds names) :
    (es : List Expr) → (∀ e ∈ es, e.Every (Expr.FailsWithin P names)) →
      ∀ a ∈ evalAll context es, FailsWith P a
  | [], _ => nofun
  | e :: rest, h => List.forall_mem_cons.mpr
      ⟨e.eval_failsWithin hnodes hbinds (List.forall_mem_cons.mp h).1,
        evalAll_failsWithin hnodes hbinds rest (List.forall_mem_cons.mp h).2⟩

theorem PathStart.eval_failsWithin (hnodes : ∀ use found, P (.notNodes use found))
    {names : List String} {context : Context} (hbinds : context.Binds names) :
    (start : PathStart) → (∀ part ∈ start.parts, part.FailsWithin P names) →
      FailsWith P (start.eval context)
  | .root, _ => .ok _
  | .context, _ => .ok _
  | .nodes operand, h =>
      (operand.eval_failsWithin hnodes hbinds h).bind fun a => a.toNodes_failsWith hnodes _

theorem select_failsWithin (hnodes : ∀ use found, P (.notNodes use found))
    {names : List String} {context : Context} (hbinds : context.Binds names) :
    (predicates : List Expr) → (∀ e ∈ predicates, e.Every (Expr.FailsWithin P names)) →
      (ids : List NodeId) → FailsWith P (select context predicates ids)
  | [], _, _ => .ok _
  | predicate :: rest, h, ids =>
      (keepWith_failsWith fun x _ =>
        (predicate.eval_failsWithin hnodes (hbinds.at x.1 x.2 ids.length)
          (List.forall_mem_cons.mp h).1).bind fun _ => .ok _).bind fun kept =>
        select_failsWithin hnodes hbinds rest (List.forall_mem_cons.mp h).2 (kept.map (·.1))

theorem Step.eval_failsWithin (hnodes : ∀ use found, P (.notNodes use found))
    {names : List String} {context : Context} (hbinds : context.Binds names) :
    (step : Step) → step.Every (Expr.FailsWithin P names) → (id : NodeId) →
      FailsWith P (step.eval context id)
  | .mk _ _ predicates, h, _ => select_failsWithin hnodes hbinds predicates (every_step.mp h) _

theorem walkSteps_failsWithin (hnodes : ∀ use found, P (.notNodes use found))
    {names : List String} {context : Context} (hbinds : context.Binds names) :
    (steps : List Step) → (∀ step ∈ steps, step.Every (Expr.FailsWithin P names)) →
      (ids : List NodeId) → FailsWith P (walkSteps context steps ids)
  | [], _, _ => .ok _
  | step :: rest, h, _ =>
      (FailsWith.mapM fun id _ =>
        step.eval_failsWithin hnodes hbinds (List.forall_mem_cons.mp h).1 id).bind fun found =>
        walkSteps_failsWithin hnodes hbinds rest (List.forall_mem_cons.mp h).2
          (documentOrder found.flatten)

end

end

/-- A checked expression whose variables have values fails only because of the values in it. -/
theorem Expr.eval_failsWith [Regex.Engine] {names : List String} {context : Context}
    (hbinds : context.Binds names) (e : Expr) (h : e.Checked names) :
    FailsWith EvalFault.IsDynamic (e.eval context) := by
  have hnodes (use : NodeSetUse) (found : ValueType) :
      (EvalFault.notNodes use found).IsDynamic := trivial
  refine e.eval_failsWithin hnodes hbinds fun part hpart => ?_
  have hallowed := h part hpart
  cases part with
  | variableRef name => exact hallowed
  | call function arguments =>
      intro context harguments
      exact function.apply_failsWith hnodes harguments context fun i _ =>
        Arguments.matcher_failsWith harguments context i fun _ _ => trivial
  | _ => trivial

end Schematron.XPath
