import Mathlib
import Schematron.Proofs.XPath.Faults
import Schematron.Regex.Builtin

/-!
# What compiling leaves to evaluation

A compiled expression has a value in every context that has values for its variables, unless a
value in it is no node-set where one is needed or a regular expression in it is none; the latter
only where a pattern or its flags are not written as a literal (`evaluate_of_compiled`). There are
no other faults: the texts of expressions, their functions and their prefixes are not looked at
again (`EvalFault`). Which patterns the engine rejects does not matter, as it rejects the pattern of
a literal when the call is read just if it does so when the call is evaluated.

The number of the arguments is not looked at again either. Five functions take their first argument
without asking whether there is one (`Function.applyOr`), and in a compiled call there is.
-/

namespace Schematron.XPath

/-! ## Arguments -/

section

variable [Regex.Engine]

theorem getElem?_evalAll (context : Context) (es : List Expr) (i : Nat) :
    (evalAll context es)[i]? = es[i]?.map (·.eval context) := by
  induction es generalizing i with
  | nil => rfl
  | cons e rest ih =>
      cases i with
      | zero => rfl
      | succ i => exact ih i

theorem length_evalAll (context : Context) (es : List Expr) :
    (evalAll context es).length = es.length := by
  induction es with
  | nil => rfl
  | cons e rest ih => exact congrArg (· + 1) ih

/-- The value of a call where `missing` is taken for an argument that is not there, by the functions
that do not ask whether it is. -/
def Function.applyOr (missing : Except EvalFault Value) (function : Function)
    (arguments : Arguments) (context : Context) : Except EvalFault Value :=
  let first := arguments[0]?.getD missing
  match function with
  | boolean => do .ok (.boolean (← first).toBool)
  | not => do .ok (.boolean (!(← first).toBool))
  | .exists => do
    match ← first with
    | .nodes ids => .ok (.boolean (!ids.isEmpty))
    | _ => .ok (.boolean .true)
  | empty => do
    match ← first with
    | .nodes ids => .ok (.boolean ids.isEmpty)
    | _ => .ok (.boolean .false)
  | stringJoin => do
    let separator ← arguments.textOrEmpty context 1
    match ← first with
    | .nodes ids => .ok (.string (String.intercalate separator (ids.map context.doc.stringValue)))
    | v => .ok (.string (v.toText context.doc))
  | _ => function.apply arguments context

theorem Function.apply_eq_applyOr (function : Function) (arguments : Arguments)
    (context : Context) :
    function.apply arguments context =
      function.applyOr (.ok (.nodes [context.node])) arguments context := by
  cases function <;> rfl

/-- With as many arguments as the function accepts none is taken that is not there. -/
theorem Function.applyOr_of_accepts {function : Function} {arguments : Arguments}
    (h : function.arity.accepts arguments.length) (missing : Except EvalFault Value)
    (context : Context) :
    function.applyOr missing arguments context = function.apply arguments context := by
  cases arguments with
  | nil =>
      cases function
      -- these functions accept no less than one argument
      case boolean | not | «exists» | empty | stringJoin => cases h
      all_goals rfl
  | cons first rest => cases function <;> rfl

end

/-! ## Regular expressions -/

/-- A call of a function with a regular expression, of which the pattern or the flags are no
literal. -/
def Expr.HasOpenRegex : Expr → Prop
  | .call function arguments => ∃ flagsIndex, function.flagsIndex? = some flagsIndex ∧
      ∃ i ∈ [1, flagsIndex], ∃ argument, arguments[i]? = some argument ∧
        Parser.literal? argument = none
  | _ => False

theorem least_le_of_accepts {arity : Arity} {count : Nat} (h : arity.accepts count = true) :
    arity.least ≤ count :=
  of_decide_eq_true (Bool.and_eq_true_iff.mp h).1

/-- A function with a regular expression accepts no less than two arguments. -/
theorem two_le_least {function : Function} {flagsIndex : Nat}
    (h : function.flagsIndex? = some flagsIndex) : 2 ≤ function.arity.least := by
  cases function <;> cases h <;> decide

theorem literal?_eq_some {e : Expr} {text : String} :
    Parser.literal? e = some text ↔ e = .literal text := by
  cases e <;> simp [Parser.literal?]

section

variable [Regex.Engine] {function : Function} {arguments : List Expr} {flagsIndex : Nat}

/-- A regular expression that is a literal was compiled when the call was read. -/
theorem compileRegex_of_checkCall (hcheck : Parser.checkCall function arguments = .ok ())
    (hflags : function.flagsIndex? = some flagsIndex) {pattern : String}
    (hpattern : arguments[1]?.bind Parser.literal? = some pattern) :
    ∃ matcher,
      compileRegex pattern ((arguments[flagsIndex]?.bind Parser.literal?).getD "") = .ok matcher := by
  rw [Parser.checkCall, accepts_of_checkCall hcheck, if_neg (by simp)] at hcheck
  cases function <;> cases hflags
  all_goals
    simp only [hpattern] at hcheck
    split at hcheck
    next matcher hmatcher => exact ⟨matcher, hmatcher⟩
    · cases hcheck

theorem text_of_literal {i : Nat} {text : String} (h : arguments[i]? = some (.literal text))
    (context : Context) : (evalAll context arguments).text context i = .ok text := by
  rw [Arguments.text, getElem?_evalAll, h]
  rfl

/-- The pattern and the flags of a call are as it was read with them. -/
theorem matcher_of_checkCall (hcheck : Parser.checkCall function arguments = .ok ())
    (hflags : function.flagsIndex? = some flagsIndex)
    (hclosed : ¬ (Expr.call function arguments).HasOpenRegex) (context : Context) :
    ∃ matcher, (evalAll context arguments).matcher context flagsIndex = .ok matcher := by
  have hliteral (i : Nat) (hi : i ∈ [1, flagsIndex]) (argument : Expr)
      (hargument : arguments[i]? = some argument) : ∃ text, argument = .literal text := by
    cases htext : Parser.literal? argument with
    | none => exact absurd ⟨flagsIndex, hflags, i, hi, argument, hargument, htext⟩ hclosed
    | some text => exact ⟨text, literal?_eq_some.mp htext⟩
  have hlength : 1 < arguments.length :=
    Nat.le_trans (two_le_least hflags) (least_le_of_accepts (accepts_of_checkCall hcheck))
  obtain ⟨pattern, hpattern⟩ := hliteral 1 (by simp) _ (List.getElem?_eq_getElem hlength)
  have hpattern : arguments[1]? = some (.literal pattern) := by
    rw [List.getElem?_eq_getElem hlength, hpattern]
  have htext : (evalAll context arguments).textOrEmpty context flagsIndex =
      .ok ((arguments[flagsIndex]?.bind Parser.literal?).getD "") := by
    rw [Arguments.textOrEmpty, length_evalAll]
    split
    next hlt =>
      obtain ⟨text, htext⟩ := hliteral flagsIndex (by simp) _ (List.getElem?_eq_getElem hlt)
      have htext : arguments[flagsIndex]? = some (.literal text) := by
        rw [List.getElem?_eq_getElem hlt, htext]
      rw [text_of_literal htext, htext]
      rfl
    next hle =>
      rw [List.getElem?_eq_none (Nat.le_of_not_lt hle)]
      rfl
  obtain ⟨matcher, hmatcher⟩ := compileRegex_of_checkCall hcheck hflags
    (show _ = some pattern by rw [hpattern]; rfl)
  refine ⟨matcher, bind_eq_ok.mpr ⟨_, htext, bind_eq_ok.mpr ⟨_, text_of_literal hpattern _, ?_⟩⟩⟩
  rw [regexOf, hmatcher]

end

/-! ## Compiled expressions -/

/-- The faults that the evaluation of an expression may have. -/
def Expr.MayFailWith (e : Expr) : EvalFault → Prop
  | .notNodes _ _ => True
  | .regex _ _ => ∃ part ∈ e.parts, part.HasOpenRegex
  | .undefinedVariable _ => False

theorem Expr.eval_mayFailWith [Regex.Engine] {names : List String} {context : Context}
    (hbinds : context.Binds names) (e : Expr) (h : e.Checked names) :
    FailsWith e.MayFailWith (e.eval context) := by
  have hnodes (use : NodeSetUse) (found : ValueType) : e.MayFailWith (.notNodes use found) := trivial
  refine e.eval_failsWithin hnodes hbinds fun part hpart => ?_
  have hallowed := h part hpart
  cases part with
  | variableRef name => exact hallowed
  | call function arguments =>
      intro context harguments
      refine function.apply_failsWith hnodes harguments context fun i hi => ?_
      by_cases hopen : (Expr.call function arguments).HasOpenRegex
      · exact Arguments.matcher_failsWith harguments context i fun _ _ => ⟨_, hpart, hopen⟩
      · obtain ⟨matcher, hmatcher⟩ := matcher_of_checkCall hallowed hi hopen context
        rw [hmatcher]
        exact .ok matcher
  | _ => trivial

/-- In a context with values for the variables that an expression may refer to, the compiled
expression has a value, or a value in it is no node-set, or a regular expression in it is none that
is not given by literals. No function takes an argument that is not there: what such an argument
would be does not matter. -/
theorem evaluate_of_compiled [Regex.Engine] (names : StaticContext) (source : String)
    (query : Query)
    (hcompile : Query.compile names source = .ok query ∨
      Query.compilePattern names source = .ok query)
    (context : Context) (hbinds : context.Binds names.variableNames) :
    ((∃ v, query.evaluate context = .ok v) ∨
      (∃ use found, query.evaluate context = .error (.notNodes use found)) ∨
      ∃ pattern cause, query.evaluate context = .error (.regex pattern cause) ∧
        ∃ part ∈ query.expr.parts, part.HasOpenRegex) ∧
    ∀ function arguments, .call function arguments ∈ query.expr.parts → ∀ context missing,
      function.applyOr missing (evalAll context arguments) context =
        function.apply (evalAll context arguments) context := by
  have hchecked : query.expr.Checked names.variableNames := by
    rcases hcompile with hcompile | hcompile
    · exact Query.checked_of_compile hcompile
    · exact Query.checked_of_compilePattern hcompile
  constructor
  · have hfails := query.expr.eval_mayFailWith hbinds hchecked
    cases heval : query.evaluate context with
    | ok v => exact .inl ⟨v, rfl⟩
    | error fault =>
        have hfault := hfails fault heval
        cases fault with
        | notNodes use found => exact .inr (.inl ⟨use, found, rfl⟩)
        | regex pattern cause => exact .inr (.inr ⟨pattern, cause, rfl, hfault⟩)
        | undefinedVariable name => exact hfault.elim
  · intro function arguments hcall context missing
    have haccepts := hchecked.accepts hcall
    rw [← length_evalAll context] at haccepts
    exact Function.applyOr_of_accepts haccepts missing context

/-- The expression `matches('x', $v)`. -/
def matchesVariable : Query := ⟨"matches('x', $v)", .call .matches [.literal "x", .variableRef "v"]⟩

/-- The text of the variable is a pattern that is not closed. -/
theorem evaluate_of_compiled_matchesVariable :
    Query.compile { variableNames := ["v"] } "matches('x', $v)" = .ok matchesVariable ∧
      (∃ reason, matchesVariable.evaluate
          { doc := .empty, node := 0, bindings := [("v", .string "(")] } =
        .error (.regex "(" (.rejected reason))) ∧
      ∃ part ∈ matchesVariable.expr.parts, part.HasOpenRegex := by
  have hcompile : Query.compile { variableNames := ["v"] } "matches('x', $v)" =
      .ok matchesVariable := by cbv
  let context : Context := { doc := .empty, node := 0, bindings := [("v", .string "(")] }
  have hevaluate : matchesVariable.evaluate context =
      .error (.regex "(" (.rejected "regex parse error:")) := by cbv
  have hbinds : context.Binds ["v"] := List.forall_mem_singleton.mpr ⟨.string "(", rfl⟩
  refine ⟨hcompile, ⟨_, hevaluate⟩, ?_⟩
  rcases (evaluate_of_compiled _ _ _ (.inl hcompile) context hbinds).1 with
    ⟨v, h⟩ | ⟨use, found, h⟩ | ⟨pattern, cause, -, hopen⟩
  · rw [hevaluate] at h
    cases h
  · rw [hevaluate] at h
    cases h
  · exact hopen

end Schematron.XPath
