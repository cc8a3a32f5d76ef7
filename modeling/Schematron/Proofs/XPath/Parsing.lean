import Schematron.Proofs.XPath.Lexing
import Schematron.XPath.Parser

/-!
# Reading operands, comparisons and predicates

What the readers answer on the tokens of simple expressions. Each lemma names the fuel that the
reading takes at least and leaves what is over open, so that the lemmas chain: the fuel of a reader
is that of the reader it calls and one more.

An operand that no operator of a level follows passes through the level unchanged
(`expression_of_path`).
-/

namespace Schematron.XPath.Parser

variable {setting : Setting} {fuel level : Nat} {ts rest rest' : List Token} {e left right : Expr}
  {t : Token}

section

variable [Regex.Engine]

theorem operands_of_noOperator (h : ∀ t ∈ rest.head?, operator? level t = none) :
    operands setting (fuel + 1) level e rest = .ok (e, rest) := by
  cases rest with
  | nil => rw [operands]
  | cons t rest =>
      rw [operands, h t rfl]

/-- An expression of the next level that no operator of this level follows. -/
theorem expression_of_next (hlevel : level < 8) (hminus : ∀ more, ts ≠ .minus :: more)
    (hnext : expression setting (fuel + 1) (level + 1) ts = .ok (e, rest))
    (hrest : ∀ t ∈ rest.head?, operator? level t = none) :
    expression setting (fuel + 2) level ts = .ok (e, rest) := by
  rw [expression, if_neg (by show ¬level = 8; omega), hnext]
  · split
    · rfl
    · exact operands_of_noOperator hrest
  · exact hminus

/-- What a path reads is an expression of each level whose operators do not follow. -/
theorem expression_of_path (hpath : path setting (fuel + 1) ts = .ok (e, rest))
    (hminus : ∀ more, ts ≠ .minus :: more) :
    ∀ depth ≤ 8, (∀ t ∈ rest.head?, ∀ level < 8, 8 - depth ≤ level → operator? level t = none) →
      expression setting (fuel + 2 + depth) (8 - depth) ts = .ok (e, rest) := by
  intro depth hdepth hrest
  -- from the level of paths to those that bind less tightly
  induction depth with
  | zero =>
      rw [Nat.add_zero, expression, if_pos (by decide), hpath]
      exact hminus
  | succ depth ih =>
      have hbelow := ih (by omega) fun t ht level hlevel hle => hrest t ht level hlevel (by omega)
      rw [show 8 - depth = 8 - (depth + 1) + 1 by omega,
        show fuel + 2 + depth = fuel + depth + 1 + 1 by omega] at hbelow
      rw [show fuel + 2 + (depth + 1) = fuel + depth + 1 + 2 by omega]
      exact expression_of_next (by omega) hminus hbelow fun t ht =>
        hrest t ht _ (by omega) (Nat.le_refl _)

/-- Two operands with an operator of the level between them. -/
theorem expression_of_operator {operator : BinaryOperator} {more : List Token}
    (hlevel : level < 6) (hminus : ∀ more, ts ≠ .minus :: more)
    (hleft : expression setting (fuel + 2) (level + 1) ts = .ok (left, t :: more))
    (ht : operator? level t = some operator)
    (hright : expression setting (fuel + 1) (level + 1) more = .ok (right, rest))
    (hrest : ∀ t ∈ rest.head?, operator? level t = none) :
    expression setting (fuel + 3) level ts = .ok (.binary operator left right, rest) := by
  rw [expression, if_neg (by show ¬level = 8; omega), if_neg (by show ¬level = 6; omega), hleft]
  · show operands setting (fuel + 2) level left (t :: more) = _
    rw [operands, ht]
    dsimp only
    rw [hright]
    exact operands_of_noOperator hrest
  · exact hminus

/-! ## Primary expressions -/

/-- A primary expression without predicates and steps. -/
theorem path_of_primary (hstarts : startsPrimary ts = true)
    (hprimary : primary setting (fuel + 1) ts = .ok (e, rest))
    (hrest : ∀ t ∈ rest.head?, t ≠ .openBracket ∧ t ≠ .slash ∧ t ≠ .doubleSlash) :
    path setting (fuel + 2) ts = .ok (e, rest) := by
  rw [path, if_pos hstarts, hprimary]
  · cases rest with
    | nil => simp [predicateList, bind, Except.bind]
    | cons t rest =>
        obtain ⟨hbracket, hslash, hdouble⟩ := hrest t rfl
        simp [predicateList, bind, Except.bind, hbracket, hslash, hdouble]
  · rintro more rfl
    cases hstarts
  · rintro more rfl
    cases hstarts

/-- A call without arguments. -/
theorem primary_of_call {name : String} {function : Function}
    (hname : functionOf name = .ok function) (hcheck : checkCall function [] = .ok ()) :
    primary setting (fuel + 2) (.name name :: .openParen :: .closeParen :: rest) =
      .ok (.call function [], rest) := by
  simp [primary, hname, expect, argumentList, hcheck, bind, Except.bind]

/-! ## Predicates -/

theorem predicateList_of_end (h : rest.head? ≠ some .openBracket) :
    predicateList setting (fuel + 1) rest = .ok ([], rest) := by
  rw [predicateList]
  rintro more rfl
  exact h rfl

theorem predicateList_cons {predicates : List Expr}
    (hfirst : expression setting fuel 0 ts = .ok (e, .closeBracket :: rest))
    (hmore : predicateList setting fuel rest = .ok (predicates, rest')) :
    predicateList setting (fuel + 1) (.openBracket :: ts) = .ok (e :: predicates, rest') := by
  rw [predicateList, hfirst]
  simp [bind, Except.bind, expect, hmore]

/-! ## Steps -/

/-- A step is its axis, its test and its predicates. -/
theorem step_of_parts {axis : Axis} {test : NodeTest} {predicates : List Expr}
    {tested filtered : List Token} (hdot : ∀ more, ts ≠ .dot :: more)
    (hdots : ∀ more, ts ≠ .dotDot :: more) (haxis : stepAxis setting ts = .ok (axis, tested))
    (htest : nodeTest setting tested = .ok (test, filtered))
    (hpredicates : predicateList setting fuel filtered = .ok (predicates, rest)) :
    step setting (fuel + 1) ts = .ok (.mk axis test predicates, rest) := by
  rw [step, haxis]
  · simp [bind, Except.bind, htest, hpredicates]
  · exact hdot
  · exact hdots

end

/-- A name is cut at no colon. -/
theorem nameTest_of_isName {name : String} (h : Lexer.IsName name) :
    nameTest setting name = .ok (.name none name) := by
  have hcolon : ':' ∉ name.toList := h.not_mem (by decide)
  rw [nameTest]
  split
  · next more hmore => exact absurd (hmore ▸ by simp) hcolon
  · rw [Text.cutAt?_eq_none hcolon]

theorem nameTest_of_star (name : String) :
    nameTest setting ("*:" ++ name) = .ok (.anyNamespace name) := by
  have hlist : ("*:" ++ name).toList = '*' :: ':' :: name.toList := by simp
  rw [nameTest, hlist]
  simp

/-- A name with a prefix is cut at its colon. -/
theorem nameTest_of_prefixed {pre : String} (hpre : Lexer.IsName pre) (localPart : String) :
    nameTest setting (pre ++ ":" ++ localPart) =
      (setting.names.namespaceOf pre).bind fun uri =>
        .ok (if localPart = "*" then .inNamespace uri else .name (some uri) localPart) := by
  have hcolon : ':' ∉ pre.toList := hpre.not_mem (by decide)
  have happend : (pre ++ ":" ++ localPart).toList = pre.toList ++ ':' :: localPart.toList := by
    simp
  rw [nameTest, happend]
  split
  · next more hmore =>
      -- no name begins with a star
      obtain ⟨c, cs, hlist, -, hchars⟩ := hpre.toList_eq
      rw [hlist] at hmore
      have hstar := hchars c List.mem_cons_self
      rw [(List.cons.inj hmore).1] at hstar
      exact absurd hstar (by decide)
  · rw [Text.cutAt?_append hcolon]
    simp [← String.toList_inj, bind, Except.bind]

/-- A name without prefix, where no parenthesis follows. -/
theorem nodeTest_of_name {name : String} {test : NodeTest}
    (hname : nameTest setting name = .ok test) (hparen : ∀ more, ts ≠ .openParen :: more) :
    nodeTest setting (.name name :: ts) = .ok (test, ts) := by
  rw [nodeTest]
  · simp [bind, Except.bind, hname]
  · exact hparen

variable [Regex.Engine]

/-- One step, after which no slash follows. -/
theorem relative_of_step {first : Step} (hstep : step setting fuel ts = .ok (first, [])) :
    relative setting (fuel + 1) ts = .ok ([first], []) := by
  simp [relative, bind, Except.bind, hstep]

theorem relative_cons {first : Step} {steps : List Step} {more : List Token}
    (hstep : step setting fuel ts = .ok (first, .slash :: more))
    (hmore : relative setting fuel more = .ok (steps, rest)) :
    relative setting (fuel + 1) ts = .ok (first :: steps, rest) := by
  simp [relative, bind, Except.bind, hstep, hmore]

/-- Steps from the document node. -/
theorem path_of_relative {steps : List Step} (hstarts : startsStep ts = true)
    (hrelative : relative setting fuel ts = .ok (steps, rest)) :
    path setting (fuel + 1) (.slash :: ts) = .ok (.path .root steps, rest) := by
  rw [path, if_neg (by simp [startsPrimary]), if_pos hstarts, hrelative]
  rfl

/-! ## The predicates of locations -/

/-- A number in brackets. -/
theorem predicate_of_number (value : Numeric.Decimal) :
    expression setting (fuel + 11) 0 (.number value :: .closeBracket :: rest) =
      .ok (.number value.toFloat, .closeBracket :: rest) := by
  have hpath : path setting (fuel + 2) (.number value :: .closeBracket :: rest) =
      .ok (.number value.toFloat, .closeBracket :: rest) :=
    path_of_primary rfl (by rw [primary]) (by simp)
  exact expression_of_path hpath (by simp) 8 (Nat.le_refl _) (by simp [operator?])

/-- A call without arguments that is compared with a text, before a bracket or a conjunction. -/
theorem expression_of_comparison {name value : String} {function : Function}
    (hname : functionOf name = .ok function) (hcheck : checkCall function [] = .ok ())
    (hstarts : startsPrimary [.name name, .openParen] = true)
    (hrest : ∀ t ∈ rest.head?, t = .closeBracket ∨ t = .and) :
    expression setting (fuel + 11) 2
        (.name name :: .openParen :: .closeParen :: .eq :: .literal value :: rest) =
      .ok (.binary (.compare .eq) (.call function []) (.literal value), rest) := by
  have hcall : path setting (fuel + 4)
      (.name name :: .openParen :: .closeParen :: .eq :: .literal value :: rest) =
        .ok (.call function [], .eq :: .literal value :: rest) :=
    path_of_primary hstarts (primary_of_call hname hcheck) (by simp)
  have hliteral : path setting (fuel + 3) (.literal value :: rest) = .ok (.literal value, rest) := by
    refine path_of_primary rfl (by rw [primary]) fun t ht => ?_
    rcases hrest t ht with rfl | rfl <;> decide
  have hnone : ∀ t ∈ rest.head?, ∀ level, 2 ≤ level → operator? level t = none := by
    intro t ht level hlevel
    rcases hrest t ht with rfl | rfl
    · simp [operator?]
    · obtain ⟨level, rfl⟩ := Nat.exists_eq_add_of_le' hlevel
      simp [operator?]
  -- the call and the text are operands of the comparison, five levels above the paths
  have hleft := expression_of_path hcall (by simp) 5 (by decide) fun t ht level _ hlevel => by
    obtain rfl : Token.eq = t := by simpa using ht
    obtain ⟨level, rfl⟩ := Nat.exists_eq_add_of_le' hlevel
    simp [operator?]
  have hright := expression_of_path hliteral (by simp) 5 (by decide) fun t ht level _ hlevel =>
    hnone t ht level (by omega)
  exact expression_of_operator (by decide) (by simp) hleft rfl hright fun t ht =>
    hnone t ht 2 (Nat.le_refl _)

/-- The test of a namespace in brackets. -/
theorem predicate_of_namespace (uri : String) :
    expression setting (fuel + 13) 0
        (.name "namespace-uri" :: .openParen :: .closeParen :: .eq :: .literal uri ::
          .closeBracket :: rest) =
      .ok (.binary (.compare .eq) (.call .namespaceUri []) (.literal uri),
        .closeBracket :: rest) := by
  -- neither a disjunction nor a conjunction, so the comparison passes through both levels
  refine expression_of_next (by decide) (by simp) ?_ (by simp [operator?])
  refine expression_of_next (by decide) (by simp) ?_ (by simp [operator?])
  exact expression_of_comparison rfl rfl (by decide) (by simp)

/-- The test of a local name and a namespace in brackets. -/
theorem predicate_of_expandedName (localPart uri : String) :
    expression setting (fuel + 14) 0
        (.name "local-name" :: .openParen :: .closeParen :: .eq :: .literal localPart :: .and ::
          .name "namespace-uri" :: .openParen :: .closeParen :: .eq :: .literal uri ::
            .closeBracket :: rest) =
      .ok (.binary .and
          (.binary (.compare .eq) (.call .localName []) (.literal localPart))
          (.binary (.compare .eq) (.call .namespaceUri []) (.literal uri)),
        .closeBracket :: rest) := by
  have hlocal : expression setting (fuel + 12) 2
      (.name "local-name" :: .openParen :: .closeParen :: .eq :: .literal localPart :: .and ::
        .name "namespace-uri" :: .openParen :: .closeParen :: .eq :: .literal uri ::
          .closeBracket :: rest) = .ok (_, .and :: _) :=
    expression_of_comparison rfl rfl (by decide) (by simp)
  refine expression_of_next (by decide) (by simp) ?_ (by simp [operator?])
  refine expression_of_operator (by decide) (by simp) hlocal rfl ?_ (by simp [operator?])
  exact expression_of_comparison rfl rfl (by decide) (by simp)

end Schematron.XPath.Parser
