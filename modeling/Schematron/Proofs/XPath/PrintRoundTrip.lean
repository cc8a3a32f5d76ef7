import Schematron.Proofs.XPath.Rereading
import Schematron.Regex.Builtin

/-!
# Reading printed expressions

The parser inverts printing: an expression that was read of some text is read again of the text that
is printed for it, in the same context (`parse_print`). For the lexer, the tokens of an expression
alternate as it expects them to: operands stand where operands can, and after them operators
(`inductive_fits`). For the parser, what it reads of the tokens is the expression
(`Parser.inductive_rereads`).
-/

namespace Schematron.XPath

open Lexer Numeric

variable {style : Style}

/-! ## Tokens that fit -/

theorem legible_of_isName {name : String} (h : IsName name) : (Token.name name).Legible :=
  .inl (.inl h)

theorem isName_axis (axis : Axis) : IsName axis.toName := by
  cases axis <;> decide

theorem isName_function (f : Function) : IsName f.toName := by
  cases f <;> decide

/-- After the tokens of the expression, what follows an operand can follow; after the document node,
which ends with a slash, what begins one. -/
def FitsBefore (style : Style) (e : Expr) : Prop :=
  ∀ rest, Fits (!e.isBareRoot) rest → Fits false (style.tokens e ++ rest)

theorem fits_enclosed {e : Expr} {bare : Bool} {rest : List Token} (h : FitsBefore style e)
    (hbare : bare = true → e.isBareRoot = false) (hrest : Fits true rest) :
    Fits false (enclosed bare (style.tokens e) ++ rest) := by
  cases bare with
  | true => exact h rest (by rwa [hbare rfl])
  | false =>
      rw [enclosed, if_neg (by decide), List.cons_append, List.append_assoc]
      exact ⟨trivial, trivial, h _ ⟨trivial, trivial, hrest⟩⟩

theorem fits_predicateTokens {es : List Expr} {rest : List Token}
    (hes : ∀ e ∈ es, FitsBefore style e) (hrest : Fits true rest) :
    Fits true (style.predicateTokens es ++ rest) := by
  induction es with
  | nil => exact hrest
  | cons e es ih =>
      obtain ⟨he, hes⟩ := List.forall_mem_cons.mp hes
      rw [Style.predicateTokens, List.cons_append, List.append_assoc]
      exact ⟨trivial, trivial, he _ ⟨trivial, trivial, ih hes⟩⟩

/-- The arguments of a call, and the parenthesis that ends them. -/
theorem fits_argumentTokens {es : List Expr} {rest : List Token}
    (hes : ∀ e ∈ es, FitsBefore style e) (hrest : Fits true rest) :
    Fits false (style.argumentTokens es ++ .closeParen :: rest) := by
  induction es with
  | nil => exact ⟨trivial, trivial, hrest⟩
  | cons e es ih =>
      obtain ⟨he, hes⟩ := List.forall_mem_cons.mp hes
      rw [Style.argumentTokens, List.append_assoc]
      refine he _ ?_
      cases es with
      | nil => exact ⟨trivial, trivial, hrest⟩
      | cons next es => exact ⟨trivial, trivial, ih hes⟩

theorem fits_testTokens {test : NodeTest} {rest : List Token} (htest : style.Spells test)
    (hrest : Fits true rest) : Fits false (style.testTokens test ++ rest) := by
  have htype {name : String} (hname : IsName name) :
      Fits false (.name name :: .openParen :: .closeParen :: rest) :=
    ⟨legible_of_isName hname, rfl, trivial, trivial, trivial, trivial, hrest⟩
  rcases test with _ | ⟨_ | uri, localPart⟩ | uri | localPart | _ | _ | _
  · exact ⟨trivial, rfl, hrest⟩
  · exact ⟨legible_of_isName htest, rfl, hrest⟩
  · exact ⟨.inl (.inr ⟨_, _, htest.2.1, .inl htest.1, rfl⟩), rfl, hrest⟩
  · exact ⟨.inl (.inr ⟨_, _, htest.1, .inr rfl, rfl⟩), rfl, hrest⟩
  · exact ⟨.inr ⟨localPart, htest, rfl⟩, rfl, hrest⟩
  · exact htype (by decide)
  · exact htype (by decide)
  · exact htype (by decide)

theorem fits_relativeTokens {steps : List Step} {rest : List Token} (hne : steps ≠ [])
    (htests : ∀ axis test es, .mk axis test es ∈ steps → style.Spells test)
    (hsteps : ∀ axis test es, .mk axis test es ∈ steps → ∀ e ∈ es, FitsBefore style e)
    (hrest : Fits true rest) : Fits false (style.relativeTokens steps ++ rest) := by
  induction steps with
  | nil => exact absurd rfl hne
  | cons first steps ih =>
      obtain ⟨axis, test, es⟩ := first
      rw [Style.relativeTokens, Style.stepTokens, List.append_assoc, List.cons_append,
        List.cons_append, List.append_assoc]
      refine ⟨legible_of_isName (isName_axis axis), rfl, trivial, trivial, ?_⟩
      refine fits_testTokens (htests axis test es List.mem_cons_self) ?_
      refine fits_predicateTokens (hsteps axis test es List.mem_cons_self) ?_
      cases steps with
      | nil => exact hrest
      | cons next steps =>
          refine ⟨trivial, trivial, ih (List.cons_ne_nil _ _) ?_ ?_⟩
          · exact fun axis test es hstep => htests axis test es (List.mem_cons_of_mem _ hstep)
          · exact fun axis test es hstep => hsteps axis test es (List.mem_cons_of_mem _ hstep)

/-- An operator follows an operand, and an operand the operator. -/
theorem fits_operator (operator : BinaryOperator) {rest : List Token} (hrest : Fits false rest) :
    Fits true (operator.token :: rest) := by
  rcases operator with _ | _ | (_ | _ | _ | _ | _ | _) | (_ | _ | _ | _ | _) | _ <;>
    exact ⟨trivial, by trivial, hrest⟩

/-- The tokens of an expression that can be written fit. -/
theorem inductive_fits [Regex.Engine] (style : Style) :
    Expr.Inductive style.Writes (FitsBefore style) where
  binary _ hleft hright := by
    intro rest hrest
    rw [Style.tokens, List.append_assoc, List.cons_append]
    refine fits_enclosed hleft Expr.not_isBareRoot_of_standsAt (fits_operator _ ?_)
    exact fits_enclosed hright Expr.not_isBareRoot_of_standsAt hrest
  negate _ hoperand := by
    intro rest hrest
    rw [Style.tokens, List.cons_append]
    exact ⟨trivial, trivial, fits_enclosed hoperand Expr.not_isBareRoot_of_standsAt hrest⟩
  literal h := fun rest hrest => ⟨h, trivial, hrest⟩
  number _ := fun rest hrest => ⟨trivial, rfl, hrest⟩
  variableRef h := fun rest hrest => ⟨h.1, trivial, hrest⟩
  call _ harguments := by
    intro rest hrest
    rw [Style.tokens, List.cons_append, List.cons_append, List.append_assoc]
    refine ⟨legible_of_isName (isName_function _), rfl, trivial, trivial, ?_⟩
    exact fits_argumentTokens harguments hrest
  filter _ hoperand hpredicates := by
    intro rest hrest
    rw [Style.tokens, List.append_assoc]
    exact fits_enclosed hoperand (fun hprimary => Expr.not_isBareRoot_of_head (.inl hprimary))
      (fits_predicateTokens hpredicates hrest)
  path {start steps} hwrites hstart hpredicates := by
    intro rest hrest
    -- with steps, a path ends like an operand
    have hsteps (hsome : steps ≠ []) : Fits false (style.relativeTokens steps ++ rest) := by
      have hbare : (Expr.path start steps).isBareRoot = false := by
        cases steps with
        | nil => exact absurd rfl hsome
        | cons step steps => cases start <;> rfl
      rw [hbare] at hrest
      exact fits_relativeTokens hsome hwrites.2 hpredicates hrest
    rcases start with _ | _ | operand
    · rw [Style.tokens, List.cons_append]
      refine ⟨trivial, trivial, ?_⟩
      by_cases hsome : steps = []
      · subst hsome
        exact hrest
      · exact hsteps hsome
    · rw [Style.tokens]
      exact hsteps (Style.Writes.steps_ne_nil hwrites (by simp))
    · rw [Style.tokens, List.append_assoc, List.cons_append]
      have hsome := Style.Writes.steps_ne_nil hwrites (by simp)
      refine fits_enclosed (hstart operand rfl) (fun hstands => ?_)
        ⟨trivial, trivial, hsteps hsome⟩
      exact Expr.not_isBareRoot_of_head (Style.head_of_standsAsHead hstands)

/-! ## Reading what is printed -/

/-- Every expression that is read of some text is read again of the text that is printed for it in
the same context, if each number in it is the double of the whole number that is written for it. -/
theorem parse_print [Regex.Engine] {source : String} {e : Expr}
    (h : Expr.parse style.names source = .ok e)
    (hnumbers : ∀ value, .number value ∈ e.parts →
      Decimal.toFloat { digits := style.numeral value } = value) :
    Expr.parse style.names (style.print e) = .ok e := by
  have hwrites := Style.writes_of_parse h hnumbers
  have hfits : Fits false (style.tokens e) := by
    simpa using (inductive_fits style).of_every e hwrites [] trivial
  have htokens : Lexer.tokens (style.print e).toList = .ok (style.tokens e) :=
    tokens_of_fits hfits
  have hrereads : Parser.Rereads ⟨style.print e, style.names⟩ style e :=
    (Parser.inductive_rereads rfl).of_every e hwrites
  have hread := hrereads.readsAt_zero (Parser.depthBound (style.tokens e)) [] .nil (by
    rw [Parser.depthBound]
    omega)
  obtain ⟨t, more, hcons, -⟩ := hrereads.begins
  rw [List.append_nil] at hread
  rw [Expr.parse, htokens]
  rw [hcons] at hread ⊢
  dsimp only
  rw [hread]
  rfl

/-- In the context of a prefix and a variable, every number is written as a two. -/
def Style.twos : Style where
  names := { namespaces := [("p", "urn:p")], variableNames := ["v"] }
  numeral _ := 2
  bareFilters := false

/-- A difference of a path from a filter and of another difference, compared with a literal that
holds an apostrophe. -/
def nestedDifferences : Expr :=
  let two : Expr := .number (Decimal.toFloat { digits := 2 })
  .binary (.compare .eq) (.literal "it's")
    (.binary (.arithmetic .sub)
      (.path
        (.nodes (.filter
          (.path .root [.anyDepth, .mk .child (.name (some "urn:p") "a") []]) [two]))
        [.mk .attribute (.name none "b") []])
      (.binary (.arithmetic .sub) two
        (.negate (.call .count [.binary .union (.path .root []) (.variableRef "v")]))))

-- The two doubles are told from the same decimal, so the reading needs not compute them.
attribute [local irreducible] Decimal.toFloat in
theorem parse_print_nestedDifferences :
    let printed := "\"it's\" = ( ( / descendant-or-self :: node ( ) / child :: p:a ) [ 2 ] ) / " ++
      "attribute :: b - ( 2 - - count ( ( / ) | $v ) )"
    Expr.parse Style.twos.names "\"it's\" = (//p:a)[2]/@b - (2 - -count(/ | $v))" =
        .ok nestedDifferences ∧
      Style.twos.print nestedDifferences = printed ∧
      Expr.parse Style.twos.names printed = .ok nestedDifferences := by
  intro printed
  have htokens : Lexer.tokens "\"it's\" = (//p:a)[2]/@b - (2 - -count(/ | $v))".toList =
      .ok [.literal "it's", .eq, .openParen, .doubleSlash, .name "p:a", .closeParen, .openBracket,
        .number { digits := 2 }, .closeBracket, .slash, .atSign, .name "b", .minus, .openParen,
        .number { digits := 2 }, .minus, .minus, .name "count", .openParen, .slash, .pipe,
        .variableName "v", .closeParen, .closeParen] := by
    decide +kernel
  have hparse : Expr.parse Style.twos.names "\"it's\" = (//p:a)[2]/@b - (2 - -count(/ | $v))" =
      .ok nestedDifferences := by
    rw [Expr.parse, htokens]
    rfl
  have hprint : Style.twos.print nestedDifferences = printed := by decide +kernel
  refine ⟨hparse, hprint, ?_⟩
  rw [← hprint]
  refine parse_print hparse fun value hvalue => ?_
  obtain rfl : value = Decimal.toFloat { digits := 2 } := by
    simpa [nestedDifferences, Expr.parts, partsOfAll, PathStart.parts, partsOfSteps, Step.parts,
      Step.anyDepth] using hvalue
  rfl

end Schematron.XPath
