import Schematron.Proofs.XPath.Levels
import Schematron.Proofs.XPath.Writable

/-!
# Reading printed tokens

The parser reads the printed tokens of an expression back. For each list of a style — predicates,
arguments, steps — there is a lemma that its elements are read back if the expressions in them are;
for each kind of expression, that it is read on its level (`Rereads`). Together they are the cases
of an induction over the expression (`inductive_rereads`).
-/

namespace Schematron.XPath.Parser

variable {setting : Setting} {level : Nat} {ts : List Token} {e : Expr}

/-! ## Lists of expressions -/

variable [Regex.Engine]

section

variable {style : Style} {es : List Expr} {rest : List Token} {fuel : Nat}

theorem predicateList_tokens (hes : ∀ e ∈ es, ReadsAt setting 0 (style.tokens e) e)
    (hrest : rest.head? ≠ some .openBracket)
    (hfuel : 16 * (style.predicateTokens es).length < fuel) :
    predicateList setting fuel (style.predicateTokens es ++ rest) = .ok (es, rest) := by
  induction es generalizing fuel with
  | nil =>
      obtain ⟨fuel, rfl⟩ : ∃ more, fuel = more + 1 := ⟨fuel - 1, by omega⟩
      exact predicateList_of_end hrest
  | cons e es ih =>
      obtain ⟨he, hes⟩ := List.forall_mem_cons.mp hes
      simp only [Style.predicateTokens, List.length_cons, List.length_append] at hfuel
      obtain ⟨fuel, rfl⟩ : ∃ more, fuel = more + 1 := ⟨fuel - 1, by omega⟩
      have hfirst := he fuel (.closeBracket :: (style.predicateTokens es ++ rest))
        (.close (by decide)) (by omega)
      simpa [Style.predicateTokens] using predicateList_cons hfirst (ih hes (by omega))

/-- Arguments, with commas between them, up to the closing parenthesis. -/
theorem moreArguments_tokens {e : Expr} (he : ReadsAt setting 0 (style.tokens e) e)
    (hes : ∀ e ∈ es, ReadsAt setting 0 (style.tokens e) e)
    (hfuel : 16 * (style.argumentTokens (e :: es)).length < fuel) :
    moreArguments setting fuel (style.argumentTokens (e :: es) ++ .closeParen :: rest) =
      .ok (e :: es, rest) := by
  induction es generalizing e fuel with
  | nil =>
      simp only [Style.argumentTokens, List.isEmpty_nil, if_true, List.append_nil] at hfuel ⊢
      obtain ⟨fuel, rfl⟩ : ∃ more, fuel = more + 1 := ⟨fuel - 1, by omega⟩
      have hfirst := he fuel (.closeParen :: rest) (.close (by decide)) (by omega)
      simp [moreArguments, hfirst, bind, Except.bind]
  | cons next es ih =>
      obtain ⟨hnext, hes⟩ := List.forall_mem_cons.mp hes
      rw [Style.argumentTokens] at hfuel ⊢
      simp only [List.isEmpty_cons, Bool.false_eq_true, if_false, List.length_append,
        List.length_cons] at hfuel ⊢
      obtain ⟨fuel, rfl⟩ : ∃ more, fuel = more + 1 := ⟨fuel - 1, by omega⟩
      have hfirst := he fuel
        (.comma :: (style.argumentTokens (next :: es) ++ .closeParen :: rest))
        (.close (by decide)) (by omega)
      have hmore : moreArguments setting fuel
          (style.argumentTokens (next :: es) ++ .closeParen :: rest) = _ :=
        ih hnext hes (by omega)
      simp [moreArguments, hfirst, hmore, expect, bind, Except.bind]

/-- The arguments of a call. -/
theorem argumentList_tokens (hes : ∀ e ∈ es, ReadsAt setting 0 (style.tokens e) e)
    (hbegins : ∀ e ∈ es, Begins 0 (style.tokens e))
    (hfuel : 16 * (style.argumentTokens es).length + 1 < fuel) :
    argumentList setting fuel (style.argumentTokens es ++ .closeParen :: rest) =
      .ok (es, rest) := by
  obtain ⟨fuel, rfl⟩ : ∃ more, fuel = more + 1 := ⟨fuel - 1, by omega⟩
  cases es with
  | nil =>
      rw [argumentList.eq_def]
      rfl
  | cons e es =>
      obtain ⟨he, hes⟩ := List.forall_mem_cons.mp hes
      rw [argumentList]
      · exact moreArguments_tokens he hes (by omega)
      · -- the first argument does not begin with the parenthesis that ends the list
        obtain ⟨t, more, htokens, hclose, -⟩ := hbegins e List.mem_cons_self
        rw [Style.argumentTokens, htokens]
        intro rest heq
        exact hclose (List.cons.inj heq).1

/-! ## Steps -/

variable (hnames : setting.names = style.names)

include hnames

omit [Regex.Engine] in
theorem nodeTest_tokens {test : NodeTest} (htest : style.Spells test)
    (hrest : rest.head? ≠ some .openParen) :
    nodeTest setting (style.testTokens test ++ rest) = .ok (test, rest) := by
  have hparen : ∀ more, rest ≠ .openParen :: more := by
    rintro more rfl
    exact hrest rfl
  rcases test with _ | ⟨_ | uri, localPart⟩ | uri | localPart | _ | _ | _
  · rfl
  · exact nodeTest_of_name (nameTest_of_isName htest) hparen
  · obtain ⟨hlocal, hknown, huri⟩ := htest
    refine nodeTest_of_name ?_ hparen
    have hstar : localPart ≠ "*" := by
      rintro rfl
      exact absurd hlocal (by decide)
    rw [nameTest_of_prefixed hknown, hnames, huri]
    simp [Except.bind, hstar]
  · obtain ⟨hknown, huri⟩ := htest
    refine nodeTest_of_name ?_ hparen
    rw [nameTest_of_prefixed hknown, hnames, huri]
    rfl
  · exact nodeTest_of_name (nameTest_of_star localPart) hparen
  · rfl
  · rfl
  · rfl

/-- A step, after which neither a predicate nor a parenthesis follows. -/
theorem step_tokens {axis : Axis} {test : NodeTest} (htest : style.Spells test)
    (hes : ∀ e ∈ es, ReadsAt setting 0 (style.tokens e) e)
    (hbracket : rest.head? ≠ some .openBracket) (hparen : rest.head? ≠ some .openParen)
    (hfuel : 16 * (style.stepTokens (.mk axis test es)).length ≤ fuel + 11) :
    step setting fuel (style.stepTokens (.mk axis test es) ++ rest) =
      .ok (.mk axis test es, rest) := by
  simp only [Style.stepTokens, List.length_cons, List.length_append] at hfuel
  obtain ⟨fuel, rfl⟩ : ∃ more, fuel = more + 1 := ⟨fuel - 1, by omega⟩
  have haxis : stepAxis setting (style.stepTokens (.mk axis test es) ++ rest) =
      .ok (axis, style.testTokens test ++ (style.predicateTokens es ++ rest)) := by
    simp [Style.stepTokens, stepAxis, Axis.ofName?_toName]
  have htested : nodeTest setting (style.testTokens test ++ (style.predicateTokens es ++ rest)) =
      .ok (test, style.predicateTokens es ++ rest) := by
    refine nodeTest_tokens hnames htest ?_
    cases es with
    | nil => exact hparen
    | cons e es => simp [Style.predicateTokens]
  exact step_of_parts (by simp [Style.stepTokens]) (by simp [Style.stepTokens]) haxis htested
    (predicateList_tokens hes hbracket (by omega))

/-- Steps with slashes between them. -/
theorem relative_tokens {steps : List Step} (hne : steps ≠ [])
    (htests : ∀ axis test es, .mk axis test es ∈ steps → style.Spells test)
    (hsteps : ∀ axis test es, .mk axis test es ∈ steps →
      ∀ e ∈ es, ReadsAt setting 0 (style.tokens e) e)
    (hrest : Stops level rest)
    (hfuel : 16 * (style.relativeTokens steps).length ≤ fuel + 10) :
    relative setting fuel (style.relativeTokens steps ++ rest) = .ok (steps, rest) := by
  have hends := hrest.ends.1
  simp only [List.mem_cons, List.not_mem_nil, or_false, not_or] at hends
  obtain ⟨hbracket, hparen, hslash, hdouble⟩ := hends
  induction steps generalizing fuel with
  | nil => exact absurd rfl hne
  | cons first steps ih =>
      obtain ⟨axis, test, es⟩ := first
      have hpos : 0 < (style.stepTokens (.mk axis test es)).length := by
        rw [Style.stepTokens]
        exact Nat.succ_pos _
      rw [Style.relativeTokens] at hfuel ⊢
      rw [List.length_append] at hfuel
      obtain ⟨fuel, rfl⟩ : ∃ more, fuel = more + 1 := ⟨fuel - 1, by omega⟩
      have htest := htests axis test es List.mem_cons_self
      have hes := hsteps axis test es List.mem_cons_self
      cases steps with
      | nil =>
          have hfirst : step setting fuel (style.stepTokens (.mk axis test es) ++ rest) = _ :=
            step_tokens hnames htest hes hbracket hparen (by omega)
          simp only [List.isEmpty_nil, if_true, List.append_nil]
          rw [relative.eq_def]
          simp only [bind, Except.bind, hfirst]
          split
          · exact absurd rfl hslash
          · exact absurd rfl hdouble
          · rfl
      | cons next steps =>
          simp only [List.isEmpty_cons, Bool.false_eq_true, if_false, List.length_cons,
            List.append_assoc, List.cons_append] at hfuel ⊢
          have hmore : relative setting fuel (style.relativeTokens (next :: steps) ++ rest) = _ :=
            ih (List.cons_ne_nil _ _)
              (fun axis test es hstep => htests axis test es (List.mem_cons_of_mem _ hstep))
              (fun axis test es hstep => hsteps axis test es (List.mem_cons_of_mem _ hstep))
              (by omega)
          refine relative_cons ?_ hmore
          exact step_tokens hnames htest hes (by simp) (by simp) (by omega)

end

/-! ## Kinds of expressions -/

section

variable {style : Style}

/-- With one token there is fuel for one call at least. -/
theorem readsPrimary_of_succ (hne : ts ≠ []) (hstarts : ∀ rest, startsPrimary (ts ++ rest) = true)
    (h : ∀ fuel rest, 16 * ts.length ≤ fuel + 11 →
      primary setting (fuel + 1) (ts ++ rest) = .ok (e, rest)) : ReadsPrimary setting ts e := by
  intro fuel rest hfuel
  have hpos := List.length_pos_of_ne_nil hne
  obtain ⟨fuel, rfl⟩ : ∃ more, fuel = more + 1 := ⟨fuel - 1, by omega⟩
  exact ⟨hstarts rest, h fuel rest (by omega)⟩

theorem readsPrimary_literal (value : String) :
    ReadsPrimary setting [.literal value] (.literal value) := by
  refine readsPrimary_of_succ (List.cons_ne_nil _ _) (fun _ => rfl) fun fuel rest _ => ?_
  rw [List.singleton_append, primary]

theorem readsPrimary_number (value : Numeric.Decimal) :
    ReadsPrimary setting [.number value] (.number value.toFloat) := by
  refine readsPrimary_of_succ (List.cons_ne_nil _ _) (fun _ => rfl) fun fuel rest _ => ?_
  rw [List.singleton_append, primary]

theorem readsPrimary_variableRef {name : String} (h : name ∈ setting.names.variableNames) :
    ReadsPrimary setting [.variableName name] (.variableRef name) := by
  refine readsPrimary_of_succ (List.cons_ne_nil _ _) (fun _ => rfl) fun fuel rest _ => ?_
  rw [List.singleton_append, primary, if_pos (List.contains_iff_mem.mpr h)]

omit [Regex.Engine] in
theorem functionOf_toName (f : Function) : functionOf f.toName = .ok f := by
  cases f <;> rfl

omit [Regex.Engine] in
/-- No function has the name of a node test. -/
theorem startsPrimary_toName (f : Function) (rest : List Token) :
    startsPrimary (.name f.toName :: .openParen :: rest) = true := by
  cases f <;> rfl

theorem readsPrimary_call {function : Function} {arguments : List Expr}
    (hcheck : checkCall function arguments = .ok ())
    (hread : ∀ e ∈ arguments, ReadsAt setting 0 (style.tokens e) e)
    (hbegins : ∀ e ∈ arguments, Begins 0 (style.tokens e)) :
    ReadsPrimary setting (style.tokens (.call function arguments)) (.call function arguments) := by
  refine readsPrimary_of_succ (List.cons_ne_nil _ _) (fun _ => startsPrimary_toName _ _) ?_
  intro fuel rest hfuel
  simp only [Style.tokens, List.length_cons, List.length_append, List.length_nil] at hfuel
  have hmore : argumentList setting fuel (style.argumentTokens arguments ++ .closeParen :: rest) =
    _ := argumentList_tokens hread hbegins (by omega)
  simp [Style.tokens, primary, functionOf_toName, expect, hmore, hcheck, bind, Except.bind]

/-- A primary expression with predicates. -/
theorem ReadsPrimary.filter {predicates : List Expr} (h : ReadsPrimary setting ts e) (hts : ts ≠ [])
    (hread : ∀ e ∈ predicates, ReadsAt setting 0 (style.tokens e) e) (hne : predicates ≠ []) :
    ReadsHead setting (ts ++ style.predicateTokens predicates) (.filter e predicates) := by
  intro fuel rest hrest hfuel
  have hpos := List.length_pos_of_ne_nil hts
  rw [List.length_append] at hfuel
  obtain ⟨hstarts, hprimary⟩ := h fuel (style.predicateTokens predicates ++ rest) (by omega)
  rw [← List.append_assoc] at hstarts hprimary
  exact ⟨hstarts, e, predicates, _, hprimary, predicateList_tokens hread hrest (by omega),
    if_neg (by simpa using hne)⟩

/-- The document node. -/
theorem readsAt_root : ReadsAt setting pathLevel [.slash] (.path .root []) := by
  intro fuel rest hrest hfuel
  have hlevel : pathLevel = 8 := rfl
  rw [List.length_singleton] at hfuel
  obtain ⟨fuel, rfl⟩ : ∃ more, fuel = more + 2 := ⟨fuel - 2, by omega⟩
  rw [expression_path, List.singleton_append, path, if_neg (by simp [startsPrimary]),
    if_neg (by simp [hrest.ends.2])]

/-- The tokens of the steps are read as steps. -/
def ReadsSteps (setting : Setting) (style : Style) (steps : List Step) : Prop :=
  ∀ fuel rest, Stops pathLevel rest → 16 * (style.relativeTokens steps).length ≤ fuel + 10 →
    relative setting fuel (style.relativeTokens steps ++ rest) = .ok (steps, rest)

omit [Regex.Engine] in
/-- Steps begin with the name of an axis. -/
theorem relativeTokens_eq {steps : List Step} (hne : steps ≠ []) :
    ∃ axis more, style.relativeTokens steps = .name axis :: .doubleColon :: more := by
  rcases steps with _ | ⟨⟨axis, test, predicates⟩, steps⟩
  · exact absurd rfl hne
  · rw [Style.relativeTokens, Style.stepTokens]
    exact ⟨_, _, rfl⟩

theorem ReadsSteps.root {steps : List Step} (h : ReadsSteps setting style steps)
    (hne : steps ≠ []) :
    ReadsAt setting pathLevel (.slash :: style.relativeTokens steps) (.path .root steps) := by
  intro fuel rest hrest hfuel
  have hlevel : pathLevel = 8 := rfl
  rw [List.length_cons] at hfuel
  obtain ⟨fuel, rfl⟩ : ∃ more, fuel = more + 2 := ⟨fuel - 2, by omega⟩
  have hread := h fuel rest hrest (by omega)
  rw [expression_path, List.cons_append]
  refine path_of_relative ?_ hread
  obtain ⟨axis, more, htokens⟩ := relativeTokens_eq hne
  rw [htokens]
  rfl

theorem ReadsSteps.context {steps : List Step} (h : ReadsSteps setting style steps)
    (hne : steps ≠ []) :
    ReadsAt setting pathLevel (style.relativeTokens steps) (.path .context steps) := by
  intro fuel rest hrest hfuel
  have hlevel : pathLevel = 8 := rfl
  obtain ⟨axis, more, htokens⟩ : ∃ axis more, style.relativeTokens steps = _ :=
    relativeTokens_eq hne
  have hlength : (style.relativeTokens steps).length = more.length + 2 := by simp [htokens]
  obtain ⟨fuel, rfl⟩ : ∃ more, fuel = more + 2 := ⟨fuel - 2, by omega⟩
  have hread := h fuel rest hrest (by omega)
  rw [htokens, List.cons_append, List.cons_append] at hread ⊢
  rw [expression_path, path.eq_def]
  simp [startsPrimary, hread, bind, Except.bind]

theorem ReadsSteps.nodes {steps : List Step} (h : ReadsSteps setting style steps)
    (hhead : ReadsHead setting ts e) (hts : ts ≠ []) :
    ReadsAt setting pathLevel (ts ++ .slash :: style.relativeTokens steps)
      (.path (.nodes e) steps) := by
  intro fuel rest hrest hfuel
  have hlevel : pathLevel = 8 := rfl
  have hpos := List.length_pos_of_ne_nil hts
  rw [List.length_append, List.length_cons] at hfuel
  obtain ⟨fuel, rfl⟩ : ∃ more, fuel = more + 2 := ⟨fuel - 2, by omega⟩
  rw [expression_path, List.append_assoc, List.cons_append]
  exact hhead.path (by omega) (h fuel rest hrest (by omega))

end

/-! ## Where an expression begins -/

section

variable {style : Style}

/-- No expression begins with a closing parenthesis, and none that is tighter than a minus sign
with one of those. -/
theorem inductive_begins (style : Style) :
    Expr.Inductive style.Writes fun e => Begins e.level (style.tokens e) where
  binary _ hleft _ := by
    rw [Style.tokens]
    exact (begins_enclosed fun hstands => hleft.mono (Expr.le_of_standsAt hstands)).append _
  negate _ _ := by
    rw [Style.tokens]
    exact ⟨_, _, rfl, by simp, fun h => absurd h (Nat.lt_irrefl _)⟩
  literal _ := ⟨_, _, rfl, by simp, by simp⟩
  number _ := ⟨_, _, rfl, by simp, by simp⟩
  variableRef _ := ⟨_, _, rfl, by simp, by simp⟩
  call _ _ := by
    rw [Style.tokens]
    exact ⟨_, _, rfl, by simp, by simp⟩
  filter _ hoperand _ := by
    rw [Style.tokens]
    refine (begins_enclosed fun hprimary => ?_).append _
    rw [Expr.level_of_head (.inl hprimary)] at hoperand
    exact hoperand
  path {start steps} hwrites hstart _ := by
    rcases start with _ | _ | operand
    · rw [Style.tokens]
      exact ⟨_, _, rfl, by simp, by simp⟩
    · rcases steps with _ | ⟨⟨axis, test, predicates⟩, steps⟩
      · simp [Style.Writes] at hwrites
      · rw [Style.tokens, Style.relativeTokens, Style.stepTokens]
        exact ⟨_, _, rfl, by simp, by simp⟩
    · rw [Style.tokens]
      refine (begins_enclosed fun hstands => ?_).append _
      have hoperand := hstart operand rfl
      rw [Expr.level_of_head (Style.head_of_standsAsHead hstands)] at hoperand
      exact hoperand

/-! ## Expressions -/

/-- The tokens of an expression are read back wherever they are printed. -/
structure Rereads (setting : Setting) (style : Style) (e : Expr) : Prop where
  begins : Begins e.level (style.tokens e)
  readsAt : ReadsAt setting e.level (style.tokens e) e
  operand : e.level ≠ unaryLevel → e.level ≠ pathLevel →
    ReadsOperand setting e.level (style.tokens e) e
  head : e.isPrimary = true ∨ e.isFilter = true → ReadsHead setting (style.tokens e) e
  primary : e.isPrimary = true → ReadsPrimary setting (style.tokens e) e

namespace Rereads

variable (h : Rereads setting style e)

include h

theorem readsAt_zero : ReadsAt setting 0 (style.tokens e) e :=
  h.readsAt.lower h.begins e.level_le (Nat.zero_le _)

theorem primary_enclosed : ReadsPrimary setting (enclosed e.isPrimary (style.tokens e)) e := by
  cases hprimary : e.isPrimary with
  | true => exact h.primary hprimary
  | false => exact h.readsAt_zero.enclosed

/-- The head of a path. -/
theorem head_enclosed :
    ReadsHead setting (enclosed (style.standsAsHead e) (style.tokens e)) e := by
  cases hstands : style.standsAsHead e with
  | true => exact h.head (Style.head_of_standsAsHead hstands)
  | false => exact h.readsAt_zero.enclosed.head (List.cons_ne_nil _ _)

/-- In parentheses an expression is one of every level. -/
theorem readsAt_parentheses (hlevel : level ≤ pathLevel) :
    ReadsAt setting level (enclosed false (style.tokens e)) e := by
  have hread := h.readsAt_zero.enclosed.head (List.cons_ne_nil _ _)
  exact (hread.readsAt (List.cons_ne_nil _ _)).lower (begins_enclosed nofun) (Nat.le_refl _) hlevel

/-- A right operand, in parentheses where it binds less tightly than the level. -/
theorem readsAt_enclosed (hlevel : level ≤ pathLevel) :
    ReadsAt setting level (enclosed (e.standsAt level) (style.tokens e)) e := by
  cases hstands : e.standsAt level with
  | true => exact h.readsAt.lower h.begins e.level_le (Expr.le_of_standsAt hstands)
  | false => exact h.readsAt_parentheses hlevel

/-- A left operand. On its own level reading goes on with its operators. -/
theorem operand_enclosed (hlevel : level < pathLevel) (hunary : level ≠ unaryLevel) :
    ReadsOperand setting level (enclosed (e.standsAt level) (style.tokens e)) e := by
  cases hstands : e.standsAt level with
  | true =>
      rcases Nat.lt_or_eq_of_le (Expr.le_of_standsAt hstands) with hlt | rfl
      · have hnext := h.readsAt.lower h.begins e.level_le (Nat.succ_le_of_lt hlt)
        exact hnext.operand (h.begins.mono hlt) hlevel hunary
      · exact h.operand hunary (Nat.ne_of_lt hlevel)
  | false =>
      have hnext := h.readsAt_parentheses (Nat.succ_le_of_lt hlevel)
      exact hnext.operand (begins_enclosed nofun) hlevel hunary

omit h

/-- An expression on the level of paths. -/
theorem of_path (hlevel : e.level = pathLevel) (hbegins : Begins e.level (style.tokens e))
    (hread : ReadsAt setting pathLevel (style.tokens e) e)
    (hhead : e.isPrimary = true ∨ e.isFilter = true → ReadsHead setting (style.tokens e) e)
    (hprimary : e.isPrimary = true → ReadsPrimary setting (style.tokens e) e) :
    Rereads setting style e where
  begins := hbegins
  readsAt := hlevel.symm ▸ hread
  operand _ hpath := absurd hlevel hpath
  head := hhead
  primary := hprimary

/-- A primary expression. -/
theorem of_primary (hlevel : e.level = pathLevel) (hbegins : Begins e.level (style.tokens e))
    (hread : ReadsPrimary setting (style.tokens e) e) : Rereads setting style e := by
  have hhead := hread.head (List.ne_nil_of_length_pos hbegins.length_pos)
  exact of_path hlevel hbegins (hhead.readsAt (List.ne_nil_of_length_pos hbegins.length_pos))
    (fun _ => hhead) fun _ => hread

/-- Two operands with an operator between them. -/
theorem binary {operator : BinaryOperator} {left right : Expr} (hleft : Rereads setting style left)
    (hright : Rereads setting style right) :
    Rereads setting style (.binary operator left right) := by
  obtain ⟨hlevel, hunary⟩ := operator.level_lt
  have hbegins : Begins operator.level (style.tokens (.binary operator left right)) :=
    (inductive_begins style).binary trivial hleft.begins hright.begins
  have hoperand : ReadsOperand setting operator.level
      (style.tokens (.binary operator left right)) (.binary operator left right) := by
    rw [Style.tokens]
    exact (hleft.operand_enclosed hlevel hunary).binary
      (hright.readsAt_enclosed (Nat.succ_le_of_lt hlevel))
  exact {
    begins := hbegins
    readsAt := hoperand.readsAt hbegins hlevel
    operand := fun _ _ => hoperand
    head := by simp [Expr.isPrimary, Expr.isFilter]
    primary := by simp [Expr.isPrimary] }

theorem negate (h : Rereads setting style e) : Rereads setting style (.negate e) where
  begins := (inductive_begins style).negate trivial h.begins
  readsAt := by
    intro fuel rest hrest hfuel
    have hlevel : (Expr.negate e).level = unaryLevel := rfl
    have hunary : unaryLevel = 6 := rfl
    rw [Style.tokens, List.length_cons] at hfuel
    obtain ⟨fuel, rfl⟩ : ∃ more, fuel = more + 1 := ⟨fuel - 1, by omega⟩
    have hread := h.readsAt_enclosed (show unaryLevel ≤ pathLevel by decide) fuel rest hrest
      (by omega)
    rw [hlevel, Style.tokens, List.cons_append, expression_minus, hread]
    rfl
  operand hunary := absurd rfl hunary
  head := by simp [Expr.isPrimary, Expr.isFilter]
  primary := by simp [Expr.isPrimary]

/-- A primary expression, or one in parentheses, with predicates. -/
theorem filter {predicates : List Expr} (h : Rereads setting style e) (hne : predicates ≠ [])
    (hread : ∀ e ∈ predicates, Rereads setting style e) :
    Rereads setting style (.filter e predicates) := by
  have hbegins := (inductive_begins style).filter hne h.begins fun e he => (hread e he).begins
  have hhead : ReadsHead setting (style.tokens (.filter e predicates)) (.filter e predicates) := by
    rw [Style.tokens]
    exact h.primary_enclosed.filter (enclosed_ne_nil h.begins)
      (fun e he => (hread e he).readsAt_zero) hne
  exact of_path rfl hbegins (hhead.readsAt (List.ne_nil_of_length_pos hbegins.length_pos))
    (fun _ => hhead) nofun

end Rereads

/-- An expression that can be written is read back, in the context of the style. -/
theorem inductive_rereads (hnames : setting.names = style.names) :
    Expr.Inductive style.Writes (Rereads setting style) where
  binary _ hleft hright := hleft.binary hright
  negate _ h := h.negate
  literal h := .of_primary rfl ((inductive_begins style).literal h) (readsPrimary_literal _)
  number {value} h := by
    refine .of_primary rfl ((inductive_begins style).number h) ?_
    have hread : ReadsPrimary setting _ _ :=
      readsPrimary_number { digits := style.numeral value }
    rw [h] at hread
    exact hread
  variableRef h :=
    .of_primary rfl ((inductive_begins style).variableRef h)
      (readsPrimary_variableRef (hnames ▸ h.2))
  call hcheck hread := by
    refine .of_primary rfl ((inductive_begins style).call hcheck fun e he => (hread e he).begins) ?_
    exact readsPrimary_call hcheck (fun e he => (hread e he).readsAt_zero)
      fun e he => (hread e he).begins.mono (Nat.zero_le _)
  filter hne hoperand hread := hoperand.filter hne hread
  path {start steps} hwrites hstart hread := by
    have hbegins := (inductive_begins style).path hwrites
      (fun operand hoperand => (hstart operand hoperand).begins)
      fun axis test predicates hstep e he => (hread axis test predicates hstep e he).begins
    have hsteps (hne : steps ≠ []) : ReadsSteps setting style steps := by
      intro fuel rest hrest hfuel
      exact relative_tokens hnames hne hwrites.2
        (fun axis test predicates hstep e he =>
          (hread axis test predicates hstep e he).readsAt_zero) hrest hfuel
    refine .of_path rfl hbegins ?_ (by simp [Expr.isPrimary, Expr.isFilter])
      (by simp [Expr.isPrimary])
    rcases start with _ | _ | operand
    · by_cases hsome : steps = []
      · subst hsome
        exact readsAt_root
      · exact (hsteps hsome).root hsome
    · have hsome := Style.Writes.steps_ne_nil hwrites (by simp)
      exact (hsteps hsome).context hsome
    · have hoperand := hstart operand rfl
      have hsome := Style.Writes.steps_ne_nil hwrites (by simp)
      rw [Style.tokens]
      exact (hsteps hsome).nodes hoperand.head_enclosed (enclosed_ne_nil hoperand.begins)

end

end Schematron.XPath.Parser
