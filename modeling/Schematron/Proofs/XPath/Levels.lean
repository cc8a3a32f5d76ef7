import Schematron.Proofs.XPath.Parsing
import Schematron.Proofs.XPath.Printing

/-!
# Reading level by level

An expression is read on the level of its operator, and on every level below where nothing follows
that could belong to it (`Stops`, `ReadsAt.lower`). As a left operand it is read up to the operators
of the level, with which reading goes on (`ReadsOperand`); that is how operators group to the left
(`ReadsOperand.binary`). A primary expression is read whatever follows it (`ReadsPrimary`).

Every statement names the fuel that lasts: sixteen for each token, less what the readers above have
used up since the last token.
-/

namespace Schematron.XPath.Parser

/-! ## What may follow an expression -/

/-- What follows does not belong to an expression of the level: the text ends, or a token that ends
an expression follows, or an operator that binds less tightly. -/
def Stops (level : Nat) (rest : List Token) : Prop :=
  ∀ t ∈ rest.head?, t ∈ [Token.closeParen, .closeBracket, .comma] ∨
    ∃ operator : BinaryOperator, operator.token = t ∧ operator.level < level

namespace Stops

variable {level : Nat} {rest : List Token} {t : Token}

theorem nil : Stops level [] := nofun

theorem close (ht : t ∈ [Token.closeParen, .closeBracket, .comma]) : Stops level (t :: rest) := by
  intro x hx
  obtain rfl : t = x := by simpa using hx
  exact .inl ht

theorem operator (operator : BinaryOperator) (h : operator.level < level) :
    Stops level (operator.token :: rest) := by
  intro x hx
  obtain rfl : operator.token = x := by simpa using hx
  exact .inr ⟨operator, rfl, h⟩

theorem mono (h : Stops level rest) {tighter : Nat} (hle : level ≤ tighter) :
    Stops tighter rest := by
  intro t ht
  rcases h t ht with hclose | ⟨operator, htoken, hlevel⟩
  · exact .inl hclose
  · exact .inr ⟨operator, htoken, by omega⟩

/-- Neither a predicate nor a step nor an argument follows. -/
theorem ends (h : Stops level rest) :
    rest.head? ∉ [some Token.openBracket, some .openParen, some .slash, some .doubleSlash] ∧
      startsStep rest = false := by
  cases rest with
  | nil => decide
  | cons t rest =>
      rcases h t rfl with hclose | ⟨operator, rfl, -⟩
      · simp only [List.mem_cons, List.not_mem_nil, or_false] at hclose
        rcases hclose with rfl | rfl | rfl <;> simp [startsStep]
      · rcases operator with _ | _ | (_ | _ | _ | _ | _ | _) | (_ | _ | _ | _ | _) | _ <;>
          simp [startsStep, BinaryOperator.token]

/-- No operator of the level follows. -/
theorem noOperator (h : Stops level rest) : ∀ t ∈ rest.head?, operator? level t = none := by
  intro t ht
  cases hfound : operator? level t with
  | none => rfl
  | some found =>
      obtain ⟨hsame, rfl⟩ := operator?_eq_some.mp hfound
      rcases h t ht with hclose | ⟨operator, htoken, hlevel⟩
      · rw [← hsame] at hclose
        rcases found with _ | _ | (_ | _ | _ | _ | _ | _) | (_ | _ | _ | _ | _) | _ <;>
          simp [BinaryOperator.token] at hclose
      · rw [BinaryOperator.token_injective (htoken.trans hsame.symm)] at hlevel
        omega

end Stops

/-! ## Levels -/

variable {setting : Setting} {level : Nat} {ts : List Token} {e : Expr}

/-- The tokens are read as the expression on a level. -/
def ReadsAt [Regex.Engine] (setting : Setting) (level : Nat) (ts : List Token) (e : Expr) : Prop :=
  ∀ fuel rest, Stops level rest → 16 * ts.length ≤ fuel + level →
    expression setting fuel level (ts ++ rest) = .ok (e, rest)

/-- The tokens are read as an operand on a level, and reading goes on with its operators. -/
def ReadsOperand [Regex.Engine] (setting : Setting) (level : Nat) (ts : List Token)
    (e : Expr) : Prop :=
  ∀ fuel rest, Stops (level + 1) rest → 16 * ts.length ≤ fuel + level →
    ∃ lasting, fuel ≤ lasting + ts.length ∧
      expression setting fuel level (ts ++ rest) = operands setting lasting level e rest

/-- A token begins an expression of the level. -/
def Begins (level : Nat) (ts : List Token) : Prop :=
  ∃ t more, ts = t :: more ∧ t ≠ .closeParen ∧ (unaryLevel < level → t ≠ .minus)

theorem Begins.append (h : Begins level ts) (rest : List Token) : Begins level (ts ++ rest) := by
  obtain ⟨t, more, rfl, hbegins⟩ := h
  exact ⟨t, more ++ rest, rfl, hbegins⟩

theorem Begins.mono (h : Begins level ts) {lower : Nat} (hle : lower ≤ level) :
    Begins lower ts := by
  obtain ⟨t, more, rfl, hclose, hminus⟩ := h
  exact ⟨t, more, rfl, hclose, fun hlevel => hminus (by omega)⟩

theorem Begins.length_pos (h : Begins level ts) : 0 < ts.length := by
  obtain ⟨t, more, rfl, -⟩ := h
  exact Nat.succ_pos _

theorem begins_enclosed {bare : Bool} (h : bare = true → Begins level ts) :
    Begins level (enclosed bare ts) := by
  cases bare with
  | true => exact h rfl
  | false => exact ⟨_, _, rfl, by simp, by simp⟩

theorem enclosed_ne_nil {bare : Bool} (h : Begins level ts) : enclosed bare ts ≠ [] :=
  List.ne_nil_of_length_pos (begins_enclosed fun _ => h).length_pos

variable [Regex.Engine]

theorem expression_path (fuel : Nat) (ts : List Token) :
    expression setting (fuel + 1) pathLevel ts = path setting fuel ts := by
  rw [expression.eq_def]
  exact if_pos rfl

theorem expression_minus (fuel : Nat) (ts : List Token) :
    expression setting (fuel + 1) unaryLevel (.minus :: ts) =
      (expression setting fuel unaryLevel ts).bind fun read => .ok (.negate read.1, read.2) := by
  rw [expression.eq_def]
  exact (if_neg (by decide)).trans (if_pos rfl)

/-- Where no minus sign stands, a union is read on its level. -/
theorem expression_unary (hbegins : Begins level ts) (hlevel : unaryLevel < level) (fuel : Nat)
    (rest : List Token) :
    expression setting (fuel + 1) unaryLevel (ts ++ rest) =
      expression setting fuel (unaryLevel + 1) (ts ++ rest) := by
  obtain ⟨t, more, rfl, -, hminus⟩ := hbegins
  rw [expression.eq_def]
  refine (if_neg (by decide)).trans ((if_pos rfl).trans ?_)
  split
  · next heq => exact absurd (List.cons.inj heq).1 (hminus hlevel)
  · rfl

/-- An operand is read, and the operators of the level after it. -/
theorem expression_operands (hpath : level ≠ pathLevel) (hunary : level ≠ unaryLevel) (fuel : Nat)
    (ts : List Token) :
    expression setting (fuel + 1) level ts =
      (expression setting fuel (level + 1) ts).bind fun read =>
        operands setting fuel level read.1 read.2 := by
  rw [expression.eq_def]
  exact (if_neg hpath).trans (if_neg hunary)

theorem operands_operator (operator : BinaryOperator) (fuel : Nat) (left : Expr) (ts : List Token) :
    operands setting (fuel + 1) operator.level left (operator.token :: ts) =
      (expression setting fuel (operator.level + 1) ts).bind fun read =>
        operands setting fuel operator.level (.binary operator left read.1) read.2 := by
  rw [operands, operator?_eq_some.mpr ⟨rfl, rfl⟩]
  rfl

/-- An expression of the next level is an operand. -/
theorem ReadsAt.operand (h : ReadsAt setting (level + 1) ts e) (hbegins : Begins (level + 1) ts)
    (hlevel : level < pathLevel) (hunary : level ≠ unaryLevel) : ReadsOperand setting level ts e := by
  intro fuel rest hrest hfuel
  have hpos := hbegins.length_pos
  obtain ⟨fuel, rfl⟩ : ∃ more, fuel = more + 1 :=
    ⟨fuel - 1, by rw [pathLevel] at hlevel; omega⟩
  refine ⟨fuel, by omega, ?_⟩
  rw [expression_operands (by omega) hunary, h fuel rest hrest (by omega)]
  rfl

/-- An operand after which no operator of the level follows. -/
theorem ReadsOperand.readsAt (h : ReadsOperand setting level ts e) (hbegins : Begins level ts)
    (hlevel : level < pathLevel) : ReadsAt setting level ts e := by
  intro fuel rest hrest hfuel
  have hpos := hbegins.length_pos
  obtain ⟨lasting, hlasting, hread⟩ := h fuel rest (hrest.mono (Nat.le_succ _)) hfuel
  obtain ⟨lasting, rfl⟩ : ∃ fewer, lasting = fewer + 1 :=
    ⟨lasting - 1, by rw [pathLevel] at hlevel; omega⟩
  rw [hread]
  exact operands_of_noOperator hrest.noOperator

/-- An expression of the next level is one of this level. -/
theorem ReadsAt.succ (h : ReadsAt setting (level + 1) ts e) (hbegins : Begins (level + 1) ts)
    (hlevel : level < pathLevel) : ReadsAt setting level ts e := by
  by_cases hunary : level = unaryLevel
  · subst hunary
    intro fuel rest hrest hfuel
    have hpos := hbegins.length_pos
    obtain ⟨fuel, rfl⟩ : ∃ more, fuel = more + 1 :=
      ⟨fuel - 1, by rw [unaryLevel] at hfuel; omega⟩
    rw [expression_unary hbegins (Nat.lt_succ_self _)]
    exact h fuel rest (hrest.mono (Nat.le_succ _)) (by omega)
  · exact (h.operand hbegins hlevel hunary).readsAt (hbegins.mono (Nat.le_succ _)) hlevel

/-- An expression of a level is one of every level below. -/
theorem ReadsAt.lower (h : ReadsAt setting level ts e) (hbegins : Begins level ts)
    (hlevel : level ≤ pathLevel) {lower : Nat} (hle : lower ≤ level) :
    ReadsAt setting lower ts e := by
  obtain ⟨depth, rfl⟩ := Nat.exists_eq_add_of_le hle
  clear hle
  induction depth with
  | zero => exact h
  | succ depth ih =>
      have hnext : ReadsAt setting (lower + depth) ts e := ReadsAt.succ h hbegins (by omega)
      exact ih hnext (hbegins.mono (Nat.le_succ _)) (by omega)

/-- Two operands with an operator between them are an operand themselves: operators group to the
left. -/
theorem ReadsOperand.binary {operator : BinaryOperator} {left right : Expr} {more : List Token}
    (hleft : ReadsOperand setting operator.level ts left)
    (hright : ReadsAt setting (operator.level + 1) more right) :
    ReadsOperand setting operator.level (ts ++ operator.token :: more)
      (.binary operator left right) := by
  intro fuel rest hrest hfuel
  have hlevel : operator.level < 8 := operator.level_lt.1
  rw [List.length_append, List.length_cons] at hfuel
  obtain ⟨lasting, hlasting, hread⟩ := hleft fuel (operator.token :: (more ++ rest))
    (.operator operator (Nat.lt_succ_self _)) (by omega)
  obtain ⟨lasting, rfl⟩ : ∃ fewer, lasting = fewer + 1 := ⟨lasting - 1, by omega⟩
  refine ⟨lasting, by simp; omega, ?_⟩
  rw [List.append_assoc, List.cons_append, hread, operands_operator,
    hright lasting rest hrest (by omega)]
  rfl

/-! ## Primary expressions and their predicates -/

/-- The tokens are read as a primary expression, whatever follows. -/
def ReadsPrimary (setting : Setting) (ts : List Token) (e : Expr) : Prop :=
  ∀ fuel rest, 16 * ts.length ≤ fuel + 10 →
    startsPrimary (ts ++ rest) = true ∧ primary setting fuel (ts ++ rest) = .ok (e, rest)

/-- The tokens are read as a primary expression with predicates. -/
def ReadsHead (setting : Setting) (ts : List Token) (e : Expr) : Prop :=
  ∀ fuel rest, rest.head? ≠ some .openBracket → 16 * ts.length ≤ fuel + 10 →
    startsPrimary (ts ++ rest) = true ∧ ∃ operand predicates filtered,
      primary setting fuel (ts ++ rest) = .ok (operand, filtered) ∧
      predicateList setting fuel filtered = .ok (predicates, rest) ∧
      (if predicates.isEmpty then operand else .filter operand predicates) = e

/-- Parentheses make a primary expression of any. -/
theorem ReadsAt.enclosed (h : ReadsAt setting 0 ts e) :
    ReadsPrimary setting (enclosed false ts) e := by
  intro fuel rest hfuel
  refine ⟨rfl, ?_⟩
  simp only [XPath.enclosed, Bool.false_eq_true, if_false, List.length_cons, List.length_append,
    List.length_nil] at hfuel
  obtain ⟨fuel, rfl⟩ : ∃ more, fuel = more + 1 := ⟨fuel - 1, by omega⟩
  have hread := h fuel (.closeParen :: rest) (.close (by decide)) (by omega)
  simp [XPath.enclosed, primary, hread, expect, bind, Except.bind]

theorem ReadsPrimary.head (h : ReadsPrimary setting ts e) (hne : ts ≠ []) :
    ReadsHead setting ts e := by
  intro fuel rest hrest hfuel
  have hpos := List.length_pos_of_ne_nil hne
  obtain ⟨hstarts, hread⟩ := h fuel rest hfuel
  obtain ⟨fuel, rfl⟩ : ∃ more, fuel = more + 1 := ⟨fuel - 1, by omega⟩
  exact ⟨hstarts, e, [], rest, hread, predicateList_of_end hrest, rfl⟩

/-- A primary expression with predicates, and no steps after it. -/
theorem ReadsHead.readsAt (h : ReadsHead setting ts e) (hne : ts ≠ []) :
    ReadsAt setting pathLevel ts e := by
  intro fuel rest hrest hfuel
  have hpos := List.length_pos_of_ne_nil hne
  rw [pathLevel] at hfuel
  obtain ⟨fuel, rfl⟩ : ∃ more, fuel = more + 2 := ⟨fuel - 2, by omega⟩
  have hends := hrest.ends.1
  simp only [List.mem_cons, List.not_mem_nil, or_false, not_or] at hends
  obtain ⟨hbracket, -, hslash, hdouble⟩ := hends
  obtain ⟨hstarts, operand, predicates, filtered, hprimary, hpredicates, rfl⟩ :=
    h fuel rest hbracket (by omega)
  rw [expression_path, path.eq_def]
  refine (if_pos hstarts).trans ?_
  rw [hprimary]
  simp only [bind, Except.bind, hpredicates]
  split
  · exact absurd rfl hslash
  · exact absurd rfl hdouble
  · rfl

/-- A primary expression with predicates, and steps from the nodes that it selects. -/
theorem ReadsHead.path {more rest : List Token} {steps : List Step} {fuel : Nat}
    (h : ReadsHead setting ts e) (hfuel : 16 * ts.length ≤ fuel + 10)
    (hsteps : relative setting fuel more = .ok (steps, rest)) :
    path setting (fuel + 1) (ts ++ .slash :: more) = .ok (.path (.nodes e) steps, rest) := by
  obtain ⟨hstarts, operand, predicates, filtered, hprimary, hpredicates, rfl⟩ :=
    h fuel (.slash :: more) (by simp) hfuel
  rw [path.eq_def]
  refine (if_pos hstarts).trans ?_
  rw [hprimary]
  simp only [bind, Except.bind, hpredicates, hsteps]

end Schematron.XPath.Parser
