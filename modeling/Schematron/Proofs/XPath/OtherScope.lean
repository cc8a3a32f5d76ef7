import Schematron.Proofs.Outcome
import Schematron.XPath.Query

/-!
# Expressions in different scopes

The variables that are known where an expression is read decide whether it is accepted, and
nothing else: read where other variables are known, but prefixes stand for the same namespaces, a
text gives the same expression if it is accepted again (`Expr.parse_agree`).
-/

namespace Schematron.XPath

namespace Parser

/-- Both readers read the same text, and prefixes stand for the same namespaces in both. -/
structure Setting.SameText (one other : Setting) : Prop where
  source : one.source = other.source
  namespaces : one.names.namespaces = other.names.namespaces

/-- As far as the fuel goes, what both readers accept they read alike. -/
structure Alike [Regex.Engine] (one other : Setting) (fuel : Nat) : Prop where
  expression : ∀ level ts, Agree (expression one fuel level ts) (expression other fuel level ts)
  operands : ∀ level left ts,
    Agree (operands one fuel level left ts) (operands other fuel level left ts)
  path : ∀ ts, Agree (path one fuel ts) (path other fuel ts)
  relative : ∀ ts, Agree (relative one fuel ts) (relative other fuel ts)
  step : ∀ ts, Agree (step one fuel ts) (step other fuel ts)
  predicateList : ∀ ts, Agree (predicateList one fuel ts) (predicateList other fuel ts)
  primary : ∀ ts, Agree (primary one fuel ts) (primary other fuel ts)
  argumentList : ∀ ts, Agree (argumentList one fuel ts) (argumentList other fuel ts)
  moreArguments : ∀ ts, Agree (moreArguments one fuel ts) (moreArguments other fuel ts)

variable {one other : Setting} {fuel : Nat}

/-! ## Parts without variables -/

theorem expect_agree (h : one.SameText other) (wanted : Token) (ts : List Token) :
    Agree (expect one wanted ts) (expect other wanted ts) := by
  unfold expect Setting.fail
  rw [h.source]
  exact .refl _

theorem nameTest_sameText (h : one.SameText other) (name : String) :
    nameTest one name = nameTest other name := by
  unfold nameTest StaticContext.namespaceOf
  rw [h.namespaces]

theorem nodeTest_agree (h : one.SameText other) (ts : List Token) :
    Agree (nodeTest one ts) (nodeTest other ts) := by
  unfold nodeTest Setting.fail
  rw [h.source]
  split
  · exact .refl _
  · split
    · exact (expect_agree h _ _).bind fun _ => .refl _
    · exact .refl _
  · rw [nameTest_sameText h]
    exact .refl _
  · exact .refl _

theorem stepAxis_agree (h : one.SameText other) (ts : List Token) :
    Agree (stepAxis one ts) (stepAxis other ts) := by
  unfold stepAxis Setting.fail
  rw [h.source]
  exact .refl _

/-! ## Readers -/

variable [Regex.Engine]

theorem alike_zero : Alike one other 0 where
  expression _ _ := nofun
  operands _ _ _ := nofun
  path _ := nofun
  relative _ := nofun
  step _ := nofun
  predicateList _ := nofun
  primary _ := nofun
  argumentList _ := nofun
  moreArguments _ := nofun

namespace Alike

theorem expression_succ (ih : Alike one other fuel) (level : Nat) (ts : List Token) :
    Agree (Parser.expression one (fuel + 1) level ts)
      (Parser.expression other (fuel + 1) level ts) := by
  unfold Parser.expression
  split
  · exact ih.path ts
  · split
    · split
      · exact (ih.expression _ _).bind fun _ => .refl _
      · exact ih.expression _ _
    · exact (ih.expression _ _).bind fun _ => ih.operands _ _ _

theorem operands_succ (ih : Alike one other fuel) (level : Nat) (left : Expr) (ts : List Token) :
    Agree (Parser.operands one (fuel + 1) level left ts)
      (Parser.operands other (fuel + 1) level left ts) := by
  cases ts with
  | nil => exact .refl _
  | cons t ts =>
      unfold Parser.operands
      split
      · exact (ih.expression _ _).bind fun _ => ih.operands _ _ _
      · exact .refl _

theorem path_succ (ih : Alike one other fuel) (ts : List Token) :
    Agree (Parser.path one (fuel + 1) ts) (Parser.path other (fuel + 1) ts) := by
  unfold Parser.path
  split
  · refine (ih.primary ts).bind fun _ => (ih.predicateList _).bind fun _ => ?_
    dsimp only
    split
    · exact (ih.relative _).bind fun _ => .refl _
    · exact (ih.relative _).bind fun _ => .refl _
    · exact .refl _
  · split
    · split
      · exact (ih.relative _).bind fun _ => .refl _
      · exact .refl _
    · exact (ih.relative _).bind fun _ => .refl _
    · exact (ih.relative _).bind fun _ => .refl _

theorem relative_succ (ih : Alike one other fuel) (ts : List Token) :
    Agree (Parser.relative one (fuel + 1) ts) (Parser.relative other (fuel + 1) ts) := by
  unfold Parser.relative
  refine (ih.step ts).bind fun _ => ?_
  dsimp only
  split
  · exact (ih.relative _).bind fun _ => .refl _
  · exact (ih.relative _).bind fun _ => .refl _
  · exact .refl _

theorem step_succ (h : one.SameText other) (ih : Alike one other fuel) (ts : List Token) :
    Agree (Parser.step one (fuel + 1) ts) (Parser.step other (fuel + 1) ts) := by
  unfold Parser.step
  split
  · exact .refl _
  · exact .refl _
  · exact (stepAxis_agree h _).bind fun _ => (nodeTest_agree h _).bind fun _ =>
      (ih.predicateList _).bind fun _ => .refl _

theorem predicateList_succ (h : one.SameText other) (ih : Alike one other fuel)
    (ts : List Token) :
    Agree (Parser.predicateList one (fuel + 1) ts) (Parser.predicateList other (fuel + 1) ts) := by
  unfold Parser.predicateList
  split
  · exact (ih.expression _ _).bind fun _ => (expect_agree h _ _).bind fun _ =>
      (ih.predicateList _).bind fun _ => .refl _
  · exact .refl _

/-- Here a variable is looked up: a reader that does not know it has no result. -/
theorem primary_succ (h : one.SameText other) (ih : Alike one other fuel) (ts : List Token) :
    Agree (Parser.primary one (fuel + 1) ts) (Parser.primary other (fuel + 1) ts) := by
  unfold Parser.primary
  split
  · exact .refl _
  · exact .refl _
  · split
    · split
      · exact .refl _
      · exact nofun
    · exact nofun
  · exact (ih.expression _ _).bind fun _ => (expect_agree h _ _).bind fun _ => .refl _
  · exact (Agree.refl _).bind fun _ => (expect_agree h _ _).bind fun _ =>
      (ih.argumentList _).bind fun _ => .refl _
  · exact nofun

theorem argumentList_succ (ih : Alike one other fuel) (ts : List Token) :
    Agree (Parser.argumentList one (fuel + 1) ts) (Parser.argumentList other (fuel + 1) ts) := by
  unfold Parser.argumentList
  split
  · exact .refl _
  · exact ih.moreArguments _

theorem moreArguments_succ (h : one.SameText other) (ih : Alike one other fuel)
    (ts : List Token) :
    Agree (Parser.moreArguments one (fuel + 1) ts) (Parser.moreArguments other (fuel + 1) ts) := by
  unfold Parser.moreArguments
  refine (ih.expression _ _).bind fun _ => ?_
  dsimp only
  split
  · exact .refl _
  · exact (expect_agree h _ _).bind fun _ => (ih.moreArguments _).bind fun _ => .refl _

end Alike

theorem alike (h : one.SameText other) (fuel : Nat) : Alike one other fuel := by
  induction fuel with
  | zero => exact alike_zero
  | succ fuel ih =>
      exact ⟨ih.expression_succ, ih.operands_succ, ih.path_succ, ih.relative_succ, ih.step_succ h,
        ih.predicateList_succ h, ih.primary_succ h, ih.argumentList_succ, ih.moreArguments_succ h⟩

end Parser

section

variable {names other : StaticContext} (h : names.namespaces = other.namespaces)

include h

variable [Regex.Engine]

/-- A text that is accepted in two scopes is read alike in both. -/
theorem Expr.parse_agree (source : String) :
    Agree (Expr.parse names source) (Expr.parse other source) := by
  have hsame : Parser.Setting.SameText ⟨source, names⟩ ⟨source, other⟩ := ⟨rfl, h⟩
  rw [Expr.parse, Expr.parse]
  dsimp only
  split
  · exact nofun
  · exact nofun
  · exact ((Parser.alike hsame _).expression _ _).bind fun _ => .refl _

theorem Query.compile_agree (source : String) :
    Agree (Query.compile names source) (Query.compile other source) :=
  (Expr.parse_agree h source).bind fun _ => .refl _

theorem Query.compilePattern_agree (source : String) :
    Agree (Query.compilePattern names source) (Query.compilePattern other source) :=
  (Expr.parse_agree h source).bind fun _ => .refl _

end

end Schematron.XPath
