import Schematron.Proofs.Schema.TwoRuns
import Schematron.Proofs.XPath.OtherScope
import Schematron.Schema.Skeleton

/-!
# Compiling in different scopes

What a part of a schema is compiled to does not depend on the variables that are known at its
place, beyond that it is accepted there: compiled in two scopes in which prefixes stand for the
same namespaces, it gives the same result if it has one in both (`compileLet_relates`,
`compilePattern_relates`).
-/

namespace Schematron.Schema.Skeleton

open Xml (Tree)
open XPath (Query StaticContext)

variable {names other : StaticContext}

theorem require_relates {α : Type} (message : String) (x : Option α) :
    Relates Eq (require message x) (require message x) := by
  cases x with
  | some x => exact .pure rfl
  | none => exact .throw_left

theorem compiled_relates {x y : Except XPath.Fault Query} (h : Agree x y) (what : String) :
    Relates Eq (compiled what x) (compiled what y) := by
  cases hx : x with
  | error fault => exact .throw_left
  | ok query =>
      cases hy : y with
      | error fault => exact .throw_right
      | ok query' => exact .pure (h query query' hx hy)

/-! ## Variables and messages -/

variable [Regex.Engine]

theorem compileLet_relates (h : names.namespaces = other.namespaces) (tree : Tree) :
    Relates Eq (compileLet names tree) (compileLet other tree) := by
  rw [compileLet, compileLet]
  refine (require_relates _ _).bind fun name _ => ?_
  rintro rfl
  split
  · refine (compiled_relates (Query.compile_agree h _) _).bind fun query _ => ?_
    rintro rfl
    exact .pure rfl
  · exact .pure rfl

mutual

theorem messageParts_relates (h : names.namespaces = other.namespaces) :
    (tree : Tree) → Relates Eq (messageParts names tree) (messageParts other tree)
  | .text _ => .pure rfl
  | .comment _ => .pure rfl
  | .element name declarations attributes children => by
      rw [messageParts, messageParts]
      split
      · refine (require_relates _ _).bind fun select _ => ?_
        rintro rfl
        refine (compiled_relates (Query.compile_agree h _) _).bind fun query _ => ?_
        rintro rfl
        exact .pure rfl
      · split
        · refine (compiled_relates (Query.compile_agree h _) _).bind fun query _ => ?_
          rintro rfl
          exact .pure rfl
        · exact .pure rfl
      · exact messagePartsOfAll_relates h children

theorem messagePartsOfAll_relates (h : names.namespaces = other.namespaces) :
    (trees : List Tree) → Relates Eq (messagePartsOfAll names trees) (messagePartsOfAll other trees)
  | [] => .pure rfl
  | tree :: rest => by
      refine (messageParts_relates h tree).bind fun parts _ => ?_
      rintro rfl
      refine (messagePartsOfAll_relates h rest).bind fun others _ => ?_
      rintro rfl
      exact .pure rfl

end

theorem compileMessage_relates (h : names.namespaces = other.namespaces) (tree : Tree) :
    Relates Eq (compileMessage names tree) (compileMessage other tree) := by
  refine (messagePartsOfAll_relates h tree.children).bind fun parts _ => ?_
  rintro rfl
  exact .pure rfl

/-! ## Rules -/

/-- The bodies are the same but for the variables that are known. -/
structure RuleBody.SameContent (one two : RuleBody) : Prop where
  namespaces : one.names.namespaces = two.names.namespaces
  role : one.role = two.role
  flag : one.flag = two.flag
  lets : one.lets = two.lets
  assertions : one.assertions = two.assertions

namespace Setting

variable (setting : Setting)

theorem compileDiagnostics_relates {one two : RuleBody} (h : one.SameContent two) (label : String)
    (tree : Tree) :
    Relates Eq (setting.compileDiagnostics one label tree)
      (setting.compileDiagnostics two label tree) := by
  rw [compileDiagnostics, compileDiagnostics]
  refine (Relates.mapM (R := Eq) fun word _ => ?_).bind fun found found' hfound => ?_
  · dsimp only
    split
    · refine (compileMessage_relates h.namespaces _).bind fun message _ => ?_
      rintro rfl
      exact .pure rfl
    · exact .then_ fun _ _ => .pure rfl
  · obtain rfl := List.forall₂_eq_eq_eq ▸ hfound
    exact .pure rfl

theorem compileAssertion_relates {one two : RuleBody} (h : one.SameContent two)
    (kind : AssertionKind) (tree : Tree) :
    Relates Eq (setting.compileAssertion kind one tree)
      (setting.compileAssertion kind two tree) := by
  rw [compileAssertion, compileAssertion]
  dsimp only
  rw [h.role, h.flag]
  refine (require_relates _ _).bind fun source _ => ?_
  rintro rfl
  refine (compiled_relates (Query.compile_agree h.namespaces _) _).bind fun test _ => ?_
  rintro rfl
  refine .then_ fun _ _ => (compileMessage_relates h.namespaces tree).bind fun message _ => ?_
  rintro rfl
  refine .then_ fun _ _ => (setting.compileDiagnostics_relates h _ tree).bind fun found _ => ?_
  rintro rfl
  exact .pure rfl

/-- A child of a rule adds the same to bodies with the same content, if an abstract rule does. -/
theorem compileChild_relates {extend extend' : String → RuleBody → StageRun RuleBody}
    (hextend : ∀ id one two, one.SameContent two →
      Relates RuleBody.SameContent (extend id one) (extend' id two))
    {one two : RuleBody} (h : one.SameContent two) (child : Tree) :
    Relates RuleBody.SameContent (setting.compileChild extend one child)
      (setting.compileChild extend' two child) := by
  have hassertion (kind : AssertionKind) : Relates RuleBody.SameContent
      (setting.compileAssertion kind one child >>= fun assertion =>
        pure { one with assertions := one.assertions ++ [assertion] })
      (setting.compileAssertion kind two child >>= fun assertion =>
        pure { two with assertions := two.assertions ++ [assertion] }) := by
    refine (setting.compileAssertion_relates h kind child).bind fun assertion _ => ?_
    rintro rfl
    exact .pure { h with assertions := by rw [h.assertions] }
  rw [compileChild, compileChild]
  dsimp only
  split
  · refine (compileLet_relates h.namespaces child).bind fun v _ => ?_
    rintro rfl
    exact .pure { h with lets := by rw [h.lets] }
  · exact hassertion .assert
  · exact hassertion .report
  · refine (require_relates _ _).bind fun id _ => ?_
    rintro rfl
    exact hextend id one two h
  · exact .pure h
  · exact .pure h
  · exact .pure h
  · exact .then_ fun _ _ => .pure h

theorem extend_relates (depth : Nat) (chain : List String) (id : String) (one two : RuleBody)
    (h : one.SameContent two) :
    Relates RuleBody.SameContent (setting.extend depth chain id one)
      (setting.extend depth chain id two) := by
  induction depth generalizing chain id one two with
  | zero =>
      rw [extend, extend]
      refine .then_ fun _ _ => ?_
      split <;> exact .throw_left
  | succ depth ih =>
      rw [extend, extend]
      refine (require_relates _ _).bind fun target _ => ?_
      rintro rfl
      split
      · exact .throw_left
      · exact .foldlM (fun one two h child _ =>
          setting.compileChild_relates (fun id => ih (chain ++ [_]) id) h child) h

section

variable (h : names.namespaces = other.namespaces)

include h

theorem compileRule_relates (pattern : String) (tree : Tree) :
    Relates Eq (setting.compileRule names pattern tree)
      (setting.compileRule other pattern tree) := by
  rw [compileRule, compileRule]
  refine (require_relates _ _).bind fun source _ => ?_
  rintro rfl
  refine (compiled_relates (Query.compilePattern_agree h _) _).bind fun context _ => ?_
  rintro rfl
  have hstart : RuleBody.SameContent
      { names, role := tree.setting? "role", flag := tree.setting? "flag" }
      { names := other, role := tree.setting? "role", flag := tree.setting? "flag" } :=
    ⟨h, rfl, rfl, rfl, rfl⟩
  have hstep (one two : RuleBody) (hbody : one.SameContent two) (child : Tree)
      (_ : child ∈ tree.children) :=
    setting.compileChild_relates (setting.extend_relates setting.abstractRules.length [])
      hbody child
  refine (Relates.foldlM hstep hstart).bind fun one two hbody => .pure ?_
  rw [hbody.lets, hbody.assertions]

theorem compilePatternChild_relates (label : String) (rules : List Rule) (child : Tree) :
    Relates Eq (setting.compilePatternChild names label rules child)
      (setting.compilePatternChild other label rules child) := by
  rw [compilePatternChild, compilePatternChild]
  split
  · split
    · exact .pure rfl
    · refine (setting.compileRule_relates h label child).bind fun rule _ => ?_
      rintro rfl
      exact .then_ fun _ _ => .pure rfl
  · exact .pure rfl
  · exact .pure rfl
  · exact .pure rfl
  · exact .pure rfl
  · exact .pure rfl
  · exact .then_ fun _ _ => .pure rfl

theorem compilePattern_relates (tree : Tree) :
    Relates Eq (setting.compilePattern names tree) (setting.compilePattern other tree) := by
  rw [compilePattern, compilePattern]
  refine (Relates.foldlM (R := Eq) (fun rules _ hrules child _ => ?_) rfl).bind
    fun rules _ hrules => ?_
  · obtain rfl := hrules
    exact setting.compilePatternChild_relates h _ rules child
  · obtain rfl := hrules
    exact .then_ fun _ _ => .pure rfl

end

end Setting

end Schematron.Schema.Skeleton
