import Schematron.Proofs.Schema.StageRun
import Schematron.Schema.Skeleton

/-!
# Acceptable elements of rules

What the elements of a rule need so that they are compiled: the attributes that have to be there,
and expressions that compile in the scope they stand in (`Setting.Acceptable`). Such an element is
compiled whatever warnings there are already, and any other ends the compilation
(`compileLet_decides`, `Setting.compileAssertion_decides`).
-/

namespace Schematron.Schema

namespace Decides

variable {α β : Type} {P : α → Prop} {Q : β → Prop}

theorem warnIf (reason : Bool) (message : String) :
    Decides (StageRun.warnIf reason message) True fun _ => True := by
  cases reason with
  | false => exact pure trivial
  | true => exact warn message

/-- Steps for each element of a list need what each of them does. -/
theorem mapM {f : α → StageRun β} {good : α → Prop} {xs : List α}
    (h : ∀ x ∈ xs, Decides (f x) (good x) fun _ => True) :
    Decides (xs.mapM f) (∀ x ∈ xs, good x) fun _ => True := by
  induction xs with
  | nil => exact (pure trivial).congr (by simp) fun _ h => h
  | cons x xs ih =>
      have hrest := ih fun y hy => h y (List.mem_cons_of_mem _ hy)
      rw [List.mapM_cons, List.forall_mem_cons]
      refine (h x List.mem_cons_self).bind fun y _ => ?_
      exact (hrest.bind fun ys _ => pure trivial).congr (by rw [and_true]) fun _ h => h

/-- A part that has to be there for the rest. -/
theorem require_bind {message : String} {x : Option α} {f : α → StageRun β} {needs : α → Prop}
    (hf : ∀ a, x = some a → Decides (f a) (needs a) Q) :
    Decides (Skeleton.require message x >>= f) (∃ a, x = some a ∧ needs a) Q := by
  cases x with
  | none =>
      have hnone : ¬ ∃ a, none = some a ∧ needs a := nofun
      exact (throw hnone : Decides (MonadExcept.throw (.diagnostic _) : StageRun β) _ Q)
  | some a => exact (hf a rfl).congr (by simp) fun _ h => h

end Decides

namespace Skeleton

open Xml (Declaration Name Tree)
open XPath (Query StaticContext)

/-! ## Expressions and messages -/

variable [Regex.Engine]

/-- The expression compiles in the scope. -/
def Compiles (names : StaticContext) (source : String) : Prop :=
  ∃ query, Query.compile names source = .ok query

theorem compiled_decides (what : String) (names : StaticContext) (source : String) :
    Decides (compiled what (Query.compile names source)) (Compiles names source)
      fun _ => True := by
  cases hquery : Query.compile names source with
  | ok query => exact (Decides.pure trivial).congr (by simp [Compiles, hquery]) fun _ h => h
  | error fault => exact .throw (by simp [Compiles, hquery])

mutual

/-- The expressions in a child of a message compile, and a `value-of` has one. -/
def AcceptablePart (names : StaticContext) : Tree → Prop
  | .element name declarations attributes children =>
    let tree := Tree.element name declarations attributes children
    match tree.schemaName? with
    | some "value-of" => ∃ select, tree.setting? "select" = some select ∧ Compiles names select
    | some "name" => ∀ path, tree.setting? "path" = some path → Compiles names path
    | _ => AcceptableMessage names children
  | _ => True

/-- The expressions in the children of a message compile. -/
def AcceptableMessage (names : StaticContext) : List Tree → Prop
  | [] => True
  | tree :: rest => AcceptablePart names tree ∧ AcceptableMessage names rest

end

mutual

theorem messageParts_decides (names : StaticContext) :
    (tree : Tree) → Decides (messageParts names tree) (AcceptablePart names tree) fun _ => True
  | .text value => .pure trivial
  | .comment value => .pure trivial
  | .element name declarations attributes children => by
      rw [messageParts, AcceptablePart]
      generalize (Tree.element name declarations attributes children).schemaName? = found
      rcases eq_or_ne found (some "value-of") with rfl | hvalueOf
      · refine .require_bind fun select _ => ?_
        exact ((compiled_decides _ names select).bind fun _ _ => .pure trivial).congr
          (by rw [and_true]) fun _ h => h
      rcases eq_or_ne found (some "name") with rfl | hname
      · cases (Tree.element name declarations attributes children).setting? "path" with
        | none => exact (Decides.pure trivial).congr (by simp) fun _ h => h
        | some path =>
            exact ((compiled_decides _ names path).bind fun _ _ => .pure trivial).congr
              (by simp) fun _ h => h
      -- Neither name is left, so both matches are at their last alternative.
      · simp only
        exact messagePartsOfAll_decides names children

/-- A message is compiled if its expressions are. -/
theorem messagePartsOfAll_decides (names : StaticContext) : (trees : List Tree) →
    Decides (messagePartsOfAll names trees) (AcceptableMessage names trees) fun _ => True
  | [] => .pure trivial
  | tree :: rest => by
      rw [messagePartsOfAll, AcceptableMessage]
      refine (messageParts_decides names tree).bind fun _ _ => ?_
      exact ((messagePartsOfAll_decides names rest).bind fun _ _ => .pure trivial).congr
        (by rw [and_true]) fun _ h => h

end

theorem compileMessage_decides (names : StaticContext) (tree : Tree) :
    Decides (compileMessage names tree) (AcceptableMessage names tree.children) fun _ => True :=
  ((messagePartsOfAll_decides names tree.children).bind fun _ _ => .pure trivial).congr
    (by rw [and_true]) fun _ h => h

/-! ## Variables and assertions -/

/-- The variable has a name, and its value compiles if it is an expression. -/
def AcceptableLet (names : StaticContext) (tree : Tree) : Prop :=
  (∃ name, tree.setting? "name" = some name) ∧
    ∀ source, tree.attribute? "value" = some source → Compiles names source

/-- A compiled variable has the name that is written. -/
theorem compileLet_decides (names : StaticContext) (tree : Tree) :
    Decides (compileLet names tree) (AcceptableLet names tree)
      fun v => tree.setting? "name" = some v.name := by
  rw [compileLet, AcceptableLet, ← exists_and_right]
  refine .require_bind fun name hname => ?_
  have hbound (value : LetValue) : Decides (pure ⟨name, value⟩ : StageRun Variable) True
      fun v => tree.setting? "name" = some v.name := .pure hname
  cases tree.attribute? "value" with
  | none =>
      refine (hbound _).congr ?_ fun _ h => h
      simp
  | some source =>
      refine ((compiled_decides _ names source).bind fun _ _ => hbound _).congr ?_ fun _ h => h
      simp

namespace Setting

variable (setting : Setting)

/-- The assertion has a test that compiles, and so do the expressions in its message and in those
of the diagnostics that it refers to. -/
structure AcceptableAssertion (names : StaticContext) (tree : Tree) : Prop where
  test : ∃ source, tree.setting? "test" = some source ∧ Compiles names source
  message : AcceptableMessage names tree.children
  diagnostics : ∀ word ∈ Text.words ((tree.attribute? "diagnostics").getD "").toList,
    ∀ diagnostic, setting.diagnostics.lookup (String.ofList word) = some diagnostic →
      AcceptableMessage names diagnostic.children

theorem compileDiagnostics_decides (body : RuleBody) (label : String) (tree : Tree) :
    Decides (setting.compileDiagnostics body label tree)
      (∀ word ∈ Text.words ((tree.attribute? "diagnostics").getD "").toList,
        ∀ diagnostic, setting.diagnostics.lookup (String.ofList word) = some diagnostic →
          AcceptableMessage body.names diagnostic.children)
      fun _ => True := by
  rw [compileDiagnostics]
  refine Decides.congr (Decides.bind (Decides.mapM fun word _ => ?_) fun _ _ => .pure trivial)
    (by rw [and_true]) fun _ h => h
  dsimp only
  cases hfound : setting.diagnostics.lookup (String.ofList word) with
  | none =>
      exact ((Decides.warn _).bind fun _ _ => .pure trivial).congr (by simp) fun _ h => h
  | some diagnostic =>
      exact ((compileMessage_decides body.names diagnostic).bind fun _ _ => .pure trivial).congr
        (by simp) fun _ h => h

theorem compileAssertion_decides (kind : AssertionKind) (body : RuleBody) (tree : Tree) :
    Decides (setting.compileAssertion kind body tree)
      (setting.AcceptableAssertion body.names tree) fun _ => True := by
  have hreplaced (label : String) (channel : Channel) (flag : Option String) :
      Decides (warnOfReplacedFlag label channel flag) True fun _ => True := by
    cases flag with
    | none => exact .pure trivial
    | some flag => exact .warnIf _ _
  rw [compileAssertion]
  refine Decides.congr (Decides.require_bind fun source _ =>
    (compiled_decides _ body.names source).bind fun test _ =>
      (hreplaced _ _ _).bind fun _ _ => (compileMessage_decides body.names tree).bind fun _ _ =>
        (Decides.warnIf _ _).bind fun _ _ =>
          (setting.compileDiagnostics_decides body _ tree).bind fun _ _ => .pure trivial)
    ?_ fun _ h => h
  constructor
  · rintro ⟨source, hsource, hcompiles, -, hmessage, -, hdiagnostics, -⟩
    exact ⟨⟨source, hsource, hcompiles⟩, hmessage, hdiagnostics⟩
  · rintro ⟨⟨source, hsource, hcompiles⟩, hmessage, hdiagnostics⟩
    exact ⟨source, hsource, hcompiles, trivial, hmessage, trivial, hdiagnostics, trivial⟩

/-- The element of a rule has the attributes that it needs, and its expressions compile. -/
def Acceptable (names : StaticContext) (tree : Tree) : Prop :=
  match tree.schemaName? with
  | some "let" => AcceptableLet names tree
  | some "assert" | some "report" => setting.AcceptableAssertion names tree
  | some "extends" => ∃ id, tree.setting? "rule" = some id
  | _ => True

end Setting

end Skeleton

end Schematron.Schema
