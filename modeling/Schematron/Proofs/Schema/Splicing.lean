import Schematron.Proofs.Schema.Scope

/-!
# The order of a rule

A compiled rule keeps its variables and its assertions apart. Here the order is given back that
they have in the schema, where an abstract rule stands in the place of each `extends`.

* `Splices` — the elements of a rule that count, with those of the abstract rules it extends;
* `InOrder` — variables and assertions that these elements are compiled to, each in the scope of
  what stands before it;
* `compileRule_items` — a compiled rule consists of such items.
-/

namespace Schematron.Schema.Skeleton

open Xml (Tree)
open XPath (StaticContext)

/-! ## Spliced elements -/

/-- The names of the elements that add to a rule. -/
def itemNames : List String := ["let", "assert", "report"]

/-- The variables and assertions among the children of a rule, those of the abstract rules that it
extends in their places. -/
inductive Splices (rules : List (String × Tree)) : List Tree → List Tree → Prop
  | nil : Splices rules [] []
  | kept {child rest elements name} : child.schemaName? = some name → name ∈ itemNames →
      Splices rules rest elements → Splices rules (child :: rest) (child :: elements)
  | extended {child rest id target inner elements} : child.schemaName? = some "extends" →
      child.setting? "rule" = some id → rules.lookup id = some target →
      Splices rules target.children inner → Splices rules rest elements →
      Splices rules (child :: rest) (inner ++ elements)
  | skipped {child rest elements} :
      (∀ name, child.schemaName? = some name → name ∉ "extends" :: itemNames) →
      Splices rules rest elements → Splices rules (child :: rest) elements

/-! ## Items -/

/-- A part of a compiled rule. -/
inductive RuleItem where
  | binding (v : Variable)
  | assertion (assertion : Assertion)

namespace RuleItem

/-- The variables among the items. -/
def lets (items : List RuleItem) : List Variable :=
  items.filterMap fun
    | .binding v => some v
    | .assertion _ => none

/-- The assertions among the items. -/
def assertions (items : List RuleItem) : List Assertion :=
  items.filterMap fun
    | .binding _ => none
    | .assertion a => some a

variable {v : Variable} {a : Assertion} {items more : List RuleItem}

@[simp] theorem lets_nil : lets [] = [] := rfl

@[simp] theorem lets_binding : lets (.binding v :: items) = v :: lets items := rfl

@[simp] theorem lets_assertion : lets (.assertion a :: items) = lets items := rfl

theorem lets_append : lets (items ++ more) = lets items ++ lets more := List.filterMap_append

@[simp] theorem assertions_nil : assertions [] = [] := rfl

@[simp] theorem assertions_binding : assertions (.binding v :: items) = assertions items := rfl

@[simp] theorem assertions_assertion :
    assertions (.assertion a :: items) = a :: assertions items := rfl

theorem mem_assertions : a ∈ assertions items ↔ .assertion a ∈ items := by
  induction items with
  | nil => simp
  | cons item items ih => cases item <;> simp [ih]

end RuleItem

namespace RuleBody

/-- The rule with one item more; a variable is known from then on. -/
def addItem (body : RuleBody) : RuleItem → RuleBody
  | .binding v =>
    { body with names := body.names.withVariable v.name, lets := body.lets ++ [v] }
  | .assertion a => { body with assertions := body.assertions ++ [a] }

/-- The rule with more items. -/
def addItems (body : RuleBody) (items : List RuleItem) : RuleBody := items.foldl addItem body

@[simp] theorem addItems_nil (body : RuleBody) : body.addItems [] = body := rfl

@[simp] theorem addItems_cons (body : RuleBody) (item : RuleItem) (items : List RuleItem) :
    body.addItems (item :: items) = (body.addItem item).addItems items := rfl

theorem addItems_append (body : RuleBody) (items more : List RuleItem) :
    body.addItems (items ++ more) = (body.addItems items).addItems more :=
  List.foldl_append

@[simp] theorem lets_addItems (body : RuleBody) (items : List RuleItem) :
    (body.addItems items).lets = body.lets ++ RuleItem.lets items := by
  induction items generalizing body with
  | nil => simp
  | cons item items ih =>
      rw [addItems_cons, ih]
      cases item <;> simp [addItem]

@[simp] theorem assertions_addItems (body : RuleBody) (items : List RuleItem) :
    (body.addItems items).assertions = body.assertions ++ RuleItem.assertions items := by
  induction items generalizing body with
  | nil => simp
  | cons item items ih =>
      rw [addItems_cons, ih]
      cases item <;> simp [addItem]

/-- What is known after some items are their variables. -/
theorem variableNames_addItems (body : RuleBody) (items : List RuleItem) :
    (body.addItems items).names.variableNames =
      namesAfter body.names.variableNames (RuleItem.lets items) := by
  induction items generalizing body with
  | nil => simp [namesAfter]
  | cons item items ih =>
      rw [addItems_cons, ih]
      cases item with
      | binding v => simp [addItem, namesAfter, StaticContext.withVariable]
      | assertion a => simp [addItem]

end RuleBody

/-! ## Items in their order -/

variable [Regex.Engine]

/-- The elements are compiled to the items, each of them into a rule that has the items before
it. -/
inductive InOrder (setting : Setting) : RuleBody → List Tree → List RuleItem → Prop
  | nil {body} : InOrder setting body [] []
  | binding {body tree v rest items} (sink sink' : Sink) : tree.schemaName? = some "let" →
      (compileLet body.names tree).run sink = .ok (v, sink') →
      InOrder setting (body.addItem (.binding v)) rest items →
      InOrder setting body (tree :: rest) (.binding v :: items)
  | assertion {body tree a rest items} (kind : AssertionKind) (sink sink' : Sink) :
      tree.schemaName? = some kind.schemaElement →
      (setting.compileAssertion kind body tree).run sink = .ok (a, sink') →
      InOrder setting (body.addItem (.assertion a)) rest items →
      InOrder setting body (tree :: rest) (.assertion a :: items)

namespace InOrder

variable {setting : Setting} {body : RuleBody}

theorem append {elements more : List Tree} {items others : List RuleItem}
    (h : InOrder setting body elements items)
    (hmore : InOrder setting (body.addItems items) more others) :
    InOrder setting body (elements ++ more) (items ++ others) := by
  induction h with
  | nil => exact hmore
  | binding sink sink' hname hrun _ ih => exact .binding sink sink' hname hrun (ih hmore)
  | assertion kind sink sink' hname hrun _ ih =>
      exact .assertion kind sink sink' hname hrun (ih hmore)

/-- The items after some are compiled into the rule that has these. -/
theorem drop {elements : List Tree} {before after : List RuleItem}
    (h : InOrder setting body elements (before ++ after)) :
    ∃ rest, InOrder setting (body.addItems before) rest after := by
  induction before generalizing body elements with
  | nil => exact ⟨elements, h⟩
  | cons item before ih =>
      cases h with
      | binding _ _ _ _ hrest => exact ih hrest
      | assertion _ _ _ _ _ hrest => exact ih hrest

/-- An assertion is checked against the names of the variables before it. -/
theorem checked {elements : List Tree} {before after : List RuleItem} {a : Assertion}
    (h : InOrder setting body elements (before ++ .assertion a :: after)) :
    a.Checked (namesAfter body.names.variableNames (RuleItem.lets before)) := by
  obtain ⟨rest, hrest⟩ := h.drop
  rw [← RuleBody.variableNames_addItems]
  cases hrest with
  | assertion _ _ _ _ hrun _ => exact setting.compileAssertion_yields _ _ _ _ _ _ hrun

end InOrder

/-! ## Compiled rules -/

/-- What children of a rule make of it: they splice into elements, and the items that these are
compiled to are added. -/
def Contributes (setting : Setting) (children : List Tree) (body result : RuleBody) : Prop :=
  ∃ elements items, Splices setting.abstractRules children elements ∧
    InOrder setting body elements items ∧ result = body.addItems items

namespace Contributes

variable {setting : Setting} {body middle result : RuleBody} {child : Tree} {rest : List Tree}

theorem nil : Contributes setting [] body body := ⟨[], [], .nil, .nil, rfl⟩

theorem kept {name : String} {item : RuleItem} (hname : child.schemaName? = some name)
    (hitem : name ∈ itemNames) (hfirst : InOrder setting body [child] [item])
    (hrest : Contributes setting rest (body.addItem item) result) :
    Contributes setting (child :: rest) body result := by
  obtain ⟨elements, items, hsplices, horder, rfl⟩ := hrest
  exact ⟨child :: elements, item :: items, .kept hname hitem hsplices, hfirst.append horder, rfl⟩

theorem extended {id : String} {target : Tree} (hname : child.schemaName? = some "extends")
    (hid : child.setting? "rule" = some id) (htarget : setting.abstractRules.lookup id = some target)
    (hinner : Contributes setting target.children body middle)
    (hrest : Contributes setting rest middle result) :
    Contributes setting (child :: rest) body result := by
  obtain ⟨inner, first, hsplices, horder, rfl⟩ := hinner
  obtain ⟨elements, items, hsplicesRest, horderRest, rfl⟩ := hrest
  exact ⟨inner ++ elements, first ++ items, .extended hname hid htarget hsplices hsplicesRest,
    horder.append horderRest, (body.addItems_append first items).symm⟩

theorem skipped
    (hname : ∀ name, child.schemaName? = some name → name ∉ "extends" :: itemNames)
    (hrest : Contributes setting rest body result) :
    Contributes setting (child :: rest) body result := by
  obtain ⟨elements, items, hsplices, horder, hresult⟩ := hrest
  exact ⟨elements, items, .skipped hname hsplices, horder, hresult⟩

end Contributes

omit [Regex.Engine] in
/-- A part that has to be there is there. -/
theorem require_yields {α : Type} (message : String) (x : Option α) :
    Yields (require message x) fun a => x = some a := by
  cases x with
  | none => exact .throw
  | some a => exact .pure rfl

namespace Setting

variable (setting : Setting)

/-- What is compiled in the place of an `extends` is the abstract rule that it names. -/
def SplicesWith (extend : String → RuleBody → StageRun RuleBody) : Prop :=
  ∀ id body, Yields (extend id body) fun result =>
    ∃ target, setting.abstractRules.lookup id = some target ∧
      Contributes setting target.children body result

/-- What an assertion contributes comes before what the children after it do. -/
theorem compileAssertion_contributes (kind : AssertionKind) (body : RuleBody) {child : Tree}
    (hname : child.schemaName? = some kind.schemaElement) :
    Yields (setting.compileAssertion kind body child >>= fun a =>
      pure { body with assertions := body.assertions ++ [a] }) fun middle => ∀ rest result,
        Contributes setting rest middle result → Contributes setting (child :: rest) body result := by
  refine (Yields.run _).bind fun a hrun => .pure fun rest result hrest => ?_
  obtain ⟨sink, sink', hrun⟩ := hrun
  have hitem : kind.schemaElement ∈ itemNames := by cases kind <;> decide
  exact .kept hname hitem (.assertion kind sink sink' hname hrun .nil) hrest

/-- What a child contributes comes before what the children after it do. -/
theorem compileChild_contributes {extend : String → RuleBody → StageRun RuleBody}
    (hextend : setting.SplicesWith extend) (body : RuleBody) (child : Tree) :
    Yields (setting.compileChild extend body child) fun middle => ∀ rest result,
      Contributes setting rest middle result → Contributes setting (child :: rest) body result := by
  rw [compileChild]
  dsimp only
  split
  next hname =>
    refine (Yields.run _).bind fun v hrun => .pure fun rest result hrest => ?_
    obtain ⟨sink, sink', hrun⟩ := hrun
    exact .kept hname (by decide) (.binding sink sink' hname hrun .nil) hrest
  next hname => exact setting.compileAssertion_contributes .assert body hname
  next hname => exact setting.compileAssertion_contributes .report body hname
  next hname =>
    refine (require_yields _ _).bind fun id hid => ?_
    intro sink middle sink' hrun rest result hrest
    obtain ⟨target, htarget, hinner⟩ := hextend id body sink middle sink' hrun
    exact .extended hname hid htarget hinner hrest
  -- nothing else adds to the rule
  next hname => exact .pure fun rest result => .skipped (by simp [hname, itemNames])
  next hname => exact .pure fun rest result => .skipped (by simp [hname, itemNames])
  next hname => exact .pure fun rest result => .skipped (by simp [hname])
  next other hlet hassert hreport hextends _ _ hname =>
    refine .then_ fun _ => .pure fun rest result => .skipped fun name hsome => ?_
    obtain rfl : other = name := Option.some.inj (hname.symm.trans hsome)
    simp [itemNames, show other ≠ "let" from hlet, show other ≠ "assert" from hassert,
      show other ≠ "report" from hreport, show other ≠ "extends" from hextends]

/-- Children contribute one after the other. -/
theorem foldlM_contributes {extend : String → RuleBody → StageRun RuleBody}
    (hextend : setting.SplicesWith extend) (children : List Tree) (body : RuleBody) :
    Yields (children.foldlM (setting.compileChild extend) body)
      (Contributes setting children body) := by
  induction children generalizing body with
  | nil => exact .pure .nil
  | cons child rest ih =>
      rw [List.foldlM_cons]
      refine (setting.compileChild_contributes hextend body child).bind fun middle hmiddle => ?_
      intro sink result sink' hrun
      exact hmiddle rest result (ih middle sink result sink' hrun)

/-- An abstract rule contributes its own children, and those it extends in turn in their
places. -/
theorem splicesWith_extend (depth : Nat) (chain : List String) :
    setting.SplicesWith (setting.extend depth chain) := by
  induction depth generalizing chain with
  | zero =>
      intro id body
      rw [extend]
      refine .then_ fun target => ?_
      split <;> exact .throw
  | succ depth ih =>
      intro id body
      rw [extend]
      refine (require_yields _ _).bind fun target htarget => ?_
      split
      · exact .throw
      -- a rule that the target extends in turn is met with one name more in the chain
      · intro sink result sink' hrun
        have hinner := setting.foldlM_contributes (ih (chain ++ [id])) target.children body
        exact ⟨target, htarget, hinner sink result sink' hrun⟩

/-- A rule before any of its content is compiled. -/
def startOf (names : StaticContext) (tree : Tree) : RuleBody :=
  { names, role := tree.setting? "role", flag := tree.setting? "flag" }

/-- A compiled rule consists of the items that its content is compiled to in order, the abstract
rules it extends being spliced in. -/
theorem compileRule_items (names : StaticContext) (pattern : String) (tree : Tree) :
    Yields (setting.compileRule names pattern tree) fun rule => ∃ elements items,
      Splices setting.abstractRules tree.children elements ∧
        InOrder setting (startOf names tree) elements items ∧
          rule.lets = RuleItem.lets items ∧ rule.assertions = RuleItem.assertions items := by
  refine .then_ fun source => .then_ fun context => ?_
  refine (setting.foldlM_contributes (setting.splicesWith_extend _ _) tree.children
    (startOf names tree)).bind fun body hbody => .pure ?_
  obtain ⟨elements, items, hsplices, horder, rfl⟩ := hbody
  exact ⟨elements, items, hsplices, horder, by simp [startOf], by simp [startOf]⟩

end Setting

end Schematron.Schema.Skeleton
