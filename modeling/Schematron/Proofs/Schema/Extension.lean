import Mathlib.Data.List.Perm.Subperm
import Mathlib.Logic.Relation
import Schematron.Proofs.Schema.Acceptable
import Schematron.Proofs.Schema.Splicing
import Schematron.Regex.Builtin

/-!
# Rules that extend abstract rules

The abstract rules of a schema make up a graph: a rule leads to those that its children extend
(`Extends`). From a concrete rule some of them are reached (`Reaches`). If these are all known and
none of them lies on a cycle, the rule is compiled, and otherwise a diagnostic ends the compilation
(`compileRule_extends`), given that nothing else is wrong with the elements that are met on the way
(`Met`).

The abstract rules that are open while a child is compiled are its chain. A chain holds an id at
most once, and only ids that are known, so it is not longer than there are abstract rules
(`Opened.length_le`). That is why the depth to which they are opened plays no part
(`extend_add`).
-/

namespace Schematron.Schema.Skeleton

open Relation (ReflTransGen TransGen)
open Xml (Tree)
open XPath (Query StaticContext)

/-! ## The graph of abstract rules -/

/-- One of the children extends the abstract rule of an id. -/
def Names (children : List Tree) (id : String) : Prop :=
  ∃ child ∈ children, child.schemaName? = some "extends" ∧ child.setting? "rule" = some id

/-- The abstract rule of the first id extends that of the second. -/
def Extends (rules : List (String × Tree)) (id other : String) : Prop :=
  ∃ target, rules.lookup id = some target ∧ Names target.children other

/-- From the children of a rule an `extends` is reached that names the id. -/
def Reaches (rules : List (String × Tree)) (children : List Tree) (id : String) : Prop :=
  ∃ first, Names children first ∧ ReflTransGen (Extends rules) first id

/-- An `extends` that names the id is reached from the children, and on the way to it the abstract
rules of a chain are opened, each inside the one before. -/
inductive Path (rules : List (String × Tree)) : List Tree → List String → String → Prop
  | here {children id} : Names children id → Path rules children [] id
  | behind {children first target chain id} : Names children first →
      rules.lookup first = some target → Path rules target.children chain id →
      Path rules children (first :: chain) id

/-- An element is met when the children of a rule are compiled inside a chain, after the elements
of the rule that stand before it: those of abstract rules are met as far as these are not open
already. -/
inductive Met (rules : List (String × Tree)) :
    List String → List Tree → List Tree → Tree → Prop
  | here {chain child rest} : Met rules chain (child :: rest) [] child
  | inside {chain child rest id target before element} : child.schemaName? = some "extends" →
      child.setting? "rule" = some id → rules.lookup id = some target → id ∉ chain →
      Met rules (chain ++ [id]) target.children before element →
      Met rules chain (child :: rest) before element
  | after {chain child rest inner before element} : Splices rules [child] inner →
      Met rules chain rest before element → Met rules chain (child :: rest) (inner ++ before) element

variable {rules : List (String × Tree)} {children rest : List Tree} {child target : Tree}
  {chain : List String} {id other : String}

theorem names_cons : Names (child :: rest) id ↔ Names [child] id ∨ Names rest id := by
  simp [Names]

theorem names_singleton :
    Names [child] id ↔ child.schemaName? = some "extends" ∧ child.setting? "rule" = some id := by
  simp [Names]

namespace Path

theorem cons_iff :
    Path rules (child :: rest) chain id ↔ Path rules [child] chain id ∨ Path rules rest chain id := by
  constructor
  · intro h
    cases h with
    | here hnames => exact (names_cons.mp hnames).imp .here .here
    | behind hnames htarget hpath =>
        exact (names_cons.mp hnames).imp (.behind · htarget hpath) (.behind · htarget hpath)
  · rintro (h | h)
    · cases h with
      | here hnames => exact .here (names_cons.mpr (.inl hnames))
      | behind hnames htarget hpath => exact .behind (names_cons.mpr (.inl hnames)) htarget hpath
    · cases h with
      | here hnames => exact .here (names_cons.mpr (.inr hnames))
      | behind hnames htarget hpath => exact .behind (names_cons.mpr (.inr hnames)) htarget hpath

/-- A path goes on to what its last rule extends. -/
theorem snoc (h : Path rules children chain id) (hextends : Extends rules id other) :
    Path rules children (chain ++ [id]) other := by
  induction h with
  | here hnames =>
      obtain ⟨target, htarget, hother⟩ := hextends
      exact .behind hnames htarget (.here hother)
  | behind hnames htarget _ ih => exact .behind hnames htarget (ih hextends)

theorem reaches (h : Path rules children chain id) : Reaches rules children id := by
  induction h with
  | here hnames => exact ⟨_, hnames, .refl⟩
  | behind hnames htarget _ ih =>
      obtain ⟨next, hnext, hreached⟩ := ih
      exact ⟨_, hnames, .head ⟨_, htarget, hnext⟩ hreached⟩

/-- Every rule that is open leads to the one at the end. -/
theorem leads (h : Path rules children chain id) (hother : other ∈ chain) :
    TransGen (Extends rules) other id := by
  induction h with
  | here => cases hother
  | behind _ htarget hpath ih =>
      rcases List.mem_cons.mp hother with rfl | hother
      · obtain ⟨next, hnext, hreached⟩ := hpath.reaches
        exact .head' ⟨_, htarget, hnext⟩ hreached
      · exact ih hother

end Path

theorem Reaches.exists_path (h : Reaches rules children id) :
    ∃ chain, Path rules children chain id := by
  obtain ⟨first, hnames, hreached⟩ := h
  induction hreached with
  | refl => exact ⟨[], .here hnames⟩
  | tail _ hextends ih =>
      obtain ⟨chain, hpath⟩ := ih
      exact ⟨_, hpath.snoc hextends⟩

/-- A path can be led around a cycle, and holds the rule that it ends with then. -/
theorem Path.exists_mem (h : Path rules children chain id)
    (hleads : TransGen (Extends rules) id other) :
    ∃ chain', Path rules children chain' other ∧ id ∈ chain' := by
  induction hleads with
  | single hextends => exact ⟨_, h.snoc hextends, List.mem_append_right _ List.mem_cons_self⟩
  | tail _ hextends ih =>
      obtain ⟨chain', hpath, hmem⟩ := ih
      exact ⟨_, hpath.snoc hextends, List.mem_append_left _ hmem⟩

/-! ## Rules that can be unfolded -/

/-- Inside a chain, every `extends` that is reached from the children names an abstract rule that
is known and not open already. -/
def Unfoldable (rules : List (String × Tree)) (chain : List String) (children : List Tree) : Prop :=
  ∀ chain' id, Path rules children chain' id →
    (∃ target, rules.lookup id = some target) ∧ id ∉ chain ++ chain'

theorem unfoldable_nil : Unfoldable rules chain [] := by
  intro chain' id hpath
  cases hpath with
  | here hnames => simp [Names] at hnames
  | behind hnames => simp [Names] at hnames

theorem unfoldable_cons :
    Unfoldable rules chain (child :: rest) ↔
      Unfoldable rules chain [child] ∧ Unfoldable rules chain rest := by
  constructor
  · intro h
    exact ⟨fun chain' id hpath => h chain' id (Path.cons_iff.mpr (.inl hpath)),
      fun chain' id hpath => h chain' id (Path.cons_iff.mpr (.inr hpath))⟩
  · rintro ⟨hchild, hrest⟩ chain' id hpath
    rcases Path.cons_iff.mp hpath with hpath | hpath
    · exact hchild chain' id hpath
    · exact hrest chain' id hpath

theorem unfoldable_of_ne (hname : child.schemaName? ≠ some "extends") :
    Unfoldable rules chain [child] := by
  intro chain' id hpath
  cases hpath with
  | here hnames => exact absurd (names_singleton.mp hnames).1 hname
  | behind hnames => exact absurd (names_singleton.mp hnames).1 hname

/-- An `extends` opens the abstract rule it names. -/
theorem unfoldable_extends (hname : child.schemaName? = some "extends")
    (hid : child.setting? "rule" = some id) :
    Unfoldable rules chain [child] ↔ ∃ target, rules.lookup id = some target ∧ id ∉ chain ∧
      Unfoldable rules (chain ++ [id]) target.children := by
  have hnames : Names [child] id := names_singleton.mpr ⟨hname, hid⟩
  constructor
  · intro h
    obtain ⟨⟨target, htarget⟩, hnew⟩ := h [] id (.here hnames)
    rw [List.append_nil] at hnew
    refine ⟨target, htarget, hnew, fun chain' other hpath => ?_⟩
    rw [List.append_assoc]
    exact h (id :: chain') other (.behind hnames htarget hpath)
  · rintro ⟨target, htarget, hnew, hinner⟩ chain' other hpath
    cases hpath with
    | here hother =>
        obtain rfl := Option.some.inj (hid.symm.trans (names_singleton.mp hother).2)
        exact ⟨⟨target, htarget⟩, by rwa [List.append_nil]⟩
    | behind hfirst htarget' hpath =>
        obtain rfl := Option.some.inj (hid.symm.trans (names_singleton.mp hfirst).2)
        obtain rfl := Option.some.inj (htarget.symm.trans htarget')
        have hother := hinner _ other hpath
        rwa [List.append_assoc] at hother

/-- Outside of any chain it is the graph that decides. -/
theorem unfoldable_iff :
    Unfoldable rules [] children ↔ ∀ id, Reaches rules children id →
      (∃ target, rules.lookup id = some target) ∧ ¬ TransGen (Extends rules) id id := by
  constructor
  · intro h id hreached
    obtain ⟨chain, hpath⟩ := hreached.exists_path
    refine ⟨(h chain id hpath).1, fun hcycle => ?_⟩
    -- led around the cycle, the path meets the rule while it is open
    obtain ⟨chain', hpath', hmem⟩ := hpath.exists_mem hcycle
    exact (h chain' id hpath').2 hmem
  · intro h chain' id hpath
    obtain ⟨hknown, hcycle⟩ := h id hpath.reaches
    exact ⟨hknown, fun hmem => hcycle (hpath.leads hmem)⟩

theorem not_unfoldable_iff :
    ¬ Unfoldable rules [] children ↔ ∃ id, Reaches rules children id ∧
      (rules.lookup id = none ∨ TransGen (Extends rules) id id) := by
  rw [unfoldable_iff, not_forall]
  refine exists_congr fun id => ?_
  rw [Classical.not_imp, not_and_or, not_not, ← Option.ne_none_iff_exists', not_ne_iff]

/-! ## Spliced elements -/

theorem Splices.unique {elements others : List Tree} (h : Splices rules children elements)
    (h' : Splices rules children others) : elements = others := by
  induction h generalizing others with
  | nil =>
      cases h'
      rfl
  | kept hname hitem _ ih =>
      cases h' with
      | kept _ _ hrest => rw [ih hrest]
      | extended hname' =>
          obtain rfl := Option.some.inj (hname.symm.trans hname')
          simp [itemNames] at hitem
      | skipped hother => exact absurd (List.mem_cons_of_mem _ hitem) (hother _ hname)
  | extended hname hid htarget _ _ ihInner ihRest =>
      cases h' with
      | kept hname' hitem =>
          obtain rfl := Option.some.inj (hname.symm.trans hname')
          simp [itemNames] at hitem
      | extended _ hid' htarget' hinner hrest =>
          obtain rfl := Option.some.inj (hid.symm.trans hid')
          obtain rfl := Option.some.inj (htarget.symm.trans htarget')
          rw [ihInner hinner, ihRest hrest]
      | skipped hother => exact absurd List.mem_cons_self (hother _ hname)
  | skipped hother _ ih =>
      cases h' with
      | kept hname hitem => exact absurd (List.mem_cons_of_mem _ hitem) (hother _ hname)
      | extended hname => exact absurd List.mem_cons_self (hother _ hname)
      | skipped _ hrest => exact ih hrest

theorem Splices.append {more elements others : List Tree} (h : Splices rules children elements)
    (hmore : Splices rules more others) : Splices rules (children ++ more) (elements ++ others) := by
  induction h with
  | nil => exact hmore
  | kept hname hitem _ ih => exact .kept hname hitem ih
  | extended hname hid htarget hinner _ _ ih =>
      rw [List.append_assoc]
      exact .extended hname hid htarget hinner ih
  | skipped hother _ ih => exact .skipped hother ih

/-- The scope after some elements: their variables are known. -/
def scopeAfter (names : StaticContext) (elements : List Tree) : StaticContext :=
  elements.foldl (fun names tree =>
    if tree.isSchemaElement "let" then (tree.setting? "name").elim names names.withVariable
    else names) names

@[simp] theorem scopeAfter_nil (names : StaticContext) : scopeAfter names [] = names := rfl

theorem scopeAfter_append (names : StaticContext) (elements more : List Tree) :
    scopeAfter names (elements ++ more) = scopeAfter (scopeAfter names elements) more :=
  List.foldl_append

theorem scopeAfter_let {name : String} (hlet : child.schemaName? = some "let")
    (hname : child.setting? "name" = some name) (names : StaticContext) :
    scopeAfter names [child] = names.withVariable name := by
  simp [scopeAfter, Tree.isSchemaElement, hlet, hname]

theorem scopeAfter_of_ne (hlet : child.schemaName? ≠ some "let") (names : StaticContext) :
    scopeAfter names [child] = names := by
  simp [scopeAfter, Tree.isSchemaElement, hlet]

/-! ## Chains -/

/-- The abstract rules of a chain can be open at once: each is known, and none is open twice. -/
structure Opened (rules : List (String × Tree)) (chain : List String) : Prop where
  nodup : chain.Nodup
  known : ∀ id ∈ chain, ∃ target, rules.lookup id = some target

namespace Opened

theorem nil : Opened rules [] := ⟨.nil, nofun⟩

theorem snoc (h : Opened rules chain) (hnew : id ∉ chain) (hid : rules.lookup id = some target) :
    Opened rules (chain ++ [id]) where
  nodup := by
    refine List.nodup_append.mpr ⟨h.nodup, List.pairwise_singleton _ _,
      fun other hother last hlast => ?_⟩
    obtain rfl := List.mem_singleton.mp hlast
    exact fun hsame => hnew (hsame ▸ hother)
  known := by
    intro other hother
    rcases List.mem_append.mp hother with hmem | hmem
    · exact h.known other hmem
    · exact List.mem_singleton.mp hmem ▸ ⟨target, hid⟩

/-- A chain is not longer than there are abstract rules. -/
theorem length_le (h : Opened rules chain) : chain.length ≤ rules.length := by
  have hsub : chain ⊆ rules.map (·.1) := by
    intro id hid
    obtain ⟨target, htarget⟩ := h.known id hid
    obtain ⟨before, after, rfl, -⟩ := List.lookup_eq_some_iff.mp htarget
    simp
  simpa using (List.subperm_of_subset h.nodup hsub).length_le

end Opened

/-- What is done with a part that has to be there matters only if it is there. -/
theorem require_bind_congr {α β : Type} {message : String} {x : Option α} {f g : α → StageRun β}
    (h : ∀ a, x = some a → f a = g a) : require message x >>= f = require message x >>= g := by
  cases x with
  | none => rfl
  | some a => exact h a rfl

namespace Setting

variable [Regex.Engine] {setting : Setting} {names : StaticContext}

/-- One more makes no difference to a depth to which all abstract rules that are not open yet can
be opened. -/
theorem extend_succ {depth : Nat} (hopened : Opened setting.abstractRules chain)
    (hdepth : setting.abstractRules.length ≤ depth + chain.length) :
    setting.extend (depth + 1) chain = setting.extend depth chain := by
  induction depth generalizing chain with
  | zero =>
      funext id body
      rw [extend, extend]
      refine require_bind_congr fun target htarget => ?_
      split
      · rfl
      · next hnew =>
          -- a chain that holds all abstract rules cannot be made longer
          have hlength := (hopened.snoc (by simpa using hnew) htarget).length_le
          rw [List.length_append, List.length_singleton] at hlength
          omega
  | succ depth ih =>
      funext id body
      rw [extend, extend]
      refine require_bind_congr fun target htarget => ?_
      split
      · rfl
      · next hnew =>
          have hinner := ih (hopened.snoc (by simpa using hnew) htarget) (by
            rw [List.length_append, List.length_singleton]
            omega)
          show target.children.foldlM (setting.compileChild (setting.extend (depth + 1) _)) body =
            target.children.foldlM (setting.compileChild (setting.extend depth _)) body
          rw [hinner]

/-- A rule is compiled the same, however much deeper abstract rules can be opened than there are
any. -/
theorem extend_add (setting : Setting) (k : Nat) :
    setting.extend (setting.abstractRules.length + k) [] =
      setting.extend setting.abstractRules.length [] := by
  induction k with
  | zero => rfl
  | succ k ih =>
      rw [← ih]
      exact extend_succ .nil (by simp)

/-! ## Acceptable rules -/

/-- Whatever is met from the children is acceptable in the scope it is met in. -/
def AcceptableFrom (setting : Setting) (chain : List String) (children : List Tree)
    (names : StaticContext) : Prop :=
  ∀ before element, Met setting.abstractRules chain children before element →
    setting.Acceptable (scopeAfter names before) element

theorem acceptableFrom_nil : setting.AcceptableFrom chain [] names := by
  intro before element hmet
  cases hmet

/-- A child has to be acceptable, what is met inside of it, and what is met after it. -/
theorem acceptableFrom_cons :
    setting.AcceptableFrom chain (child :: rest) names ↔ setting.Acceptable names child ∧
      (∀ id target, child.schemaName? = some "extends" → child.setting? "rule" = some id →
        setting.abstractRules.lookup id = some target → id ∉ chain →
        setting.AcceptableFrom (chain ++ [id]) target.children names) ∧
      ∀ inner, Splices setting.abstractRules [child] inner →
        setting.AcceptableFrom chain rest (scopeAfter names inner) := by
  constructor
  · intro h
    refine ⟨h [] child .here, fun id target hname hid htarget hnew before element hmet => ?_,
      fun inner hinner before element hmet => ?_⟩
    · exact h before element (.inside hname hid htarget hnew hmet)
    · rw [← scopeAfter_append]
      exact h (inner ++ before) element (.after hinner hmet)
  · rintro ⟨hchild, hinside, hafter⟩ before element hmet
    cases hmet with
    | here => exact hchild
    | inside hname hid htarget hnew hmet =>
        exact hinside _ _ hname hid htarget hnew before element hmet
    | after hinner hmet =>
        rw [scopeAfter_append]
        exact hafter _ hinner _ element hmet

theorem AcceptableFrom.single (h : setting.AcceptableFrom chain (child :: rest) names) :
    setting.AcceptableFrom chain [child] names := by
  obtain ⟨hchild, hinside, -⟩ := acceptableFrom_cons.mp h
  exact acceptableFrom_cons.mpr ⟨hchild, hinside, fun _ _ => acceptableFrom_nil⟩

theorem AcceptableFrom.extends {inner : List Tree} (hname : child.schemaName? = some "extends")
    (hid : child.setting? "rule" = some id)
    (htarget : setting.abstractRules.lookup id = some target)
    (hinside : setting.AcceptableFrom (chain ++ [id]) target.children names)
    (hinner : Splices setting.abstractRules target.children inner)
    (hafter : setting.AcceptableFrom chain rest (scopeAfter names inner)) :
    setting.AcceptableFrom chain (child :: rest) names := by
  have hsplices := Splices.extended hname hid htarget hinner .nil
  rw [List.append_nil] at hsplices
  refine acceptableFrom_cons.mpr ⟨?_, fun other target' _ hother htarget' _ => ?_,
    fun others hothers => hothers.unique hsplices ▸ hafter⟩
  · rw [Acceptable, hname]
    exact ⟨id, hid⟩
  · obtain rfl := Option.some.inj (hid.symm.trans hother)
    obtain rfl := Option.some.inj (htarget.symm.trans htarget')
    exact hinside

/-- The result of children that are compiled in a scope: they splice into elements, and the
variables of these are known then. -/
def Unfolded (setting : Setting) (children : List Tree) (names : StaticContext)
    (result : RuleBody) : Prop :=
  ∃ elements, Splices setting.abstractRules children elements ∧
    result.names = scopeAfter names elements

omit [Regex.Engine] in
/-- A child that adds nothing to the scope. -/
theorem Unfolded.single {body : RuleBody} (hlet : child.schemaName? ≠ some "let")
    {elements : List Tree} (hsplices : Splices setting.abstractRules [child] elements)
    (helements : elements = [child] ∨ elements = []) (hnames : body.names = names) :
    setting.Unfolded [child] names body := by
  refine ⟨elements, hsplices, ?_⟩
  rcases helements with rfl | rfl
  · rw [scopeAfter_of_ne hlet, hnames]
  · exact hnames

omit [Regex.Engine] in
theorem Unfolded.cons {middle result : RuleBody} (h : setting.Unfolded [child] names middle)
    (hrest : setting.Unfolded rest middle.names result) :
    setting.Unfolded (child :: rest) names result := by
  obtain ⟨inner, hinner, hmiddle⟩ := h
  obtain ⟨elements, helements, hresult⟩ := hrest
  refine ⟨inner ++ elements, hinner.append helements, ?_⟩
  rw [hresult, hmiddle, scopeAfter_append]

/-- An acceptable child is compiled, if what it may extend can be unfolded. -/
theorem compileChild_decides {extend : String → RuleBody → StageRun RuleBody} {body : RuleBody}
    (haccept : setting.Acceptable body.names child)
    (hextend : ∀ id, child.schemaName? = some "extends" → child.setting? "rule" = some id →
      Decides (extend id body) (Unfoldable setting.abstractRules chain [child])
        (setting.Unfolded [child] body.names)) :
    Decides (setting.compileChild extend body child)
      (Unfoldable setting.abstractRules chain [child]) (setting.Unfolded [child] body.names) := by
  have hassertion (kind : AssertionKind) (hname : child.schemaName? = some kind.schemaElement)
      (haccept : setting.AcceptableAssertion body.names child) :
      Decides (setting.compileAssertion kind body child >>= fun a =>
          pure { body with assertions := body.assertions ++ [a] })
        (Unfoldable setting.abstractRules chain [child])
        (setting.Unfolded [child] body.names) := by
    have hitem : kind.schemaElement ∈ itemNames := by cases kind <;> decide
    have hlet : child.schemaName? ≠ some "let" := by rw [hname]; cases kind <;> decide
    have hextends : child.schemaName? ≠ some "extends" := by rw [hname]; cases kind <;> decide
    refine ((setting.compileAssertion_decides kind body child).bind fun a _ => .pure ?_).congr
      (iff_of_true ⟨haccept, trivial⟩ (unfoldable_of_ne hextends)) fun _ h => h
    exact .single hlet (.kept hname hitem .nil) (.inl rfl) rfl
  have hskipped (m : StageRun RuleBody) (hm : Decides m True (· = body))
      (hname : ∀ name, child.schemaName? = some name → name ∉ "extends" :: itemNames) :
      Decides m (Unfoldable setting.abstractRules chain [child])
        (setting.Unfolded [child] body.names) := by
    have hlet : child.schemaName? ≠ some "let" := fun h => hname _ h (by decide)
    have hextends : child.schemaName? ≠ some "extends" := fun h => hname _ h (by decide)
    refine hm.congr (iff_of_true trivial (unfoldable_of_ne hextends)) fun result hresult => ?_
    exact .single hlet (.skipped hname .nil) (.inr rfl) (congrArg _ hresult)
  rw [compileChild]
  rw [Acceptable] at haccept
  dsimp only
  split
  next hname =>
    rw [hname] at haccept
    refine ((compileLet_decides body.names child).bind fun v hv => .pure ?_).congr
      (iff_of_true ⟨haccept, trivial⟩ (unfoldable_of_ne (by simp [hname]))) fun _ h => h
    exact ⟨[child], .kept hname (by decide) .nil, (scopeAfter_let hname hv body.names).symm⟩
  next hname =>
    rw [hname] at haccept
    exact hassertion .assert hname haccept
  next hname =>
    rw [hname] at haccept
    exact hassertion .report hname haccept
  next hname =>
    rw [hname] at haccept
    obtain ⟨id, hid⟩ := haccept
    refine Decides.congr (.require_bind fun other hother => hextend other hname hother)
      ?_ fun _ h => h
    constructor
    · rintro ⟨_, _, h⟩
      exact h
    · intro h
      exact ⟨id, hid, h⟩
  next hname => exact hskipped _ (.pure rfl) (by simp [hname, itemNames])
  next hname => exact hskipped _ (.pure rfl) (by simp [hname, itemNames])
  next hname => exact hskipped _ (.pure rfl) (by simp [hname])
  next other hlet hassert hreport hextends _ _ hname =>
    have hwarned : Decides (StageRun.warn ("Unknown Schematron element <" ++ other ++
        "> in rule ignored") >>= fun _ => pure body) True (· = body) :=
      ((Decides.warn _).bind fun _ _ => .pure (P := (· = body)) rfl).congr and_self_iff
        fun _ h => h
    refine hskipped _ hwarned fun name hsome => ?_
    obtain rfl : other = name := Option.some.inj (hname.symm.trans hsome)
    simp [itemNames, show other ≠ "let" from hlet, show other ≠ "assert" from hassert,
      show other ≠ "report" from hreport, show other ≠ "extends" from hextends]

/-- Children are compiled one after the other. -/
theorem foldlM_decides {extend : String → RuleBody → StageRun RuleBody}
    (hextend : ∀ child id body, child.schemaName? = some "extends" →
      child.setting? "rule" = some id → setting.AcceptableFrom chain [child] body.names →
      Decides (extend id body) (Unfoldable setting.abstractRules chain [child])
        (setting.Unfolded [child] body.names))
    (children : List Tree) {body : RuleBody}
    (haccept : setting.AcceptableFrom chain children body.names) :
    Decides (children.foldlM (setting.compileChild extend) body)
      (Unfoldable setting.abstractRules chain children)
      (setting.Unfolded children body.names) := by
  induction children generalizing body with
  | nil =>
      refine (Decides.pure ?_).congr (iff_of_true trivial unfoldable_nil) fun _ h => h
      exact ⟨[], .nil, rfl⟩
  | cons child rest ih =>
      rw [List.foldlM_cons]
      obtain ⟨hacceptable, -, hafter⟩ := acceptableFrom_cons.mp haccept
      have hchild := compileChild_decides hacceptable fun id hname hid =>
        hextend child id body hname hid haccept.single
      refine (hchild.bind fun middle hmiddle => ?_).congr unfoldable_cons.symm fun _ h => h
      obtain ⟨inner, hinner, hnames⟩ := hmiddle
      have hmiddle : setting.AcceptableFrom chain rest middle.names :=
        hnames ▸ hafter inner hinner
      have hrest := ih hmiddle
      exact hrest.congr .rfl fun result hresult => .cons ⟨inner, hinner, hnames⟩ hresult

/-- An abstract rule is compiled in the place of an `extends` just if it is known, not open already
and can be unfolded itself. -/
theorem extend_decides {depth : Nat} (hopened : Opened setting.abstractRules chain)
    (hdepth : setting.abstractRules.length ≤ depth + chain.length)
    (hname : child.schemaName? = some "extends") (hid : child.setting? "rule" = some id)
    {body : RuleBody} (haccept : setting.AcceptableFrom chain [child] body.names) :
    Decides (setting.extend depth chain id body) (Unfoldable setting.abstractRules chain [child])
      (setting.Unfolded [child] body.names) := by
  induction depth generalizing chain child id body with
  | zero =>
      rw [extend]
      refine Decides.congr (.require_bind fun target htarget => ?_)
        (unfoldable_extends hname hid).symm fun _ h => h
      -- a chain that holds all abstract rules cannot be made longer
      have hopen : ¬ (id ∉ chain ∧
          Unfoldable setting.abstractRules (chain ++ [id]) target.children) := by
        rintro ⟨hnew, -⟩
        have hlength := (hopened.snoc hnew htarget).length_le
        rw [List.length_append, List.length_singleton] at hlength
        omega
      split <;> exact .throw hopen
  | succ depth ih =>
      rw [extend]
      refine Decides.congr (.require_bind fun target htarget => ?_)
        (unfoldable_extends hname hid).symm fun _ h => h
      split
      · next hopen => exact .throw fun h => h.1 (by simpa using hopen)
      · next hnew =>
          have hnew : id ∉ chain := by simpa using hnew
          have hinner := foldlM_decides (fun child other body hname hother haccept =>
              ih (hopened.snoc hnew htarget)
                (by rw [List.length_append, List.length_singleton]; omega) hname hother haccept)
            target.children
            ((acceptableFrom_cons.mp haccept).2.1 id target hname hid htarget hnew)
          refine hinner.congr (by simp [hnew]) fun result hresult => ?_
          obtain ⟨elements, helements, hnames⟩ := hresult
          refine ⟨elements, ?_, hnames⟩
          have hsplices := Splices.extended hname hid htarget helements .nil
          rwa [List.append_nil] at hsplices

/-- A rule whose context compiles and in which everything that is met is acceptable. -/
structure AcceptableRule (setting : Setting) (names : StaticContext) (tree : Tree) : Prop where
  context : ∃ source, tree.setting? "context" = some source ∧
    ∃ query, Query.compilePattern names source = .ok query
  body : setting.AcceptableFrom [] tree.children names

theorem compileRule_decides (pattern : String) {tree : Tree}
    (haccept : setting.AcceptableRule names tree) :
    Decides (setting.compileRule names pattern tree)
      (Unfoldable setting.abstractRules [] tree.children) fun _ => True := by
  obtain ⟨⟨source, hsource, query, hquery⟩, hbody⟩ := haccept
  have hchildren : Decides (tree.children.foldlM
        (setting.compileChild (setting.extend setting.abstractRules.length []))
        (startOf names tree))
      (Unfoldable setting.abstractRules [] tree.children)
      (setting.Unfolded tree.children names) :=
    foldlM_decides (fun _ _ _ hname hid haccept => extend_decides .nil (by simp) hname hid haccept)
      tree.children hbody
  rw [compileRule, hsource]
  simp only [require, pure_bind, hquery, compiled]
  exact (hchildren.bind fun _ _ => .pure trivial).congr (by rw [and_true]) fun _ h => h

/-- Let the context of a rule compile, and be acceptable whatever is met from its children. To which
depth abstract rules can be opened plays no part if it is at least their number. The rule is not
compiled just if an `extends` that is reached from it names an abstract rule that is unknown or
leads back to itself, and a diagnostic says so. Otherwise its variables and assertions are those
that its children are compiled to in order, each `extends` being replaced by the children of the
abstract rule that it names, and so on. -/
theorem compileRule_extends (pattern : String) {tree : Tree}
    (haccept : setting.AcceptableRule names tree) :
    (∀ k, setting.extend (setting.abstractRules.length + k) [] =
      setting.extend setting.abstractRules.length []) ∧
    ∀ sink,
      ((∃ fault, (setting.compileRule names pattern tree).run sink = .error fault) ↔
        ∃ id, Reaches setting.abstractRules tree.children id ∧
          (setting.abstractRules.lookup id = none ∨
            TransGen (Extends setting.abstractRules) id id)) ∧
      (∀ fault, (setting.compileRule names pattern tree).run sink = .error fault →
        ∃ d, fault = .diagnostic d) ∧
      ∀ rule sink', (setting.compileRule names pattern tree).run sink = .ok (rule, sink') →
        ∃ elements items,
          (∀ others, Splices setting.abstractRules tree.children others ↔ others = elements) ∧
          InOrder setting (startOf names tree) elements items ∧
          rule.lets = RuleItem.lets items ∧ rule.assertions = RuleItem.assertions items := by
  have hdecides := compileRule_decides pattern haccept
  refine ⟨setting.extend_add, fun sink => ⟨?_, fun fault => hdecides.diagnosed, ?_⟩⟩
  · rw [← not_unfoldable_iff]
    constructor
    · rintro ⟨fault, hfault⟩ hunfoldable
      obtain ⟨rule, sink', hrun⟩ := hdecides.completes hunfoldable sink
      rw [hrun] at hfault
      cases hfault
    · intro hnot
      cases hrun : (setting.compileRule names pattern tree).run sink with
      | ok result => exact absurd (hdecides.result hrun).1 hnot
      | error fault => exact ⟨fault, rfl⟩
  · intro rule sink' hrun
    obtain ⟨elements, items, hsplices, horder, hlets, hassertions⟩ :=
      setting.compileRule_items names pattern tree sink rule sink' hrun
    exact ⟨elements, items, fun others => ⟨fun h => h.unique hsplices, fun h => h ▸ hsplices⟩,
      horder, hlets, hassertions⟩

end Setting

/-! ## Two ways to one abstract rule -/

/-- A variable, and an assertion that refers to it. -/
def sharedChildren : List Tree :=
  [schemaElement "let" [("name", "x"), ("value", "1")] [],
    schemaElement "assert" [("test", "$x")] [.text "b"]]

def sideRule : Tree := schemaElement "rule" [] [schemaElement "extends" [("rule", "s")] []]

/-- A rule that extends two abstract rules, both of which extend a third one. -/
def diamondRule : Tree :=
  schemaElement "rule" [("context", "a")]
    [schemaElement "extends" [("rule", "l")] [], schemaElement "extends" [("rule", "r")] []]

def diamond : Setting where
  options := {}
  abstractRules := [("l", sideRule), ("r", sideRule), ("s", schemaElement "rule" [] sharedChildren)]
  diagnostics := []

theorem splices_sharedChildren : Splices diamond.abstractRules sharedChildren sharedChildren :=
  .kept rfl (by decide) (.kept rfl (by decide) .nil)

theorem lookup_s :
    diamond.abstractRules.lookup "s" = some (schemaElement "rule" [] sharedChildren) := rfl

theorem setting?_extends_s :
    (schemaElement "extends" [("rule", "s")] []).setting? "rule" = some "s" := by
  decide +kernel

theorem splices_sideRule : Splices diamond.abstractRules sideRule.children sharedChildren :=
  .extended rfl setting?_extends_s lookup_s splices_sharedChildren .nil

theorem acceptable_sharedChildren [Regex.Engine] {names : StaticContext}
    (hvalue : (Query.compile names "1").isOk = true)
    (htest : (Query.compile (names.withVariable "x") "$x").isOk = true) (chain : List String) :
    diamond.AcceptableFrom chain sharedChildren names := by
  have hlet : (schemaElement "let" [("name", "x"), ("value", "1")] []).setting? "name" = some "x" :=
    by decide +kernel
  have hassert : (schemaElement "assert" [("test", "$x")] [.text "b"]).setting? "test" =
    some "$x" := by decide +kernel
  have hwords : Text.words ((schemaElement "assert" [("test", "$x")] [.text "b"]).attribute?
    "diagnostics" |>.getD "").toList = [] := by decide +kernel
  refine Setting.acceptableFrom_cons.mpr ⟨⟨⟨"x", hlet⟩, fun source hsource => ?_⟩, nofun,
    fun inner hinner => ?_⟩
  · obtain rfl := Option.some.inj hsource
    exact isOk_iff_exists.mp hvalue
  · obtain rfl := hinner.unique (.kept rfl (by decide) .nil)
    rw [scopeAfter_let rfl hlet]
    refine Setting.acceptableFrom_cons.mpr ⟨⟨⟨"$x", hassert, isOk_iff_exists.mp htest⟩,
      ⟨trivial, trivial⟩, ?_⟩, nofun, fun _ _ => Setting.acceptableFrom_nil⟩
    rw [hwords]
    exact nofun

theorem acceptable_sideRule [Regex.Engine] {names : StaticContext}
    (hvalue : (Query.compile names "1").isOk = true)
    (htest : (Query.compile (names.withVariable "x") "$x").isOk = true) (chain : List String) :
    diamond.AcceptableFrom chain sideRule.children names :=
  .extends rfl setting?_extends_s lookup_s (acceptable_sharedChildren hvalue htest _)
    splices_sharedChildren Setting.acceptableFrom_nil

/-- What two abstract rules extend is spliced twice. -/
theorem compileRule_diamond :
    Splices diamond.abstractRules diamondRule.children (sharedChildren ++ sharedChildren) ∧
    ∃ rule sink items, (diamond.compileRule {} "p" diamondRule).run ⟨[]⟩ = .ok (rule, sink) ∧
      InOrder diamond (Setting.startOf {} diamondRule) (sharedChildren ++ sharedChildren) items ∧
      rule.lets = RuleItem.lets items ∧ rule.assertions = RuleItem.assertions items := by
  have hl : (schemaElement "extends" [("rule", "l")] []).setting? "rule" = some "l" := by
    decide +kernel
  have hr : (schemaElement "extends" [("rule", "r")] []).setting? "rule" = some "r" := by
    decide +kernel
  have hsplices : Splices diamond.abstractRules diamondRule.children
      (sharedChildren ++ sharedChildren) :=
    .extended rfl hl rfl splices_sideRule (.extended rfl hr rfl splices_sideRule .nil)
  have haccept : diamond.AcceptableRule {} diamondRule := by
    constructor
    · exact ⟨"a", by decide +kernel, isOk_iff_exists.mp (by decide +kernel)⟩
    · refine .extends rfl hl rfl (acceptable_sideRule (by decide +kernel) (by decide +kernel) _)
        splices_sideRule ?_
      refine .extends rfl hr rfl (acceptable_sideRule (by decide +kernel) (by decide +kernel) _)
        splices_sideRule Setting.acceptableFrom_nil
  have hrun : ((diamond.compileRule {} "p" diamondRule).run ⟨[]⟩).isOk = true := by decide +kernel
  obtain ⟨⟨rule, sink⟩, hrule⟩ := isOk_iff_exists.mp hrun
  obtain ⟨elements, items, hunique, horder, hlets, hassertions⟩ :=
    ((Setting.compileRule_extends "p" haccept).2 ⟨[]⟩).2.2 rule sink hrule
  obtain rfl := (hunique _).mp hsplices
  exact ⟨hsplices, rule, sink, items, hrule, horder, hlets, hassertions⟩

end Schematron.Schema.Skeleton
