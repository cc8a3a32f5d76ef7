import Schematron.Proofs.XPath.CurrentNode
import Schematron.Proofs.XPath.NodeSets
import Schematron.Proofs.XPath.Selection
import Schematron.Regex.Builtin

/-!
# Patterns

A pattern is compiled to one path from the document node whose first step goes to all depths. It
selects what the expression selects that the pattern was written as, evaluated at each node of the
document that is no attribute, and fails just if one of these evaluations fails
(`compilePattern_selects`).

The reason is that steps go on from each node for itself: what steps lead to from some nodes is
what they lead to from one or another of them (`collects_walkSteps`). Positions in predicates count
the nodes that a step reaches from one node, so that they do not see the others; and putting nodes
in document order neither loses nor adds any.
-/

namespace Schematron.XPath

open Xml Document

/-- The outcome is put together from those at some nodes: it is a fault just if one of them is, and
otherwise has the nodes that one or another of them has. -/
structure Collects (here : NodeId → Prop) (part : NodeId → Except EvalFault (List NodeId))
    (whole : Except EvalFault (List NodeId)) : Prop where
  ok_iff : (∃ found, whole = .ok found) ↔ ∀ c, here c → ∃ found, part c = .ok found
  mem_iff : ∀ {found}, whole = .ok found →
    ∀ n, n ∈ found ↔ ∃ c, here c ∧ ∃ some, part c = .ok some ∧ n ∈ some

theorem fails_iff {α : Type} {x : Except EvalFault α} :
    (∃ fault, x = .error fault) ↔ ¬ ∃ a, x = .ok a := by
  cases x <;> simp

theorem map_nodes_eq_ok {x : Except EvalFault (List NodeId)} {found : List NodeId} :
    x.map Value.nodes = .ok (.nodes found) ↔ x = .ok found := by
  cases x <;> simp [Except.map]

theorem map_nodes_eq_error {x : Except EvalFault (List NodeId)} {fault : EvalFault} :
    x.map Value.nodes = .error fault ↔ x = .error fault := by
  cases x <;> simp [Except.map]

/-- The union of two outcomes. -/
def unite (x y : Except EvalFault (List NodeId)) : Except EvalFault (List NodeId) := do
  let xs ← x
  let ys ← y
  .ok (documentOrder (xs ++ ys))

theorem unite_eq_ok {x y : Except EvalFault (List NodeId)} {found : List NodeId} :
    unite x y = .ok found ↔
      ∃ xs ys, x = .ok xs ∧ y = .ok ys ∧ documentOrder (xs ++ ys) = found := by
  simp only [unite, bind_eq_ok, Except.ok.injEq]
  constructor
  · rintro ⟨xs, hxs, ys, hys, rfl⟩
    exact ⟨xs, ys, hxs, hys, rfl⟩
  · rintro ⟨xs, ys, hxs, hys, rfl⟩
    exact ⟨xs, hxs, ys, hys, rfl⟩

theorem mem_documentOrder {ids : List NodeId} {id : NodeId} : id ∈ documentOrder ids ↔ id ∈ ids :=
  (documentOrder_increasing ids).2 id

namespace Collects

variable {here : NodeId → Prop} {part : NodeId → Except EvalFault (List NodeId)}
  {whole : Except EvalFault (List NodeId)}

theorem congr {here' : NodeId → Prop} {part' : NodeId → Except EvalFault (List NodeId)}
    (h : Collects here part whole) (hhere : ∀ c, here' c ↔ here c) (hpart : ∀ c, part' c = part c) :
    Collects here' part' whole := by
  obtain rfl : here' = here := funext fun c => propext (hhere c)
  obtain rfl : part' = part := funext hpart
  exact h

theorem unite {part' : NodeId → Except EvalFault (List NodeId)}
    {whole' : Except EvalFault (List NodeId)} (h : Collects here part whole)
    (h' : Collects here part' whole') :
    Collects here (fun c => XPath.unite (part c) (part' c)) (XPath.unite whole whole') where
  ok_iff := by
    have hok (x y : Except EvalFault (List NodeId)) : (∃ found, XPath.unite x y = .ok found) ↔
        (∃ xs, x = .ok xs) ∧ ∃ ys, y = .ok ys := by
      simp only [unite_eq_ok]
      constructor
      · rintro ⟨_, xs, ys, hxs, hys, -⟩
        exact ⟨⟨xs, hxs⟩, ys, hys⟩
      · rintro ⟨⟨xs, hxs⟩, ys, hys⟩
        exact ⟨_, xs, ys, hxs, hys, rfl⟩
    simp only [hok, h.ok_iff, h'.ok_iff]
    exact ⟨fun hall c hc => ⟨hall.1 c hc, hall.2 c hc⟩,
      fun hall => ⟨fun c hc => (hall c hc).1, fun c hc => (hall c hc).2⟩⟩
  mem_iff := by
    intro found hfound n
    obtain ⟨xs, ys, hxs, hys, rfl⟩ := unite_eq_ok.mp hfound
    have hall := h.ok_iff.mp ⟨xs, hxs⟩
    have hall' := h'.ok_iff.mp ⟨ys, hys⟩
    rw [mem_documentOrder, List.mem_append, h.mem_iff hxs, h'.mem_iff hys]
    constructor
    -- at a node where one side has it the other side has some outcome as well
    · rintro (⟨c, hc, some, hsome, hn⟩ | ⟨c, hc, some, hsome, hn⟩)
      · obtain ⟨other, hother⟩ := hall' c hc
        exact ⟨c, hc, _, unite_eq_ok.mpr ⟨some, other, hsome, hother, rfl⟩,
          mem_documentOrder.mpr (List.mem_append_left _ hn)⟩
      · obtain ⟨other, hother⟩ := hall c hc
        exact ⟨c, hc, _, unite_eq_ok.mpr ⟨other, some, hother, hsome, rfl⟩,
          mem_documentOrder.mpr (List.mem_append_right _ hn)⟩
    · rintro ⟨c, hc, _, hboth, hn⟩
      obtain ⟨some, other, hsome, hother, rfl⟩ := unite_eq_ok.mp hboth
      rcases List.mem_append.mp (mem_documentOrder.mp hn) with hn | hn
      · exact .inl ⟨c, hc, some, hsome, hn⟩
      · exact .inr ⟨c, hc, other, hother, hn⟩

/-- What is done with the nodes of the whole can as well be done with those at each node, if it
collects what is done with single nodes. -/
theorem bind {one : NodeId → Except EvalFault (List NodeId)}
    {all : List NodeId → Except EvalFault (List NodeId)} (h : Collects here part whole)
    (hall : ∀ ids, Collects (· ∈ ids) one (all ids)) :
    Collects here (fun c => part c >>= all) (whole >>= all) where
  ok_iff := by
    simp only [bind_eq_ok]
    constructor
    · rintro ⟨found, ids, hids, hfound⟩ c hc
      obtain ⟨some, hsome⟩ := h.ok_iff.mp ⟨ids, hids⟩ c hc
      have hones := (hall ids).ok_iff.mp ⟨found, hfound⟩
      obtain ⟨result, hresult⟩ := (hall some).ok_iff.mpr fun x hx =>
        hones x ((h.mem_iff hids x).mpr ⟨c, hc, some, hsome, hx⟩)
      exact ⟨result, some, hsome, hresult⟩
    · intro hparts
      obtain ⟨ids, hids⟩ := h.ok_iff.mpr fun c hc => by
        obtain ⟨_, some, hsome, -⟩ := hparts c hc
        exact ⟨some, hsome⟩
      obtain ⟨found, hfound⟩ := (hall ids).ok_iff.mpr fun x hx => by
        obtain ⟨c, hc, some, hsome, hx⟩ := (h.mem_iff hids x).mp hx
        obtain ⟨result, some', hsome', hresult⟩ := hparts c hc
        obtain rfl := Except.ok.inj (hsome'.symm.trans hsome)
        exact (hall some').ok_iff.mp ⟨result, hresult⟩ x hx
      exact ⟨found, ids, hids, hfound⟩
  mem_iff := by
    intro found hwhole n
    obtain ⟨ids, hids, hfound⟩ := bind_eq_ok.mp hwhole
    have hones := (hall ids).ok_iff.mp ⟨found, hfound⟩
    rw [(hall ids).mem_iff hfound]
    constructor
    · rintro ⟨x, hx, last, hlast, hn⟩
      obtain ⟨c, hc, some, hsome, hx⟩ := (h.mem_iff hids x).mp hx
      obtain ⟨result, hresult⟩ := (hall some).ok_iff.mpr fun y hy =>
        hones y ((h.mem_iff hids y).mpr ⟨c, hc, some, hsome, hy⟩)
      exact ⟨c, hc, result, bind_eq_ok.mpr ⟨some, hsome, hresult⟩,
        ((hall some).mem_iff hresult n).mpr ⟨x, hx, last, hlast, hn⟩⟩
    · rintro ⟨c, hc, result, hpart, hn⟩
      obtain ⟨some, hsome, hresult⟩ := bind_eq_ok.mp hpart
      obtain ⟨x, hx, last, hlast, hn⟩ := ((hall some).mem_iff hresult n).mp hn
      exact ⟨x, (h.mem_iff hids x).mpr ⟨c, hc, some, hsome, hx⟩, last, hlast, hn⟩

end Collects

/-! ## Steps -/

section

variable [Regex.Engine] {context : Context}

/-- The nodes that a step leads to from some nodes. -/
def reach (context : Context) (step : Step) (ids : List NodeId) :
    Except EvalFault (List NodeId) := do
  let found ← ids.mapM (step.eval context)
  .ok (documentOrder found.flatten)

theorem walkSteps_cons (step : Step) (rest : List Step) (ids : List NodeId) :
    walkSteps context (step :: rest) ids = reach context step ids >>= walkSteps context rest := by
  rw [walkSteps, reach]
  cases ids.mapM (step.eval context) <;> rfl

theorem reach_eq_ok {step : Step} {ids found : List NodeId} :
    reach context step ids = .ok found ↔
      ∃ lists, ids.mapM (step.eval context) = .ok lists ∧ documentOrder lists.flatten = found := by
  simp only [reach, bind_eq_ok, Except.ok.injEq]

theorem mem_of_reach {step : Step} {ids found : List NodeId}
    (h : reach context step ids = .ok found) {n : NodeId} :
    n ∈ found ↔ ∃ c ∈ ids, ∃ list, step.eval context c = .ok list ∧ n ∈ list := by
  obtain ⟨lists, hlists, rfl⟩ := reach_eq_ok.mp h
  simp only [mem_documentOrder, List.mem_flatten, mem_of_mapM hlists]
  constructor
  · rintro ⟨list, ⟨c, hc, hlist⟩, hn⟩
    exact ⟨c, hc, list, hlist, hn⟩
  · rintro ⟨c, hc, list, hlist, hn⟩
    exact ⟨list, ⟨c, hc, hlist⟩, hn⟩

theorem exists_reach_eq_ok {step : Step} {ids : List NodeId} :
    (∃ found, reach context step ids = .ok found) ↔
      ∀ c ∈ ids, ∃ list, step.eval context c = .ok list := by
  rw [← exists_mapM_eq_ok]
  simp only [reach_eq_ok]
  constructor
  · rintro ⟨_, lists, hlists, -⟩
    exact ⟨lists, hlists⟩
  · rintro ⟨lists, hlists⟩
    exact ⟨_, lists, hlists, rfl⟩

theorem collects_reach (step : Step) (ids : List NodeId) :
    Collects (· ∈ ids) (fun c => reach context step [c]) (reach context step ids) where
  ok_iff := by simp only [exists_reach_eq_ok, List.forall_mem_singleton]
  mem_iff := by
    intro found hfound n
    have hone (c : NodeId) (hc : c ∈ ids) : ∃ some, reach context step [c] = .ok some :=
      exists_reach_eq_ok.mpr (List.forall_mem_singleton.mpr
        (exists_reach_eq_ok.mp ⟨found, hfound⟩ c hc))
    rw [mem_of_reach hfound]
    constructor
    · rintro ⟨c, hc, hlist⟩
      obtain ⟨some, hsome⟩ := hone c hc
      exact ⟨c, hc, some, hsome, (mem_of_reach hsome).mpr ⟨c, List.mem_singleton_self c, hlist⟩⟩
    · rintro ⟨c, hc, some, hsome, hn⟩
      obtain ⟨_, hmem, hlist⟩ := (mem_of_reach hsome).mp hn
      obtain rfl := List.mem_singleton.mp hmem
      exact ⟨_, hc, hlist⟩

/-- Steps lead from some nodes to what they lead to from one or another of them. -/
theorem collects_walkSteps (steps : List Step) (ids : List NodeId) :
    Collects (· ∈ ids) (fun c => walkSteps context steps [c]) (walkSteps context steps ids) := by
  induction steps generalizing ids with
  | nil =>
      refine ⟨⟨fun _ c _ => ⟨[c], rfl⟩, fun _ => ⟨ids, rfl⟩⟩, ?_⟩
      rintro _ ⟨⟩ n
      constructor
      · exact fun hn => ⟨n, hn, [n], rfl, List.mem_singleton_self n⟩
      · rintro ⟨c, hc, _, ⟨⟩, hn⟩
        rwa [List.mem_singleton.mp hn]
  | cons step rest ih =>
      simp only [walkSteps_cons]
      exact (collects_reach step ids).bind ih

end

/-! ## Relative paths -/

/-- A relative location path, or a union of such paths. -/
inductive Expr.IsRelative : Expr → Prop
  | path (steps : List Step) : IsRelative (.path .context steps)
  | union {left right : Expr} : left.IsRelative → right.IsRelative →
      IsRelative (.binary .union left right)

/-- The nodes from which a pattern selects. -/
def IsStart (doc : Document) (c : NodeId) : Prop := c < doc.size ∧ doc.isAttribute c = false

section

variable [Regex.Engine] {doc : Document}

/-- The first step of a pattern leads from the document node to all nodes from which the pattern
selects. -/
theorem exists_starts (h : Numbered doc) (context : Context) (hdoc : context.doc = doc) :
    ∃ starts, reach context .anyDepth [rootNode] = .ok starts ∧ ∀ c, c ∈ starts ↔ IsStart doc c := by
  subst hdoc
  have hstep : Step.anyDepth.eval context rootNode =
      .ok (rootNode :: context.doc.descendants rootNode) := by
    show Except.ok (List.filter (fun _ => true) _) = _
    rw [List.filter_true]
    rfl
  obtain ⟨starts, hstarts⟩ := exists_reach_eq_ok.mpr (List.forall_mem_singleton.mpr ⟨_, hstep⟩)
  refine ⟨starts, hstarts, fun c => ?_⟩
  have hroot : context.doc.isAttribute rootNode = false := by
    rw [isAttribute, h.linked.kind_root]
  have hmem : c ∈ starts ↔ c ∈ rootNode :: context.doc.descendants rootNode := by
    rw [mem_of_reach hstarts]
    constructor
    · rintro ⟨_, hroot, list, hlist, hc⟩
      rw [List.mem_singleton.mp hroot, hstep] at hlist
      rwa [Except.ok.inj hlist]
    · exact fun hc => ⟨rootNode, List.mem_singleton_self rootNode, _, hstep, hc⟩
  rw [hmem, List.mem_cons, h.mem_descendants]
  constructor
  · rintro (rfl | ⟨habove, hattribute⟩)
    · exact ⟨h.linked.size_pos, hroot⟩
    · exact ⟨h.linked.lt_size_of_mem_ancestors habove, hattribute⟩
  · rintro ⟨hsize, hattribute⟩
    rcases Nat.eq_zero_or_pos c with rfl | hpos
    · exact .inl rfl
    · exact .inr ⟨h.linked.root_mem_ancestors hpos hsize, hattribute⟩

theorem eval_path_context (steps : List Step) (context : Context) :
    (Expr.path .context steps).eval context =
      (walkSteps context steps [context.node]).map .nodes := by
  show (walkSteps context steps [context.node] >>= fun ids => Except.ok (Value.nodes ids)) = _
  cases walkSteps context steps [context.node] <;> rfl

theorem eval_path_root (steps : List Step) (context : Context) :
    (Expr.path .root steps).eval context = (walkSteps context steps [rootNode]).map .nodes := by
  show (walkSteps context steps [rootNode] >>= fun ids => Except.ok (Value.nodes ids)) = _
  cases walkSteps context steps [rootNode] <;> rfl

theorem eval_union {left right : Expr} {context : Context} {x y : Except EvalFault (List NodeId)}
    (hleft : left.eval context = x.map .nodes) (hright : right.eval context = y.map .nodes) :
    (Expr.binary .union left right).eval context = (unite x y).map .nodes := by
  rw [Expr.eval, hleft, hright]
  cases x <;> cases y <;> rfl

/-- A relative path that is made a pattern collects what the path selects at the nodes. -/
theorem collects_anchor (h : Numbered doc) (bindings : List (String × Value)) {e : Expr}
    (hrelative : e.IsRelative) (hcurrent : e.Every Expr.IsNotCurrent) :
    ∃ part whole, Collects (IsStart doc) part whole ∧
      (∀ c, e.eval { doc, node := c, bindings } = (part c).map .nodes) ∧
        e.anchor.eval { doc, node := rootNode, bindings } = whole.map .nodes := by
  induction hrelative with
  | path steps =>
      obtain ⟨starts, hstarts, hmem⟩ := exists_starts h { doc, node := rootNode, bindings } rfl
      refine ⟨_, _, ?_, fun c => eval_path_context steps _, eval_path_root _ _⟩
      rw [walkSteps_cons, hstarts]
      refine (collects_walkSteps steps starts).congr (fun c => (hmem c).symm) fun c => ?_
      -- the context at the node is that of the pattern with the node for its own and current one
      have hcurrents := (every_path.mp hcurrent).2.2
      let context : Context := { doc, node := rootNode, bindings }
      calc walkSteps ((context.withCurrent c).at c 1 1) steps [c]
        _ = walkSteps (context.withCurrent c) steps [c] := walkSteps_at c 1 1 steps [c]
        _ = walkSteps context steps [c] := walkSteps_withCurrent context steps hcurrents [c]
  | union _ _ ihLeft ihRight =>
      obtain ⟨part, whole, hcollects, hpart, hwhole⟩ := ihLeft (every_binary.mp hcurrent).2.1
      obtain ⟨part', whole', hcollects', hpart', hwhole'⟩ := ihRight (every_binary.mp hcurrent).2.2
      exact ⟨_, _, hcollects.unite hcollects', fun c => eval_union (hpart c) (hpart' c),
        eval_union hwhole hwhole'⟩

end

/-- What a relative path selects as a pattern is what it selects from one or another node of the
document that is no attribute. The pattern fails just if the path fails at one of these nodes. -/
theorem compilePattern_selects [Regex.Engine] (names : StaticContext) (source : String)
    (path : Query) (hpath : Query.compile names source = .ok path) (hrelative : path.expr.IsRelative)
    (hcurrent : ∀ arguments, .call .current arguments ∉ path.expr.parts) (text : String)
    (doc : Document) (hparse : parse text = .ok doc) (bindings : List (String × Value)) :
    ∃ pattern, Query.compilePattern names source = .ok pattern ∧
      (∀ ids, pattern.selectFromRoot doc bindings = .ok ids → ∀ n, n ∈ ids ↔
        ∃ c found, IsStart doc c ∧ path.evaluate { doc, node := c, bindings } = .ok (.nodes found) ∧
          n ∈ found) ∧
      ((∃ fault, pattern.selectFromRoot doc bindings = .error fault) ↔
        ∃ c fault, IsStart doc c ∧ path.evaluate { doc, node := c, bindings } = .error fault) := by
  obtain ⟨e, he, hpath⟩ := bind_eq_ok.mp hpath
  cases hpath
  refine ⟨⟨source, e.anchor⟩, bind_eq_ok.mpr ⟨e, he, rfl⟩, ?_⟩
  have hevery : e.Every Expr.IsNotCurrent := by
    intro part hpart
    cases part with
    | call function arguments =>
        rintro rfl
        exact hcurrent arguments hpart
    | _ => trivial
  obtain ⟨part, whole, hcollects, hpart, hwhole⟩ :=
    collects_anchor (numbered_of_parse hparse) bindings hrelative hevery
  have hselect : Query.selectFromRoot ⟨source, e.anchor⟩ doc bindings = whole := by
    rw [Query.selectFromRoot, Query.evaluate, hwhole]
    cases whole <;> rfl
  have hevaluate (c : NodeId) : Query.evaluate ⟨source, e⟩ { doc, node := c, bindings } =
      (part c).map .nodes := hpart c
  simp only [hselect, hevaluate, map_nodes_eq_ok, map_nodes_eq_error]
  constructor
  · intro ids hids n
    rw [hcollects.mem_iff hids]
    constructor
    · rintro ⟨c, hc, found, hfound, hn⟩
      exact ⟨c, found, hc, hfound, hn⟩
    · rintro ⟨c, found, hc, hfound, hn⟩
      exact ⟨c, hc, found, hfound, hn⟩
  · calc (∃ fault, whole = .error fault)
      _ ↔ ¬ ∀ c, IsStart doc c → ∃ found, part c = .ok found := by rw [fails_iff, hcollects.ok_iff]
      _ ↔ ∃ c, IsStart doc c ∧ ∃ fault, part c = .error fault := by
        simp only [not_forall, exists_prop, fails_iff]
      _ ↔ ∃ c fault, IsStart doc c ∧ part c = .error fault := by simp only [exists_and_left]

/-- The expression `b[not(following-sibling::b)]|c/b`. -/
def lastOrGrandchild : Expr :=
  .binary .union
    (.path .context [.mk .child (.name none "b")
      [.call .not [.path .context [.mk .followingSibling (.name none "b") []]]]])
    (.path .context [.mk .child (.name none "c") [], .mk .child (.name none "b") []])

theorem compilePattern_selects_lastOrGrandchild :
    ∃ doc pattern, parse "<a><b/><b/><c><b/></c></a>" = .ok doc ∧
      Query.compilePattern {} "b[not(following-sibling::b)]|c/b" = .ok pattern ∧
        pattern.selectFromRoot doc [] = .ok [3, 5] ∧
          ∀ n, n ∈ [3, 5] ↔ ∃ c found, IsStart doc c ∧
            lastOrGrandchild.eval { doc, node := c } = .ok (.nodes found) ∧ n ∈ found := by
  obtain ⟨doc, hparse, hdoc⟩ : ∃ doc, parse "<a><b/><b/><c><b/></c></a>" = .ok doc ∧
      doc = (⟨#[
        { kind := .document, children := #[1] },
        { kind := .element (.plain "a") [], parent := some 0, children := #[2, 3, 4] },
        { kind := .element (.plain "b") [], parent := some 1 },
        { kind := .element (.plain "b") [], parent := some 1 },
        { kind := .element (.plain "c") [], parent := some 1, children := #[5] },
        { kind := .element (.plain "b") [], parent := some 4 }]⟩ : Document) := ⟨_, rfl, rfl⟩
  obtain ⟨source, hsource⟩ : ∃ source, source = "b[not(following-sibling::b)]|c/b" := ⟨_, rfl⟩
  have hpath : Query.compile {} source = .ok ⟨source, lastOrGrandchild⟩ := by
    rw [hsource]
    cbv
  have hpattern : Query.compilePattern {} source = .ok ⟨source, lastOrGrandchild.anchor⟩ := by
    rw [hsource]
    cbv
  have hselect : Query.selectFromRoot ⟨source, lastOrGrandchild.anchor⟩ doc [] = .ok [3, 5] := by
    rw [hsource, hdoc]
    cbv
  have hcurrent (arguments : List Expr) : .call .current arguments ∉ lastOrGrandchild.parts := by
    simp [lastOrGrandchild, Expr.parts, partsOfAll, PathStart.parts, partsOfSteps, Step.parts]
  obtain ⟨pattern, hpattern', hmem, -⟩ :=
    compilePattern_selects {} source _ hpath (.union (.path _) (.path _)) hcurrent _ doc hparse []
  obtain rfl := Except.ok.inj (hpattern'.symm.trans hpattern)
  exact ⟨doc, _, hparse, hsource ▸ hpattern, hselect, hmem _ hselect⟩

end Schematron.XPath
