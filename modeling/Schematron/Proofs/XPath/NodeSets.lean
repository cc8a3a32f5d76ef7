import Mathlib
import Schematron.Proofs.Outcome
import Schematron.Proofs.XPath.Axes
import Schematron.Regex.Builtin
import Schematron.XPath.Evaluation

/-!
# Node-sets

A node-set that an expression has for its value is a list of nodes of the document by increasing
index (`eval_isNodeSet`), on every way on which it can come about: what an axis leads to may go
backwards and what several nodes lead to may overlap, but each step of a path and each union puts
its nodes in document order, predicates only leave nodes out, and no function but `current` makes
a node-set of its own (`Function.apply_isAtom`).
-/

namespace Schematron.XPath

open Xml Document

/-- The ids are nodes of the document, in document order and each once. -/
structure IsNodeSet (doc : Document) (ids : List NodeId) : Prop where
  increasing : ids.Pairwise (· < ·)
  lt_size : ∀ id ∈ ids, id < doc.size

variable {doc : Document} {context : Context} {ids : List NodeId}

namespace IsNodeSet

theorem singleton {id : NodeId} (h : id < doc.size) : IsNodeSet doc [id] :=
  ⟨List.pairwise_singleton _ _, List.forall_mem_singleton.mpr h⟩

theorem sublist {kept : List NodeId} (h : IsNodeSet doc ids) (hkept : kept.Sublist ids) :
    IsNodeSet doc kept :=
  ⟨h.increasing.sublist hkept, fun id hid => h.lt_size id (hkept.subset hid)⟩

end IsNodeSet

/-! ## Document order -/

/-- Of sorted numbers those that repeat the one before them are dropped. What was kept is carried
along, last first. -/
theorem eraseReps_loop {first : Nat} {rest kept : List Nat}
    (hsorted : (first :: rest).Pairwise (· ≤ ·)) (hkept : (first :: kept).Pairwise (· > ·)) :
    (List.eraseRepsBy.loop (· == ·) first rest kept).Pairwise (· < ·) ∧
      ∀ n, n ∈ List.eraseRepsBy.loop (· == ·) first rest kept ↔
        n ∈ kept ∨ n = first ∨ n ∈ rest := by
  induction rest generalizing first kept with
  | nil =>
      rw [List.eraseRepsBy.loop, List.pairwise_reverse]
      exact ⟨hkept, fun n => by simp [or_comm]⟩
  | cons next rest ih =>
      obtain ⟨hle, hrest⟩ := List.pairwise_cons.mp hsorted
      rw [List.eraseRepsBy.loop]
      by_cases hsame : first = next
      · subst hsame
        obtain ⟨hincreasing, hmem⟩ := ih hrest hkept
        simp only [beq_self_eq_true]
        exact ⟨hincreasing, fun n => by rw [hmem]; simp⟩
      · have hlt : first < next := Nat.lt_of_le_of_ne (hle next List.mem_cons_self) hsame
        have hnew : (next :: first :: kept).Pairwise (· > ·) := by
          refine List.pairwise_cons.mpr ⟨fun n hn => ?_, hkept⟩
          rcases List.mem_cons.mp hn with rfl | hn
          · exact hlt
          · exact Nat.lt_trans ((List.pairwise_cons.mp hkept).1 n hn) hlt
        obtain ⟨hincreasing, hmem⟩ := ih hrest hnew
        simp only [beq_eq_false_iff_ne.mpr hsame]
        refine ⟨hincreasing, fun n => ?_⟩
        rw [hmem, List.mem_cons, List.mem_cons, or_assoc, or_left_comm]

theorem documentOrder_increasing (ids : List NodeId) :
    (documentOrder ids).Pairwise (· < ·) ∧ ∀ id, id ∈ documentOrder ids ↔ id ∈ ids := by
  have hsorted : (ids.mergeSort (· ≤ ·)).Pairwise (· ≤ ·) := by
    have htrans (a b c : NodeId) (hab : decide (a ≤ b) = true) (hbc : decide (b ≤ c) = true) :
        decide (a ≤ c) = true :=
      decide_eq_true (Nat.le_trans (of_decide_eq_true hab) (of_decide_eq_true hbc))
    have htotal (a b : NodeId) : (decide (a ≤ b) || decide (b ≤ a)) = true := by
      simpa using Nat.le_total a b
    simpa using List.pairwise_mergeSort htrans htotal ids
  have hmem (id : NodeId) : id ∈ ids.mergeSort (· ≤ ·) ↔ id ∈ ids := List.mem_mergeSort
  rw [documentOrder]
  cases hlist : ids.mergeSort (· ≤ ·) with
  | nil =>
      rw [hlist] at hmem
      exact ⟨.nil, hmem⟩
  | cons first rest =>
      rw [hlist] at hsorted hmem
      obtain ⟨hincreasing, hkept⟩ := eraseReps_loop hsorted (List.pairwise_singleton _ first)
      exact ⟨hincreasing, fun id => (hkept id).trans (by rw [← hmem]; simp)⟩

theorem IsNodeSet.documentOrder (h : ∀ id ∈ ids, id < doc.size) :
    IsNodeSet doc (documentOrder ids) := by
  obtain ⟨hincreasing, hmem⟩ := documentOrder_increasing ids
  exact ⟨hincreasing, fun id hid => h id ((hmem id).mp hid)⟩

/-! ## Predicates and steps -/

/-- What a test keeps of a list stands in it in the same order. -/
theorem keepWith_sublist {α : Type} {test : α → Except EvalFault Bool} {xs : List α} :
    SucceedsWith (·.Sublist xs) (keepWith test xs) := by
  have hfold (kept : List α) : SucceedsWith (·.reverse.Sublist (kept.reverse ++ xs))
      (xs.foldlM (fun kept x => do .ok (if ← test x then x :: kept else kept)) kept) := by
    induction xs generalizing kept with
    | nil => exact .ok (by simp)
    | cons x xs ih =>
        rw [List.foldlM_cons]
        refine .bind (P := fun next => next = x :: kept ∨ next = kept) (.after fun keep => .ok ?_)
          fun next hnext => ?_
        · cases keep <;> simp
        · intro result hresult
          have hsub := ih next result hresult
          rcases hnext with rfl | rfl
          · simpa using hsub
          · exact hsub.trans ((List.sublist_cons_self x xs).append_left _)
  exact (hfold []).bind fun kept hkept => .ok hkept

section

variable [Regex.Engine]

/-- Predicates only leave nodes out. -/
theorem select_sublist (predicates : List Expr) (ids : List NodeId) :
    SucceedsWith (·.Sublist ids) (select context predicates ids) := by
  induction predicates generalizing ids with
  | nil => exact .ok (List.Sublist.refl ids)
  | cons predicate rest ih =>
      refine keepWith_sublist.bind fun kept hkept result hresult => ?_
      have hids := hkept.map Prod.fst
      rw [List.zipIdx_map_fst] at hids
      exact (ih _ result hresult).trans hids

theorem Step.eval_lt_size (h : Numbered context.doc) (step : Step) {id : NodeId}
    (hid : id < context.doc.size) :
    SucceedsWith (fun found => ∀ n ∈ found, n < context.doc.size) (step.eval context id) := by
  obtain ⟨axis, test, predicates⟩ := step
  intro found hfound n hn
  have hsub := select_sublist predicates _ found hfound
  exact Axis.lt_size_of_mem_nodes h hid axis n (List.mem_of_mem_filter (hsub.subset hn))

/-- Steps lead from a node-set to a node-set. -/
theorem walkSteps_isNodeSet (h : Numbered context.doc) (steps : List Step)
    (hids : IsNodeSet context.doc ids) :
    SucceedsWith (IsNodeSet context.doc) (walkSteps context steps ids) := by
  induction steps generalizing ids with
  | nil => exact .ok hids
  | cons step rest ih =>
      intro result hresult
      obtain ⟨found, hfound, hrest⟩ := bind_eq_ok.mp hresult
      have hnodes := forall_of_mapM hfound fun id hid =>
        step.eval_lt_size h (hids.lt_size id hid)
      refine ih (.documentOrder fun n hn => ?_) result hrest
      obtain ⟨nodes, hmem, hn⟩ := List.mem_flatten.mp hn
      exact hnodes nodes hmem n hn

/-! ## Calls -/

/-- The value is no node-set. -/
def Value.IsAtom : Value → Prop
  | .nodes _ => False
  | _ => True

/-- No function but `current` has a node-set for its value. -/
theorem Function.apply_isAtom {function : Function} (h : function ≠ .current)
    (arguments : Arguments) (context : Context) :
    SucceedsWith Value.IsAtom (function.apply arguments context) := by
  cases function
  -- the cases follow the number of arguments that each function asks for
  case current => exact absurd rfl h
  case last | position | true | false => exact .ok trivial
  case count | localName | name | namespaceUri | sum | string | normalizeSpace | upperCase
      | lowerCase | concat | stringLength | boolean | not | number | floor | ceiling | round =>
    exact .after fun _ => .ok trivial
  case startsWith | endsWith | contains | substringBefore | substringAfter =>
    exact .after fun _ => .after fun _ => .ok trivial
  case translate => exact .after fun _ => .after fun _ => .after fun _ => .ok trivial
  case substring =>
    refine .after fun _ => .after fun _ => ?_
    dsimp only
    split <;> exact .after fun _ => .ok trivial
  case «exists» | empty =>
    refine .after fun v => ?_
    cases v <;> exact .ok trivial
  case «matches» =>
    exact .after fun _ => .after fun _ => .after fun _ => .after fun _ => .ok trivial
  case replace =>
    exact .after fun _ => .after fun _ => .after fun _ => .after fun _ => .after fun _ =>
      .ok trivial
  case stringJoin =>
    refine .after fun _ => .after fun v => ?_
    cases v <;> exact .ok trivial
  case max | min | avg =>
    refine .after fun ids => ?_
    dsimp only
    split <;> exact .ok trivial

end

/-! ## Expressions -/

/-- A value whose nodes, if it has any, are a node-set of the document. -/
def Value.IsOf (doc : Document) : Value → Prop
  | .nodes ids => IsNodeSet doc ids
  | _ => True

theorem Value.IsAtom.isOf {v : Value} (h : v.IsAtom) : v.IsOf doc := by
  cases v with
  | nodes ids => cases h
  | _ => trivial

theorem Value.IsOf.toNodes {v : Value} (h : v.IsOf doc) (use : NodeSetUse) :
    SucceedsWith (IsNodeSet doc) (v.toNodes use) := by
  cases v with
  | nodes ids => exact .ok h
  | _ => exact .error _

/-- The context is a place in a document that was read, and its variables have values of that
document. -/
structure Context.Sound (context : Context) : Prop where
  numbered : Numbered context.doc
  node : context.node < context.doc.size
  current : context.current < context.doc.size
  bindings : ∀ name v, (name, v) ∈ context.bindings → v.IsOf context.doc

theorem Context.Sound.lookup (h : context.Sound) (name : String) :
    SucceedsWith (Value.IsOf context.doc) (context.lookup name) := by
  intro v hv
  rw [Context.lookup] at hv
  split at hv
  · next bound hlookup =>
      cases hv
      obtain ⟨before, after, hbindings, -⟩ := List.lookup_eq_some_iff.mp hlookup
      exact h.bindings name v (hbindings ▸ List.mem_append_right before List.mem_cons_self)
  · cases hv

section

variable [Regex.Engine]

mutual

/-- If the value of an expression is a node-set, it is one of the document. -/
theorem Expr.eval_isOf (h : context.Sound) :
    (e : Expr) → SucceedsWith (Value.IsOf context.doc) (e.eval context)
  | .binary operator left right => by
      have hleft := left.eval_isOf h
      have hright := right.eval_isOf h
      cases operator with
      | or =>
          refine .after fun a => ?_
          split
          · exact .ok trivial
          · exact .after fun _ => .ok trivial
      | and =>
          refine .after fun a => ?_
          split
          · exact .after fun _ => .ok trivial
          · exact .ok trivial
      | compare | arithmetic => exact .after fun _ => .after fun _ => .ok trivial
      | union =>
          refine hleft.bind fun a ha => (ha.toNodes _).bind fun xs hxs =>
            hright.bind fun b hb => (hb.toNodes _).bind fun ys hys => .ok ?_
          exact IsNodeSet.documentOrder (List.forall_mem_append.mpr ⟨hxs.lt_size, hys.lt_size⟩)
  | .negate _ => .after fun _ => .ok trivial
  | .literal _ => .ok trivial
  | .number _ => .ok trivial
  | .variableRef name => h.lookup name
  | .call function arguments => by
      by_cases hcurrent : function = .current
      · subst hcurrent
        exact .ok (IsNodeSet.singleton h.current)
      · intro v hv
        exact (function.apply_isAtom hcurrent _ context v hv).isOf
  | .filter operand predicates =>
      (operand.eval_isOf h).bind fun a ha => (ha.toNodes _).bind fun ids hids =>
        (select_sublist predicates ids).bind fun kept hkept =>
          .ok (IsNodeSet.sublist hids hkept)
  | .path start steps =>
      (start.eval_isOf h).bind fun ids hids =>
        (walkSteps_isNodeSet h.numbered steps hids).bind fun found hfound => .ok hfound

theorem PathStart.eval_isOf (h : context.Sound) :
    (start : PathStart) → SucceedsWith (IsNodeSet context.doc) (start.eval context)
  | .root => .ok (.singleton h.numbered.linked.size_pos)
  | .context => .ok (.singleton h.node)
  | .nodes operand => (operand.eval_isOf h).bind fun _ ha => ha.toNodes _

end

/-- In a document that was read, with variables whose node-sets are in document order, the nodes
that an expression selects are in document order, each once. -/
theorem eval_isNodeSet (text : String) (doc : Document) (hparse : parse text = .ok doc)
    (context : Context) (hdoc : context.doc = doc) (hnode : context.node < doc.size)
    (hcurrent : context.current < doc.size)
    (hbindings : ∀ name ids, (name, .nodes ids) ∈ context.bindings → IsNodeSet doc ids)
    (e : Expr) (ids : List NodeId) (heval : e.eval context = .ok (.nodes ids)) :
    IsNodeSet doc ids := by
  subst hdoc
  have hvalues (name : String) (v : Value) (hv : (name, v) ∈ context.bindings) :
      v.IsOf context.doc := by
    cases v with
    | nodes ids => exact hbindings name ids hv
    | _ => trivial
  exact e.eval_isOf ⟨numbered_of_parse hparse, hnode, hcurrent, hvalues⟩ _ heval

end

/-- The expression `$v/ancestor::node()/preceding-sibling::* | current()`. -/
def ancestorsSiblings : Expr :=
  .binary .union
    (.path (.nodes (.variableRef "v")) [.mk .ancestor .node [], .mk .precedingSibling .any []])
    (.call .current [])

/-- The nodes of the variable share ancestors, and both steps go backwards. -/
theorem eval_isNodeSet_ancestorsSiblings :
    ∃ doc, parse "<a><b/><c><d/></c><e/></a>" = .ok doc ∧ IsNodeSet doc [2, 4] ∧
      ancestorsSiblings.eval
        { doc, node := 5, current := 3, bindings := [("v", .nodes [2, 4])] } =
          .ok (.nodes [2, 3]) ∧
        IsNodeSet doc [2, 3] := by
  let doc : Document := ⟨#[
    { kind := .document, children := #[1] },
    { kind := .element (.plain "a") [], parent := some 0, children := #[2, 3, 5] },
    { kind := .element (.plain "b") [], parent := some 1 },
    { kind := .element (.plain "c") [], parent := some 1, children := #[4] },
    { kind := .element (.plain "d") [], parent := some 3 },
    { kind := .element (.plain "e") [], parent := some 1 }]⟩
  have hparse : parse "<a><b/><c><d/></c><e/></a>" = .ok doc := rfl
  have hvariable : IsNodeSet doc [2, 4] := ⟨by decide, by decide⟩
  have heval : ancestorsSiblings.eval
      { doc, node := 5, current := 3, bindings := [("v", .nodes [2, 4])] } =
        .ok (.nodes [2, 3]) := by cbv
  refine ⟨doc, hparse, hvariable, heval, ?_⟩
  refine eval_isNodeSet _ doc hparse _ rfl (by decide) (by decide) ?_ _ _ heval
  intro name ids hmem
  cases List.mem_singleton.mp hmem
  exact hvariable

end Schematron.XPath
