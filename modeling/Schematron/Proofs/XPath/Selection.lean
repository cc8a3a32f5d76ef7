import Mathlib.Data.List.Nodup
import Schematron.Proofs.Numeric.WholeDoubles
import Schematron.Proofs.Outcome
import Schematron.XPath.Evaluation

/-!
# What predicates select

A predicate whose value is a truth value at each node keeps the nodes at which it is true
(`select_test`), and one that is a whole number keeps the node at this position
(`select_position`). Steps can be taken in two goes (`walkSteps_append`).
-/

namespace Schematron.XPath

open Xml

variable {context : Context} {ids : List NodeId} {id : NodeId}

/-! ## Predicates -/

theorem keepWith_eq_filter {α : Type} {test : α → Except EvalFault Bool} {p : α → Bool}
    {xs : List α} (h : ∀ x ∈ xs, test x = .ok (p x)) : keepWith test xs = .ok (xs.filter p) := by
  -- what was kept before stays, last first
  have hfold : ∀ (xs kept : List α), (∀ x ∈ xs, test x = .ok (p x)) →
      xs.foldlM (fun kept x => do .ok (if ← test x then x :: kept else kept)) kept =
        Except.ok ((xs.filter p).reverse ++ kept) := by
    intro xs
    induction xs with
    | nil => exact fun kept _ => rfl
    | cons x xs ih =>
        intro kept hxs
        rw [List.foldlM_cons, hxs x List.mem_cons_self]
        have hrest := ih (if p x then x :: kept else kept) fun y hy =>
          hxs y (List.mem_cons_of_mem _ hy)
        show xs.foldlM _ (if p x then x :: kept else kept) = _
        rw [hrest]
        by_cases hx : p x = true <;> simp [hx]
  rw [keepWith, hfold xs [] h]
  simp [bind, Except.bind]

variable [Regex.Engine]

/-- A predicate that is a truth value at each node. -/
theorem select_test {predicate : Expr} {rest : List Expr} {test : NodeId → Bool}
    (h : ∀ id ∈ ids, ∀ position size,
      predicate.eval (context.at id position size) = .ok (.boolean (test id))) :
    select context (predicate :: rest) ids = select context rest (ids.filter test) := by
  have hkept : ((ids.zipIdx 1).filter (test ∘ Prod.fst)).map Prod.fst = ids.filter test := by
    rw [← List.filter_map, List.zipIdx_map_fst]
  rw [select, keepWith_eq_filter (p := test ∘ Prod.fst)]
  · show select context rest (((ids.zipIdx 1).filter (test ∘ Prod.fst)).map Prod.fst) = _
    rw [hkept]
  · rintro ⟨id, position⟩ hmem
    have hid : id ∈ ids := List.fst_mem_of_mem_zipIdx hmem
    show (predicate.eval (context.at id position ids.length) >>= fun v => .ok (keeps position v)) = _
    rw [h id hid]
    rfl

/-- A conjunction of truth values. -/
theorem eval_and {left right : Expr} {a b : Bool} (hleft : left.eval context = .ok (.boolean a))
    (hright : right.eval context = .ok (.boolean b)) :
    (Expr.binary .and left right).eval context = .ok (.boolean (a && b)) := by
  rw [Expr.eval, hleft]
  cases a with
  | false => rfl
  | true =>
      show (right.eval context >>= fun v => Except.ok (Value.boolean v.toBool)) = _
      rw [hright]
      rfl

/-- A predicate that is a whole number keeps the node at this position. -/
theorem select_position {before after : List NodeId}
    (hlength : (before ++ id :: after).length < 2 ^ 53) :
    select context [.number (Numeric.Decimal.toFloat { digits := before.length + 1 })]
      (before ++ id :: after) = .ok [id] := by
  simp only [List.length_append, List.length_cons] at hlength
  have hkept : ((before ++ id :: after).zipIdx 1).filter
      (fun x => decide (before.length + 1 = x.2)) = [(id, before.length + 1)] := by
    have hbefore : (before.zipIdx 1).filter (fun x => decide (before.length + 1 = x.2)) = [] := by
      -- the positions before end where the wanted one is
      rw [List.filter_eq_nil_iff]
      rintro ⟨x, i⟩ hmem
      have hi := List.snd_lt_of_mem_zipIdx hmem
      simp
      omega
    have hafter : (after.zipIdx (before.length + 1 + 1)).filter
        (fun x => decide (before.length + 1 = x.2)) = [] := by
      rw [List.filter_eq_nil_iff]
      rintro ⟨x, i⟩ hmem
      have hi := List.le_snd_of_mem_zipIdx hmem
      simp
      omega
    rw [List.zipIdx_append, List.zipIdx_cons, List.filter_append, hbefore, List.nil_append,
      Nat.add_comm 1, List.filter_cons_of_pos (by simp), hafter]
  rw [select, keepWith_eq_filter (p := fun x => decide (before.length + 1 = x.2)), hkept]
  · rfl
  · rintro ⟨x, i⟩ hmem
    have hpos := List.le_snd_of_mem_zipIdx hmem
    have hlt := List.snd_lt_of_mem_zipIdx hmem
    simp only [List.length_append, List.length_cons] at hpos hlt
    show Except.ok (keeps i (.number _)) = _
    rw [keeps, Numeric.wholeFloat_beq (by omega) (by omega) (by omega) (by omega)]

/-! ## Steps -/

omit [Regex.Engine] in
theorem documentOrder_singleton (id : NodeId) : documentOrder [id] = [id] := by
  rw [documentOrder, List.mergeSort_singleton]
  rfl

theorem walkSteps_append (xs ys : List Step) (ids : List NodeId) :
    walkSteps context (xs ++ ys) ids =
      walkSteps context xs ids >>= walkSteps context ys := by
  induction xs generalizing ids with
  | nil => rfl
  | cons x xs ih =>
      rw [List.cons_append, walkSteps, walkSteps]
      cases ids.mapM (x.eval context) with
      | error e => rfl
      | ok found => exact ih (documentOrder found.flatten)

end Schematron.XPath
