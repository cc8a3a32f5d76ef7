import Schematron.Proofs.Outcome
import Schematron.Proofs.Xml.Stripping
import Schematron.Schema.Diagnostic

/-!
# Runs side by side

Two runs go together if, begun in related states, they end with the same fault, or with related
results in related states (`Together`). Where states and results are related by partial
equivalences, so are the runs.

A run on trees one after the other, in which comments count for nothing and texts side by side for
one text, goes together with the run on the trees without comments, if it does so on every element
among them (`Gathers.together_cons`).
-/

namespace Schematron.Schema

open Xml (Tree)
open Xml.Tree (SameButComments bareAll putText)

variable {σ τ ε α β γ δ : Type}

/-- Begun in related states, the runs end with the same fault, or with related results in related
states. -/
def Together (T : σ → τ → Prop) (R : α → β → Prop) (m : StateT σ (Except ε) α)
    (n : StateT τ (Except ε) β) : Prop :=
  ∀ s t, T s t → Corresponds (fun x y => R x.1 y.1 ∧ T x.2 y.2) (m.run s) (n.run t)

namespace Together

variable {T : σ → τ → Prop} {R : α → β → Prop} {S : γ → δ → Prop}
  {m : StateT σ (Except ε) α} {n : StateT τ (Except ε) β}

theorem pure {x : α} {y : β} (h : R x y) :
    Together (ε := ε) T R (Pure.pure x) (Pure.pure y) :=
  fun _ _ hst => .result ⟨h, hst⟩

theorem throw {e : ε} : Together T R (MonadExcept.throw e : StateT σ (Except ε) α)
    (MonadExcept.throw e : StateT τ (Except ε) β) := fun _ _ _ => .fault e

/-- Steps that go on with a result, or end with a diagnostic in its place. -/
theorem ofExcept {R : α → β → Prop} {x : Except Diagnostic α} {y : Except Diagnostic β}
    (h : Corresponds R x y) : Together Eq R (StageRun.ofExcept x) (StageRun.ofExcept y) := by
  cases h with
  | fault d => exact .throw
  | result hxy => exact .pure hxy

theorem lift {T : σ → τ → Prop} {x : Except ε α} {y : Except ε β} (h : Corresponds R x y) :
    Together T R (liftM x : StateT σ (Except ε) α) (liftM y : StateT τ (Except ε) β) := by
  intro s t hst
  cases h with
  | fault e => exact .fault e
  | result hxy => exact .result ⟨hxy, hst⟩

theorem bind {f : α → StateT σ (Except ε) γ} {g : β → StateT τ (Except ε) δ}
    (h : Together T R m n) (hfg : ∀ x y, R x y → Together T S (f x) (g y)) :
    Together T S (m >>= f) (n >>= g) := by
  intro s t hst
  rw [StateT.run_bind, StateT.run_bind]
  exact (h s t hst).bind fun x y hxy => hfg x.1 y.1 hxy.1 x.2 y.2 hxy.2

theorem mono {R' : α → β → Prop} (h : Together T R m n) (hR : ∀ x y, R x y → R' x y) :
    Together T R' m n :=
  fun s t hst => (h s t hst).mono fun _ _ hxy => ⟨hR _ _ hxy.1, hxy.2⟩

/-- What is done to the result of the second run can as well be done in the relation. -/
theorem of_map_right {β' : Type} {f : β → β'} {R : α → β' → Prop} (h : Together T R m (f <$> n)) :
    Together T (fun x y => R x (f y)) m n :=
  fun s t hst => (h s t hst).of_map_right (f := fun y : β × τ => (f y.1, y.2))

theorem map_left {α' : Type} {f : α → α'} {R' : α' → β → Prop} (h : Together T R m n)
    (hf : ∀ x y, R x y → R' (f x) y) : Together T R' (f <$> m) n :=
  fun s t hst => (h s t hst).map_left (f := fun x : α × σ => (f x.1, x.2)) fun _ _ hxy =>
    ⟨hf _ _ hxy.1, hxy.2⟩

theorem symm {T' : τ → σ → Prop} {R' : β → α → Prop} (h : Together T R m n)
    (hT : ∀ s t, T s t ↔ T' t s) (hR : ∀ x y, R x y → R' y x) : Together T' R' n m :=
  fun t s hts => (h s t ((hT s t).mpr hts)).symm fun _ _ hxy =>
    ⟨hR _ _ hxy.1, (hT _ _).mp hxy.2⟩

end Together

/-! ## Runs between states of one kind -/

namespace Together

variable {T : σ → σ → Prop} {R : α → α → Prop} {m n o : StateT σ (Except ε) α}

theorem refl (m : StateT σ (Except ε) α) : Together Eq Eq m m := by
  rintro s _ rfl
  exact (Corresponds.of_eq rfl).mono fun _ _ h => h ▸ ⟨rfl, rfl⟩

/-- Runs that go together in all respects are the same. -/
theorem eq (h : Together Eq Eq m n) : m = n :=
  funext fun s => ((h s s rfl).mono fun _ _ hxy => Prod.ext hxy.1 hxy.2).eq

theorem trans (hT : ∀ s t, T s t → T t s) (hT' : ∀ s t u, T s t → T t u → T s u)
    (hR : ∀ x y z, R x y → R y z → R x z) (h : Together T R m n) (h' : Together T R n o) :
    Together T R m o := by
  intro s u hsu
  -- the run between the two begins in the state of the last one
  have huu : T u u := hT' u s u (hT s u hsu) hsu
  exact (h s u hsu).trans (h' u u huu) fun _ _ _ hxy hyz =>
    ⟨hR _ _ _ hxy.1 hyz.1, hT' _ _ _ hxy.2 hyz.2⟩

end Together

/-! ## Runs on trees -/

/-- In what is gathered from trees comments count for nothing, and texts side by side for one. -/
structure Merging (S : List α → List α → Prop) (text comment : String → List α) : Prop where
  refl : ∀ xs, S xs xs
  trans : ∀ xs ys zs, S xs ys → S ys zs → S xs zs
  append : ∀ xs xs' ys ys', S xs xs' → S ys ys' → S (xs ++ ys) (xs' ++ ys')
  texts : ∀ value more, S (text value ++ text more) (text (value ++ more))
  comment : ∀ value, S (comment value) []

theorem merging_trees :
    Merging SameButComments (fun value => [.text value]) (fun value => [.comment value]) where
  refl := SameButComments.refl
  trans _ _ _ := SameButComments.trans
  append _ _ _ _ := SameButComments.append
  texts := SameButComments.texts
  comment := SameButComments.comment

/-- A run that gathers something from trees one after the other. -/
structure Gathers (one : Tree → StateT σ (Except ε) (List α))
    (all : List Tree → StateT σ (Except ε) (List α)) (text comment : String → List α) : Prop where
  nil : all [] = pure []
  cons : ∀ tree rest, all (tree :: rest) = one tree >>= fun x => all rest >>= fun y => pure (x ++ y)
  text : ∀ value, one (.text value) = pure (text value)
  comment : ∀ value, one (.comment value) = pure (comment value)

namespace Gathers

variable {T : σ → τ → Prop} {S : List α → List α → Prop} {text comment : String → List α}
  {one : Tree → StateT σ (Except ε) (List α)} {all : List Tree → StateT σ (Except ε) (List α)}
  {one' : Tree → StateT τ (Except ε) (List α)} {all' : List Tree → StateT τ (Except ε) (List α)}

theorem all_text (h : Gathers one all text comment) (value : String) (rest : List Tree) :
    all (.text value :: rest) = (text value ++ ·) <$> all rest := by
  rw [h.cons, h.text, pure_bind, map_eq_pure_bind]

theorem all_comment (h : Gathers one all text comment) (value : String) (rest : List Tree) :
    all (.comment value :: rest) = (comment value ++ ·) <$> all rest := by
  rw [h.cons, h.comment, pure_bind, map_eq_pure_bind]

/-- A text in front, which the second run meets as a part of a longer one. -/
theorem together_text (hS : Merging S text comment) (h' : Gathers one' all' text comment)
    (value : String) (trees : List Tree) {m : StateT σ (Except ε) (List α)}
    (hm : Together T S m (all' trees)) :
    Together T S ((text value ++ ·) <$> m) (all' (putText value trees)) := by
  have hplain : Together T S ((text value ++ ·) <$> m) (all' (.text value :: trees)) := by
    rw [h'.all_text, map_eq_pure_bind, map_eq_pure_bind]
    exact hm.bind fun x y hxy => .pure (hS.append _ _ _ _ (hS.refl _) hxy)
  cases trees with
  | nil => exact hplain
  | cons tree rest =>
      cases tree with
      | text more =>
          rw [h'.all_text] at hm
          rw [putText, h'.all_text, map_eq_pure_bind, map_eq_pure_bind]
          refine hm.of_map_right.bind fun x y hxy => .pure ?_
          have hleft := hS.append _ _ _ _ (hS.refl (text value)) hxy
          have hright := hS.append _ _ _ _ (hS.texts value more) (hS.refl y)
          rw [List.append_assoc] at hright
          exact hS.trans _ _ _ hleft hright
      | _ => exact hplain

/-- One more tree in front of trees on which the runs go together. -/
theorem together_cons (hS : Merging S text comment) (h : Gathers one all text comment)
    (h' : Gathers one' all' text comment) {tree : Tree} {rest : List Tree}
    (hone : tree.isAnyElement = true → Together T S (one tree) (one' tree.bare))
    (hrest : Together T S (all rest) (all' (bareAll rest))) :
    Together T S (all (tree :: rest)) (all' (bareAll (tree :: rest))) := by
  cases tree with
  | element name declarations attributes children =>
      rw [h.cons, bareAll, Xml.Tree.bareOnto, h'.cons]
      exact (hone rfl).bind fun x x' hx => hrest.bind fun y y' hy =>
        .pure (hS.append _ _ _ _ hx hy)
  | text value =>
      rw [h.all_text, bareAll, Xml.Tree.bareOnto]
      exact h'.together_text hS value _ hrest
  | comment value =>
      rw [h.all_comment, bareAll, Xml.Tree.bareOnto]
      exact hrest.map_left fun x y hxy => hS.append _ _ _ _ (hS.comment value) hxy

end Gathers

end Schematron.Schema
