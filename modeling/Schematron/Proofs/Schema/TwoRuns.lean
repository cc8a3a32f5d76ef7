import Schematron.Proofs.Schema.StageRun

/-!
# Two runs of stages

A run of a stage is set against another one.

* `Gives` — the results that a run can have, whatever warnings were kept before it;
* `Relates` — what the two results have in common if both runs have one.
-/

namespace Schematron.Schema

/-- The run can have the result. -/
def Gives {α : Type} (m : StageRun α) (x : α) : Prop := ∃ sink sink', m.run sink = .ok (x, sink')

/-- If both runs have a result, the two results are related. -/
def Relates {α β : Type} (R : α → β → Prop) (m : StageRun α) (n : StageRun β) : Prop :=
  ∀ x y, Gives m x → Gives n y → R x y

section

variable {α β γ δ : Type}

theorem Gives.pure {x y : α} (h : Gives (Pure.pure x) y) : x = y := by
  obtain ⟨sink, sink', hrun⟩ := h
  cases hrun
  rfl

theorem Gives.bind {m : StageRun α} {f : α → StageRun β} {y : β} (h : Gives (m >>= f) y) :
    ∃ x, Gives m x ∧ Gives (f x) y := by
  obtain ⟨sink, sink', hrun⟩ := h
  rw [StateT.run_bind] at hrun
  obtain ⟨⟨x, middle⟩, hx, hy⟩ := bind_eq_ok.mp hrun
  exact ⟨x, ⟨sink, middle, hx⟩, middle, sink', hy⟩

theorem not_gives_throw {fault : StageFault} {x : α} :
    ¬ Gives (MonadExcept.throw fault : StageRun α) x := by
  rintro ⟨sink, sink', hrun⟩
  cases hrun

theorem Gives.mapM {f : α → StageRun β} {xs : List α} {ys : List β} (h : Gives (xs.mapM f) ys) :
    List.Forall₂ (fun x y => Gives (f x) y) xs ys := by
  induction xs generalizing ys with
  | nil =>
      obtain rfl := Gives.pure h
      exact .nil
  | cons x xs ih =>
      rw [List.mapM_cons] at h
      obtain ⟨y, hy, h⟩ := h.bind
      obtain ⟨rest, hrest, h⟩ := h.bind
      obtain rfl := h.pure
      exact .cons hy (ih hrest)

end

namespace Relates

variable {α β γ δ : Type} {R : α → β → Prop} {S : γ → δ → Prop}

theorem pure {x : α} {y : β} (h : R x y) : Relates R (Pure.pure x) (Pure.pure y) := by
  intro x' y' hx hy
  obtain rfl := hx.pure
  obtain rfl := hy.pure
  exact h

theorem throw_left {fault : StageFault} {n : StageRun β} :
    Relates R (MonadExcept.throw fault) n := fun _ _ hx _ => absurd hx not_gives_throw

theorem throw_right {fault : StageFault} {m : StageRun α} :
    Relates R m (MonadExcept.throw fault) := fun _ _ _ hy => absurd hy not_gives_throw

theorem bind {m : StageRun α} {n : StageRun β} {f : α → StageRun γ} {g : β → StageRun δ}
    (h : Relates R m n) (hfg : ∀ x y, R x y → Relates S (f x) (g y)) :
    Relates S (m >>= f) (n >>= g) := by
  intro z w hz hw
  obtain ⟨x, hx, hz⟩ := hz.bind
  obtain ⟨y, hy, hw⟩ := hw.bind
  exact hfg x y (h x y hx hy) z w hz hw

/-- Of parts whose results do not matter nothing has to be known. -/
theorem then_ {m : StageRun α} {n : StageRun β} {f : α → StageRun γ} {g : β → StageRun δ}
    (hfg : ∀ x y, Relates S (f x) (g y)) : Relates S (m >>= f) (n >>= g) :=
  bind (R := fun _ _ => True) (fun _ _ _ _ => trivial) fun x y _ => hfg x y

theorem mapM {ι : Type} {f : ι → StageRun α} {g : ι → StageRun β} {xs : List ι}
    (h : ∀ x ∈ xs, Relates R (f x) (g x)) :
    Relates (List.Forall₂ R) (xs.mapM f) (xs.mapM g) := by
  induction xs with
  | nil => exact pure .nil
  | cons x xs ih =>
      rw [List.mapM_cons, List.mapM_cons]
      refine bind (h x List.mem_cons_self) fun y z hyz => ?_
      refine bind (ih fun x hx => h x (List.mem_cons_of_mem _ hx)) fun ys zs hyszs => ?_
      exact pure (.cons hyz hyszs)

theorem foldlM {ι : Type} {f : α → ι → StageRun α} {g : β → ι → StageRun β} {xs : List ι}
    (h : ∀ b c, R b c → ∀ x ∈ xs, Relates R (f b x) (g c x)) {b : α} {c : β} (hbc : R b c) :
    Relates R (xs.foldlM f b) (xs.foldlM g c) := by
  induction xs generalizing b c with
  | nil => exact pure hbc
  | cons x xs ih =>
      rw [List.foldlM_cons, List.foldlM_cons]
      refine bind (h b c hbc x List.mem_cons_self) fun b c hbc => ?_
      exact ih (fun b c hbc x hx => h b c hbc x (List.mem_cons_of_mem _ hx)) hbc

end Relates

end Schematron.Schema
