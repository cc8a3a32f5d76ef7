import Schematron.Proofs.Outcome
import Schematron.Schema.Diagnostic

/-!
# Results of stages

What holds of the result of a run of a stage whenever it has one, whatever warnings were kept
before and during the run (`Yields`, which is said of runs with any state, as an expansion keeps the
instances it has completed and no warnings), and on what it depends that there is a result
(`Decides`).
-/

namespace Schematron.Schema

/-- Whenever the run has a result, it is one of these. -/
def Yields {σ α : Type} (m : StateT σ (Except StageFault) α) (P : α → Prop) : Prop :=
  ∀ s x s', m.run s = .ok (x, s') → P x

namespace Yields

variable {σ α β : Type} {P : α → Prop} {Q : β → Prop} {m : StateT σ (Except StageFault) α}

theorem pure {x : α} (h : P x) : Yields (Pure.pure x : StateT σ (Except StageFault) α) P := by
  intro s y s' hrun
  cases hrun
  exact h

theorem throw {fault : StageFault} :
    Yields (MonadExcept.throw fault : StateT σ (Except StageFault) α) P := by
  intro s x s' hrun
  cases hrun

theorem bind {f : α → StateT σ (Except StageFault) β} (hm : Yields m P)
    (hf : ∀ x, P x → Yields (f x) Q) : Yields (m >>= f) Q := by
  intro s y s' hrun
  rw [StateT.run_bind] at hrun
  obtain ⟨⟨x, middle⟩, hx, hy⟩ := bind_eq_ok.mp hrun
  exact hf x (hm s x middle hx) middle y s' hy

/-- Of a part of a run whose result does not matter nothing has to be known. -/
theorem then_ {f : α → StateT σ (Except StageFault) β} (hf : ∀ x, Yields (f x) Q) :
    Yields (m >>= f) Q :=
  bind (P := fun _ => True) (fun _ _ _ _ => trivial) fun x _ => hf x

/-- A result is that of a run. -/
theorem run (m : StateT σ (Except StageFault) α) :
    Yields m fun x => ∃ s s', m.run s = .ok (x, s') :=
  fun s _ s' hrun => ⟨s, s', hrun⟩

theorem mapM {f : α → StateT σ (Except StageFault) β} {xs : List α} (h : ∀ x ∈ xs, Yields (f x) Q) :
    Yields (xs.mapM f) fun ys => ∀ y ∈ ys, Q y := by
  induction xs with
  | nil => exact pure nofun
  | cons x xs ih =>
      rw [List.mapM_cons]
      refine (h x List.mem_cons_self).bind fun y hy => ?_
      refine (ih fun x hx => h x (List.mem_cons_of_mem _ hx)).bind fun ys hys => ?_
      exact pure (List.forall_mem_cons.mpr ⟨hy, hys⟩)

/-- What every step keeps, the whole fold keeps. -/
theorem foldlM {f : β → α → StateT σ (Except StageFault) β} {xs : List α} {b : β} (hb : Q b)
    (h : ∀ b, Q b → ∀ x ∈ xs, Yields (f b x) Q) : Yields (xs.foldlM f b) Q := by
  induction xs generalizing b with
  | nil => exact pure hb
  | cons x xs ih =>
      rw [List.foldlM_cons]
      refine (h b hb x List.mem_cons_self).bind fun b hb => ?_
      exact ih hb fun b hb x hx => h b hb x (List.mem_cons_of_mem _ hx)

end Yields

/-- The run has a result just if `good` holds, and the result is one of these; otherwise a
diagnostic ends it. -/
structure Decides {α : Type} (m : StageRun α) (good : Prop) (P : α → Prop) : Prop where
  completes : good → ∀ sink, ∃ x sink', m.run sink = .ok (x, sink')
  result : ∀ {sink x sink'}, m.run sink = .ok (x, sink') → good ∧ P x
  diagnosed : ∀ {sink fault}, m.run sink = .error fault → ∃ d, fault = .diagnostic d

namespace Decides

variable {α β : Type} {P : α → Prop} {Q : β → Prop} {good more : Prop}

theorem pure {x : α} (h : P x) : Decides (Pure.pure x) True P where
  completes _ sink := ⟨x, sink, rfl⟩
  result hrun := by
    cases hrun
    exact ⟨trivial, h⟩
  diagnosed hrun := by cases hrun

theorem throw {d : Diagnostic} (h : ¬ good) :
    Decides (MonadExcept.throw (.diagnostic d) : StageRun α) good P where
  completes hgood := absurd hgood h
  result hrun := by cases hrun
  diagnosed hrun := by
    cases hrun
    exact ⟨d, rfl⟩

theorem warn (message : String) : Decides (StageRun.warn message) True fun _ => True where
  completes _ sink := ⟨(), sink.warn message, rfl⟩
  result _ := ⟨trivial, trivial⟩
  diagnosed hrun := by cases hrun

theorem bind {m : StageRun α} {f : α → StageRun β} (hm : Decides m good P)
    (hf : ∀ x, P x → Decides (f x) more Q) : Decides (m >>= f) (good ∧ more) Q where
  completes := by
    rintro ⟨hgood, hmore⟩ sink
    obtain ⟨x, middle, hx⟩ := hm.completes hgood sink
    obtain ⟨y, sink', hy⟩ := (hf x (hm.result hx).2).completes hmore middle
    exact ⟨y, sink', by rw [StateT.run_bind, hx]; exact hy⟩
  result := by
    intro sink y sink' hrun
    rw [StateT.run_bind] at hrun
    obtain ⟨⟨x, middle⟩, hx, hy⟩ := bind_eq_ok.mp hrun
    obtain ⟨hgood, hP⟩ := hm.result hx
    obtain ⟨hmore, hQ⟩ := (hf x hP).result hy
    exact ⟨⟨hgood, hmore⟩, hQ⟩
  diagnosed := by
    intro sink fault hrun
    rw [StateT.run_bind] at hrun
    cases hx : m.run sink with
    | error fault' =>
        rw [hx] at hrun
        cases hrun
        exact hm.diagnosed hx
    | ok x =>
        rw [hx] at hrun
        exact (hf x.1 (hm.result hx).2).diagnosed hrun

theorem congr {m : StageRun α} {R : α → Prop} (h : Decides m good P) (hgood : good ↔ more)
    (hP : ∀ x, P x → R x) : Decides m more R where
  completes hmore := h.completes (hgood.mpr hmore)
  result hrun := ⟨hgood.mp (h.result hrun).1, hP _ (h.result hrun).2⟩
  diagnosed := h.diagnosed

end Decides

end Schematron.Schema
