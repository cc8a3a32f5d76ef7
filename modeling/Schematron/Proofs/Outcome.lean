import Mathlib.Data.List.Forall2

/-!
# Computations that can fail

What is known of the steps of a computation that came to a result: each of them did, and gave what
the next one went on with.
-/

namespace Schematron

variable {ε α β : Type}

/-- A sequence of two steps has a result just if both have one. -/
theorem bind_eq_ok {x : Except ε α} {f : α → Except ε β} {b : β} :
    x >>= f = .ok b ↔ ∃ a, x = .ok a ∧ f a = .ok b := by
  constructor
  · intro h
    cases x with
    | error e => cases h
    | ok a => exact ⟨a, rfl, h⟩
  · rintro ⟨a, rfl, h⟩
    exact h

theorem map_eq_ok {x : Except ε α} {f : α → β} {b : β} :
    x.map f = .ok b ↔ ∃ a, x = .ok a ∧ f a = b := by
  constructor
  · intro h
    cases x with
    | error e => cases h
    | ok a =>
        cases h
        exact ⟨a, rfl, rfl⟩
  · rintro ⟨a, rfl, rfl⟩
    rfl

theorem toOption_eq_some {x : Except ε α} {a : α} : x.toOption = some a ↔ x = .ok a := by
  cases x with
  | ok b => simp [Except.toOption]
  | error e => simp [Except.toOption]

theorem isOk_iff_exists {x : Except ε α} : x.isOk = true ↔ ∃ a, x = .ok a := by
  cases x with
  | ok a => exact iff_of_true rfl ⟨a, rfl⟩
  | error e => exact iff_of_false nofun nofun

/-- A step for each element of a list has results just if each step has one. -/
theorem mapM_eq_ok {f : α → Except ε β} {xs : List α} {ys : List β} :
    xs.mapM f = .ok ys ↔ List.Forall₂ (fun x y => f x = .ok y) xs ys := by
  induction xs generalizing ys with
  | nil =>
      rw [List.mapM_nil, List.forall₂_nil_left_iff]
      constructor
      · intro h
        cases h
        rfl
      · rintro rfl
        rfl
  | cons x xs ih =>
      rw [List.mapM_cons, List.forall₂_cons_left_iff]
      simp only [bind_eq_ok, ih]
      constructor
      · rintro ⟨y, hy, zs, hzs, h⟩
        cases h
        exact ⟨y, zs, hy, hzs, rfl⟩
      · rintro ⟨y, zs, hy, hzs, rfl⟩
        exact ⟨y, hy, zs, hzs, rfl⟩

theorem forall₂_mem_left {R : α → β → Prop} {xs : List α} {ys : List β}
    (h : List.Forall₂ R xs ys) {x : α} (hx : x ∈ xs) : ∃ y ∈ ys, R x y := by
  induction h with
  | nil => cases hx
  | cons hxy _ ih =>
      rcases List.mem_cons.mp hx with rfl | hx
      · exact ⟨_, List.mem_cons_self, hxy⟩
      · obtain ⟨y, hy, hR⟩ := ih hx
        exact ⟨y, List.mem_cons_of_mem _ hy, hR⟩

/-- Steps that agree on the elements of a list give the same results. -/
theorem mapM_congr {f g : α → Except ε β} {xs : List α} (h : ∀ x ∈ xs, f x = g x) :
    xs.mapM f = xs.mapM g := by
  induction xs with
  | nil => rfl
  | cons x xs ih =>
      rw [List.mapM_cons, List.mapM_cons, h x List.mem_cons_self,
        ih fun x hx => h x (List.mem_cons_of_mem _ hx)]

theorem mapM_append (f : α → Except ε β) (xs ys : List α) :
    (xs ++ ys).mapM f = xs.mapM f >>= fun as => (ys.mapM f).map (as ++ ·) := by
  rw [List.mapM_append]
  cases xs.mapM f with
  | error e => rfl
  | ok as => cases ys.mapM f <;> rfl

/-- Steps that have nothing to add can be left out. -/
theorem filterMap_mapM_filter {f : α → Except ε (Option β)} {p : α → Bool}
    (hf : ∀ x, p x = false → f x = .ok none) (xs : List α) :
    (xs.mapM f).map (List.filterMap id) = ((xs.filter p).mapM f).map (List.filterMap id) := by
  induction xs with
  | nil => rfl
  | cons x xs ih =>
      have hcons (y : Option β) (rest : Except ε (List (Option β))) :
          (do let ys ← rest; pure (y :: ys)).map (List.filterMap id) =
            (rest.map (List.filterMap id)).map (y.toList ++ ·) := by
        cases rest with
        | error e => rfl
        | ok ys => cases y <;> rfl
      rw [List.mapM_cons]
      cases hx : p x with
      | false =>
          rw [hf x hx, List.filter_cons_of_neg (by simp [hx]), ← ih]
          refine (hcons none (xs.mapM f)).trans ?_
          cases (xs.mapM f).map (List.filterMap id) <;> rfl
      | true =>
          rw [List.filter_cons_of_pos hx, List.mapM_cons]
          cases f x with
          | error e => rfl
          | ok y => exact (hcons y _).trans ((congrArg _ ih).trans (hcons y _).symm)

/-- What holds of every result holds of all of them. -/
theorem forall_of_mapM {f : α → Except ε β} {P : β → Prop} {xs : List α} {ys : List β}
    (h : xs.mapM f = .ok ys) (hf : ∀ x ∈ xs, ∀ y, f x = .ok y → P y) : ∀ y ∈ ys, P y := by
  rw [mapM_eq_ok] at h
  induction h with
  | nil => simp
  | cons hxy _ ih =>
      intro y hy
      rcases List.mem_cons.mp hy with rfl | hy
      · exact hf _ List.mem_cons_self _ hxy
      · exact ih (fun x hx => hf x (List.mem_cons_of_mem _ hx)) y hy

/-- A step for each element of a list has some results just if each step has some. -/
theorem exists_mapM_eq_ok {f : α → Except ε β} {xs : List α} :
    (∃ ys, xs.mapM f = .ok ys) ↔ ∀ x ∈ xs, ∃ y, f x = .ok y := by
  induction xs with
  | nil => exact ⟨fun _ => nofun, fun _ => ⟨[], rfl⟩⟩
  | cons x xs ih =>
      simp only [List.mapM_cons, bind_eq_ok, List.forall_mem_cons, ← ih]
      constructor
      · rintro ⟨_, y, hy, ys, hys, -⟩
        exact ⟨⟨y, hy⟩, ys, hys⟩
      · rintro ⟨⟨y, hy⟩, ys, hys⟩
        exact ⟨_, y, hy, ys, hys, rfl⟩

theorem mem_of_mapM {f : α → Except ε β} {xs : List α} {ys : List β} (h : xs.mapM f = .ok ys)
    {y : β} : y ∈ ys ↔ ∃ x ∈ xs, f x = .ok y := by
  rw [mapM_eq_ok] at h
  induction h with
  | nil => simp
  | @cons x _ xs _ hx _ ih =>
      rw [List.mem_cons, ih]
      simp only [List.mem_cons, or_and_right, exists_or, exists_eq_left, hx, Except.ok.injEq]
      rw [eq_comm]

/-- What every step keeps holds after all of them. -/
theorem foldlM_induction {f : β → α → Except ε β} {P : β → Prop} {xs : List α} {b b' : β}
    (hstep : ∀ b, ∀ x ∈ xs, ∀ b', P b → f b x = .ok b' → P b') (hb : P b)
    (h : xs.foldlM f b = .ok b') : P b' := by
  induction xs generalizing b with
  | nil =>
      cases h
      exact hb
  | cons x xs ih =>
      rw [List.foldlM_cons, bind_eq_ok] at h
      obtain ⟨mid, hmid, hrest⟩ := h
      exact ih (fun b y hy => hstep b y (List.mem_cons_of_mem _ hy))
        (hstep b x List.mem_cons_self mid hb hmid) hrest

/-- Steps one after the other fail where the first one of them does. -/
theorem exists_of_foldlM_error {f : β → α → Except ε β} {xs : List α} {b : β} {e : ε}
    (h : xs.foldlM f b = .error e) :
    ∃ before x after b', xs = before ++ x :: after ∧ before.foldlM f b = .ok b' ∧
      f b' x = .error e := by
  induction xs generalizing b with
  | nil => cases h
  | cons x xs ih =>
      rw [List.foldlM_cons] at h
      cases hx : f b x with
      | error e' =>
          rw [hx] at h
          cases h
          exact ⟨[], x, xs, b, rfl, rfl, hx⟩
      | ok mid =>
          rw [hx] at h
          obtain ⟨before, y, after, b', rfl, hbefore, hy⟩ := ih h
          refine ⟨x :: before, y, after, b', rfl, ?_, hy⟩
          rw [List.foldlM_cons, hx]
          exact hbefore

/-! ## Faults -/

/-- If the computation fails, then with such a fault. -/
def FailsWith (P : ε → Prop) (x : Except ε α) : Prop := ∀ e, x = .error e → P e

namespace FailsWith

variable {P : ε → Prop}

theorem ok (a : α) : FailsWith P (.ok a : Except ε α) := nofun

theorem error {e : ε} (h : P e) : FailsWith P (.error e : Except ε α) := by
  intro e' he
  cases he
  exact h

/-- The second step is only reached with the result of the first. -/
theorem bind_of_ok {x : Except ε α} {f : α → Except ε β} (hx : FailsWith P x)
    (hf : ∀ a, x = .ok a → FailsWith P (f a)) : FailsWith P (x >>= f) := by
  cases x with
  | error e => exact error (hx e rfl)
  | ok a => exact hf a rfl

theorem bind {x : Except ε α} {f : α → Except ε β} (hx : FailsWith P x)
    (hf : ∀ a, FailsWith P (f a)) : FailsWith P (x >>= f) := hx.bind_of_ok fun a _ => hf a

theorem map {x : Except ε α} (f : α → β) (hx : FailsWith P x) : FailsWith P (x.map f) := by
  cases x with
  | error e => exact error (hx e rfl)
  | ok a => exact ok (f a)

theorem mapM {f : α → Except ε β} {xs : List α} (h : ∀ x ∈ xs, FailsWith P (f x)) :
    FailsWith P (xs.mapM f) := by
  induction xs with
  | nil => exact ok []
  | cons x xs ih =>
      rw [List.mapM_cons]
      refine (h x List.mem_cons_self).bind fun y => ?_
      exact (ih fun x hx => h x (List.mem_cons_of_mem _ hx)).bind fun ys => ok (y :: ys)

theorem foldlM {f : β → α → Except ε β} {xs : List α} (h : ∀ b, ∀ x ∈ xs, FailsWith P (f b x))
    (b : β) : FailsWith P (xs.foldlM f b) := by
  induction xs generalizing b with
  | nil => exact ok b
  | cons x xs ih =>
      rw [List.foldlM_cons]
      refine (h b x List.mem_cons_self).bind fun b => ?_
      exact ih (fun b x hx => h b x (List.mem_cons_of_mem _ hx)) b

end FailsWith

/-! ## Results -/

/-- If the computation has a result, then such a one. -/
def SucceedsWith (P : α → Prop) (x : Except ε α) : Prop := ∀ a, x = .ok a → P a

namespace SucceedsWith

variable {P : α → Prop} {Q : β → Prop}

theorem ok {a : α} (h : P a) : SucceedsWith P (.ok a : Except ε α) := by
  rintro _ ⟨⟩
  exact h

theorem error (e : ε) : SucceedsWith P (.error e : Except ε α) := nofun

/-- The second step is only reached with a result of the first. -/
theorem bind {x : Except ε α} {f : α → Except ε β} (hx : SucceedsWith P x)
    (hf : ∀ a, P a → SucceedsWith Q (f a)) : SucceedsWith Q (x >>= f) := by
  cases x with
  | error e => exact error e
  | ok a => exact hf a (hx a rfl)

/-- Whatever the result of the first step is. -/
theorem after {x : Except ε α} {f : α → Except ε β} (hf : ∀ a, SucceedsWith Q (f a)) :
    SucceedsWith Q (x >>= f) := by
  cases x with
  | error e => exact error e
  | ok a => exact hf a

end SucceedsWith

/-! ## Two computations -/

/-- If both computations have a result, it is the same one. -/
def Agree (x y : Except ε α) : Prop := ∀ a b, x = .ok a → y = .ok b → a = b

namespace Agree

theorem refl (x : Except ε α) : Agree x x := fun _ _ ha hb => Except.ok.inj (ha.symm.trans hb)

theorem bind {x y : Except ε α} {f g : α → Except ε β} (h : Agree x y)
    (hfg : ∀ a, Agree (f a) (g a)) : Agree (x >>= f) (y >>= g) := by
  intro c d hc hd
  obtain ⟨a, ha, hc⟩ := bind_eq_ok.mp hc
  obtain ⟨b, hb, hd⟩ := bind_eq_ok.mp hd
  obtain rfl := h a b ha hb
  exact hfg a c d hc hd

end Agree

/-- The computations have the same fault, or results that are related. -/
inductive Corresponds (R : α → β → Prop) : Except ε α → Except ε β → Prop
  | fault (e : ε) : Corresponds R (.error e) (.error e)
  | result {a : α} {b : β} (h : R a b) : Corresponds R (.ok a) (.ok b)

namespace Corresponds

variable {γ δ : Type} {R : α → β → Prop} {S : γ → δ → Prop}

theorem bind {x : Except ε α} {y : Except ε β} {f : α → Except ε γ} {g : β → Except ε δ}
    (h : Corresponds R x y) (hfg : ∀ a b, R a b → Corresponds S (f a) (g b)) :
    Corresponds S (x >>= f) (y >>= g) := by
  cases h with
  | fault e => exact .fault e
  | result hab => exact hfg _ _ hab

theorem mapM {f : α → Except ε γ} {g : β → Except ε δ} {xs : List α} {ys : List β}
    (h : List.Forall₂ R xs ys) (hfg : ∀ a b, R a b → Corresponds S (f a) (g b)) :
    Corresponds (List.Forall₂ S) (xs.mapM f) (ys.mapM g) := by
  induction h with
  | nil => exact .result .nil
  | cons hab _ ih =>
      rw [List.mapM_cons, List.mapM_cons]
      exact (hfg _ _ hab).bind fun c d hcd => ih.bind fun cs ds hrest => .result (.cons hcd hrest)

theorem map {x : Except ε α} {y : Except ε β} {f : α → γ} {g : β → δ} (h : Corresponds R x y)
    (hfg : ∀ a b, R a b → S (f a) (g b)) : Corresponds S (x.map f) (y.map g) := by
  cases h with
  | fault e => exact .fault e
  | result hab => exact .result (hfg _ _ hab)

theorem mono {R' : α → β → Prop} {x : Except ε α} {y : Except ε β} (h : Corresponds R x y)
    (hR : ∀ a b, R a b → R' a b) : Corresponds R' x y := by
  cases h with
  | fault e => exact .fault e
  | result hab => exact .result (hR _ _ hab)

theorem symm {R' : β → α → Prop} {x : Except ε α} {y : Except ε β} (h : Corresponds R x y)
    (hR : ∀ a b, R a b → R' b a) : Corresponds R' y x := by
  cases h with
  | fault e => exact .fault e
  | result hab => exact .result (hR _ _ hab)

theorem trans {R' : β → γ → Prop} {R'' : α → γ → Prop} {x : Except ε α} {y : Except ε β}
    {z : Except ε γ} (h : Corresponds R x y) (h' : Corresponds R' y z)
    (hR : ∀ a b c, R a b → R' b c → R'' a c) : Corresponds R'' x z := by
  cases h with
  | fault e =>
      cases h' with
      | fault _ => exact .fault e
  | result hab =>
      cases h' with
      | result hbc => exact .result (hR _ _ _ hab hbc)

theorem right {R : α → α → Prop} {x y : Except ε α} (h : Corresponds R x y)
    (hR : ∀ a b, R a b → R b b) : Corresponds R y y := by
  cases h with
  | fault e => exact .fault e
  | result hab => exact .result (hR _ _ hab)

theorem map_left {R' : γ → β → Prop} {x : Except ε α} {y : Except ε β} {f : α → γ}
    (h : Corresponds R x y) (hf : ∀ a b, R a b → R' (f a) b) : Corresponds R' (x.map f) y := by
  cases h with
  | fault e => exact .fault e
  | result hab => exact .result (hf _ _ hab)

/-- What is done to the second result can as well be done in the relation. -/
theorem of_map_right {R : α → γ → Prop} {x : Except ε α} {y : Except ε β} {f : β → γ}
    (h : Corresponds R x (y.map f)) : Corresponds (fun a b => R a (f b)) x y := by
  cases y with
  | error e =>
      cases h with
      | fault _ => exact .fault e
  | ok b =>
      cases h with
      | result hab => exact .result hab

theorem of_eq {x y : Except ε α} (h : x = y) : Corresponds Eq x y := by
  subst h
  cases x with
  | error e => exact .fault e
  | ok a => exact .result rfl

theorem eq {x y : Except ε α} (h : Corresponds Eq x y) : x = y := by
  cases h with
  | fault e => rfl
  | result hab => rw [hab]

end Corresponds

end Schematron
