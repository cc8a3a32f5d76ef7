import Schematron.Proofs.Outcome
import Schematron.Xml.Reference

/-!
# Escaped texts

Replacing the references in an escaped text gives the text back (`unescape_escaped`), and in an
escaped text no character stands that could end a run of text or an attribute value.

References are replaced in a text from left to right, so in the parts of a text as in the whole
(`unescape_append`), as long as no reference is cut.
-/

namespace Schematron.Xml.Reference

/-- The characters of a text as they are written. -/
def escaped (cs : List Char) : List Char := cs.flatMap escapeChar

theorem toList_escape (s : String) : (escape s).toList = escaped s.toList := by
  simp [escape, escaped]

theorem escapeChar_cases (c : Char) :
    (∃ name, (c, name) ∈ named ∧ escapeChar c = '&' :: name.toList ++ [';']) ∨
      (c ≠ '<' ∧ c ≠ '>' ∧ c ≠ '&' ∧ c ≠ '\'' ∧ c ≠ '"' ∧ escapeChar c = [c]) := by
  unfold escapeChar
  cases hlookup : named.lookup c with
  | some name =>
      obtain ⟨before, after, hnamed, -⟩ := List.lookup_eq_some_iff.mp hlookup
      exact .inl ⟨name, by simp [hnamed], rfl⟩
  | none =>
      have hnone := List.lookup_eq_none_iff.mp hlookup
      simp [named] at hnone
      grind

theorem foldlM_escapeChar (total offset : Nat) (done : List Char) (c : Char) :
    ∃ offset', (escapeChar c).foldlM (Replacing.step total) ⟨offset, done, none⟩ =
      .ok ⟨offset', c :: done, none⟩ := by
  rcases escapeChar_cases c with ⟨name, hnamed, hescape⟩ | ⟨-, -, hamp, -, -, hescape⟩
  · rw [hescape]
    simp only [named, List.mem_cons, Prod.mk.injEq, List.not_mem_nil, or_false] at hnamed
    rcases hnamed with ⟨rfl, rfl⟩ | ⟨rfl, rfl⟩ | ⟨rfl, rfl⟩ | ⟨rfl, rfl⟩ | ⟨rfl, rfl⟩ <;>
      exact ⟨_, rfl⟩
  · rw [hescape]
    have hstep : Replacing.step total ⟨offset, done, none⟩ c =
        .ok ⟨offset + c.utf8Size, c :: done, none⟩ := by
      simp [Replacing.step, hamp]
    exact ⟨_, by rw [List.foldlM_cons, hstep]; rfl⟩

theorem foldlM_escaped (total offset : Nat) (done cs : List Char) :
    ∃ offset', (escaped cs).foldlM (Replacing.step total) ⟨offset, done, none⟩ =
      .ok ⟨offset', cs.reverse ++ done, none⟩ := by
  induction cs generalizing offset done with
  | nil => exact ⟨offset, rfl⟩
  | cons c cs ih =>
      obtain ⟨middle, hc⟩ := foldlM_escapeChar total offset done c
      obtain ⟨offset', hcs⟩ := ih middle (c :: done)
      refine ⟨offset', ?_⟩
      rw [escaped, List.flatMap_cons, List.foldlM_append, hc, List.reverse_cons, List.append_assoc]
      exact hcs

/-- Escaping is undone by replacing references. -/
theorem unescape_escaped (cs : List Char) : unescape (escaped cs) = .ok cs := by
  obtain ⟨offset', h⟩ := foldlM_escaped (Markup.byteLength (escaped cs)) 0 [] cs
  rw [List.append_nil] at h
  refine bind_eq_ok.mpr ⟨_, h, ?_⟩
  rw [List.reverse_reverse]

theorem escaped_ne_nil {cs : List Char} (h : cs ≠ []) : escaped cs ≠ [] := by
  obtain ⟨c, rest, rfl⟩ := List.exists_cons_of_ne_nil h
  rw [escaped, List.flatMap_cons]
  rcases escapeChar_cases c with ⟨name, -, hescape⟩ | ⟨-, -, -, -, -, hescape⟩ <;> simp [hescape]

/-- Nothing that ends a run of text or a quoted value stands in an escaped text. -/
theorem not_mem_escaped {c : Char} (hc : c = '<' ∨ c = '"') (cs : List Char) : c ∉ escaped cs := by
  intro hmem
  obtain ⟨original, -, hmem⟩ := List.mem_flatMap.mp hmem
  rcases escapeChar_cases original with ⟨name, hnamed, hescape⟩ | ⟨hlt, -, -, -, hquot, hescape⟩
  · rw [hescape] at hmem
    simp only [named, List.mem_cons, Prod.mk.injEq, List.not_mem_nil, or_false] at hnamed
    rcases hnamed with ⟨rfl, rfl⟩ | ⟨rfl, rfl⟩ | ⟨rfl, rfl⟩ | ⟨rfl, rfl⟩ | ⟨rfl, rfl⟩ <;>
      rcases hc with rfl | rfl <;> revert hmem <;> decide
  · rw [hescape, List.mem_singleton] at hmem
    subst hmem
    rcases hc with rfl | rfl
    · exact hlt rfl
    · exact hquot rfl

/-! ## Texts one after the other -/

/-- What a reference stands for does not depend on where it stands. -/
theorem resolve_eq_ok {start : Nat} {name : List Char} {c : Char} (h : resolve start name = .ok c)
    (start' : Nat) : resolve start' name = .ok c := by
  unfold resolve at h ⊢
  split at h
  · exact h
  · exact h
  · split at h
    · exact h
    · cases h

/-- The second state has the characters of the first one behind some others, and the same
reference is open. -/
structure Replacing.Behind (done : List Char) (r r' : Replacing) : Prop where
  done : r'.done = r.done ++ done
  opened : r'.opened.map (·.2) = r.opened.map (·.2)

theorem Replacing.Behind.step {done : List Char} {r r' s : Replacing} (h : Behind done r r')
    {total : Nat} {c : Char} (hstep : r.step total c = .ok s) (total' : Nat) :
    ∃ s', r'.step total' c = .ok s' ∧ Behind done s s' := by
  obtain ⟨offset, seen, opened⟩ := r
  obtain ⟨offset', seen', opened'⟩ := r'
  obtain ⟨rfl, hopened⟩ := h
  unfold Replacing.step at hstep ⊢
  match opened, opened', hopened with
  | none, none, _ =>
      by_cases hamp : c == '&'
      · simp only [hamp, if_true, Except.ok.injEq] at hstep ⊢
        exact ⟨_, rfl, hstep ▸ ⟨rfl, rfl⟩⟩
      · simp only [hamp, Bool.false_eq_true, if_false, Except.ok.injEq] at hstep ⊢
        exact ⟨_, rfl, hstep ▸ ⟨rfl, rfl⟩⟩
  | some (start, name), some (start', name'), hopened =>
      obtain rfl : name' = name := Option.some.inj hopened
      by_cases hend : c == ';'
      · simp only [hend, if_true, bind_eq_ok, Except.ok.injEq] at hstep ⊢
        obtain ⟨meant, hmeant, rfl⟩ := hstep
        exact ⟨_, ⟨meant, resolve_eq_ok hmeant _, rfl⟩, rfl, rfl⟩
      · by_cases hamp : c == '&'
        · simp only [hend, hamp, Bool.false_eq_true, if_true, if_false] at hstep
          cases hstep
        · simp only [hend, hamp, Bool.false_eq_true, if_false, Except.ok.injEq] at hstep ⊢
          exact ⟨_, rfl, hstep ▸ ⟨rfl, rfl⟩⟩

theorem Replacing.Behind.foldlM {done : List Char} {r r' s : Replacing} (h : Behind done r r')
    {total : Nat} {cs : List Char} (hrun : cs.foldlM (Replacing.step total) r = .ok s)
    (total' : Nat) : ∃ s', cs.foldlM (Replacing.step total') r' = .ok s' ∧ Behind done s s' := by
  induction cs generalizing r r' with
  | nil =>
      cases hrun
      exact ⟨r', rfl, h⟩
  | cons c cs ih =>
      rw [List.foldlM_cons, bind_eq_ok] at hrun
      obtain ⟨mid, hmid, hrest⟩ := hrun
      obtain ⟨mid', hmid', hbehind⟩ := h.step hmid total'
      obtain ⟨s', hs', hresult⟩ := ih hbehind hrest
      exact ⟨s', by rw [List.foldlM_cons, hmid']; exact hs', hresult⟩

/-- References are replaced in two texts as they are in both together. -/
theorem unescape_append {xs ys text more : List Char} (hx : unescape xs = .ok text)
    (hy : unescape ys = .ok more) : unescape (xs ++ ys) = .ok (text ++ more) := by
  obtain ⟨r, hr, hend⟩ := bind_eq_ok.mp hx
  obtain ⟨s, hs, hend'⟩ := bind_eq_ok.mp hy
  have hfirst : Replacing.Behind [] {} {} := ⟨rfl, rfl⟩
  obtain ⟨r', hr', hdone, hopened⟩ := hfirst.foldlM hr (Markup.byteLength (xs ++ ys))
  rw [List.append_nil] at hdone
  split at hend
  · cases hend
  · next hnone =>
      cases hend
      -- no reference is open where the second text begins
      rw [hnone] at hopened
      have hsecond : Replacing.Behind r'.done {} r' := ⟨rfl, hopened⟩
      obtain ⟨s', hs', hdone', hopened'⟩ := hsecond.foldlM hs (Markup.byteLength (xs ++ ys))
      split at hend'
      · cases hend'
      · next hnone' =>
          cases hend'
          rw [hnone', Option.map_none, Option.map_eq_none_iff] at hopened'
          refine bind_eq_ok.mpr ⟨s', ?_, ?_⟩
          · rw [List.foldlM_append, hr']
            exact hs'
          · rw [hopened', hdone', hdone, List.reverse_append]

/-- The characters that are done stay. -/
theorem suffix_done_of_step {total : Nat} {r s : Replacing} {c : Char}
    (h : r.step total c = .ok s) : r.done <:+ s.done := by
  unfold Replacing.step at h
  dsimp only at h
  split at h
  · split at h
    · cases h
      exact List.suffix_refl _
    · cases h
      exact List.suffix_cons _ _
  · split at h
    · obtain ⟨meant, -, h⟩ := bind_eq_ok.mp h
      cases h
      exact List.suffix_cons _ _
    · split at h
      · cases h
      · cases h
        exact List.suffix_refl _

theorem step_of_ne {total : Nat} {r : Replacing} (hr : r.opened = none) {c : Char}
    (hc : c ≠ '&') :
    r.step total c = .ok { r with offset := r.offset + c.utf8Size, done := c :: r.done } := by
  unfold Replacing.step
  rw [hr]
  simp [hc]

/-- Text without references opens none. -/
theorem foldlM_of_not_mem {cs : List Char} (hcs : '&' ∉ cs) (total : Nat) {r : Replacing}
    (hr : r.opened = none) :
    ∃ r', cs.foldlM (Replacing.step total) r = .ok r' ∧ r'.opened = none := by
  induction cs generalizing r with
  | nil => exact ⟨r, rfl, hr⟩
  | cons c cs ih =>
      rw [List.mem_cons, not_or] at hcs
      rw [List.foldlM_cons, step_of_ne hr (Ne.symm hcs.1)]
      exact ih hcs.2 hr

/-- Without a reference before it a character stands for itself. -/
theorem mem_unescape {before after text : List Char} {c : Char}
    (h : unescape (before ++ c :: after) = .ok text) (hbefore : '&' ∉ before) (hc : c ≠ '&') :
    c ∈ text := by
  obtain ⟨s, hs, hend⟩ := bind_eq_ok.mp h
  generalize Markup.byteLength (before ++ c :: after) = total at hs hend
  obtain ⟨r, hr, hnone⟩ := foldlM_of_not_mem hbefore total (r := {}) rfl
  rw [List.foldlM_append, hr] at hs
  have hrest : (c :: after).foldlM (Replacing.step total) r = .ok s := hs
  rw [List.foldlM_cons, step_of_ne hnone hc] at hrest
  have hsuffix : c :: r.done <:+ s.done :=
    foldlM_induction (P := fun b => c :: r.done <:+ b.done)
      (fun b x _ b' hb hstep => hb.trans (suffix_done_of_step hstep)) (List.suffix_refl _) hrest
  split at hend
  · cases hend
  · cases hend
    exact List.mem_reverse.mpr (hsuffix.subset List.mem_cons_self)

end Schematron.Xml.Reference
