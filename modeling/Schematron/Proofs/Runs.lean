import Mathlib.Data.List.SplitBy
import Mathlib.Data.List.TakeDrop
import Mathlib.Data.List.TakeWhile
import Schematron.Text.Blank

/-!
# Runs of characters

Where a run of characters at the front of a text ends, and what a text is cut into at a character:
at its first place, or at all of them. Of the words of a text none holds a blank, so that no line
feed is in a normalized text, and texts without line feeds can be told again from their lines.
-/

namespace Schematron.Text

variable {α : Type} {p : α → Bool} {xs rest : List α}

/-- A run of characters that ends at the first one that does not belong to it. -/
theorem span_append (hxs : ∀ x ∈ xs, p x = true) (hrest : ∀ x ∈ rest.head?, p x = false) :
    (xs ++ rest).span p = (xs, rest) := by
  have hstop : rest.takeWhile p = [] ∧ rest.dropWhile p = rest := by
    cases rest with
    | nil => exact ⟨rfl, rfl⟩
    | cons x rest => simp [hrest x rfl]
  rw [List.span_eq_takeWhile_dropWhile, List.takeWhile_append_of_pos hxs,
    List.dropWhile_append_of_pos hxs, hstop.1, hstop.2, List.append_nil]

/-- A run ends in front of a text that does not go on with it. -/
theorem takeWhile_append_of_head? (h : ∀ x ∈ rest.head?, p x = false) :
    (xs ++ rest).takeWhile p = xs.takeWhile p := by
  have hrest : rest.takeWhile p = [] := by
    cases rest with
    | nil => rfl
    | cons x rest => simp [h x rfl]
  rw [List.takeWhile_append, hrest, List.append_nil]
  split
  · next hlength => exact (List.takeWhile_prefix p).eq_of_length hlength |>.symm
  · rfl

variable (p) in
/-- A run takes all that belongs to it. -/
theorem head?_dropWhile (xs : List α) : ∀ x ∈ (xs.dropWhile p).head?, p x = false := by
  intro x hx
  have hfirst := List.head?_dropWhile_not p xs
  rwa [show (xs.dropWhile p).head? = some x from hx] at hfirst

variable (p) in
/-- A text begins with a run, which can be empty. -/
theorem exists_run (xs : List α) : ∃ run rest, xs = run ++ rest ∧ (∀ x ∈ run, p x = true) ∧
    ∀ x ∈ rest.head?, p x = false :=
  ⟨_, _, List.takeWhile_append_dropWhile.symm, fun _ hx => List.mem_takeWhile_imp hx,
    head?_dropWhile p xs⟩

variable {c : Char} {cs : List Char}

theorem ne_of_not_mem (h : c ∉ cs) : ∀ x ∈ cs, (!x == c) = true := by
  intro x hx
  rw [Bool.not_eq_true', beq_eq_false_iff_ne]
  rintro rfl
  exact h hx

/-- A text is cut nowhere at a character that is not in it. -/
theorem cutAt?_eq_none (h : c ∉ cs) : cutAt? (· == c) cs = none := by
  rw [cutAt?, List.span_eq_takeWhile_dropWhile, List.dropWhile_eq_nil_iff.mpr (ne_of_not_mem h)]

/-- A text is cut at the first place of a character. -/
theorem cutAt?_append (h : c ∉ cs) (rest : List Char) :
    cutAt? (· == c) (cs ++ c :: rest) = some (cs, rest) := by
  rw [cutAt?, span_append (ne_of_not_mem h) (by simp)]

/-! ## Pieces -/

theorem splitAt_cons (at? : Char → Bool) (c : Char) (cs : List Char) :
    splitAt at? (c :: cs) =
      if at? c then [] :: splitAt at? cs else (splitAt at? cs).modifyHead (c :: ·) := by
  rw [splitAt, splitAt, List.reverse_cons, List.foldl_append]
  simp only [List.foldl_cons, List.foldl_nil]
  split <;> rfl

theorem splitAt_eq_splitOn (c : Char) (cs : List Char) : splitAt (· == c) cs = cs.splitOn c := by
  induction cs with
  | nil => rfl
  | cons d cs ih => rw [splitAt_cons, List.splitOn_cons_eq_if_modifyHead, ih]

/-- No piece holds the character. -/
theorem not_mem_of_mem_splitOn {piece : List Char} (h : piece ∈ cs.splitOn c) : c ∉ piece := by
  induction cs generalizing piece with
  | nil =>
      rw [List.splitOn_nil] at h
      rw [List.mem_singleton.mp h]
      nofun
  | cons d cs ih =>
      obtain ⟨first, rest, hsplit⟩ := List.exists_cons_of_ne_nil (List.splitOn_ne_nil c cs)
      have hfirst : c ∉ first := ih (by simp [hsplit])
      have hrest : ∀ piece ∈ rest, c ∉ piece := fun piece hpiece => ih (by simp [hsplit, hpiece])
      rw [List.splitOn_cons_eq_if_modifyHead, hsplit] at h
      split at h
      · rcases List.mem_cons.mp h with rfl | hmem
        · nofun
        · rcases List.mem_cons.mp hmem with rfl | hmem
          · exact hfirst
          · exact hrest piece hmem
      · next hd =>
          rcases List.mem_cons.mp h with rfl | hmem
          · refine List.not_mem_cons_of_ne_of_not_mem (fun heq => hd ?_) hfirst
            rw [heq]
            exact beq_self_eq_true d
          · exact hrest piece hmem

/-- Texts that are written on a line each are found again between the line feeds, and nothing is
after the last one. -/
theorem splitOn_lines {lines : List String} (h : ∀ line ∈ lines, '\n' ∉ line.toList) :
    (String.join (lines.map (· ++ "\n"))).toList.splitOn '\n' =
      lines.map String.toList ++ [[]] := by
  induction lines with
  | nil => rfl
  | cons line rest ih =>
      obtain ⟨hline, hrest⟩ := List.forall_mem_cons.mp h
      have hcons : (String.join ((line :: rest).map (· ++ "\n"))).toList =
          line.toList ++ '\n' :: (String.join (rest.map (· ++ "\n"))).toList := by
        simp [String.toList_join]
      rw [hcons, List.splitOn_append_cons_self_of_not_mem hline, ih hrest]
      rfl

/-! ## Words -/

open Unicode (isBlank)

/-- All characters of a run are blank or none is, and a run of blanks is no word. -/
theorem not_isBlank_of_mem_words {word : List Char} (hword : word ∈ words cs) :
    ∀ d ∈ word, isBlank d = false := by
  obtain ⟨hrun, hkept⟩ := List.mem_filter.mp hword
  have hchain : (word.map isBlank).IsChain (· = ·) :=
    (List.isChain_map isBlank).mpr (by simpa using List.isChain_of_mem_splitBy hrun)
  have hsame : ∀ ⦃x⦄, x ∈ word.map isBlank → ∀ ⦃y⦄, y ∈ word.map isBlank → x = y :=
    (List.isChain_iff_pairwise.mp hchain).forall_of_forall fun _ _ => rfl
  intro d hd
  by_contra hblank
  refine absurd hkept ?_
  simp only [Bool.not_eq_true', Bool.not_eq_false, List.all_eq_true]
  intro b hb
  rw [hsame (List.mem_map_of_mem hb) (List.mem_map_of_mem hd)]
  simpa using hblank

/-- Between the words of a normalized text are spaces only, so that no other blank is in it. -/
theorem not_mem_normalize (hc : isBlank c = true) (hspace : c ≠ ' ') (s : String) :
    c ∉ (normalize s).toList := by
  rw [normalize, String.toList_intercalate]
  have hwords : ∀ word ∈ ((words s.toList).map String.ofList).map String.toList, c ∉ word := by
    intro word hword hmem
    simp only [List.map_map, List.mem_map, Function.comp_apply, String.toList_ofList] at hword
    obtain ⟨word, hword, rfl⟩ := hword
    rw [not_isBlank_of_mem_words hword c hmem] at hc
    cases hc
  generalize ((words s.toList).map String.ofList).map String.toList = pieces at hwords
  induction pieces with
  | nil => simp
  | cons word rest ih =>
      obtain ⟨hword, hrest⟩ := List.forall_mem_cons.mp hwords
      cases rest with
      | nil => simpa using hword
      | cons next rest =>
          rw [List.intercalate_cons_of_ne_nil (List.cons_ne_nil next rest)]
          simp only [List.mem_append, not_or]
          exact ⟨⟨hword, by simpa using hspace⟩, ih hrest⟩

end Schematron.Text
