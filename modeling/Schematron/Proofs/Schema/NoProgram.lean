import Mathlib.Data.List.TakeWhile
import Schematron.Proofs.Xml.Deletion
import Schematron.Schema.StageProgram

/-!
# Documents are no stage programs

A text that can be read as a document begins, after white space, with markup, with a reference or
with a blank that is no white space of markup. No line of TOML begins in this way, so what is a
document is no program of a stage (`StageProgram.read_of_parseBytes`).
-/

namespace Schematron

namespace Toml

/-- No line begins with the character, and it is no white space. -/
structure Foreign (c : Char) : Prop where
  bare : isBareKeyChar c = false
  other : c ∉ ['"', '\'', '[', '#', ' ', '\t', '\r', '\n']

/-- Bare keys are written in ASCII letters, digits, hyphens and underscores. -/
theorem toNat_of_isBareKeyChar {c : Char} (h : isBareKeyChar c = true) :
    45 ≤ c.toNat ∧ c.toNat ≤ 122 := by
  change ((decide ('A'.val ≤ c.val ∧ c.val ≤ 'Z'.val) ||
    decide ('a'.val ≤ c.val) && decide (c.val ≤ 'z'.val) ||
    decide ('0'.val ≤ c.val) && decide (c.val ≤ '9'.val)) || c == '-' || c == '_') = true at h
  simp only [Bool.or_eq_true, beq_iff_eq] at h
  rcases h with (((h | h) | h) | rfl) | rfl
  · have hrange : 65 ≤ c.toNat ∧ c.toNat ≤ 90 := by simpa [UInt32.le_iff_toNat_le] using h
    omega
  · have hrange : 97 ≤ c.toNat ∧ c.toNat ≤ 122 := by simpa [UInt32.le_iff_toNat_le] using h
    omega
  · have hrange : 48 ≤ c.toNat ∧ c.toNat ≤ 57 := by simpa [UInt32.le_iff_toNat_le] using h
    omega
  · decide
  · decide

theorem not_isBareKeyChar_of_isBlank {c : Char} (h : Unicode.isBlank c = true) :
    isBareKeyChar c = false := by
  cases hbare : isBareKeyChar c with
  | false => rfl
  | true =>
      have hrange := toNat_of_isBareKeyChar hbare
      simp only [Unicode.isBlank, Bool.or_eq_true, Bool.and_eq_true, decide_eq_true_eq,
        beq_iff_eq] at h
      omega

theorem Foreign.of_isBlank {c : Char} (h : Unicode.isBlank c = true)
    (hspace : Xml.Markup.isSpace c = false) : Foreign c := by
  refine ⟨not_isBareKeyChar_of_isBlank h, fun hmem => ?_⟩
  simp only [List.mem_cons, List.not_mem_nil, or_false] at hmem
  rcases hmem with rfl | rfl | rfl | rfl | rfl | rfl | rfl | rfl
  all_goals first | exact absurd h (by decide) | exact absurd hspace (by decide)

/-- No key begins with the character. -/
theorem readKey_eq_none {c : Char} (rest : List Char) (hbare : isBareKeyChar c = false)
    (hblank : isBlankChar c = false) (hquote : c ≠ '"' ∧ c ≠ '\'') :
    readKey (c :: rest) = none := by
  have hskip : skipBlanks (c :: rest) = c :: rest := by
    rw [skipBlanks, List.dropWhile_cons_of_neg (by simp [hblank])]
  have hspan : (c :: rest).span isBareKeyChar = ([], c :: rest) := by
    simp [List.span_eq_takeWhile_dropWhile, hbare]
  have hpart : readKeyPart (c :: rest) = none := by
    unfold readKeyPart
    split
    · next heq => exact absurd (List.cons.inj heq).1 hquote.1
    · next heq => exact absurd (List.cons.inj heq).1 hquote.2
    · rw [hspan]
  rw [readKey, nestLimit, readKeyParts, hskip, hpart]

theorem skipComment_of_ne {c : Char} {rest : List Char} (hc : c ≠ '#') :
    skipComment (c :: rest) = c :: rest := by
  unfold skipComment
  split
  · next heq => exact absurd (List.cons.inj heq).1 hc
  · rfl

section

variable {fuel : Nat} {path : List String} {root : Entries} {cs rest : List Char} {c : Char}

/-- An empty line. -/
theorem readDocument_newline (hskip : skipBlanks cs = c :: rest) (hc : c ≠ '[' ∧ c ≠ '#')
    {next : List Char} (hline : newline? (c :: rest) = some next) :
    readDocument (fuel + 1) path root cs = readDocument fuel path root next := by
  rw [readDocument, hskip]
  split
  · next heq => cases heq
  · next heq => exact absurd (List.cons.inj heq).1 hc.1
  · next heq => exact absurd (List.cons.inj heq).1 hc.1
  · rw [skipComment_of_ne hc.2, hline]

/-- A line that begins with no key. -/
theorem readDocument_eq_none (hskip : skipBlanks cs = c :: rest) (hc : c ≠ '[' ∧ c ≠ '#')
    (hline : newline? (c :: rest) = none) (hkey : readKey (c :: rest) = none) :
    readDocument (fuel + 1) path root cs = none := by
  rw [readDocument, hskip]
  split
  · next heq => cases heq
  · next heq => exact absurd (List.cons.inj heq).1 hc.1
  · next heq => exact absurd (List.cons.inj heq).1 hc.1
  · rw [skipComment_of_ne hc.2, hline, hkey]
    rfl

/-- A carriage return alone ends no line, and no key begins with it. -/
theorem readDocument_return (hskip : skipBlanks cs = '\r' :: c :: rest) (hc : c ≠ '\n') :
    readDocument (fuel + 1) path root cs = none := by
  refine readDocument_eq_none hskip (by decide) ?_
    (readKey_eq_none _ (by decide) (by decide) (by decide))
  unfold newline?
  split
  · next heq => cases heq
  · next heq => exact absurd (List.cons.inj (List.cons.inj heq).2).1 hc
  · rfl

/-- A line that begins with a foreign character. -/
theorem Foreign.readDocument (h : Foreign c) (hskip : skipBlanks cs = c :: rest) :
    Toml.readDocument (fuel + 1) path root cs = none := by
  obtain ⟨hbare, hother⟩ := h
  simp only [List.mem_cons, List.not_mem_nil, or_false, not_or] at hother
  obtain ⟨hquote, hliteral, hbracket, hhash, hspace, htab, hreturn, hfeed⟩ := hother
  have hblank : isBlankChar c = false := by simp [isBlankChar, hspace, htab]
  refine readDocument_eq_none hskip ⟨hbracket, hhash⟩ ?_
    (readKey_eq_none rest hbare hblank ⟨hquote, hliteral⟩)
  unfold newline?
  split
  · next heq => exact absurd (List.cons.inj heq).1 hfeed
  · next heq => exact absurd (List.cons.inj heq).1 hreturn
  · rfl

end

/-- White space that is no blank ends a line. -/
theorem eq_of_isSpace {c : Char} (h : Xml.Markup.isSpace c = true)
    (hblank : isBlankChar c = false) : c = '\r' ∨ c = '\n' := by
  simp only [isBlankChar, Bool.or_eq_false_iff, beq_eq_false_iff_ne] at hblank
  simp only [Xml.Markup.isSpace, Bool.or_eq_true, beq_iff_eq] at h
  grind

/-- No document begins with white space and a foreign character. -/
theorem readDocument_foreign {c : Char} (hc : Foreign c) (after : List Char) (fuel : Nat)
    (path : List String) (root : Entries) {before : List Char}
    (hbefore : ∀ b ∈ before, Xml.Markup.isSpace b = true) :
    readDocument fuel path root (before ++ c :: after) = none := by
  have hblank : isBlankChar c = false := by
    have hother := hc.other
    simp only [List.mem_cons, List.not_mem_nil, or_false, not_or] at hother
    simp [isBlankChar, hother]
  -- each line ends the induction, or is an empty one
  induction fuel generalizing before with
  | zero => rfl
  | succ fuel ih =>
      have hskip : skipBlanks (before ++ c :: after) =
          before.dropWhile isBlankChar ++ c :: after := by
        rw [skipBlanks, List.dropWhile_append, List.dropWhile_cons_of_neg (by simp [hblank])]
        split
        · next hempty => rw [List.isEmpty_iff.mp hempty, List.nil_append]
        · rfl
      cases hrest : before.dropWhile isBlankChar with
      | nil =>
          rw [hrest] at hskip
          exact hc.readDocument hskip
      | cons b more =>
          rw [hrest] at hskip
          have hspace : ∀ d ∈ b :: more, Xml.Markup.isSpace d = true := fun d hd =>
            hbefore d ((List.dropWhile_suffix _).subset (hrest ▸ hd))
          have hnot : isBlankChar b = false := by
            have hhead := List.head_dropWhile_not isBlankChar (l := before) (by simp [hrest])
            simpa only [hrest, List.head_cons] using hhead
          rcases eq_of_isSpace (hspace b List.mem_cons_self) hnot with rfl | rfl
          · cases more with
            | nil =>
                refine readDocument_return hskip ?_
                rintro rfl
                exact hc.other (by simp)
            | cons d more =>
                by_cases hd : d = '\n'
                · subst hd
                  rw [readDocument_newline hskip (by decide) rfl]
                  exact ih fun e he =>
                    hspace e (List.mem_cons_of_mem _ (List.mem_cons_of_mem _ he))
                · exact readDocument_return hskip hd
          · rw [readDocument_newline hskip (by decide) rfl]
            exact ih fun e he => hspace e (List.mem_cons_of_mem _ he)

theorem read_foreign {before after : List Char} {c : Char} (hc : Foreign c)
    (hbefore : ∀ b ∈ before, Xml.Markup.isSpace b = true) {text : String}
    (htext : Xml.Document.dropMark text.toList = before ++ c :: after) : read text = none := by
  have hmark : read text = (readDocument ((Xml.Document.dropMark text.toList).length + 1) [] []
      (Xml.Document.dropMark text.toList)).map fun root => .table (entriesToValues root) := by
    rw [read]
    generalize text.toList = cs
    split
    · rfl
    · next hne =>
        rw [Xml.Document.dropMark_eq_self]
        intro hhead
        obtain ⟨rest, hcs⟩ := List.head?_eq_some_iff.mp hhead
        exact hne rest hcs
  rw [hmark, htext, readDocument_foreign hc after _ _ _ hbefore]
  rfl

end Toml

namespace Xml.Document

open Toml

/-- A text that can be read as a document begins with white space and a foreign character. -/
theorem exists_foreign_of_read {cs : List Char} {doc : Document} (h : read cs = .ok doc) :
    ∃ before c after, cs = before ++ c :: after ∧
      (∀ b ∈ before, Markup.isSpace b = true) ∧ Foreign c := by
  have hsplit := List.takeWhile_append_dropWhile (p := Markup.isSpace) (l := cs)
  have hbefore : ∀ b ∈ cs.takeWhile Markup.isSpace, Markup.isSpace b = true :=
    fun b hb => List.mem_takeWhile_imp hb
  cases hrest : cs.dropWhile Markup.isSpace with
  | nil =>
      -- white space alone has no document element
      rw [hrest, List.append_nil] at hsplit
      rw [hsplit] at hbefore
      rw [← List.append_nil cs] at h
      have hraw : '<' ∉ cs := fun hmem => absurd (hbefore _ hmem) (by decide)
      exact absurd rfl (allBlank_of_read h hraw (by simp)).1
  | cons c after =>
      rw [hrest] at hsplit
      refine ⟨_, c, after, hsplit.symm, hbefore, ?_⟩
      have hspace : Markup.isSpace c = false := by
        have hnot := List.head_dropWhile_not Markup.isSpace (l := cs) (by simp [hrest])
        simpa only [hrest, List.head_cons] using hnot
      by_cases hmarkup : c = '<' ∨ c = '&'
      · rcases hmarkup with rfl | rfl
        · exact ⟨by decide, by decide⟩
        · exact ⟨by decide, by decide⟩
      · rw [not_or] at hmarkup
        rw [← hsplit] at h
        refine .of_isBlank (isBlank_of_read h ⟨fun hmem => ?_, fun hmem => ?_⟩ hmarkup) hspace
        · exact absurd (hbefore _ hmem) (by decide)
        · exact absurd (hbefore _ hmem) (by decide)

end Xml.Document

/-- What can be read as a document is no program of a stage. -/
theorem Schema.StageProgram.read_of_parseBytes {bytes : ByteArray} {doc : Xml.Document}
    (h : Xml.Document.parseBytes bytes = .ok doc) : read bytes = .error .malformed := by
  rw [Xml.Document.parseBytes] at h
  rw [read]
  split at h
  · next text htext =>
      rw [htext]
      dsimp only
      have hnone : Toml.read text = none := by
        by_cases hmark : (Xml.Document.dropMark text.toList).head? = some '\uFEFF'
        · obtain ⟨rest, hrest⟩ := List.head?_eq_some_iff.mp hmark
          exact Toml.read_foreign ⟨by decide, by decide⟩ (List.forall_mem_nil _) hrest
        · rw [Xml.Document.dropMark_eq_self hmark] at h
          obtain ⟨before, c, after, hcs, hbefore, hc⟩ := Xml.Document.exists_foreign_of_read h
          exact Toml.read_foreign hc hbefore hcs
      rw [hnone]
      rfl
  · cases h

end Schematron
