import Schematron.Proofs.XPath.Printing

/-!
# Legible tokens

Every token that is cut off a text is legible: its name is one, and its literal lacks one of the
two quotes (`legible_of_tokens`). Conversely, legible tokens are read back from a text in which they
stand with blanks between them, if names and stars stand only where operands can and the operators
spelled like them only where operators can (`tokens_of_fits`).
-/

namespace Schematron.XPath

namespace Lexer

open Unicode

/-! ## Names -/

/-- The text is a name that may have a prefix, or a prefix with a star. -/
def IsQualifiedName (name : String) : Prop :=
  IsName name ∨
    ∃ pre localPart, IsName pre ∧ (IsName localPart ∨ localPart = "*") ∧
      name = pre ++ ":" ++ localPart

theorem isName_of_chars {c : Char} {cs : List Char} (hstart : isNameStart c = true)
    (hchars : ∀ x ∈ c :: cs, isNameChar x = true) : IsName (String.ofList (c :: cs)) := by
  constructor
  · rw [ne_eq, ← String.toList_inj]
    simp
  · have hspan : (c :: cs ++ []).span isNameChar = (c :: cs, []) := Text.span_append hchars nofun
    rw [List.append_nil] at hspan
    rw [String.toList_ofList, cutName, if_pos hstart, hspan]

theorem isName_of_cutName {cs name rest : List Char} (h : cutName cs = (name, rest))
    (hne : name ≠ []) : IsName (String.ofList name) := by
  cases cs with
  | nil =>
      cases h
      exact absurd rfl hne
  | cons c cs =>
      rw [cutName] at h
      split at h
      · next hstart =>
          rw [List.span_eq_takeWhile_dropWhile,
            List.takeWhile_cons_of_pos (isNameChar_of_isNameStart hstart)] at h
          cases h
          refine isName_of_chars hstart (List.forall_mem_cons.mpr ⟨?_, ?_⟩)
          · exact isNameChar_of_isNameStart hstart
          · intro x hx
            exact List.mem_takeWhile_imp hx
      · cases h
        exact absurd rfl hne

theorem isQualifiedName_of_cut {cs word rest : List Char}
    (h : cutQualifiedName cs = (word, rest)) (hne : word ≠ []) :
    IsQualifiedName (String.ofList word) := by
  rw [cutQualifiedName.eq_def] at h
  split at h
  · cases h
    exact absurd rfl hne
  · next pre more hpre hcut =>
      cases h
      refine .inr ⟨String.ofList pre, "*", isName_of_cutName hcut hpre, .inr rfl, ?_⟩
      simp [← String.toList_inj]
  · next pre more hpre hstar hcut =>
      have hname := isName_of_cutName hcut hpre
      split at h
      · cases h
        exact .inl hname
      · next localPart rest hlocal hcutLocal =>
          cases h
          refine .inr ⟨String.ofList pre, String.ofList localPart, hname, .inl ?_, ?_⟩
          · exact isName_of_cutName hcutLocal hlocal
          · simp [← String.toList_inj]
  · next hcut =>
      cases h
      exact .inl (isName_of_cutName hcut hne)

end Lexer

/-! ## Cutting off legible tokens -/

/-- The token is cut off some text. -/
def Token.Legible : Token → Prop
  | literal value => '\'' ∉ value.toList ∨ '"' ∉ value.toList
  | name value =>
    Lexer.IsQualifiedName value ∨ ∃ localPart, Lexer.IsName localPart ∧ value = "*:" ++ localPart
  | variableName value => Lexer.IsQualifiedName value
  | _ => True

namespace Lexer

variable {afterOperand : Bool} {cs rest rest' : List Char} {t : Token}

theorem legible_of_cutStar (h : cutStar afterOperand rest = (t, rest')) : t.Legible := by
  rw [cutStar.eq_def] at h
  split at h
  · cases h
    trivial
  · split at h
    · split at h
      · cases h
        trivial
      · next localPart more hne hcut =>
          cases h
          refine .inr ⟨String.ofList localPart, isName_of_cutName hcut hne, ?_⟩
          simp [← String.toList_inj]
    · cases h
      trivial

/-- A word has a character. -/
theorem ne_nil_of_cut {c : Char} {word : List Char} (hstart : isNameStart c = true)
    (h : cutQualifiedName (c :: cs) = (word, rest)) : word ≠ [] := by
  rintro rfl
  rw [cutQualifiedName.eq_def] at h
  split at h
  · next hcut =>
      rw [cutName, if_pos hstart, List.span_eq_takeWhile_dropWhile,
        List.takeWhile_cons_of_pos (isNameChar_of_isNameStart hstart)] at hcut
      cases hcut
  · simp at h
  · next hpre _ _ =>
      split at h
      · exact hpre (Prod.mk.inj h).1
      · simp at h
  · next hname _ _ _ => exact hname (Prod.mk.inj h).1

theorem legible_of_cutWord {c : Char} (hstart : isNameStart c = true)
    (h : cutWord afterOperand (c :: cs) = .ok (t, rest')) : t.Legible := by
  rw [cutWord] at h
  obtain ⟨word, more, hcut⟩ : ∃ word more, cutQualifiedName (c :: cs) = (word, more) :=
    ⟨_, _, rfl⟩
  rw [hcut] at h
  dsimp only at h
  split at h
  · split at h
    · next hword =>
        cases h
        rw [wordOperator?.eq_def] at hword
        split at hword <;> cases hword <;> trivial
    · cases h
  · cases h
    exact .inl (isQualifiedName_of_cut hcut (ne_nil_of_cut hstart hcut))

theorem legible_of_cutLiteral {quote : Char} (hquote : quote = '"' ∨ quote = '\'')
    (h : cutLiteral quote cs = .ok (t, rest')) : t.Legible := by
  rw [cutLiteral.eq_def] at h
  split at h
  · next value _ _ hspan =>
      cases h
      rw [List.span_eq_takeWhile_dropWhile] at hspan
      have hvalue : quote ∉ value := by
        rw [← (Prod.mk.inj hspan).1]
        intro hmem
        simpa using List.mem_takeWhile_imp hmem
      rcases hquote with rfl | rfl
      · exact .inr (by simpa using hvalue)
      · exact .inl (by simpa using hvalue)
  · cases h

theorem legible_of_cutToken {offset : Nat} {c : Char}
    (h : cutToken afterOperand offset c rest = .ok (t, rest')) : t.Legible := by
  rw [cutToken.eq_def] at h
  split at h
  case h_21 => exact legible_of_cutStar (Except.ok.inj h)
  case h_23 =>
    -- a literal, a variable, a number, a point or a word
    split at h
    · next hquote => exact legible_of_cutLiteral (by simpa using hquote) h
    split at h
    · split at h
      · cases h
      · next name more hne hcut =>
          cases h
          exact isQualifiedName_of_cut hcut hne
    split at h
    · split at h <;> cases h <;> trivial
    split at h
    · cases h
      trivial
    split at h
    · next hstart => exact legible_of_cutWord hstart h
    · cases h
  all_goals
    cases h
    try trivial

/-- All tokens of a text are legible. -/
theorem legible_of_tokens {ts : List Token} (h : tokens cs = .ok ts) : ∀ t ∈ ts, t.Legible := by
  suffices hfrom : ∀ length fuel before cs ts, (∀ t ∈ before, t.Legible) →
      tokensFrom length fuel before cs = .ok ts → ∀ t ∈ ts, t.Legible from
    hfrom _ _ _ _ _ (List.forall_mem_nil _) h
  intro length fuel
  induction fuel with
  | zero =>
      intro before cs ts hbefore h
      cases h
      simpa using hbefore
  | succ fuel ih =>
      intro before cs ts hbefore h
      cases cs with
      | nil =>
          cases h
          simpa using hbefore
      | cons c rest =>
          rw [tokensFrom] at h
          split at h
          · exact ih before rest ts hbefore h
          · split at h
            · next t rest hcut =>
                have hlegible := legible_of_cutToken hcut
                exact ih (t :: before) rest ts (List.forall_mem_cons.mpr ⟨hlegible, hbefore⟩) h
            · cases h

end Lexer

/-! ## Reading legible tokens -/

/-- The token can be read after an operand, or not after one. Of numbers, only the whole ones are
written. -/
def Token.Stands (afterOperand : Bool) : Token → Prop
  | star | name _ => afterOperand = false
  | multiply | and | or | div | mod => afterOperand = true
  | number value => value = { digits := value.digits }
  | _ => True

namespace Lexer

variable {afterOperand : Bool} {rest : List Char} {t : Token} {ts : List Token}

/-- Every token can be read after the token before it. -/
def Fits : Bool → List Token → Prop
  | _, [] => True
  | afterOperand, t :: ts => t.Legible ∧ t.Stands afterOperand ∧ Fits t.endsOperand ts

/-- The text ends, or goes on with a blank. -/
def Gap (rest : List Char) : Prop := rest = [] ∨ ∃ more, rest = ' ' :: more

theorem Gap.endsName (h : Gap rest) : EndsName rest := by
  rcases h with rfl | ⟨more, rfl⟩
  · exact nofun
  · exact endsName_cons (by decide)

theorem Gap.head?_ne (h : Gap rest) {c : Char} (hc : c ≠ ' ') : rest.head? ≠ some c := by
  rcases h with rfl | ⟨more, rfl⟩
  · simp
  · simpa using hc.symm

theorem IsQualifiedName.toList_eq {name : String} (h : IsQualifiedName name) :
    ∃ c cs, name.toList = c :: cs ∧ isNameStart c = true := by
  rcases h with hname | ⟨pre, localPart, hpre, -, rfl⟩
  · obtain ⟨c, cs, hlist, hstart, -⟩ := hname.toList_eq
    exact ⟨c, cs, hlist, hstart⟩
  · obtain ⟨c, cs, hlist, hstart, -⟩ := hpre.toList_eq
    exact ⟨c, cs ++ ':' :: localPart.toList, by simp [hlist], hstart⟩

theorem cutQualifiedName_of_gap {name : String} (h : IsQualifiedName name) (hrest : Gap rest) :
    cutQualifiedName (name.toList ++ rest) = (name.toList, rest) := by
  rcases h with hname | ⟨pre, localPart, hpre, hlocal, rfl⟩
  · exact cutQualifiedName_append hname hrest.endsName (hrest.head?_ne (by decide))
  have happend : (pre ++ ":" ++ localPart).toList ++ rest =
      pre.toList ++ ':' :: (localPart.toList ++ rest) := by simp
  have hcut : cutName (pre.toList ++ ':' :: (localPart.toList ++ rest)) = _ :=
    cutName_append hpre (endsName_cons (by decide))
  obtain ⟨c, cs, hlist, -, -⟩ := hpre.toList_eq
  rw [happend, cutQualifiedName, hcut, hlist]
  rcases hlocal with hlocal | rfl
  · obtain ⟨x, xs, hlistLocal, hstart, -⟩ := hlocal.toList_eq
    have hstar : x ≠ '*' := by
      rintro rfl
      exact absurd hstart (by decide)
    have hcutLocal := cutName_append hlocal hrest.endsName
    rw [hlistLocal, List.cons_append] at hcutLocal ⊢
    simp [hstar, hcutLocal, hlist, hlistLocal]
  · simp [hlist]

theorem reads_name {name : String} (h : (Token.name name).Legible) (hrest : Gap rest)
    (hmore : Reads true rest ts) : Reads false (name.toList ++ rest) (.name name :: ts) := by
  rcases h with hname | ⟨localPart, hlocal, rfl⟩
  · obtain ⟨c, cs, hlist, hstart⟩ := hname.toList_eq
    exact Reads.word hlist hstart (cutQualifiedName_of_gap hname hrest) hmore
  · simpa using Reads.starName hlocal hrest.endsName hmore

theorem reads_variableName {name : String} (h : IsQualifiedName name) (hrest : Gap rest)
    (hmore : Reads true rest ts) :
    Reads afterOperand ('$' :: (name.toList ++ rest)) (.variableName name :: ts) := by
  refine .cons rfl (fun offset => ?_) (by simp) hmore
  have hcut := cutQualifiedName_of_gap h hrest
  obtain ⟨c, cs, hlist, -⟩ := h.toList_eq
  rw [hlist, List.cons_append] at hcut ⊢
  simp [cutToken, hcut, hlist, ← String.toList_inj]

/-- A literal between the quotes that it does not hold. -/
theorem reads_literal {value : String} (h : (Token.literal value).Legible)
    (hmore : Reads true rest ts) :
    Reads afterOperand ((Token.literal value).spelling.toList ++ rest) (.literal value :: ts) := by
  rw [Token.spelling]
  split
  · next hapostrophe =>
      simpa using Reads.quoted (.inl rfl) (h.resolve_left (not_not_intro hapostrophe)) hmore
  · next hapostrophe => simpa using Reads.quoted (.inr rfl) hapostrophe hmore

theorem reads_operator {name : String} (ht : wordOperator? name = some t) (hname : IsName name)
    (hrest : Gap rest) (hmore : Reads t.endsOperand rest ts) :
    Reads true (name.toList ++ rest) (t :: ts) :=
  .operator ht hname hrest.endsName (hrest.head?_ne (by decide)) hmore

/-- A token before a blank, or at the end of a text. -/
theorem reads_token (hlegible : t.Legible) (hstands : t.Stands afterOperand) (hrest : Gap rest)
    (hmore : Reads t.endsOperand rest ts) :
    Reads afterOperand (t.spelling.toList ++ rest) (t :: ts) := by
  cases t with
  | literal value => exact reads_literal hlegible hmore
  | number value =>
      rw [hstands]
      refine Reads.number value.digits ?_ hmore
      rcases hrest with rfl | ⟨more, rfl⟩ <;> simp
  | name value =>
      cases hstands
      exact reads_name hlegible hrest hmore
  | variableName value => simpa [Token.spelling] using reads_variableName hlegible hrest hmore
  | star =>
      cases hstands
      exact Reads.star (hrest.head?_ne (by decide)) hmore
  | multiply =>
      cases hstands
      exact .cons rfl (fun _ => rfl) (Nat.le_refl _) hmore
  | and =>
      cases hstands
      exact reads_operator rfl (by decide) hrest hmore
  | or =>
      cases hstands
      exact reads_operator rfl (by decide) hrest hmore
  | div =>
      cases hstands
      exact reads_operator rfl (by decide) hrest hmore
  | mod =>
      cases hstands
      exact reads_operator rfl (by decide) hrest hmore
  | _ =>
      -- a token of one or two signs, which the text after it does not change
      rcases hrest with rfl | ⟨more, rfl⟩ <;> exact .cons rfl (fun _ => rfl) (by simp) hmore

/-- Tokens with blanks between them. -/
theorem reads_text (h : Fits afterOperand ts) :
    Reads afterOperand (String.intercalate " " (ts.map Token.spelling)).toList ts := by
  induction ts generalizing afterOperand with
  | nil => exact .nil
  | cons t ts ih =>
      obtain ⟨hlegible, hstands, hmore⟩ := h
      cases ts with
      | nil => simpa using reads_token hlegible hstands (.inl rfl) .nil
      | cons next ts =>
          have hblank := Reads.blank (c := ' ') rfl (ih hmore)
          simpa using reads_token hlegible hstands (.inr ⟨_, rfl⟩) hblank

/-- Tokens that fit are read back from their text. -/
theorem tokens_of_fits (h : Fits false ts) :
    tokens (String.intercalate " " (ts.map Token.spelling)).toList = .ok ts :=
  (reads_text h).tokens_eq

end Lexer

end Schematron.XPath
