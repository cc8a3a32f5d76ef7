import Schematron.Proofs.Outcome
import Schematron.Proofs.XPath.Legible
import Schematron.Proofs.XPath.Lexemes

/-!
# White space between tokens

White space that is put into an expression between two of its tokens, or at one of its ends, leaves
the tokens as they are (`tokens_spaced`).

A token ends where the lexer sees that it cannot go on. For this it looks at the character behind
the token, and at the next one too if the first is a colon or a point. So two texts that agree in
these characters look the same behind a token, and a text that begins with a blank looks like the
end of every token (`SeenAlike`). A token is cut off in front of the one as in front of the other
(`cutToken_alike`). Where the texts behind a token look the same, so do the texts that begin with
the token (`SeenAlike.token`), so that everything before a place is read as it was when only the
text behind the place is replaced (`Passes.replace`).
-/

namespace Schematron.XPath.Lexer

open Unicode Numeric

variable {afterOperand : Bool} {offset : Nat} {c : Char} {cs name rest rest' : List Char}
  {t : Token}

/-! ## What a token sees -/

/-- A token that ends in front of the first text ends in front of the second one as well, as far as
the lexer looks ahead. -/
inductive SeenAlike : List Char → List Char → Prop
  | same {rest : List Char} : SeenAlike rest rest
  | blank {rest rest' : List Char} (h : ∀ c ∈ rest'.head?, isBlank c = true) : SeenAlike rest rest'
  | one {c : Char} {rest rest' : List Char} (hcolon : c ≠ ':') (hpoint : c ≠ '.') :
      SeenAlike (c :: rest) (c :: rest')
  | two {c d : Char} {rest rest' : List Char} : SeenAlike (c :: d :: rest) (c :: d :: rest')
  | point {rest rest' : List Char} (h : rest.head? ≠ some '.') (h' : rest'.head? ≠ some '.') :
      SeenAlike ('.' :: rest) ('.' :: rest')

namespace SeenAlike

/-- What holds of blanks and of the character behind a token holds of the one that replaces it. -/
theorem head {p : Char → Prop} (h : SeenAlike rest rest') (hblank : ∀ c, isBlank c = true → p c)
    (hp : ∀ c ∈ rest.head?, p c) : ∀ c ∈ rest'.head?, p c := by
  cases h with
  | blank h => exact fun c hc => hblank c (h c hc)
  | same | one | two | point => exact hp

theorem endsName (h : SeenAlike rest rest') (hrest : EndsName rest) : EndsName rest' :=
  h.head (fun _ hblank => Bool.eq_false_iff.mpr fun hname =>
    Bool.eq_false_iff.mp (not_isBlank_of_isNameChar hname) hblank) hrest

theorem endsDigits (h : SeenAlike rest rest') (hrest : ∀ c ∈ rest.head?, c.isDigit = false) :
    ∀ c ∈ rest'.head?, c.isDigit = false :=
  h.head (fun _ hblank => Bool.eq_false_iff.mpr fun hdigit =>
    Bool.eq_false_iff.mp (not_isBlank_of_isDigit hdigit) hblank) hrest

theorem head?_ne (h : SeenAlike rest rest') {x : Char} (hx : isBlank x = false)
    (hne : rest.head? ≠ some x) : rest'.head? ≠ some x := by
  have hall := h.head (p := (· ≠ x)) (fun c hblank => ?_) (fun c hc => ?_)
  · exact fun hhead => hall x hhead rfl
  · rintro rfl
    rw [hx] at hblank
    cases hblank
  · rintro rfl
    exact hne hc

theorem ne_cons (h : SeenAlike rest rest') {x : Char} (hx : isBlank x = false)
    (hne : ∀ more, rest = x :: more → False) : ∀ more, rest' = x :: more → False := by
  rintro more rfl
  refine h.head?_ne hx (fun hhead => ?_) rfl
  obtain ⟨more, hmore⟩ := List.head?_eq_some_iff.mp hhead
  exact hne more hmore

end SeenAlike

/-- The beginning of a text that is cut off, up to `rest`, is cut off in the same way in front of
everything that looks like `rest`. -/
def CutsAlike {α : Type} (cut result : List Char → α) (cs rest : List Char) : Prop :=
  ∃ more, cs = more ++ rest ∧ ∀ rest', SeenAlike rest rest' → cut (more ++ rest') = result rest'

/-! ## Names -/

theorem cutName_replace (h : cutName cs = (name, rest)) (hne : name ≠ []) :
    cs = name ++ rest ∧ EndsName rest ∧
      ∀ rest', EndsName rest' → cutName (name ++ rest') = (name, rest') := by
  obtain ⟨-, hcs, hchars, hends⟩ := (cutName_eq h).resolve_left fun h => hne h.1
  refine ⟨hcs, hends, fun rest' hrest' => ?_⟩
  obtain ⟨c, more, rfl⟩ := List.exists_cons_of_ne_nil hne
  have hstart : isNameStart c = true := by
    by_contra hstart
    rw [hcs, List.cons_append, cutName, if_neg hstart] at h
    cases h
  rw [List.cons_append, cutName, if_pos hstart]
  exact Text.span_append hchars hrest'

/-- No name begins here. -/
def NoName (cs : List Char) : Prop := (cutName cs).1 = []

/-- A colon in front of the text is no part of a name: neither a star nor a name begins there. -/
def NoLocalPart (cs : List Char) : Prop := cs.head? ≠ some '*' ∧ NoName cs

theorem NoName.cons {d : Char} {more : List Char} (h : NoName (d :: more)) (more' : List Char) :
    NoName (d :: more') := by
  obtain ⟨-, -, hstart⟩ | ⟨hne, -⟩ := cutName_eq (Prod.ext h rfl : cutName (d :: more) = ([], _))
  · rw [NoName, cutName, if_neg (by simp [hstart d rfl])]
  · exact absurd rfl hne

/-- Behind a colon one more character can be seen. -/
theorem SeenAlike.behind_colon {p : List Char → Prop} (h : SeenAlike rest rest')
    (hp : ∀ d more, p (d :: more) → ∀ more', p (d :: more'))
    (hrest : ∀ more, rest = ':' :: more → p more) : ∀ more, rest' = ':' :: more → p more := by
  intro more hcolon
  cases h with
  | same => exact hrest more hcolon
  | blank h =>
      rw [hcolon] at h
      exact absurd (h ':' rfl) (by decide)
  | one hne => exact absurd (List.cons.inj hcolon).1 hne
  | @two c d rest rest' =>
      obtain ⟨rfl, rfl⟩ := List.cons.inj hcolon
      exact hp d rest (hrest (d :: rest) rfl) rest'
  | point => exact absurd (List.cons.inj hcolon).1 (by decide)

theorem SeenAlike.noName (h : SeenAlike rest rest')
    (hrest : ∀ more, rest = ':' :: more → NoName more) :
    ∀ more, rest' = ':' :: more → NoName more :=
  h.behind_colon (fun _ _ hname => hname.cons) hrest

theorem SeenAlike.noLocalPart (h : SeenAlike rest rest')
    (hrest : ∀ more, rest = ':' :: more → NoLocalPart more) :
    ∀ more, rest' = ':' :: more → NoLocalPart more :=
  h.behind_colon (fun _ _ hlocal more' => ⟨hlocal.1, hlocal.2.cons more'⟩) hrest

theorem cutQualifiedName_star (h : cutName cs = (name, ':' :: '*' :: rest)) (hne : name ≠ []) :
    cutQualifiedName cs = (name ++ [':', '*'], rest) := by
  obtain ⟨c, more, rfl⟩ := List.exists_cons_of_ne_nil hne
  rw [cutQualifiedName, h]
  rfl

theorem cutQualifiedName_local {pre more : List Char} (h : cutName cs = (pre, ':' :: more))
    (hpre : pre ≠ []) (hlocal : cutName more = (name, rest)) (hne : name ≠ []) :
    cutQualifiedName cs = (pre ++ ':' :: name, rest) := by
  obtain ⟨c, pre, rfl⟩ := List.exists_cons_of_ne_nil hpre
  obtain ⟨d, name, rfl⟩ := List.exists_cons_of_ne_nil hne
  -- a star begins no name
  have hstar : ∀ after, more = '*' :: after → False := by
    rintro after rfl
    rw [cutName, if_neg (by decide)] at hlocal
    cases hlocal
  rw [cutQualifiedName, h]
  simp [hlocal]

theorem cutQualifiedName_plain (h : cutName cs = (name, rest)) (hne : name ≠ [])
    (hrest : ∀ more, rest = ':' :: more → NoLocalPart more) :
    cutQualifiedName cs = (name, rest) := by
  obtain ⟨c, name, rfl⟩ := List.exists_cons_of_ne_nil hne
  rw [cutQualifiedName, h]
  cases rest with
  | nil => rfl
  | cons x more =>
      by_cases hx : x = ':'
      · subst hx
        obtain ⟨hstar, hname⟩ := hrest more rfl
        have hstar : ∀ after, more = '*' :: after → False := by
          rintro after rfl
          exact hstar rfl
        rcases hlocal : cutName more with ⟨localPart, after⟩
        obtain rfl : localPart = [] := by rwa [NoName, hlocal] at hname
        simp [hlocal]
      · simp [hx]

/-- A name with or without prefix is cut off alike. -/
theorem cutQualifiedName_alike (h : cutQualifiedName cs = (name, rest)) (hne : name ≠ []) :
    cs = name ++ rest ∧
      ∀ rest', SeenAlike rest rest' → cutQualifiedName (name ++ rest') = (name, rest') := by
  rw [cutQualifiedName] at h
  split at h
  · cases h
    exact absurd rfl hne
  · next first more hfirst hcut =>
      cases h
      obtain ⟨rfl, -, hreplace⟩ := cutName_replace hcut hfirst
      refine ⟨by simp, fun rest' _ => ?_⟩
      have hcut' := hreplace (':' :: '*' :: rest') (endsName_cons (by decide))
      rw [List.append_assoc]
      exact cutQualifiedName_star hcut' hfirst
  · next first more hfirst hstar hcut =>
      obtain ⟨rfl, hends, hreplace⟩ := cutName_replace hcut hfirst
      split at h
      · next hlocal =>
          cases h
          have hnone : NoLocalPart more := ⟨fun hhead => ?_, by rw [NoName, hlocal]⟩
          · refine ⟨rfl, fun rest' hrest' => ?_⟩
            refine cutQualifiedName_plain (hreplace rest' (hrest'.endsName hends)) hfirst
              (hrest'.noLocalPart ?_)
            rintro _ ⟨⟩
            exact hnone
          · obtain ⟨after, rfl⟩ := List.head?_eq_some_iff.mp hhead
            exact hstar _ rfl
      · next localPart after hlocal hcutLocal =>
          cases h
          obtain ⟨rfl, hendsLocal, hreplaceLocal⟩ := cutName_replace hcutLocal hlocal
          refine ⟨by simp, fun rest' hrest' => ?_⟩
          have hcut' := hreplace (':' :: (localPart ++ rest')) (endsName_cons (by decide))
          have hcutLocal' := hreplaceLocal rest' (hrest'.endsName hendsLocal)
          rw [List.append_assoc, List.cons_append]
          exact cutQualifiedName_local hcut' hfirst hcutLocal' hlocal
  · next first more hfirst _ hcolon hcut =>
      cases h
      obtain ⟨rfl, hends, hreplace⟩ := cutName_replace hcut hfirst
      refine ⟨rfl, fun rest' hrest' => ?_⟩
      exact cutQualifiedName_plain (hreplace rest' (hrest'.endsName hends)) hfirst
        (hrest'.noLocalPart fun more hmore => (hcolon more hmore).elim)

/-! ## Numbers -/

/-- The number that is written with these digits before and after the point. -/
def decimalOf (whole fraction : List Char) : Decimal :=
  { digits := Decimal.digitsValue (whole ++ fraction), exponent := -fraction.length }

/-- A point in front of the text is no part of a number: another point follows. -/
def PointsTogether (cs : List Char) : Prop := cs.head? = some '.'

theorem SeenAlike.pointsTogether (h : SeenAlike rest rest')
    (hrest : ∀ more, rest = '.' :: more → PointsTogether more) :
    ∀ more, rest' = '.' :: more → PointsTogether more := by
  intro more hpoint
  cases h with
  | same => exact hrest more hpoint
  | blank h =>
      rw [hpoint] at h
      exact absurd (h '.' rfl) (by decide)
  | one _ hne => exact absurd (List.cons.inj hpoint).1 hne
  | @two c d rest rest' =>
      obtain ⟨rfl, rfl⟩ := List.cons.inj hpoint
      exact hrest (d :: rest) rfl
  | @point rest rest' h => exact absurd (hrest rest rfl) h

section

variable {whole fraction : List Char} (hwhole : ∀ c ∈ whole, c.isDigit = true)
  (hrest : ∀ c ∈ rest.head?, c.isDigit = false)

include hwhole hrest

theorem cutNumber_whole (hpoint : ∀ more, rest = '.' :: more → PointsTogether more) :
    cutNumber (whole ++ rest) = (decimalOf whole [], rest) := by
  rw [cutNumber, Text.span_append hwhole hrest]
  cases rest with
  | nil => rfl
  | cons x more =>
      by_cases hx : x = '.'
      · subst hx
        obtain ⟨after, rfl⟩ := List.head?_eq_some_iff.mp (hpoint more rfl)
        rfl
      · simp [hx, decimalOf]

theorem cutNumber_fraction (hfraction : ∀ c ∈ fraction, c.isDigit = true)
    (hpoint : (fraction ++ rest).head? ≠ some '.') :
    cutNumber (whole ++ '.' :: (fraction ++ rest)) = (decimalOf whole fraction, rest) := by
  rw [cutNumber, Text.span_append hwhole (by simp [show Char.isDigit '.' = false from rfl])]
  have hspan := Text.span_append hfraction hrest
  rw [List.span_eq_takeWhile_dropWhile, Prod.mk.injEq] at hspan
  generalize fraction ++ rest = more at hpoint hspan
  have hno : ∀ after, more = '.' :: after → False := by
    rintro after rfl
    exact hpoint rfl
  simp [hspan, decimalOf]

end

/-- A number is cut off alike. -/
theorem cutNumber_alike (cs : List Char) :
    CutsAlike cutNumber ((cutNumber cs).1, ·) cs (cutNumber cs).2 := by
  obtain ⟨whole, after, rfl, hwhole, hafter⟩ := Text.exists_run Char.isDigit cs
  by_cases hpoint : ∃ more, after = '.' :: more ∧ ¬PointsTogether more
  · obtain ⟨more, rfl, hpoint⟩ := hpoint
    obtain ⟨fraction, rest, rfl, hfraction, hrest⟩ := Text.exists_run Char.isDigit more
    rw [cutNumber_fraction hwhole hrest hfraction hpoint]
    refine ⟨whole ++ '.' :: fraction, by simp, fun rest' hrest' => ?_⟩
    rw [List.append_assoc, List.cons_append]
    refine cutNumber_fraction hwhole (hrest'.endsDigits hrest) hfraction ?_
    cases fraction with
    | nil => exact hrest'.head?_ne (by decide) hpoint
    | cons d fraction => exact hpoint
  · have htogether : ∀ more, after = '.' :: more → PointsTogether more := by
      intro more hmore
      by_contra hnot
      exact hpoint ⟨more, hmore, hnot⟩
    rw [cutNumber_whole hwhole hafter htogether]
    exact ⟨whole, rfl, fun rest' hrest' => cutNumber_whole hwhole (hrest'.endsDigits hafter)
      (hrest'.pointsTogether htogether)⟩

/-! ## Stars, literals and words -/

/-- A star alone, where an operand can stand. -/
theorem cutStar_bare (h : ∀ more, cs = ':' :: more → NoName more) :
    cutStar false cs = (.star, cs) := by
  rw [cutStar.eq_def, if_neg Bool.false_ne_true]
  split
  · next more =>
      rcases hlocal : cutName more with ⟨localPart, after⟩
      have hname := h more rfl
      obtain rfl : localPart = [] := by rwa [NoName, hlocal] at hname
      rfl
  · rfl

theorem cutStar_name (h : cutName cs = (name, rest)) (hne : name ≠ []) :
    cutStar false (':' :: cs) = (.name (String.ofList ('*' :: ':' :: name)), rest) := by
  obtain ⟨c, more, rfl⟩ := List.exists_cons_of_ne_nil hne
  rw [cutStar, if_neg Bool.false_ne_true, h]

theorem cutLiteral_append {quote : Char} {value : List Char} (h : quote ∉ value)
    (rest : List Char) :
    cutLiteral quote (value ++ quote :: rest) = .ok (.literal (String.ofList value), rest) := by
  have hspan : (value ++ quote :: rest).span (· != quote) = (value, quote :: rest) :=
    Text.span_append (fun x hx => bne_iff_ne.mpr fun heq => h (heq ▸ hx)) (by simp)
  rw [cutLiteral, hspan]

/-- The token that a word stands for. -/
def wordToken (afterOperand : Bool) (name : String) : Except ParseFault Token :=
  if afterOperand then
    match wordOperator? name with
    | some token => .ok token
    | none => .error (.operatorExpected name)
  else .ok (.name name)

theorem cutWord_eq (h : cutQualifiedName cs = (name, rest)) :
    cutWord afterOperand cs = (wordToken afterOperand (String.ofList name)).map (·, rest) := by
  rw [cutWord, h, wordToken]
  cases afterOperand with
  | false => rfl
  | true =>
      simp only [if_true]
      cases wordOperator? (String.ofList name) <;> rfl

/-! ## Points -/

theorem cutToken_dot (hpoint : cs.head? ≠ some '.') (hdigit : ∀ c ∈ cs.head?, c.isDigit = false) :
    cutToken afterOperand offset '.' cs = .ok (.dot, cs) := by
  cases cs with
  | nil => rfl
  | cons d more =>
      have hd : d ≠ '.' := fun hd => hpoint (by rw [hd]; rfl)
      simp [cutToken, hd, hdigit d rfl]

theorem cutToken_point (h : cs.head?.any Char.isDigit = true) :
    cutToken afterOperand offset '.' cs =
      .ok (.number (cutNumber ('.' :: cs)).1, (cutNumber ('.' :: cs)).2) := by
  cases cs with
  | nil => cases h
  | cons d more =>
      have hdigit : d.isDigit = true := h
      have hd : d ≠ '.' := by
        rintro rfl
        cases hdigit
      simp [cutToken, hd, hdigit]

/-! ## Tokens -/

section

variable (offset : Nat)

theorem literal_alike (hquote : IsQuote c) (h : cutLiteral c cs = .ok (t, rest)) :
    CutsAlike (cutToken afterOperand offset c) (fun rest => .ok (t, rest)) cs rest := by
  obtain ⟨more, rfl, hlexeme⟩ := isLexeme_of_cutLiteral hquote h
  refine ⟨more, rfl, fun rest' _ => ?_⟩
  have hcut : cutToken afterOperand offset c (more ++ rest') = cutLiteral c (more ++ rest') := by
    rcases hquote with rfl | rfl <;> rfl
  rw [hcut]
  cases hlexeme with
  | plain hno => exact absurd hquote hno
  | literal _ hvalue =>
      rw [List.append_assoc] at h ⊢
      cases (cutLiteral_append hvalue rest).symm.trans h
      exact cutLiteral_append hvalue rest'

theorem variable_alike (h : cutQualifiedName cs = (name, rest)) (hne : name ≠ []) :
    CutsAlike (cutToken afterOperand offset '$')
      (fun rest => .ok (.variableName (String.ofList name), rest)) cs rest := by
  obtain ⟨rfl, hreplace⟩ := cutQualifiedName_alike h hne
  refine ⟨name, rfl, fun rest' hrest' => ?_⟩
  rw [cutToken_dollar_eq, hreplace rest' hrest']
  obtain ⟨c, more, rfl⟩ := List.exists_cons_of_ne_nil hne
  rfl

theorem star_alike (h : cutStar afterOperand cs = (t, rest)) :
    CutsAlike (cutToken afterOperand offset '*') (fun rest => .ok (t, rest)) cs rest := by
  cases afterOperand with
  | true =>
      cases h
      exact ⟨[], rfl, fun _ _ => rfl⟩
  | false =>
      by_cases hname : ∃ more, cs = ':' :: more ∧ ¬NoName more
      · obtain ⟨more, rfl, hname⟩ := hname
        rcases hcut : cutName more with ⟨localPart, after⟩
        rw [NoName, hcut] at hname
        obtain ⟨rfl, hends, hreplace⟩ := cutName_replace hcut hname
        rw [cutStar_name hcut hname] at h
        cases h
        exact ⟨':' :: localPart, rfl, fun rest' hrest' => congrArg Except.ok
          (cutStar_name (hreplace rest' (hrest'.endsName hends)) hname)⟩
      · have hbare : ∀ more, cs = ':' :: more → NoName more := by
          intro more hmore
          by_contra hnot
          exact hname ⟨more, hmore, hnot⟩
        rw [cutStar_bare hbare] at h
        cases h
        exact ⟨[], rfl, fun rest' hrest' => congrArg Except.ok
          (cutStar_bare (hrest'.noName hbare))⟩

theorem word_alike (hstart : isNameStart c = true)
    (h : cutWord afterOperand (c :: cs) = .ok (t, rest)) :
    CutsAlike (cutToken afterOperand offset c) (fun rest => .ok (t, rest)) cs rest := by
  rcases hcut : cutQualifiedName (c :: cs) with ⟨word, after⟩
  have hne := ne_nil_of_cut hstart hcut
  obtain ⟨hcs, hreplace⟩ := cutQualifiedName_alike hcut hne
  rw [cutWord_eq hcut] at h
  obtain ⟨token, htoken, hresult⟩ := map_eq_ok.mp h
  cases hresult
  obtain ⟨d, more, rfl⟩ := List.exists_cons_of_ne_nil hne
  obtain ⟨rfl, rfl⟩ := List.cons.inj hcs
  refine ⟨more, rfl, fun rest' hrest' => ?_⟩
  rw [cutToken_word hstart, ← List.cons_append, cutWord_eq (hreplace rest' hrest'), htoken]
  rfl

theorem number_alike (h : c.isDigit = true ∨ c = '.' ∧ cs.head?.any Char.isDigit = true) :
    CutsAlike (cutToken afterOperand offset c)
      (fun rest => .ok (.number (cutNumber (c :: cs)).1, rest)) cs (cutNumber (c :: cs)).2 := by
  obtain ⟨more, hcs, -⟩ := isInner_of_cutNumber h
  obtain ⟨number, hnumber, hcut⟩ := cutNumber_alike (c :: cs)
  obtain rfl : number = c :: more := by
    have hsame : number ++ (cutNumber (c :: cs)).2 = (c :: more) ++ (cutNumber (c :: cs)).2 := by
      rw [← hnumber, List.cons_append, ← hcs]
    exact List.append_cancel_right hsame
  refine ⟨more, hcs, fun rest' hrest' => ?_⟩
  have hnumber' : cutNumber (c :: (more ++ rest')) = _ := hcut rest' hrest'
  rcases h with hdigit | ⟨rfl, hdigit⟩
  · rw [cutToken_digit hdigit, hnumber']
  · rw [cutToken_point, hnumber']
    cases more with
    | nil =>
        -- the digit behind the point would be no part of the number
        obtain ⟨d, hd, hdigit⟩ := Option.any_eq_true _ _ |>.mp hdigit
        have hstop := (cutNumber_eq ('.' :: cs)).2 d ((congrArg List.head? hcs).symm.trans hd)
        rw [hstop] at hdigit
        cases hdigit
    | cons d more =>
        rw [hcs] at hdigit
        exact hdigit

theorem dot_alike (hpoint : cs.head? ≠ some '.') (hdigit : ∀ c ∈ cs.head?, c.isDigit = false) :
    CutsAlike (cutToken afterOperand offset '.') (fun rest => .ok (.dot, rest)) cs cs :=
  ⟨[], rfl, fun _ hrest' => cutToken_dot (hrest'.head?_ne (by decide) hpoint)
    (hrest'.endsDigits hdigit)⟩

end

/-- A token is cut off alike, at whatever offset it stands. -/
theorem cutToken_alike (h : cutToken afterOperand offset c cs = .ok (t, rest)) (offset' : Nat) :
    CutsAlike (cutToken afterOperand offset' c) (fun rest => .ok (t, rest)) cs rest := by
  rw [cutToken.eq_def] at h
  split at h
  -- tokens of one and of two characters that nothing behind them can change
  all_goals try first
    | (cases h; exact ⟨[], rfl, fun _ _ => rfl⟩)
    | (cases h; exact ⟨[_], rfl, fun _ _ => rfl⟩)
  -- half a token of two characters
  case h_8 | h_20 => cases h
  -- a slash, `<` and `>` alone: what comes into view does not make them longer
  case h_2 | h_10 | h_12 =>
    rename_i hnot
    cases h
    refine ⟨[], rfl, fun rest' hrest' => ?_⟩
    rw [List.nil_append, cutToken]
    exact hrest'.ne_cons (by decide) hnot
  case h_21 => exact star_alike offset' (Except.ok.inj h)
  case h_23 hpoints =>
    by_cases hquote : IsQuote c
    · have hif : (c == '"' || c == '\'') = true := by simpa [IsQuote] using hquote
      rw [if_pos hif] at h
      exact literal_alike offset' hquote h
    have hif : ¬(c == '"' || c == '\'') = true := by simpa [IsQuote] using hquote
    rw [if_neg hif] at h
    split at h
    · -- a variable
      next hdollar =>
        obtain rfl : c = '$' := by simpa using hdollar
        split at h
        · cases h
        · next name after hne hcut =>
            cases h
            exact variable_alike offset' hcut hne
    split at h
    · next hpoint =>
        obtain rfl : c = '.' := by simpa using hpoint
        split at h
        · next hdigit =>
            cases h
            exact number_alike offset' (.inr ⟨rfl, hdigit⟩)
        · next hdigit =>
            cases h
            refine dot_alike offset' (fun hhead => ?_) fun d hd => ?_
            · obtain ⟨more, hmore⟩ := List.head?_eq_some_iff.mp hhead
              exact hpoints more rfl hmore
            · simpa [show cs.head? = some d from hd] using hdigit
    split at h
    · next hdigit =>
        cases h
        exact number_alike offset' (.inl hdigit)
    split at h
    · next hstart => exact word_alike offset' hstart h
    · cases h

/-- In front of what looks the same the same token is cut off. -/
theorem cutToken_replace {more : List Char}
    (h : cutToken afterOperand offset c (more ++ rest) = .ok (t, rest))
    (hrest : SeenAlike rest rest') (offset' : Nat) :
    cutToken afterOperand offset' c (more ++ rest') = .ok (t, rest') := by
  obtain ⟨more', hmore, hcut⟩ := cutToken_alike h offset'
  obtain rfl := List.append_cancel_right hmore
  exact hcut rest' hrest

/-- A colon stands with another one. -/
theorem cutToken_colon (h : cutToken afterOperand offset ':' cs = .ok (t, rest)) :
    cs = ':' :: rest := by
  cases cs with
  | nil => cases h
  | cons x more =>
      by_cases hx : x = ':'
      · subst hx
        cases h
        rfl
      · simp [cutToken, hx] at h

/-- Texts that begin with a token look the same if the texts behind it do. -/
theorem SeenAlike.token {more : List Char}
    (h : cutToken afterOperand offset c (more ++ rest) = .ok (t, rest))
    (hrest : SeenAlike rest rest') : SeenAlike (c :: (more ++ rest)) (c :: (more ++ rest')) := by
  cases more with
  | cons d more => exact .two
  | nil =>
      -- a colon is no token, and a point is one only where no other point follows
      rw [List.nil_append] at h
      by_cases hcolon : c = ':'
      · subst hcolon
        exact absurd (cutToken_colon h).symm (List.cons_ne_self _ _)
      by_cases hpoint : c = '.'
      · subst hpoint
        have hne : rest.head? ≠ some '.' := by
          intro hhead
          obtain ⟨more, rfl⟩ := List.head?_eq_some_iff.mp hhead
          exact List.cons_ne_self _ _ (Prod.mk.inj (Except.ok.inj h)).2.symm
        exact .point hne (hrest.head?_ne (by decide) hne)
      exact .one hcolon hpoint

/-! ## Places -/

variable {text before blanks : List Char} {earlier later ts : List Token} {fuel : Nat}

theorem Reads.behindBlanks (h : Reads afterOperand rest ts)
    (hblanks : ∀ c ∈ blanks, isBlank c = true) : Reads afterOperand (blanks ++ rest) ts := by
  induction blanks with
  | nil => exact h
  | cons c blanks ih =>
      obtain ⟨hc, hblanks⟩ := List.forall_mem_cons.mp hblanks
      exact (ih hblanks).blank hc

/-- What the lexer cuts off from a place on depends on what stands before only by the operand that
may end there. -/
theorem reads_of_tokensFrom {length : Nat} (h : tokensFrom length fuel earlier rest = .ok ts)
    (hfuel : rest.length < fuel) :
    ∃ later, ts = earlier.reverse ++ later ∧
      Reads (earlier.head?.any Token.endsOperand) rest later := by
  induction fuel generalizing earlier rest with
  | zero => exact absurd hfuel (Nat.not_lt_zero _)
  | succ fuel ih =>
      cases rest with
      | nil =>
          cases h
          exact ⟨[], (List.append_nil _).symm, .nil⟩
      | cons c rest =>
          rw [List.length_cons, Nat.succ_lt_succ_iff] at hfuel
          rw [tokensFrom] at h
          split at h
          · next hblank =>
              obtain ⟨later, hts, hreads⟩ := ih h hfuel
              exact ⟨later, hts, hreads.blank hblank⟩
          · next hblank =>
              split at h
              · next t rest' hcut =>
                  obtain ⟨more, rfl, -⟩ := isLexeme_of_cutToken hcut
                  rw [List.length_append] at hfuel
                  obtain ⟨later, rfl, hreads⟩ := ih h (by omega)
                  refine ⟨t :: later, by simp, .cons (Bool.eq_false_iff.mpr hblank) ?_ ?_ hreads⟩
                  · exact cutToken_replace hcut .same
                  · simp
              · cases h

namespace Passes

/-- At each place it comes to, the lexer goes on to the tokens of the text. -/
theorem tokensFrom_eq (h : Passes text before earlier rest) (hok : tokens text = .ok ts) :
    ∃ fuel, rest.length < fuel ∧ tokensFrom text.length fuel earlier rest = .ok ts := by
  induction h with
  | start => exact ⟨_, Nat.lt_succ_self _, hok⟩
  | @blank before earlier c rest h hblank ih =>
      obtain ⟨_ | fuel, hfuel, hfrom⟩ := ih
      · exact absurd hfuel (Nat.not_lt_zero _)
      · rw [tokensFrom, if_pos hblank] at hfrom
        exact ⟨fuel, Nat.lt_of_succ_lt_succ hfuel, hfrom⟩
  | @token before earlier c more rest t h hblank hcut ih =>
      obtain ⟨_ | fuel, hfuel, hfrom⟩ := ih
      · exact absurd hfuel (Nat.not_lt_zero _)
      · have hoffset : text.length - ((more ++ rest).length + 1) = before.length := by
          rw [h.eq_append, List.length_append, List.length_cons]
          omega
        rw [tokensFrom, if_neg (by simp [hblank]), hoffset, hcut] at hfrom
        rw [List.length_cons, List.length_append] at hfuel
        exact ⟨fuel, by omega, hfrom⟩

theorem reads (h : Passes text before earlier rest) (hok : tokens text = .ok ts) :
    ∃ later, ts = earlier.reverse ++ later ∧
      Reads (earlier.head?.any Token.endsOperand) rest later := by
  obtain ⟨fuel, hfuel, hfrom⟩ := h.tokensFrom_eq hok
  exact reads_of_tokensFrom hfrom hfuel

/-- The tokens before a place and those that are read from there are the tokens of the text. -/
theorem tokens_eq (h : Passes text before earlier rest)
    (hreads : Reads (earlier.head?.any Token.endsOperand) rest later) :
    tokens text = .ok (earlier.reverse ++ later) := by
  induction h generalizing later with
  | start => exact hreads.tokens_eq
  | blank _ hblank ih => exact ih (hreads.blank hblank)
  | @token before earlier c more rest t _ hblank hcut ih =>
      have hlength : rest.length ≤ (more ++ rest).length := by simp
      have hmore := ih (.cons hblank (cutToken_replace hcut .same) hlength hreads)
      rwa [List.reverse_cons, List.append_assoc]

/-- The lexer comes to a place in the same way if what follows looks the same. -/
theorem replace (h : Passes text before earlier rest) (hrest : SeenAlike rest rest') :
    Passes (before ++ rest') before earlier rest' := by
  induction h generalizing rest' with
  | start => exact .start
  | @blank before earlier c rest _ hblank ih =>
      have hseen : SeenAlike (c :: rest) (c :: rest') := .blank fun x hx => by
        obtain rfl : c = x := Option.some.inj hx
        exact hblank
      rw [List.append_assoc]
      exact (ih hseen).blank hblank
  | @token before earlier c more rest t _ hblank hcut ih =>
      rw [List.append_assoc, List.cons_append]
      exact (ih (hrest.token hcut)).token hblank (cutToken_replace hcut hrest _)

theorem tokens_before (h : Passes text before earlier rest) :
    tokens before = .ok earlier.reverse := by
  have hend := (h.replace (.blank nofun : SeenAlike rest [])).tokens_eq .nil
  rwa [List.append_nil, List.append_nil] at hend

/-- From each place it comes to, the lexer comes to the end. -/
theorem to_end (h : Passes text before earlier rest)
    (hok : tokensFrom text.length fuel earlier rest = .ok ts) (hfuel : rest.length < fuel) :
    Passes text text ts.reverse [] := by
  induction fuel generalizing before earlier rest with
  | zero => exact absurd hfuel (Nat.not_lt_zero _)
  | succ fuel ih =>
      cases rest with
      | nil =>
          cases hok
          have hbefore := h.eq_append
          rw [List.append_nil] at hbefore
          rw [List.reverse_reverse]
          exact hbefore ▸ h
      | cons c rest =>
          have hoffset : text.length - (rest.length + 1) = before.length := by
            rw [h.eq_append, List.length_append, List.length_cons]
            omega
          rw [List.length_cons, Nat.succ_lt_succ_iff] at hfuel
          rw [tokensFrom, hoffset] at hok
          split at hok
          · next hblank => exact ih (h.blank hblank) hok hfuel
          · next hblank =>
              split at hok
              · next t rest' hcut =>
                  obtain ⟨more, rfl, -⟩ := isLexeme_of_cutToken hcut
                  rw [List.length_append] at hfuel
                  exact ih (h.token (Bool.eq_false_iff.mpr hblank) hcut) hok (by omega)
              · cases hok

/-- The lexer has come by a place behind each token. -/
theorem exists_earlier (h : Passes text before ts rest) (hts : ts = later ++ earlier) :
    ∃ before rest, Passes text before earlier rest := by
  induction h generalizing later with
  | start =>
      obtain ⟨-, rfl⟩ := List.append_eq_nil_iff.mp hts.symm
      exact ⟨[], text, .start⟩
  | blank _ _ ih => exact ih hts
  | @token before ts c more rest t h hblank hcut ih =>
      cases later with
      | nil =>
          obtain rfl : t :: ts = earlier := hts
          exact ⟨before ++ c :: more, rest, h.token hblank hcut⟩
      | cons x later => exact ih (List.cons.inj hts).2

end Passes

/-! ## Main result -/

/-- Blanks between tokens have no meaning. Wherever the lexer comes to while it reads a text, blanks
can be put in, and the tokens are the same; so they can at both ends, and between any two tokens
that follow one another there is such a place. -/
theorem tokens_spaced (text : List Char) (ts : List Token) (hok : tokens text = .ok ts)
    (blanks : List Char) (hblanks : ∀ c ∈ blanks, isBlank c = true) :
    (∀ before earlier rest, Passes text before earlier rest →
      tokens (before ++ blanks ++ rest) = .ok ts) ∧
    tokens (blanks ++ text) = .ok ts ∧ tokens (text ++ blanks) = .ok ts ∧
    ∀ earlier later, ts = earlier ++ later →
      ∃ before rest, Passes text before earlier.reverse rest ∧ tokens before = .ok earlier := by
  have hplaces {before earlier rest} (hplace : Passes text before earlier rest) :
      tokens (before ++ (blanks ++ rest)) = .ok ts := by
    obtain ⟨later, rfl, hreads⟩ := hplace.reads hok
    have hseen : SeenAlike rest (blanks ++ rest) := by
      cases blanks with
      | nil => exact .same
      | cons b blanks =>
          refine .blank fun c hc => hblanks c ?_
          obtain rfl : b = c := Option.some.inj hc
          exact List.mem_cons_self
    exact (hplace.replace hseen).tokens_eq (hreads.behindBlanks hblanks)
  have hend : Passes text text ts.reverse [] := Passes.start.to_end hok (Nat.lt_succ_self _)
  refine ⟨fun before earlier rest hplace => ?_, hplaces .start, ?_, fun earlier later hts => ?_⟩
  · rw [List.append_assoc]
    exact hplaces hplace
  · have hbehind := hplaces hend
    rwa [List.append_nil] at hbehind
  · obtain ⟨before, rest, hplace⟩ := hend.exists_earlier (by rw [hts, List.reverse_append])
    have hbefore := hplace.tokens_before
    rw [List.reverse_reverse] at hbefore
    exact ⟨before, rest, hplace, hbefore⟩

/-- A star before two colons, an operator of two characters, and a number before two points. -/
def starAndPoints : List Char := ['*', ':', ':', 'a', '<', '=', '1', '.', '.']

theorem tokens_spaced_starAndPoints :
    tokens starAndPoints =
      .ok [.star, .doubleColon, .name "a", .le, .number { digits := 1 }, .dotDot] ∧
    (∀ c ∈ ['\t', '\u2003'], isBlank c = true) ∧
    tokens ['*', ':', ':', 'a', '<', '=', '1', '\t', '\u2003', '.', '.'] =
      .ok [.star, .doubleColon, .name "a", .le, .number { digits := 1 }, .dotDot] := by
  have hok : tokens starAndPoints =
      .ok [.star, .doubleColon, .name "a", .le, .number { digits := 1 }, .dotDot] := by decide
  have hblanks : ∀ c ∈ ['\t', '\u2003'], isBlank c = true :=
    List.forall_mem_cons.mpr ⟨rfl, List.forall_mem_singleton.mpr rfl⟩
  have hstar : Passes starAndPoints ['*'] [.star] [':', ':', 'a', '<', '=', '1', '.', '.'] :=
    @Passes.token starAndPoints [] [] '*' [] _ _ .start rfl rfl
  have hcolons : Passes starAndPoints ['*', ':', ':'] [.doubleColon, .star]
      ['a', '<', '=', '1', '.', '.'] :=
    @Passes.token starAndPoints _ _ ':' [':'] _ _ hstar rfl rfl
  have hname : Passes starAndPoints ['*', ':', ':', 'a'] [.name "a", .doubleColon, .star]
      ['<', '=', '1', '.', '.'] :=
    @Passes.token starAndPoints _ _ 'a' [] _ _ hcolons rfl (by decide)
  have hle : Passes starAndPoints ['*', ':', ':', 'a', '<', '=']
      [.le, .name "a", .doubleColon, .star] ['1', '.', '.'] :=
    @Passes.token starAndPoints _ _ '<' ['='] _ _ hname rfl rfl
  have hnumber : Passes starAndPoints ['*', ':', ':', 'a', '<', '=', '1']
      [.number { digits := 1 }, .le, .name "a", .doubleColon, .star] ['.', '.'] :=
    @Passes.token starAndPoints _ _ '1' [] _ _ hle rfl (by decide)
  exact ⟨hok, hblanks, (tokens_spaced starAndPoints _ hok _ hblanks).1 _ _ _ hnumber⟩

end Schematron.XPath.Lexer
