import Schematron.Proofs.XPath.Lexing

/-!
# Lexemes

A token is cut off with the characters that make it up, its lexeme. Literals apart, no lexeme holds
a quote, nor a dollar sign behind its first character (`IsLexeme`, `isLexeme_of_cutToken`). So the
quotes of an expression pair up along its tokens, and where a dollar sign stands outside of them the
lexer comes to it with nothing cut off in between (`Passes.to_dollar`): there it reads a variable
(`readsVariable`).
-/

namespace Schematron.XPath.Lexer

open Unicode

/-! ## Parts of a token -/

/-- A character that a name with a prefix is made of. -/
def IsQualifiedChar (c : Char) : Prop := isNameChar c = true ∨ c = ':' ∨ c = '*'

/-- A name is cut off just where it can begin, and goes on as long as it can. -/
theorem cutName_eq {cs name rest : List Char} (h : cutName cs = (name, rest)) :
    (name = [] ∧ rest = cs ∧ ∀ c ∈ cs.head?, isNameStart c = false) ∨
    (name ≠ [] ∧ cs = name ++ rest ∧ (∀ c ∈ name, isNameChar c = true) ∧ EndsName rest) := by
  cases cs with
  | nil =>
      cases h
      exact .inl ⟨rfl, rfl, nofun⟩
  | cons c cs =>
      rw [cutName] at h
      split at h
      · next hstart =>
          rw [List.span_eq_takeWhile_dropWhile] at h
          obtain ⟨rfl, rfl⟩ := Prod.mk.inj h
          refine .inr ⟨?_, List.takeWhile_append_dropWhile.symm,
            fun x hx => List.mem_takeWhile_imp hx, Text.head?_dropWhile isNameChar (c :: cs)⟩
          rw [List.takeWhile_cons_of_pos (isNameChar_of_isNameStart hstart)]
          exact List.cons_ne_nil _ _
      · next hstart =>
          cases h
          refine .inl ⟨rfl, rfl, fun x hx => ?_⟩
          obtain rfl : c = x := Option.some.inj hx
          exact Bool.eq_false_iff.mpr hstart

/-- A name with or without prefix begins with a name; a colon stands behind a prefix. -/
theorem cutQualifiedName_eq {cs name rest : List Char} (h : cutQualifiedName cs = (name, rest)) :
    (name = [] ∧ rest = cs ∧ ∀ c ∈ cs.head?, isNameStart c = false) ∨
    ∃ first part, first ≠ [] ∧ cs = first ++ (part ++ rest) ∧ name = first ++ part ∧
      (∀ c ∈ first, isNameChar c = true) ∧ EndsName (part ++ rest) ∧
      (∀ c ∈ part.head?, c = ':') ∧ ∀ c ∈ part, IsQualifiedChar c := by
  have hfirst {first more} (hne : first = [] → False) (hcut : cutName cs = (first, more)) :
      first ≠ [] ∧ cs = first ++ more ∧ (∀ c ∈ first, isNameChar c = true) ∧ EndsName more :=
    (cutName_eq hcut).resolve_left fun h => hne h.1
  rw [cutQualifiedName] at h
  split at h
  · next hcut =>
      cases h
      obtain ⟨-, -, hstart⟩ | ⟨hne, -⟩ := cutName_eq hcut
      · exact .inl ⟨rfl, rfl, hstart⟩
      · exact absurd rfl hne
  · next first more hne hcut =>
      obtain ⟨hne, hcs, hchars, hends⟩ := hfirst hne hcut
      cases h
      refine .inr ⟨first, [':', '*'], hne, hcs, rfl, hchars, hends, by simp, ?_⟩
      simp [IsQualifiedChar]
  · next first more hne hstar hcut =>
      obtain ⟨hne, hcs, hchars, hends⟩ := hfirst hne hcut
      split at h
      · cases h
        exact .inr ⟨name, [], hne, hcs, by simp, hchars, hends, by simp, List.forall_mem_nil _⟩
      · next localPart after hlocal hcutLocal =>
          cases h
          obtain ⟨-, rfl, hlocalChars, -⟩ := (cutName_eq hcutLocal).resolve_left fun h => hlocal h.1
          refine .inr ⟨first, ':' :: localPart, hne, hcs, rfl, hchars, hends, by simp, ?_⟩
          rintro c (_ | ⟨_, hc⟩)
          · exact .inr (.inl rfl)
          · exact .inl (hlocalChars c hc)
  · next first more hne _ _ hcut =>
      obtain ⟨hne, hcs, hchars, hends⟩ := hfirst hne hcut
      cases h
      exact .inr ⟨name, [], hne, hcs, by simp, hchars, hends, by simp, List.forall_mem_nil _⟩

/-- A number is made of digits and a point, and takes all the digits that follow. -/
theorem cutNumber_eq (cs : List Char) :
    (∃ number, cs = number ++ (cutNumber cs).2 ∧ ∀ c ∈ number, c.isDigit = true ∨ c = '.') ∧
      ∀ c ∈ (cutNumber cs).2.head?, c.isDigit = false := by
  have hdigits (cs : List Char) : ∀ c ∈ cs.takeWhile Char.isDigit, c.isDigit = true ∨ c = '.' :=
    fun c hc => .inl (List.mem_takeWhile_imp hc)
  have hspan (cs : List Char) : cs.takeWhile Char.isDigit ++ cs.dropWhile Char.isDigit = cs :=
    List.takeWhile_append_dropWhile
  have hstop := Text.head?_dropWhile Char.isDigit
  have hwhole := hspan cs
  have hafter := hstop cs
  simp only [cutNumber, List.span_eq_takeWhile_dropWhile]
  generalize cs.dropWhile Char.isDigit = after at hwhole hafter ⊢
  split
  · exact ⟨⟨_, hwhole.symm, hdigits cs⟩, hafter⟩
  · next rest _ =>
      refine ⟨⟨cs.takeWhile Char.isDigit ++ '.' :: rest.takeWhile Char.isDigit, ?_, ?_⟩, hstop rest⟩
      · calc cs = cs.takeWhile Char.isDigit ++ '.' :: rest := hwhole.symm
          _ = (cs.takeWhile Char.isDigit ++ '.' :: rest.takeWhile Char.isDigit) ++
              rest.dropWhile Char.isDigit := by
            rw [List.append_assoc, List.cons_append, hspan]
      · intro c hc
        obtain hc | hc := List.mem_append.mp hc
        · exact hdigits cs c hc
        · obtain rfl | hc := List.mem_cons.mp hc
          · exact .inr rfl
          · exact hdigits rest c hc
  · exact ⟨⟨_, hwhole.symm, hdigits cs⟩, hafter⟩

/-- A point with a digit behind it begins a number. -/
theorem cutNumber_point {d : Char} (hd : d.isDigit = true) (rest : List Char) :
    (cutNumber ('.' :: d :: rest)).2 = (d :: rest).dropWhile Char.isDigit := by
  have hpoint : d ≠ '.' := by
    rintro rfl
    cases hd
  simp [cutNumber, List.span_eq_takeWhile_dropWhile, hpoint, show Char.isDigit '.' = false from rfl]

/-! ## The characters of a token -/

/-- A quote begins a literal. -/
def IsQuote (c : Char) : Prop := c = '"' ∨ c = '\''

instance (c : Char) : Decidable (IsQuote c) := inferInstanceAs (Decidable (_ ∨ _))

/-- A character that stands in a token behind its first one, literals apart. -/
def IsInner (c : Char) : Prop := c ≠ '$' ∧ ¬IsQuote c

instance (c : Char) : Decidable (IsInner c) := inferInstanceAs (Decidable (_ ∧ _))

theorem isInner_of_isNameChar {c : Char} (h : isNameChar c = true) : IsInner c := by
  refine ⟨?_, ?_⟩
  · rintro rfl
    exact absurd h (by decide)
  · rintro (rfl | rfl)
    all_goals exact absurd h (by decide)

theorem isInner_of_isQualifiedChar {c : Char} (h : IsQualifiedChar c) : IsInner c := by
  obtain h | rfl | rfl := h
  · exact isInner_of_isNameChar h
  all_goals decide

theorem isInner_of_isDigit {c : Char} (h : c.isDigit = true ∨ c = '.') : IsInner c := by
  obtain h | rfl := h
  · refine ⟨?_, ?_⟩
    · rintro rfl
      exact absurd h (by decide)
    · rintro (rfl | rfl)
      all_goals exact absurd h (by decide)
  · decide

/-- A lexeme, which begins with the character: a literal up to the quote that ends it, or
characters none of which is a quote, nor a dollar sign behind the first. -/
inductive IsLexeme (c : Char) : List Char → Prop
  | literal {value : List Char} (hquote : IsQuote c) (hvalue : c ∉ value) :
      IsLexeme c (value ++ [c])
  | plain {more : List Char} (hquote : ¬IsQuote c) (hmore : ∀ x ∈ more, IsInner x) : IsLexeme c more

theorem isInner_of_cutQualifiedName {cs name rest : List Char}
    (h : cutQualifiedName cs = (name, rest)) : cs = name ++ rest ∧ ∀ c ∈ name, IsInner c := by
  obtain ⟨rfl, rfl, -⟩ | ⟨first, part, -, rfl, rfl, hfirst, -, -, hpart⟩ := cutQualifiedName_eq h
  · exact ⟨rfl, nofun⟩
  · refine ⟨(List.append_assoc _ _ _).symm, fun c hc => ?_⟩
    obtain hc | hc := List.mem_append.mp hc
    · exact isInner_of_isNameChar (hfirst c hc)
    · exact isInner_of_isQualifiedChar (hpart c hc)

theorem isInner_of_cutNumber {c : Char} {rest : List Char}
    (h : c.isDigit = true ∨ c = '.' ∧ rest.head?.any Char.isDigit = true) :
    ∃ more, rest = more ++ (cutNumber (c :: rest)).2 ∧ ∀ x ∈ more, IsInner x := by
  obtain ⟨⟨number, heq, hchars⟩, hstop⟩ := cutNumber_eq (c :: rest)
  cases number with
  | cons first more =>
      obtain ⟨rfl, hrest⟩ := List.cons.inj heq
      exact ⟨more, hrest, fun x hx => isInner_of_isDigit (hchars x (List.mem_cons_of_mem _ hx))⟩
  | nil =>
      -- then the number would be empty, but the character belongs to it
      exfalso
      rw [← show c :: rest = (cutNumber (c :: rest)).2 from heq] at hstop
      obtain hdigit | ⟨rfl, hpoint⟩ := h
      · rw [hstop c rfl] at hdigit
        cases hdigit
      · cases rest with
        | nil => cases hpoint
        | cons d rest =>
            have hlength := congrArg List.length (heq.trans (cutNumber_point hpoint rest))
            have hle := (List.dropWhile_sublist Char.isDigit (l := d :: rest)).length_le
            simp only [List.length_cons] at hlength hle
            omega

theorem isLexeme_of_cutLiteral {quote : Char} {rest rest' : List Char} {t : Token}
    (hquote : IsQuote quote) (h : cutLiteral quote rest = .ok (t, rest')) :
    ∃ more, rest = more ++ rest' ∧ IsLexeme quote more := by
  rw [cutLiteral, List.span_eq_takeWhile_dropWhile] at h
  split at h
  · next value last after heq =>
      obtain ⟨rfl, hafter⟩ := Prod.mk.inj heq
      cases h
      have hlast : last = quote := by
        have hfirst := List.head?_dropWhile_not (· != quote) rest
        rw [hafter] at hfirst
        simpa using hfirst
      refine ⟨rest.takeWhile (· != quote) ++ [quote], ?_, .literal hquote fun hmem => ?_⟩
      · calc rest = rest.takeWhile (· != quote) ++ rest.dropWhile (· != quote) :=
              List.takeWhile_append_dropWhile.symm
          _ = rest.takeWhile (· != quote) ++ [quote] ++ rest' := by rw [hafter, hlast]; simp
      · simpa using List.mem_takeWhile_imp hmem
  · cases h

theorem isLexeme_of_cutWord {afterOperand : Bool} {c : Char} {rest rest' : List Char} {t : Token}
    (hstart : isNameStart c = true) (h : cutWord afterOperand (c :: rest) = .ok (t, rest')) :
    ∃ more, rest = more ++ rest' ∧ IsLexeme c more := by
  have hquote : ¬IsQuote c := (isInner_of_isNameChar (isNameChar_of_isNameStart hstart)).2
  rcases hcut : cutQualifiedName (c :: rest) with ⟨word, after⟩
  have hafter : after = rest' := by
    simp only [cutWord, hcut] at h
    split at h
    · split at h
      · exact (Prod.mk.inj (Except.ok.inj h)).2
      · cases h
    · exact (Prod.mk.inj (Except.ok.inj h)).2
  obtain ⟨hcs, hchars⟩ := isInner_of_cutQualifiedName hcut
  cases word with
  | cons first more =>
      obtain ⟨rfl, hrest⟩ := List.cons.inj hcs
      exact ⟨more, hafter ▸ hrest, .plain hquote fun x hx => hchars x (List.mem_cons_of_mem _ hx)⟩
  | nil =>
      -- a name begins here, so it is not empty
      obtain ⟨-, -, hno⟩ | ⟨first, part, hne, -, hword, -⟩ := cutQualifiedName_eq hcut
      · rw [hno c rfl] at hstart
        cases hstart
      · exact absurd (List.append_eq_nil_iff.mp hword.symm).1 hne

theorem isLexeme_of_cutStar {afterOperand : Bool} {rest rest' : List Char} {t : Token}
    (h : cutStar afterOperand rest = (t, rest')) :
    ∃ more, rest = more ++ rest' ∧ IsLexeme '*' more := by
  have hbare : ∃ more, rest = more ++ rest ∧ IsLexeme '*' more :=
    ⟨[], rfl, .plain (by decide) nofun⟩
  rw [cutStar.eq_def] at h
  split at h
  · cases h
    exact hbare
  · split at h
    · split at h
      · cases h
        exact hbare
      · next more localPart after hne hcut =>
          cases h
          obtain ⟨-, rfl, hchars, -⟩ := (cutName_eq hcut).resolve_left fun h => hne h.1
          refine ⟨':' :: localPart, rfl, .plain (by decide) ?_⟩
          rintro x (_ | ⟨_, hx⟩)
          · decide
          · exact isInner_of_isNameChar (hchars x hx)
    · cases h
      exact hbare

/-- What is cut off is a lexeme. -/
theorem isLexeme_of_cutToken {afterOperand : Bool} {offset : Nat} {c : Char}
    {rest rest' : List Char} {t : Token}
    (h : cutToken afterOperand offset c rest = .ok (t, rest')) :
    ∃ more, rest = more ++ rest' ∧ IsLexeme c more := by
  rw [cutToken.eq_def] at h
  split at h
  -- tokens of one and of two characters
  all_goals try first
    | (cases h; exact ⟨[], rfl, .plain (by decide) (List.forall_mem_nil _)⟩)
    | (cases h; exact ⟨[_], rfl, .plain (by decide) (List.forall_mem_singleton.mpr (by decide))⟩)
  case h_8 | h_20 => cases h
  case h_21 => exact isLexeme_of_cutStar (Except.ok.inj h)
  case h_23 =>
    by_cases hquote : IsQuote c
    · have hif : (c == '"' || c == '\'') = true := by simpa [IsQuote] using hquote
      rw [if_pos hif] at h
      exact isLexeme_of_cutLiteral hquote h
    · have hif : ¬(c == '"' || c == '\'') = true := by simpa [IsQuote] using hquote
      rw [if_neg hif] at h
      split at h
      · -- a variable
        split at h
        · cases h
        · next name after hne hcut =>
            cases h
            obtain ⟨hrest, hchars⟩ := isInner_of_cutQualifiedName hcut
            exact ⟨name, hrest, .plain hquote hchars⟩
      split at h
      · next hpoint =>
          obtain rfl : c = '.' := by simpa using hpoint
          split at h
          · next hdigit =>
              cases h
              obtain ⟨more, hrest, hchars⟩ := isInner_of_cutNumber (.inr ⟨rfl, hdigit⟩)
              exact ⟨more, hrest, .plain hquote hchars⟩
          · cases h
            exact ⟨[], rfl, .plain hquote (List.forall_mem_nil _)⟩
      split at h
      · next hdigit =>
          cases h
          obtain ⟨more, (hrest : rest = _), hchars⟩ := isInner_of_cutNumber (.inl hdigit)
          exact ⟨more, hrest, .plain hquote hchars⟩
      split at h
      · next hstart => exact isLexeme_of_cutWord hstart h
      · cases h

/-! ## Quotes -/

/-- The quote of the literal that is open behind a character, told from the one open before it. -/
def openQuote : Option Char → Char → Option Char
  | none, c => if IsQuote c then some c else none
  | some quote, c => if c = quote then none else some quote

/-- No literal is open behind the text. -/
def Unquoted (before : List Char) : Prop := before.foldl openQuote none = none

instance (before : List Char) : Decidable (Unquoted before) := inferInstanceAs (Decidable (_ = _))

theorem Unquoted.append_iff {before after : List Char} (h : Unquoted before) :
    Unquoted (before ++ after) ↔ Unquoted after := by
  rw [Unquoted, List.foldl_append, h]
  rfl

theorem foldl_openQuote_plain {cs : List Char} (h : ∀ c ∈ cs, ¬IsQuote c) :
    cs.foldl openQuote none = none := by
  induction cs with
  | nil => rfl
  | cons c cs ih =>
      obtain ⟨hc, hcs⟩ := List.forall_mem_cons.mp h
      rw [List.foldl_cons, openQuote, if_neg hc]
      exact ih hcs

theorem foldl_openQuote_literal {quote : Char} {cs : List Char} (h : quote ∉ cs) :
    cs.foldl openQuote (some quote) = some quote := by
  induction cs with
  | nil => rfl
  | cons c cs ih =>
      rw [List.mem_cons, not_or] at h
      rw [List.foldl_cons, openQuote, if_neg (Ne.symm h.1)]
      exact ih h.2

namespace IsLexeme

variable {c : Char} {more : List Char}

/-- A lexeme closes the literal that it opens. -/
theorem unquoted (h : IsLexeme c more) : Unquoted (c :: more) := by
  cases h with
  | literal hquote hvalue =>
      rw [Unquoted, List.foldl_cons, List.foldl_append, openQuote, if_pos hquote,
        foldl_openQuote_literal hvalue]
      exact if_pos rfl
  | plain hquote hmore =>
      exact foldl_openQuote_plain (List.forall_mem_cons.mpr ⟨hquote, fun x hx => (hmore x hx).2⟩)

/-- A dollar sign behind the first character of a lexeme stands in a literal. -/
theorem not_unquoted (h : IsLexeme c more) {xs ys : List Char} (hmore : more = xs ++ '$' :: ys) :
    ¬Unquoted (c :: xs) := by
  cases h with
  | plain _ hinner => exact absurd rfl (hinner '$' (hmore ▸ by simp)).1
  | @literal value hquote hvalue =>
      -- the quote that ends the literal stands behind the dollar sign
      have hxs : c ∉ xs := by
        intro hmem
        have hdrop := congrArg List.dropLast hmore
        rw [List.dropLast_concat, List.dropLast_append_of_ne_nil (List.cons_ne_nil _ _)] at hdrop
        exact hvalue (hdrop ▸ List.mem_append_left _ hmem)
      rw [Unquoted, List.foldl_cons, openQuote, if_pos hquote, foldl_openQuote_literal hxs]
      exact Option.some_ne_none c

end IsLexeme

/-! ## Places -/

/-- The lexer comes to a place of a text: what stands before it has been cut into the tokens, the
last one first, and the rest is still to be cut. -/
inductive Passes (text : List Char) : (before : List Char) → List Token → (rest : List Char) → Prop
  | start : Passes text [] [] text
  | blank {before : List Char} {ts : List Token} {c : Char} {rest : List Char}
      (h : Passes text before ts (c :: rest)) (hblank : isBlank c = true) :
      Passes text (before ++ [c]) ts rest
  | token {before : List Char} {ts : List Token} {c : Char} {more rest : List Char} {t : Token}
      (h : Passes text before ts (c :: (more ++ rest))) (hblank : isBlank c = false)
      (hcut : cutToken (ts.head?.any (·.endsOperand)) before.length c (more ++ rest) =
        .ok (t, rest)) :
      Passes text (before ++ c :: more) (t :: ts) rest

theorem Passes.eq_append {text before rest : List Char} {ts : List Token}
    (h : Passes text before ts rest) : text = before ++ rest := by
  induction h with
  | start => rfl
  | blank _ _ ih => rw [ih, List.append_assoc]; rfl
  | token _ _ _ ih => rw [ih, List.append_assoc]; rfl

/-- The lexer reads a variable of the name at a dollar sign of a text, which stands between the two
parts: it comes to the dollar sign, and the variable is the next token there. -/
def ReadsVariable (text before after : List Char) (name : String) : Prop :=
  ∃ earlier later rest, Passes text before earlier ('$' :: after) ∧
    cutToken (earlier.head?.any (·.endsOperand)) before.length '$' after =
      .ok (.variableName name, rest) ∧
    tokens text = .ok (earlier.reverse ++ .variableName name :: later)

theorem cutToken_dollar_eq (afterOperand : Bool) (offset : Nat) (rest : List Char) :
    cutToken afterOperand offset '$' rest =
      match cutQualifiedName rest with
      | ([], _) => .error (.variableNameMissing offset)
      | (name, rest) => .ok (.variableName (String.ofList name), rest) := rfl

theorem cutToken_dollar {afterOperand : Bool} {offset : Nat} {rest rest' : List Char} {t : Token}
    (h : cutToken afterOperand offset '$' rest = .ok (t, rest')) :
    ∃ name, name ≠ [] ∧ t = .variableName (String.ofList name) ∧
      cutQualifiedName rest = (name, rest') := by
  rw [cutToken_dollar_eq] at h
  split at h
  · cases h
  · next name after hne hcut =>
      cases h
      exact ⟨name, hne, rfl, hcut⟩

/-- The tokens that are cut off come behind those before. -/
theorem tokensFrom_eq_append {length fuel : Nat} {before ts : List Token} {cs : List Char}
    (h : tokensFrom length fuel before cs = .ok ts) : ∃ later, ts = before.reverse ++ later := by
  induction fuel generalizing before cs with
  | zero =>
      cases h
      exact ⟨[], (List.append_nil _).symm⟩
  | succ fuel ih =>
      cases cs with
      | nil =>
          cases h
          exact ⟨[], (List.append_nil _).symm⟩
      | cons c rest =>
          rw [tokensFrom] at h
          split at h
          · exact ih h
          · split at h
            · next t rest' _ =>
                obtain ⟨later, rfl⟩ := ih h
                exact ⟨t :: later, by simp⟩
            · cases h

/-- A dollar sign outside of literals stands behind a lexeme, not inside of it. -/
theorem IsLexeme.exists_gap {c : Char} {more rest between after : List Char} (h : IsLexeme c more)
    (hrest : more ++ rest = between ++ '$' :: after) (hbetween : Unquoted (c :: between)) :
    ∃ gap, between = more ++ gap ∧ rest = gap ++ '$' :: after ∧ Unquoted gap := by
  obtain ⟨gap, rfl, hgap⟩ | ⟨tail, hmore, htail⟩ := List.append_eq_append_iff.mp hrest
  · rw [← List.cons_append, h.unquoted.append_iff] at hbetween
    exact ⟨gap, rfl, hgap, hbetween⟩
  · cases tail with
    | nil => exact ⟨[], by simpa using hmore.symm, htail.symm, rfl⟩
    | cons y tail =>
        obtain ⟨rfl, -⟩ := List.cons.inj htail
        exact absurd hbetween (h.not_unquoted hmore)

/-- From each place it comes to, the lexer comes to the dollar signs that follow outside of
literals. -/
theorem Passes.to_dollar {text before between after rest : List Char} {ts result : List Token}
    {fuel : Nat} (h : Passes text before ts rest)
    (hok : tokensFrom text.length fuel ts rest = .ok result) (hfuel : rest.length < fuel)
    (hrest : rest = between ++ '$' :: after) (hbetween : Unquoted between) :
    ∃ earlier t later rest', Passes text (before ++ between) earlier ('$' :: after) ∧
      cutToken (earlier.head?.any (·.endsOperand)) (before ++ between).length '$' after =
        .ok (t, rest') ∧
      result = earlier.reverse ++ t :: later := by
  induction fuel generalizing before between ts rest with
  | zero => exact absurd hfuel (Nat.not_lt_zero _)
  | succ fuel ih =>
      cases rest with
      | nil => exact absurd hrest.symm (by simp)
      | cons c rest =>
          have hoffset : text.length - (rest.length + 1) = before.length := by
            rw [h.eq_append, List.length_append, List.length_cons]
            omega
          rw [List.length_cons, Nat.succ_lt_succ_iff] at hfuel
          rw [tokensFrom, hoffset] at hok
          by_cases hblank : isBlank c = true
          · -- a blank is no dollar sign and no quote
            rw [if_pos hblank] at hok
            cases between with
            | nil =>
                obtain ⟨rfl, -⟩ := List.cons.inj hrest
                exact absurd hblank (by decide)
            | cons x between =>
                obtain ⟨rfl, hrest'⟩ := List.cons.inj hrest
                have hquote : ¬IsQuote c := by
                  rintro (rfl | rfl)
                  all_goals exact absurd hblank (by decide)
                rw [Unquoted, List.foldl_cons, openQuote, if_neg hquote] at hbetween
                have hfound := ih (h.blank hblank) hok hfuel hrest' hbetween
                rwa [List.append_assoc] at hfound
          · rw [if_neg hblank] at hok
            split at hok
            · next t rest' hcut =>
                cases between with
                | nil =>
                    obtain ⟨rfl, rfl⟩ := List.cons.inj hrest
                    obtain ⟨later, rfl⟩ := tokensFrom_eq_append hok
                    rw [List.append_nil]
                    exact ⟨ts, t, later, rest', h, hcut, by simp⟩
                | cons x between =>
                    obtain ⟨rfl, hrest'⟩ := List.cons.inj hrest
                    obtain ⟨more, rfl, hlexeme⟩ := isLexeme_of_cutToken hcut
                    have hnext := h.token (Bool.eq_false_iff.mpr hblank) hcut
                    have hshort : rest'.length < fuel := by
                      rw [List.length_append] at hfuel
                      omega
                    obtain ⟨gap, rfl, hgap, hunquoted⟩ := hlexeme.exists_gap hrest' hbetween
                    have hfound := ih hnext hok hshort hgap hunquoted
                    rwa [List.append_assoc, List.cons_append] at hfound
            · cases hok

/-- At each dollar sign outside of literals of an expression it accepts, the lexer reads a variable
of the longest name, with or without prefix, that stands there. -/
theorem readsVariable {text before after : List Char} {ts : List Token} (hok : tokens text = .ok ts)
    (htext : text = before ++ '$' :: after) (hbefore : Unquoted before) :
    (cutQualifiedName after).1 ≠ [] ∧
      ReadsVariable text before after (String.ofList (cutQualifiedName after).1) := by
  obtain ⟨earlier, t, later, rest, hpasses, hcut, rfl⟩ :=
    Passes.start.to_dollar hok (Nat.lt_succ_self _) htext hbefore
  obtain ⟨name, hne, rfl, hname⟩ := cutToken_dollar hcut
  rw [hname]
  exact ⟨hne, earlier, later, rest, hpasses, hcut, hok⟩

/-- There is one such name. -/
theorem ReadsVariable.eq {text before after : List Char} {name : String}
    (h : ReadsVariable text before after name) :
    name = String.ofList (cutQualifiedName after).1 := by
  obtain ⟨earlier, later, rest, -, hcut, -⟩ := h
  obtain ⟨found, -, hname, hrest⟩ := cutToken_dollar hcut
  rw [hrest]
  exact Token.variableName.inj hname

end Schematron.XPath.Lexer
