import Mathlib.Data.List.TakeDrop
import Mathlib.Data.List.TakeWhile
import Schematron.Proofs.Runs
import Schematron.XPath.Lexer

/-!
# Reading tokens

How the lexer goes on does not depend on the offset, on the fuel that is left or on the tokens cut
off so far, except for whether the last of them ends an operand. So the tokens of a text can be
told from left to right (`Reads`): each token that is cut off takes the text to the text that
follows it (`Reads.cons`), and a blank is passed over (`Reads.blank`).
-/

namespace Schematron.XPath.Lexer

open Unicode Numeric

/-! ## Characters -/

theorem not_isAlphanumeric_of_isBlank {c : Char} (h : isBlank c = true) :
    isAlphanumeric c = false := by
  by_cases hlatin : c.toNat < 0x100
  · simp only [isBlank, Bool.or_eq_true, Bool.and_eq_true, decide_eq_true_eq, beq_iff_eq] at h
    simp only [isAlphanumeric, isAlphabetic, isNumeric, if_pos hlatin, isLatinAlphabetic,
      isLatinNumeric, Bool.or_eq_false_iff, Bool.and_eq_false_iff, decide_eq_false_iff_not,
      beq_eq_false_iff_ne]
    omega
  · simp [isAlphanumeric, isAlphabetic, isNumeric, hlatin, h]

theorem not_isBlank_of_isNameChar {c : Char} (h : isNameChar c = true) : isBlank c = false := by
  cases hblank : isBlank c with
  | false => rfl
  | true =>
      simp only [isNameChar, not_isAlphanumeric_of_isBlank hblank, Bool.false_or, Bool.or_eq_true,
        beq_iff_eq] at h
      obtain ((rfl | rfl) | rfl) | rfl := h <;> cases hblank

theorem isNameChar_of_isNameStart {c : Char} (h : isNameStart c = true) : isNameChar c = true := by
  rw [isNameStart, Bool.or_eq_true] at h
  rcases h with h | h <;> simp [isNameChar, isAlphanumeric, h]

theorem toNat_of_isDigit {c : Char} (h : c.isDigit = true) : 48 ≤ c.toNat ∧ c.toNat ≤ 57 := by
  simpa [Char.isDigit, UInt32.le_iff_toNat_le] using h

theorem not_isBlank_of_isDigit {c : Char} (h : c.isDigit = true) : isBlank c = false := by
  have hrange := toNat_of_isDigit h
  simp only [isBlank, Bool.or_eq_false_iff, Bool.and_eq_false_iff, decide_eq_false_iff_not,
    beq_eq_false_iff_ne]
  omega

theorem not_isNameStart_of_isDigit {c : Char} (h : c.isDigit = true) : isNameStart c = false := by
  have hrange := toNat_of_isDigit h
  have hunderscore : (c == '_') = false := by
    rw [beq_eq_false_iff_ne]
    rintro rfl
    exact absurd hrange (by decide)
  simp only [isNameStart, isAlphabetic, isLatinAlphabetic, hunderscore, Bool.or_false]
  rw [if_pos (by omega)]
  simp only [Bool.or_eq_false_iff, Bool.and_eq_false_iff, decide_eq_false_iff_not,
    beq_eq_false_iff_ne]
  omega

/-! ## Names -/

/-- The lexer reads the text whole as a name without prefix. -/
def IsName (name : String) : Prop := name ≠ "" ∧ cutName name.toList = (name.toList, [])

instance (name : String) : Decidable (IsName name) := inferInstanceAs (Decidable (_ ∧ _))

/-- No name goes on here. -/
def EndsName (rest : List Char) : Prop := ∀ c ∈ rest.head?, isNameChar c = false

theorem endsName_cons {c : Char} {rest : List Char} (h : isNameChar c = false) :
    EndsName (c :: rest) := by
  intro x hx
  obtain rfl : c = x := by simpa using hx
  exact h

theorem IsName.toList_eq {name : String} (h : IsName name) :
    ∃ c cs, name.toList = c :: cs ∧ isNameStart c = true ∧ ∀ x ∈ c :: cs, isNameChar x = true := by
  obtain ⟨hne, hcut⟩ := h
  cases hlist : name.toList with
  | nil => exact absurd (by simpa using hlist) hne
  | cons c cs =>
      rw [hlist, cutName] at hcut
      cases hstart : isNameStart c with
      | false => simp [hstart] at hcut
      | true =>
          rw [hstart, if_pos rfl, List.span_eq_takeWhile_dropWhile] at hcut
          refine ⟨c, cs, rfl, hstart, ?_⟩
          have htake := (Prod.mk.inj hcut).1
          rw [List.takeWhile_eq_self_iff] at htake
          exact htake

/-- A name holds no other characters. -/
theorem IsName.not_mem {name : String} (h : IsName name) {c : Char} (hc : isNameChar c = false) :
    c ∉ name.toList := by
  obtain ⟨first, cs, hlist, -, hchars⟩ := h.toList_eq
  intro hmem
  rw [hchars c (hlist ▸ hmem)] at hc
  cases hc

theorem cutName_append {name : String} (h : IsName name) {rest : List Char}
    (hrest : EndsName rest) : cutName (name.toList ++ rest) = (name.toList, rest) := by
  obtain ⟨c, cs, hlist, hstart, hchars⟩ := h.toList_eq
  rw [hlist, List.cons_append, cutName, if_pos hstart, ← List.cons_append]
  exact Text.span_append hchars hrest

/-- A name without prefix, where neither a name nor a colon goes on. -/
theorem cutQualifiedName_append {name : String} (h : IsName name) {rest : List Char}
    (hrest : EndsName rest) (hcolon : rest.head? ≠ some ':') :
    cutQualifiedName (name.toList ++ rest) = (name.toList, rest) := by
  obtain ⟨c, cs, hlist, -, -⟩ := h.toList_eq
  rw [cutQualifiedName, cutName_append h hrest, hlist]
  cases rest with
  | nil => rfl
  | cons x rest =>
      have hx : x ≠ ':' := fun hx => hcolon (by rw [hx]; rfl)
      simp [hx]

/-! ## Numbers -/

theorem digitsValue_toDigits (n : Nat) : Decimal.digitsValue (Nat.toDigits 10 n) = n := by
  have h := Nat.ofDigitChars_ten_toDigits (n := n)
  rw [Nat.ofDigitChars_eq_foldl] at h
  simpa only [Decimal.digitsValue, Nat.mul_comm] using h

/-- The digits of a whole number, where neither digits nor a point follow. -/
theorem cutNumber_toDigits (n : Nat) {rest : List Char}
    (hrest : ∀ c ∈ rest.head?, c.isDigit = false ∧ c ≠ '.') :
    cutNumber (Nat.toDigits 10 n ++ rest) = ({ digits := n }, rest) := by
  have hspan : (Nat.toDigits 10 n ++ rest).span Char.isDigit = (Nat.toDigits 10 n, rest) :=
    Text.span_append (fun c hc => Nat.isDigit_of_mem_toDigits (by decide) (by decide) hc)
      fun c hc => (hrest c hc).1
  rw [cutNumber, hspan]
  cases rest with
  | nil => simp [digitsValue_toDigits]
  | cons c rest => simp [(hrest c rfl).2, digitsValue_toDigits]

/-! ## Words and numbers -/

/-- A digit begins a number, and a letter a word. -/
theorem cutToken_of_isNameChar {c : Char} (h : c.isDigit = true ∨ isNameStart c = true)
    (afterOperand : Bool) (offset : Nat) (rest : List Char) :
    cutToken afterOperand offset c rest =
      if c.isDigit then .ok (.number (cutNumber (c :: rest)).1, (cutNumber (c :: rest)).2)
      else cutWord afterOperand (c :: rest) := by
  have hne (d : Char) (hd : d.isDigit = false ∧ isNameStart d = false) : c ≠ d := by
    rintro rfl
    simp [hd] at h
  have hquote : (c == '"' || c == '\'') = false := by
    simp [hne '"' (by decide), hne '\'' (by decide)]
  -- all cases but the last ask for a character that begins no name and no number
  rw [cutToken.eq_def]
  split
  case h_23 =>
    -- no token of a fixed spelling begins with the character
    rw [hquote, beq_eq_false_iff_ne.mpr (hne '$' (by decide)),
      beq_eq_false_iff_ne.mpr (hne '.' (by decide))]
    by_cases hdigit : c.isDigit = true
    · rw [if_pos hdigit, if_pos hdigit]
      rfl
    · rw [if_neg hdigit, if_neg hdigit, if_pos (h.resolve_left hdigit)]
      rfl
  all_goals exact absurd h (by decide)

theorem cutToken_word {c : Char} (h : isNameStart c = true) (afterOperand : Bool) (offset : Nat)
    (rest : List Char) :
    cutToken afterOperand offset c rest = cutWord afterOperand (c :: rest) := by
  rw [cutToken_of_isNameChar (.inr h), if_neg]
  intro hdigit
  rw [not_isNameStart_of_isDigit hdigit] at h
  cases h

theorem cutToken_digit {c : Char} (h : c.isDigit = true) (afterOperand : Bool) (offset : Nat)
    (rest : List Char) :
    cutToken afterOperand offset c rest =
      .ok (.number (cutNumber (c :: rest)).1, (cutNumber (c :: rest)).2) := by
  rw [cutToken_of_isNameChar (.inl h), if_pos h]

/-! ## Reading -/

/-- After an operand, or not, the text is cut into the tokens. -/
def Reads (afterOperand : Bool) (cs : List Char) (ts : List Token) : Prop :=
  ∀ length fuel before, before.head?.any Token.endsOperand = afterOperand → cs.length < fuel →
    tokensFrom length fuel before cs = .ok (before.reverse ++ ts)

namespace Reads

variable {afterOperand : Bool} {c : Char} {rest rest' : List Char} {t : Token} {ts : List Token}

theorem nil : Reads afterOperand [] [] := by
  intro length fuel before _ hfuel
  obtain ⟨fuel, rfl⟩ : ∃ f, fuel = f + 1 := ⟨fuel - 1, by simp at hfuel; omega⟩
  rw [tokensFrom, List.append_nil]

/-- A token at the beginning of a text and the tokens of what follows it. -/
theorem cons (hblank : isBlank c = false)
    (hcut : ∀ offset, cutToken afterOperand offset c rest = .ok (t, rest'))
    (hlength : rest'.length ≤ rest.length) (h : Reads t.endsOperand rest' ts) :
    Reads afterOperand (c :: rest) (t :: ts) := by
  intro length fuel before hbefore hfuel
  obtain ⟨fuel, rfl⟩ : ∃ f, fuel = f + 1 := ⟨fuel - 1, by simp at hfuel; omega⟩
  rw [tokensFrom, hblank, hbefore, hcut]
  have hrest := h length fuel (t :: before) rfl (by simp at hfuel; omega)
  simpa using hrest

theorem blank (hblank : isBlank c = true) (h : Reads afterOperand rest ts) :
    Reads afterOperand (c :: rest) ts := by
  intro length fuel before hbefore hfuel
  obtain ⟨fuel, rfl⟩ : ∃ f, fuel = f + 1 := ⟨fuel - 1, by simp at hfuel; omega⟩
  rw [tokensFrom, if_pos hblank]
  exact h length fuel before hbefore (by simp at hfuel; omega)

theorem tokens_eq {cs : List Char} (h : Reads false cs ts) : tokens cs = .ok ts :=
  h cs.length (cs.length + 1) [] rfl (Nat.lt_succ_self _)

end Reads

/-! ## Tokens -/

namespace Reads

variable {afterOperand : Bool} {rest : List Char} {ts : List Token}

theorem slash (hrest : rest.head? ≠ some '/') (h : Reads false rest ts) :
    Reads afterOperand ('/' :: rest) (.slash :: ts) := by
  refine cons rfl (fun offset => ?_) (Nat.le_refl _) h
  cases rest with
  | nil => rfl
  | cons c rest =>
      have hc : c ≠ '/' := fun hc => hrest (by rw [hc]; rfl)
      simp [cutToken, hc]

theorem openParen (h : Reads false rest ts) :
    Reads afterOperand ('(' :: rest) (.openParen :: ts) :=
  cons rfl (fun _ => rfl) (Nat.le_refl _) h

theorem closeParen (h : Reads true rest ts) :
    Reads afterOperand (')' :: rest) (.closeParen :: ts) :=
  cons rfl (fun _ => rfl) (Nat.le_refl _) h

theorem openBracket (h : Reads false rest ts) :
    Reads afterOperand ('[' :: rest) (.openBracket :: ts) :=
  cons rfl (fun _ => rfl) (Nat.le_refl _) h

theorem closeBracket (h : Reads true rest ts) :
    Reads afterOperand (']' :: rest) (.closeBracket :: ts) :=
  cons rfl (fun _ => rfl) (Nat.le_refl _) h

theorem atSign (h : Reads false rest ts) : Reads afterOperand ('@' :: rest) (.atSign :: ts) :=
  cons rfl (fun _ => rfl) (Nat.le_refl _) h

theorem eq (h : Reads false rest ts) : Reads afterOperand ('=' :: rest) (.eq :: ts) :=
  cons rfl (fun _ => rfl) (Nat.le_refl _) h

/-- A word that is cut off whole, where an operand can stand. -/
theorem word {name : String} {c : Char} {cs : List Char} (hlist : name.toList = c :: cs)
    (hstart : isNameStart c = true)
    (hcut : cutQualifiedName (name.toList ++ rest) = (name.toList, rest)) (h : Reads true rest ts) :
    Reads false (name.toList ++ rest) (.name name :: ts) := by
  rw [hlist, List.cons_append] at hcut ⊢
  refine cons (not_isBlank_of_isNameChar (isNameChar_of_isNameStart hstart)) (fun offset => ?_)
    (by simp) h
  rw [cutToken_word hstart, cutWord, hcut, ← hlist]
  simp

/-- A name where an operand can stand. -/
theorem name {name : String} (hname : IsName name) (hrest : EndsName rest)
    (hcolon : rest.head? ≠ some ':') (h : Reads true rest ts) :
    Reads false (name.toList ++ rest) (.name name :: ts) := by
  obtain ⟨c, cs, hlist, hstart, -⟩ := hname.toList_eq
  exact word hlist hstart (cutQualifiedName_append hname hrest hcolon) h

/-- The name of an operator where an operator can stand. -/
theorem operator {name : String} {t : Token} (ht : wordOperator? name = some t)
    (hname : IsName name) (hrest : EndsName rest) (hcolon : rest.head? ≠ some ':')
    (h : Reads t.endsOperand rest ts) : Reads true (name.toList ++ rest) (t :: ts) := by
  obtain ⟨c, cs, hlist, hstart, -⟩ := hname.toList_eq
  have hcut := cutQualifiedName_append hname hrest hcolon
  rw [hlist, List.cons_append] at hcut ⊢
  refine cons (not_isBlank_of_isNameChar (isNameChar_of_isNameStart hstart)) (fun offset => ?_)
    (by simp) h
  rw [cutToken_word hstart, cutWord, hcut, ← hlist]
  simp [ht]

/-- A text between two quotes of a kind that it does not hold. -/
theorem quoted {quote : Char} {value : String} (hquote : quote = '"' ∨ quote = '\'')
    (hvalue : quote ∉ value.toList) (h : Reads true rest ts) :
    Reads afterOperand (quote :: (value.toList ++ quote :: rest)) (.literal value :: ts) := by
  have hspan : (value.toList ++ quote :: rest).span (· != quote) =
      (value.toList, quote :: rest) := by
    refine Text.span_append (fun x hx => ?_) (by simp)
    rw [bne_iff_ne]
    rintro rfl
    exact hvalue hx
  have hcut (offset : Nat) : cutToken afterOperand offset quote
      (value.toList ++ quote :: rest) = cutLiteral quote (value.toList ++ quote :: rest) := by
    rcases hquote with rfl | rfl <;> rfl
  refine cons (by rcases hquote with rfl | rfl <;> rfl) (fun offset => ?_) (by simp; omega) h
  rw [hcut, cutLiteral, hspan]
  simp

/-- A text between apostrophes that holds none. -/
theorem literal {value : String} (hvalue : '\'' ∉ value.toList) (h : Reads true rest ts) :
    Reads afterOperand ('\'' :: (value.toList ++ '\'' :: rest)) (.literal value :: ts) :=
  quoted (.inr rfl) hvalue h

/-- A star with a colon and a name, where an operand can stand. -/
theorem starName {name : String} (hname : IsName name) (hrest : EndsName rest)
    (h : Reads true rest ts) :
    Reads false ('*' :: ':' :: (name.toList ++ rest)) (.name ("*:" ++ name) :: ts) := by
  refine cons rfl (fun offset => ?_) (by simp; omega) h
  obtain ⟨c, cs, hlist, -, -⟩ := hname.toList_eq
  have hcut := cutName_append hname hrest
  show Except.ok (cutStar false (':' :: (name.toList ++ rest))) = _
  have hname : String.ofList ('*' :: ':' :: name.toList) = "*:" ++ name := by
    rw [← String.toList_inj]
    simp
  rw [cutStar, if_neg (by decide), ← hname]
  simp only [hcut]
  rw [hlist]

theorem star (hrest : rest.head? ≠ some ':') (h : Reads true rest ts) :
    Reads false ('*' :: rest) (.star :: ts) := by
  refine cons rfl (fun offset => ?_) (Nat.le_refl _) h
  cases rest with
  | nil => rfl
  | cons c rest =>
      have hc : c ≠ ':' := fun hc => hrest (by rw [hc]; rfl)
      show Except.ok (cutStar false (c :: rest)) = _
      simp [cutStar, hc]

/-- A whole number. -/
theorem number (n : Nat) (hrest : ∀ c ∈ rest.head?, c.isDigit = false ∧ c ≠ '.')
    (h : Reads true rest ts) :
    Reads afterOperand ((toString n).toList ++ rest) (.number { digits := n } :: ts) := by
  have hlist : (toString n).toList = Nat.toDigits 10 n := by
    rw [Nat.toString_eq_repr, Nat.toList_repr]
  have hcut := cutNumber_toDigits n hrest
  rw [hlist]
  cases hcs : Nat.toDigits 10 n with
  | nil => exact absurd hcs Nat.toDigits_ne_nil
  | cons c cs =>
      have hdigit : c.isDigit = true :=
        Nat.isDigit_of_mem_toDigits (by decide) (by decide) (hcs ▸ List.mem_cons_self)
      rw [hcs, List.cons_append] at hcut
      rw [List.cons_append]
      refine cons (not_isBlank_of_isDigit hdigit) (fun offset => ?_) (by simp) h
      rw [cutToken_digit hdigit, hcut]

end Reads

end Schematron.XPath.Lexer
