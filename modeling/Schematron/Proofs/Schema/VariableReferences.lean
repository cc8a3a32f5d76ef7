import Schematron.Proofs.Schema.References
import Schematron.Proofs.XPath.Lexemes

/-!
# References and variables

A dollar sign of an expression begins a reference to a parameter and a variable. The variable takes
the longest name with or without prefix, and the reference its longest beginning without a colon and
without a middle dot (`takeWhile_cutQualifiedName`). So both are the same name just where the
variable has neither (`replacesAt_iff`), and otherwise a parameter can take the place of the
beginning of a variable.
-/

namespace Schematron.Schema

open Substitution XPath

/-! ## Places of a cut -/

/-- A character that a run does not hold stands behind the run. -/
theorem exists_gap {c : Char} {run tail before after : List Char} (hc : c ∉ run)
    (h : run ++ tail = before ++ c :: after) :
    ∃ gap, before = run ++ gap ∧ tail = gap ++ c :: after := by
  obtain ⟨gap, hbefore, htail⟩ | ⟨gap, hrun, htail⟩ := List.append_eq_append_iff.mp h
  · exact ⟨gap, hbefore, htail⟩
  · cases gap with
    | nil => exact ⟨[], by simpa using hrun.symm, htail.symm⟩
    | cons d gap =>
        obtain ⟨rfl, -⟩ := List.cons.inj htail
        exact absurd (hrun ▸ by simp) hc

namespace IsCut

variable {text before after : List Char} {cut left right : List Piece}

theorem drop (h : IsCut text (left ++ right)) : IsCut (right.flatMap Piece.written) right := by
  induction left generalizing text with
  | nil => exact h.written ▸ h
  | cons piece left ih => exact ih h.tail

/-- Each dollar sign of a text begins a reference. -/
theorem at_dollar (h : IsCut text cut) (htext : text = before ++ '$' :: after) :
    ∃ left name right, cut = left ++ .reference name :: right ∧
      left.flatMap Piece.written = before := by
  induction cut generalizing text before with
  | nil =>
      obtain rfl := h.written
      simp at htext
  | cons piece cut ih =>
      have hwritten : piece.written ++ cut.flatMap Piece.written = before ++ '$' :: after :=
        h.written.trans htext
      -- behind a piece without the dollar sign, it stands in one of the further pieces
      have hfurther {gap} (hbefore : before = piece.written ++ gap)
          (htail : cut.flatMap Piece.written = gap ++ '$' :: after) :
          ∃ left name right, piece :: cut = left ++ .reference name :: right ∧
            left.flatMap Piece.written = before := by
        obtain ⟨left, name, right, rfl, hleft⟩ := ih h.tail htail
        exact ⟨piece :: left, name, right, rfl, by rw [List.flatMap_cons, hleft, hbefore]⟩
      cases piece with
      | plain run =>
          obtain ⟨gap, hbefore, htail⟩ := exists_gap (h.plain run List.mem_cons_self).2 hwritten
          exact hfurther hbefore htail
      | reference name =>
          cases before with
          | nil => exact ⟨[], name, cut, rfl, rfl⟩
          | cons c before =>
              obtain ⟨rfl, hname⟩ := List.cons.inj hwritten
              have hdollar : '$' ∉ name.toList := fun hmem =>
                absurd (h.name name List.mem_cons_self '$' hmem) (by decide)
              obtain ⟨gap, rfl, htail⟩ := exists_gap hdollar hname
              exact hfurther rfl htail

/-- A reference takes the longest name behind its dollar sign. -/
theorem name_eq {name : String} (h : IsCut text (left ++ .reference name :: right))
    (htext : text = left.flatMap Piece.written ++ '$' :: after) :
    name = String.ofList (after.takeWhile isReferenceChar) := by
  have hafter : (Piece.reference name :: right).flatMap Piece.written = '$' :: after := by
    have hwritten := h.written
    rw [List.flatMap_append, htext] at hwritten
    exact List.append_cancel_left hwritten
  have hspan := (hafter ▸ h.drop).span_reference
  rw [List.span_eq_takeWhile_dropWhile] at hspan
  rw [(Prod.mk.inj hspan).1, String.ofList_toList]

end IsCut

/-! ## Replacing at a place -/

/-- At the dollar sign behind the first part of a text, a reference to the parameter of the name is
replaced: the reference is a piece of the text, and its value is put between what becomes of the
pieces before and behind it. -/
def ReplacesAt (parameters : Parameters) (text : String) (before : List Char) (name : String) :
    Prop :=
  ∃ value left right, parameters.lookup name = some value ∧
    IsCut text.toList (left ++ .reference name :: right) ∧
    left.flatMap Piece.written = before ∧
    (apply parameters text).toList = left.flatMap (replacement parameters) ++
      (value.toList ++ right.flatMap (replacement parameters))

/-- A parameter replaces at a dollar sign just if its name is the longest one that stands there. -/
theorem replacesAt_iff_name {parameters : Parameters} {text : String} {before after : List Char}
    (htext : text.toList = before ++ '$' :: after) {name : String}
    (hname : name ∈ parameters.map (·.1)) :
    ReplacesAt parameters text before name ↔
      name = String.ofList (after.takeWhile isReferenceChar) := by
  constructor
  · rintro ⟨value, left, right, -, hcut, rfl, -⟩
    exact hcut.name_eq htext
  · intro hafter
    obtain ⟨left, found, right, hcut, rfl⟩ := (isCut_cutOf text).at_dollar htext
    have hwhole := hcut ▸ isCut_cutOf text
    obtain rfl : found = name := (hwhole.name_eq htext).trans hafter.symm
    obtain ⟨value, hvalue⟩ := Option.ne_none_iff_exists'.mp fun hnone =>
      lookup_eq_none_iff.mp hnone hname
    refine ⟨value, left, right, hvalue, hwhole, rfl, ?_⟩
    rw [toList_apply, hcut, List.flatMap_append, List.flatMap_cons, replacement, hvalue]

/-! ## Variables -/

theorem isReferenceChar_iff {c : Char} :
    isReferenceChar c = true ↔ Lexer.isNameChar c = true ∧ c ≠ '·' := by
  rw [Lexer.isNameChar, Bool.or_eq_true, beq_iff_eq]
  show isReferenceChar c = true ↔ (isReferenceChar c = true ∨ c = '·') ∧ c ≠ '·'
  constructor
  · intro h
    refine ⟨.inl h, ?_⟩
    rintro rfl
    exact absurd h (by decide)
  · rintro ⟨h, hdot⟩
    exact h.resolve_right hdot

/-- The reference takes as much of the name of the variable as a reference can hold. -/
theorem takeWhile_cutQualifiedName {after : List Char}
    (hne : (Lexer.cutQualifiedName after).1 ≠ []) :
    after.takeWhile isReferenceChar =
      (Lexer.cutQualifiedName after).1.takeWhile isReferenceChar := by
  rcases hcut : Lexer.cutQualifiedName after with ⟨name, rest⟩
  rw [hcut] at hne
  obtain ⟨hnil, -⟩ | ⟨first, part, -, rfl, rfl, -, hends, hcolon, -⟩ := Lexer.cutQualifiedName_eq hcut
  · exact absurd hnil hne
  · have hpart : ∀ c ∈ part.head?, isReferenceChar c = false := by
      intro c hc
      rw [hcolon c hc]
      decide
    have hrest : ∀ c ∈ (part ++ rest).head?, isReferenceChar c = false := by
      intro c hc
      refine Bool.eq_false_iff.mpr fun hchar => ?_
      have hname := (isReferenceChar_iff.mp hchar).1
      rw [hends c hc] at hname
      cases hname
    rw [Text.takeWhile_append_of_head? hrest, Text.takeWhile_append_of_head? hpart]

/-- A reference can hold the name of a variable without a colon and without a middle dot. -/
theorem all_isReferenceChar_iff (after : List Char) :
    (∀ c ∈ (Lexer.cutQualifiedName after).1, isReferenceChar c = true) ↔
      ':' ∉ (Lexer.cutQualifiedName after).1 ∧ '·' ∉ (Lexer.cutQualifiedName after).1 := by
  constructor
  · intro h
    exact ⟨fun hmem => absurd (h _ hmem) (by decide), fun hmem => absurd (h _ hmem) (by decide)⟩
  · rintro ⟨hcolon, hdot⟩
    rcases hcut : Lexer.cutQualifiedName after with ⟨name, rest⟩
    rw [hcut] at hcolon hdot
    obtain ⟨rfl, -⟩ | ⟨first, part, -, -, rfl, hfirst, -, hpart, -⟩ := Lexer.cutQualifiedName_eq hcut
    · nofun
    · cases part with
      | cons c part =>
          obtain rfl := hpart c rfl
          exact absurd (by simp) hcolon
      | nil =>
          rw [List.append_nil] at hdot ⊢
          intro c hc
          refine isReferenceChar_iff.mpr ⟨hfirst c hc, ?_⟩
          rintro rfl
          exact hdot hc

/-- **Where references and variables agree.** At each dollar sign that stands outside of literals of
an expression, the lexer reads a variable. There a parameter is replaced just if its name is the
longest beginning of the name of the variable that a reference can hold. So the parameters that are
replaced are those of the whole name of the variable just if this name has no colon and no middle
dot. -/
theorem replacesAt_iff {text : String} {ts : List Token} {before after : List Char}
    (htokens : Lexer.tokens text.toList = .ok ts) (htext : text.toList = before ++ '$' :: after)
    (hbefore : Lexer.Unquoted before) :
    ∃ name : String, Lexer.ReadsVariable text.toList before after name ∧
      (∀ parameters : Parameters, ∀ parameter ∈ parameters.map (·.1),
        ReplacesAt parameters text before parameter ↔
          parameter.toList = name.toList.takeWhile isReferenceChar) ∧
      ((∀ parameters : Parameters, ∀ parameter ∈ parameters.map (·.1),
        (ReplacesAt parameters text before parameter ↔
          Lexer.ReadsVariable text.toList before after parameter)) ↔
        ':' ∉ name.toList ∧ '·' ∉ name.toList) := by
  obtain ⟨hne, hreads⟩ := Lexer.readsVariable htokens htext hbefore
  refine ⟨_, hreads, fun parameters parameter hparameter => ?_, ?_⟩
  · rw [replacesAt_iff_name htext hparameter, String.toList_ofList, ← takeWhile_cutQualifiedName hne]
    constructor
    · rintro rfl
      exact String.toList_ofList
    · intro h
      rw [← h, String.ofList_toList]
  · rw [String.toList_ofList, ← all_isReferenceChar_iff, ← List.takeWhile_eq_self_iff,
      ← takeWhile_cutQualifiedName hne]
    constructor
    · intro h
      -- the parameter of the name of the reference is replaced, so that it is the whole variable
      have hmem : String.ofList (after.takeWhile isReferenceChar) ∈
          [(String.ofList (after.takeWhile isReferenceChar), "")].map (·.1) := List.mem_cons_self
      have hwhole := ((h _ _ hmem).mp ((replacesAt_iff_name htext hmem).mpr rfl)).eq
      rw [← String.toList_ofList (l := after.takeWhile isReferenceChar), hwhole,
        String.toList_ofList]
    · intro hwhole parameters parameter hparameter
      rw [replacesAt_iff_name htext hparameter, hwhole]
      constructor
      · rintro rfl
        exact hreads
      · exact Lexer.ReadsVariable.eq

theorem replacesAt_iff_dash : ∃ name : String,
    Lexer.ReadsVariable "'$' = $x-y".toList "'$' = ".toList "x-y".toList name ∧
    (∀ parameters : Parameters, ∀ parameter ∈ parameters.map (·.1),
      ReplacesAt parameters "'$' = $x-y" "'$' = ".toList parameter ↔
        parameter.toList = name.toList.takeWhile isReferenceChar) ∧
    ((∀ parameters : Parameters, ∀ parameter ∈ parameters.map (·.1),
      (ReplacesAt parameters "'$' = $x-y" "'$' = ".toList parameter ↔
        Lexer.ReadsVariable "'$' = $x-y".toList "'$' = ".toList "x-y".toList parameter)) ↔
      ':' ∉ name.toList ∧ '·' ∉ name.toList) := by
  have htokens : Lexer.tokens "'$' = $x-y".toList =
      .ok [.literal "$", .eq, .variableName "x-y"] := by decide +kernel
  exact replacesAt_iff htokens (by decide) (by decide)

/-- A parameter takes the place of the beginning of a variable that goes on with a middle dot. -/
theorem replacesAt_middleDot :
    Lexer.tokens "$a·b".toList = .ok [.variableName "a·b"] ∧
    apply [("a", "$x")] "$a·b" = "$x·b" ∧
    ReplacesAt [("a", "$x")] "$a·b" [] "a" ∧
    ¬Lexer.ReadsVariable "$a·b".toList [] "a·b".toList "a" := by
  refine ⟨by decide +kernel, by decide +kernel, ?_, fun h => ?_⟩
  · have htext : "$a·b".toList = [] ++ '$' :: "a·b".toList := rfl
    exact (replacesAt_iff_name htext (by decide)).mpr (by decide +kernel)
  · exact absurd h.eq (by decide +kernel)

example : Lexer.tokens "$a:b".toList = .ok [.variableName "a:b"] ∧
    apply [("a", "$x")] "$a:b" = "$x:b" := by decide +kernel

end Schematron.Schema
