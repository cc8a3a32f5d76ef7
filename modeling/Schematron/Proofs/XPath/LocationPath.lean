import Schematron.Proofs.XPath.Lexing
import Schematron.Proofs.XPath.Parsing
import Schematron.XPath.Query

/-!
# The paths of locations

A location is the text of an absolute path whose steps are of four kinds (`LocationStep`). The
lexer and the parser together are a left inverse of writing one: the text of a path compiles to
the path, without any names in scope (`compile_locationText`).
-/

namespace Schematron.XPath

/-- A step of a location: what it asks of a node, and the position among the nodes of its kind. An
attribute needs none. -/
inductive LocationStep where
  | element (localPart : String) (uri : Option String) (position : Nat)
  | attribute (localPart : String) (uri : Option String)
  | text (position : Nat)
  | comment (position : Nat)
  deriving DecidableEq, Repr

namespace LocationStep

/-- A position in brackets. -/
def positionText (position : Nat) : String := "[" ++ toString position ++ "]"

/-- The step as a location holds it. -/
def written : LocationStep → String
  | .element localPart none position => localPart ++ positionText position
  | .element localPart (some uri) position =>
    "*:" ++ localPart ++ "[namespace-uri()='" ++ uri ++ "']" ++ positionText position
  | .attribute localPart none => "@" ++ localPart
  | .attribute localPart (some uri) =>
    "@*[local-name()='" ++ localPart ++ "' and namespace-uri()='" ++ uri ++ "']"
  | .text position => "text()" ++ positionText position
  | .comment position => "comment()" ++ positionText position

/-- The names in a step are read whole, and no namespace ends its literal. -/
def Readable : LocationStep → Prop
  | .element localPart uri _ | .attribute localPart uri =>
    Lexer.IsName localPart ∧ ∀ u ∈ uri, '\'' ∉ u.toList
  | .text _ | .comment _ => True

/-! ## Tokens -/

def positionTokens (position : Nat) : List Token :=
  [.openBracket, .number { digits := position }, .closeBracket]

/-- The comparison of what a function tells of the context node with a text. -/
def comparisonTokens (function value : String) : List Token :=
  [.name function, .openParen, .closeParen, .eq, .literal value]

def tokens : LocationStep → List Token
  | .element localPart none position => .name localPart :: positionTokens position
  | .element localPart (some uri) position =>
    .name ("*:" ++ localPart) :: .openBracket :: (comparisonTokens "namespace-uri" uri ++
      .closeBracket :: positionTokens position)
  | .attribute localPart none => [.atSign, .name localPart]
  | .attribute localPart (some uri) =>
    .atSign :: .star :: .openBracket :: (comparisonTokens "local-name" localPart ++
      .and :: (comparisonTokens "namespace-uri" uri ++ [.closeBracket]))
  | .text position => .name "text" :: .openParen :: .closeParen :: positionTokens position
  | .comment position => .name "comment" :: .openParen :: .closeParen :: positionTokens position

/-! ## Expressions -/

/-- The test of a position. -/
def positionTest (position : Nat) : Expr :=
  .number (Numeric.Decimal.toFloat { digits := position })

/-- The test that a function tells a text of the context node. -/
def comparisonTest (function : Function) (value : String) : Expr :=
  .binary (.compare .eq) (.call function []) (.literal value)

def step : LocationStep → Step
  | .element localPart none position => .mk .child (.name none localPart) [positionTest position]
  | .element localPart (some uri) position =>
    .mk .child (.anyNamespace localPart)
      [comparisonTest .namespaceUri uri, positionTest position]
  | .attribute localPart none => .mk .attribute (.name none localPart) []
  | .attribute localPart (some uri) =>
    .mk .attribute .any
      [.binary .and (comparisonTest .localName localPart) (comparisonTest .namespaceUri uri)]
  | .text position => .mk .child .text [positionTest position]
  | .comment position => .mk .child .comment [positionTest position]

/-! ## Lexing -/

section Lexing

open Lexer

variable {rest : List Char} {ts : List Token}

/-- A path goes on with a slash or ends here. -/
def EndsStep (rest : List Char) : Prop := ∀ c ∈ rest.head?, c = '/'

theorem endsName_of_endsStep (h : EndsStep rest) : EndsName rest := by
  intro c hc
  rw [h c hc]
  decide

theorem head?_ne_colon (h : EndsStep rest) : rest.head? ≠ some ':' :=
  fun hcolon => absurd (h ':' hcolon) (by decide)

theorem reads_position (position : Nat) {afterOperand : Bool} (h : Reads true rest ts) :
    Reads afterOperand ((positionText position).toList ++ rest)
      (positionTokens position ++ ts) := by
  have hnumber : Reads false ((toString position).toList ++ ']' :: rest) _ :=
    Reads.number position (by simp) (.closeBracket h)
  simpa [positionText, positionTokens] using Reads.openBracket hnumber

theorem reads_comparison {name value : String} (hname : IsName name) (hvalue : '\'' ∉ value.toList)
    (h : Reads true rest ts) :
    Reads false ((name ++ "()='" ++ value ++ "'").toList ++ rest)
      (comparisonTokens name value ++ ts) := by
  have hliteral : Reads false ('\'' :: (value.toList ++ '\'' :: rest)) _ :=
    Reads.literal hvalue h
  have hcall := Reads.name hname (endsName_cons (by decide)) (by simp)
    (.openParen (.closeParen (.eq hliteral)))
  simpa [comparisonTokens] using hcall

/-- A bracket ends a name, and no colon follows it. -/
theorem reads_nameBeforePosition {name : String} (hname : IsName name) (position : Nat)
    (h : Reads true rest ts) :
    Reads false (name.toList ++ ((positionText position).toList ++ rest))
      (.name name :: (positionTokens position ++ ts)) := by
  refine Reads.name hname ?_ ?_ (reads_position position h)
  · simpa [positionText] using endsName_cons (by decide)
  · simp [positionText]

/-- A test that is written as a call. -/
theorem reads_typeTest {name : String} (hname : IsName name) (position : Nat)
    (h : Reads true rest ts) :
    Reads false (name.toList ++ '(' :: ')' :: ((positionText position).toList ++ rest))
      (.name name :: .openParen :: .closeParen :: (positionTokens position ++ ts)) :=
  Reads.name hname (endsName_cons (by decide)) (by simp)
    (.openParen (.closeParen (reads_position position h)))

/-- A conjunction with blanks around it. -/
theorem reads_and (h : Reads false rest ts) :
    Reads true (' ' :: 'a' :: 'n' :: 'd' :: ' ' :: rest) (.and :: ts) := by
  have hand := Reads.operator (t := .and) rfl (⟨by decide, by decide⟩ : IsName "and")
    (endsName_cons (by decide)) (by simp) (.blank (c := ' ') rfl h)
  exact .blank rfl hand

theorem reads {s : LocationStep} (hs : s.Readable) (hrest : EndsStep rest)
    (h : Reads true rest ts) : Reads false (s.written.toList ++ rest) (s.tokens ++ ts) := by
  have hlocalName : IsName "local-name" := ⟨by decide, by decide⟩
  have hnamespaceUri : IsName "namespace-uri" := ⟨by decide, by decide⟩
  rcases s with ⟨localPart, _ | uri, position⟩ | ⟨localPart, _ | uri⟩ | position | position
  · simpa [written.eq_def, tokens] using reads_nameBeforePosition hs.1 position h
  · have huri := reads_comparison hnamespaceUri (hs.2 uri rfl)
      (.closeBracket (reads_position position h))
    have hname := Reads.starName hs.1 (endsName_cons (by decide)) (.openBracket huri)
    simpa [written.eq_def, tokens] using hname
  · have hname := Reads.name hs.1 (endsName_of_endsStep hrest) (head?_ne_colon hrest) h
    have hat : Reads false _ _ := Reads.atSign hname
    simpa [written.eq_def, tokens] using hat
  · have huri := reads_comparison hnamespaceUri (hs.2 uri rfl) (.closeBracket h)
    have hlocal := reads_comparison hlocalName (hs.1.not_mem (by decide)) (reads_and huri)
    have hat : Reads false _ _ := Reads.atSign (Reads.star (by simp) (.openBracket hlocal))
    simpa [written.eq_def, tokens] using hat
  · have hname : IsName "text" := ⟨by decide, by decide⟩
    simpa [written.eq_def, tokens] using reads_typeTest hname position h
  · have hname : IsName "comment" := ⟨by decide, by decide⟩
    simpa [written.eq_def, tokens] using reads_typeTest hname position h

end Lexing

/-! ## Parsing -/

section Parsing

open XPath.Parser

variable [Regex.Engine] {setting : Setting} {fuel : Nat} {rest : List Token}

theorem predicateList_position (position : Nat) (hrest : rest.head? ≠ some .openBracket) :
    predicateList setting (fuel + 12) (positionTokens position ++ rest) =
      .ok ([positionTest position], rest) :=
  predicateList_cons (predicate_of_number _) (predicateList_of_end hrest)

theorem step_tokens {s : LocationStep} (hs : s.Readable) (hrest : ∀ t ∈ rest.head?, t = .slash) :
    Parser.step setting (fuel + 16) (s.tokens ++ rest) = .ok (s.step, rest) := by
  have hbracket : rest.head? ≠ some .openBracket := fun h => Token.noConfusion (hrest _ h)
  have hparen : ∀ more, rest ≠ .openParen :: more := by
    rintro more rfl
    exact Token.noConfusion (hrest _ rfl)
  -- the shortest predicate takes the least fuel, and the fuel for the longest is enough for all
  rcases s with ⟨localPart, _ | uri, position⟩ | ⟨localPart, _ | uri⟩ | position | position
  · exact step_of_parts (by simp [tokens]) (by simp [tokens]) rfl
      (nodeTest_of_name (nameTest_of_isName hs.1) (by simp [positionTokens]))
      (predicateList_position position hbracket)
  · exact step_of_parts (by simp [tokens]) (by simp [tokens]) rfl
      (nodeTest_of_name (nameTest_of_star localPart) (by simp))
      (predicateList_cons (predicate_of_namespace uri) (predicateList_position position hbracket))
  · exact step_of_parts (by simp [tokens]) (by simp [tokens]) rfl
      (nodeTest_of_name (nameTest_of_isName hs.1) hparen) (predicateList_of_end hbracket)
  · exact step_of_parts (by simp [tokens]) (by simp [tokens]) rfl rfl
      (predicateList_cons (predicate_of_expandedName localPart uri) (predicateList_of_end hbracket))
  · exact step_of_parts (by simp [tokens]) (by simp [tokens]) rfl rfl
      (predicateList_position position hbracket)
  · exact step_of_parts (by simp [tokens]) (by simp [tokens]) rfl rfl
      (predicateList_position position hbracket)

end Parsing

end LocationStep

/-! ## Paths -/

/-- The text of a path. -/
def locationText (steps : List LocationStep) : String :=
  "/" ++ String.intercalate "/" (steps.map LocationStep.written)

/-- The tokens of a path. -/
def locationTokens : List LocationStep → List Token
  | [] => [.slash]
  | s :: steps => .slash :: (s.tokens ++ steps.flatMap (.slash :: ·.tokens))

open LocationStep

variable {steps : List LocationStep}

theorem toList_locationText (s : LocationStep) (steps : List LocationStep) :
    (locationText (s :: steps)).toList =
      '/' :: (s.written.toList ++ steps.flatMap ('/' :: ·.written.toList)) := by
  induction steps generalizing s with
  | nil => simp [locationText]
  | cons next steps ih =>
      have hnext : (locationText (next :: steps)).toList = _ := ih next
      rw [List.flatMap_cons, List.cons_append, ← hnext]
      simp only [locationText, List.map_cons, String.intercalate_cons_cons, String.toList_append,
        List.append_assoc]
      rfl

/-- No step begins with a slash. -/
theorem head?_written_ne (s : LocationStep) (hs : s.Readable) (rest : List Char) :
    (s.written.toList ++ rest).head? ≠ some '/' := by
  rcases s with ⟨localPart, _ | uri, position⟩ | ⟨localPart, _ | uri⟩ | position | position
  · obtain ⟨c, cs, hlist, hstart, -⟩ := hs.1.toList_eq
    simp only [written.eq_def, String.toList_append, hlist, List.cons_append, List.head?_cons]
    rw [ne_eq, Option.some.injEq]
    rintro rfl
    exact absurd hstart (by decide)
  all_goals simp [written.eq_def]

theorem reads_steps (hs : ∀ s ∈ steps, s.Readable) (s : LocationStep) (hfirst : s.Readable) :
    Lexer.Reads false (s.written.toList ++ steps.flatMap ('/' :: ·.written.toList))
      (s.tokens ++ steps.flatMap (.slash :: ·.tokens)) := by
  induction steps generalizing s with
  | nil =>
      exact reads hfirst (by simp [EndsStep]) .nil
  | cons next steps ih =>
      have hmore := ih (fun s hs' => hs s (List.mem_cons_of_mem _ hs')) next
        (hs next List.mem_cons_self)
      simp only [List.flatMap_cons, List.cons_append]
      exact reads hfirst (by simp [EndsStep])
        (.slash (head?_written_ne next (hs next List.mem_cons_self) _) hmore)

theorem tokens_locationText (hs : ∀ s ∈ steps, s.Readable) :
    Lexer.tokens (locationText steps).toList = .ok (locationTokens steps) := by
  cases steps with
  | nil => rfl
  | cons s steps =>
      have hfirst := hs s List.mem_cons_self
      have hsteps := reads_steps (fun s hs' => hs s (List.mem_cons_of_mem _ hs')) s hfirst
      rw [toList_locationText]
      exact Lexer.Reads.tokens_eq (.slash (head?_written_ne s hfirst _) hsteps)

variable [Regex.Engine]

theorem relative_steps {setting : Parser.Setting} {fuel : Nat} (hs : ∀ s ∈ steps, s.Readable)
    (s : LocationStep) (hfirst : s.Readable) :
    Parser.relative setting (fuel + 17 + steps.length)
        (s.tokens ++ steps.flatMap (.slash :: ·.tokens)) =
      .ok ((s :: steps).map LocationStep.step, []) := by
  induction steps generalizing s with
  | nil =>
      exact Parser.relative_of_step (step_tokens hfirst (by simp))
  | cons next steps ih =>
      have hmore := ih (fun s hs' => hs s (List.mem_cons_of_mem _ hs')) next
        (hs next List.mem_cons_self)
      rw [List.length_cons, ← Nat.add_assoc]
      refine Parser.relative_cons ?_ hmore
      rw [show fuel + 17 + steps.length = fuel + steps.length + 1 + 16 by omega]
      exact step_tokens hfirst (by simp)

/-- A path of locations begins at the document node. -/
theorem path_locationTokens {setting : Parser.Setting} {fuel : Nat} (hs : ∀ s ∈ steps, s.Readable) :
    Parser.path setting (fuel + 17 + steps.length) (locationTokens steps) =
      .ok (.path .root (steps.map LocationStep.step), []) := by
  cases steps with
  | nil => rfl
  | cons s steps =>
      have hmore : ∀ s ∈ steps, s.Readable := fun s hs' => hs s (List.mem_cons_of_mem _ hs')
      refine Parser.path_of_relative ?_ (relative_steps hmore s (hs s List.mem_cons_self))
      rcases s with ⟨_, _ | _, _⟩ | ⟨_, _ | _⟩ | _ | _ <;> rfl

omit [Regex.Engine] in
/-- There are more tokens than steps. -/
theorem length_lt_length_locationTokens (steps : List LocationStep) :
    steps.length < (locationTokens steps).length := by
  cases steps with
  | nil => decide
  | cons s steps =>
      have hmore : steps.length ≤ (steps.flatMap (.slash :: ·.tokens)).length := by
        induction steps with
        | nil => exact Nat.le_refl _
        | cons next steps ih =>
            simp only [List.flatMap_cons, List.length_append, List.length_cons]
            omega
      have hfirst : 0 < s.tokens.length := by
        rcases s with ⟨_, _ | _, _⟩ | ⟨_, _ | _⟩ | _ | _ <;> exact Nat.succ_pos _
      simp only [locationTokens, List.length_cons, List.length_append]
      omega

/-- The text of a path compiles to the path, whatever names are in scope. -/
theorem compile_locationText (names : StaticContext) (hs : ∀ s ∈ steps, s.Readable) :
    Query.compile names (locationText steps) =
      .ok ⟨locationText steps, .path .root (steps.map LocationStep.step)⟩ := by
  obtain ⟨ts, hts⟩ : ∃ ts, locationTokens steps = .slash :: ts := by
    cases steps <;> exact ⟨_, rfl⟩
  -- every step has tokens of its own, so the fuel lasts
  obtain ⟨fuel, hfuel⟩ : ∃ fuel,
      Parser.depthBound (locationTokens steps) = fuel + 16 + steps.length + 2 + 8 := by
    have hlength := length_lt_length_locationTokens steps
    exact ⟨Parser.depthBound (locationTokens steps) - (steps.length + 26), by
      rw [Parser.depthBound]
      omega⟩
  have hexpr : Parser.expression ⟨locationText steps, names⟩
      (Parser.depthBound (locationTokens steps)) 0 (locationTokens steps) =
        .ok (.path .root (steps.map LocationStep.step), []) := by
    rw [hfuel]
    refine Parser.expression_of_path ?_ (by simp [hts]) 8 (Nat.le_refl _) (by simp)
    rw [show fuel + 16 + steps.length + 1 = fuel + 17 + steps.length by omega]
    exact path_locationTokens hs
  have hparse : Expr.parse names (locationText steps) =
      .ok (.path .root (steps.map LocationStep.step)) := by
    rw [Expr.parse, tokens_locationText hs]
    rw [hts] at hexpr ⊢
    dsimp only
    rw [hexpr]
    rfl
  rw [Query.compile, hparse]
  rfl

end Schematron.XPath
