import Schematron.Proofs.XPath.Legible
import Schematron.Proofs.XPath.Parsing

/-!
# Expressions that can be written

What is read of a text can be written again in the same context: its names are names of tokens, the
namespaces in it have prefixes, no literal holds both quotes, and no path is without steps but that
to the document node (`writable_of_parse`). All of this comes from the tokens that were read, or
from the readers, which read a predicate or a step where they leave the choice open.
-/

namespace Schematron.XPath

open Lexer Numeric

namespace Style

/-! ## Prefixes and tests -/

/-- The namespace has a prefix that is a name. -/
def HasPrefix (style : Style) (uri : String) : Prop :=
  IsName (style.prefixOf uri) ∧ style.names.namespaceOf (style.prefixOf uri) = .ok uri

variable {style : Style}

theorem mem_prefixes {pre uri : String} (h : style.names.namespaceOf pre = .ok uri) :
    pre ∈ "xml" :: style.names.namespaces.map (·.1) := by
  rw [StaticContext.namespaceOf] at h
  split at h
  · next hxml => simp [beq_iff_eq.mp hxml]
  · cases hlookup : style.names.namespaces.lookup pre with
    | none =>
        rw [hlookup] at h
        cases h
    | some found =>
        obtain ⟨before, after, hpairs, -⟩ := List.lookup_eq_some_iff.mp hlookup
        simp [hpairs]

/-- Any prefix that is a name will do. -/
theorem hasPrefix_of_namespaceOf {pre uri : String} (hpre : IsName pre)
    (h : style.names.namespaceOf pre = .ok uri) : style.HasPrefix uri := by
  cases hfind : ("xml" :: style.names.namespaces.map (·.1)).find? fun pre =>
      IsName pre && (style.names.namespaceOf pre).toOption == some uri with
  | none =>
      have hnone := List.find?_eq_none.mp hfind pre (mem_prefixes h)
      simp [hpre, h, Except.toOption] at hnone
  | some found =>
      have hfound := List.find?_some hfind
      rw [Bool.and_eq_true, decide_eq_true_eq, beq_iff_eq, toOption_eq_some] at hfound
      rw [HasPrefix, prefixOf, hfind]
      exact hfound

/-- The names in the test can be written. -/
def Spells (style : Style) : NodeTest → Prop
  | .name none localPart => IsName localPart
  | .name (some uri) localPart => IsName localPart ∧ style.HasPrefix uri
  | .inNamespace uri => style.HasPrefix uri
  | .anyNamespace localPart => IsName localPart
  | _ => True

end Style

namespace Parser

theorem spells_of_nameTest {style : Style} {setting : Setting} (hnames : setting.names = style.names)
    {name : String} {test : NodeTest} (hname : (Token.name name).Legible)
    (h : nameTest setting name = .ok test) : style.Spells test := by
  rcases hname with (hname | ⟨pre, localPart, hpre, hlocal, rfl⟩) | ⟨localPart, hlocal, rfl⟩
  · rw [nameTest_of_isName hname] at h
    cases h
    exact hname
  · rw [nameTest_of_prefixed hpre] at h
    obtain ⟨uri, huri, h⟩ := bind_eq_ok.mp h
    have hknown := Style.hasPrefix_of_namespaceOf hpre (hnames ▸ huri)
    split at h
    · cases h
      exact hknown
    · next hstar =>
        cases h
        exact ⟨hlocal.resolve_right hstar, hknown⟩
  · rw [nameTest_of_star] at h
    cases h
    exact hlocal

theorem spells_of_nodeTest {style : Style} {setting : Setting} (hnames : setting.names = style.names)
    {ts rest : List Token} {test : NodeTest} (hts : ∀ t ∈ ts, t.Legible)
    (h : nodeTest setting ts = .ok (test, rest)) : style.Spells test := by
  rw [nodeTest.eq_def] at h
  split at h
  · cases h
    trivial
  · split at h
    · next htype =>
        obtain ⟨_, -, h⟩ := bind_eq_ok.mp h
        cases h
        rw [typeTest?.eq_def] at htype
        split at htype <;> cases htype <;> trivial
    · cases h
  · obtain ⟨_, hname, h⟩ := bind_eq_ok.mp h
    cases h
    exact spells_of_nameTest hnames (hts _ List.mem_cons_self) hname
  · cases h

end Parser

/-! ## Expressions -/

namespace Style

variable [Regex.Engine]

/-- The expression can be written if those in it can be. -/
def Writes (style : Style) : Expr → Prop
  | .literal value => (Token.literal value).Legible
  | .number value => Decimal.toFloat { digits := style.numeral value } = value
  | .variableRef name => IsQualifiedName name ∧ name ∈ style.names.variableNames
  | .call function arguments => Parser.checkCall function arguments = .ok ()
  | .filter _ predicates => predicates ≠ []
  | .path start steps =>
    (start = .root ∨ steps ≠ []) ∧
      ∀ axis test predicates, .mk axis test predicates ∈ steps → style.Spells test
  | _ => True

/-- Only the document node is a path without steps. -/
theorem Writes.steps_ne_nil {style : Style} {start : PathStart} {steps : List Step}
    (h : style.Writes (.path start steps)) (hstart : start ≠ .root) : steps ≠ [] :=
  h.1.resolve_left hstart

/-- What reading makes can be written, as far as its numbers can. -/
theorem rules_writes (style : Style) (source : String) :
    Parser.Rules ⟨source, style.names⟩ Token.Legible fun e =>
      (∀ value, e = .number value → style.Writes e) → style.Writes e where
  binary _ := trivial
  negate _ := trivial
  literal h _ := h
  number _ h := h _ rfl
  variableRef hlegible hname _ := ⟨hlegible, hname⟩
  call hcheck _ := hcheck
  filter hne _ := hne
  path hne htests _ := by
    refine ⟨hne, fun axis test predicates hstep => ?_⟩
    rcases htests axis test predicates hstep with rfl | ⟨ts, rest, hts, htest⟩
    · trivial
    · exact Parser.spells_of_nodeTest rfl hts htest

/-- Every expression that is read can be written in the same context, if all numbers in it are
whole. -/
theorem writes_of_parse {style : Style} {source : String} {e : Expr}
    (h : Expr.parse style.names source = .ok e)
    (hnumbers : ∀ value, .number value ∈ e.parts →
      Decimal.toFloat { digits := style.numeral value } = value) : e.Every style.Writes := by
  have hevery := every_of_parse (style.rules_writes source)
    (fun _ hts => Lexer.legible_of_tokens hts) h
  intro part hpart
  refine hevery part hpart ?_
  rintro value rfl
  exact hnumbers value hpart

end Style

end Schematron.XPath
