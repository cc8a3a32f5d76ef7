import Mathlib.Data.List.TakeDrop
import Schematron.Xml.Reader
import Schematron.Xml.Writer

/-!
# Names as they are written

A name that was resolved is written as it was read (`Scope.written_of_resolve`), and the key of a
declaration makes the same declaration again (`declaration?_declarationKey`). What a reader finds
resolved needs no declaration from the writer (`Tree.writtenDeclarations_of_resolve`).
-/

namespace Schematron.Xml

/-! ## Name characters -/

/-- The code points of the characters of XML names, the colon among them, from first to last. -/
def nameRanges : List (Nat × Nat) :=
  [(0x2D, 0x2E), (0x30, 0x3A), (0x41, 0x5A), (0x5F, 0x5F), (0x61, 0x7A), (0xB7, 0xB7),
    (0xC0, 0xD6), (0xD8, 0xF6), (0xF8, 0x37D), (0x37F, 0x1FFF), (0x200C, 0x200D),
    (0x203F, 0x2040), (0x2070, 0x218F), (0x2C00, 0x2FEF), (0x3001, 0xD7FF), (0xF900, 0xFDCF),
    (0xFDF0, 0xFFFD), (0x10000, 0xEFFFF)]

/-- A character of XML names, or the colon. -/
def isNameChar (c : Char) : Bool := nameRanges.any fun r => r.1 ≤ c.toNat && c.toNat ≤ r.2

/-- Nothing but characters of XML names and colons. -/
def Legible (cs : List Char) : Prop := ∀ c ∈ cs, isNameChar c = true

instance (cs : List Char) : Decidable (Legible cs) := decidable_of_iff _ List.all_eq_true

theorem Legible.append {xs ys : List Char} (hx : Legible xs) (hy : Legible ys) :
    Legible (xs ++ ys) := fun c hc => (List.mem_append.mp hc).elim (hx c) (hy c)

/-- What has a meaning of its own in markup is no character of names. -/
theorem Legible.not_mem {cs : List Char} (h : Legible cs) {c : Char}
    (hc : isNameChar c = false) : c ∉ cs := fun hmem => by
  rw [h c hmem] at hc
  cases hc

theorem Legible.not_isSpace {cs : List Char} (h : Legible cs) {c : Char} (hc : c ∈ cs) :
    Markup.isSpace c = false := by
  cases hspace : Markup.isSpace c with
  | false => rfl
  | true =>
      refine absurd hc (h.not_mem ?_)
      simp only [Markup.isSpace, Bool.or_eq_true, beq_iff_eq] at hspace
      rcases hspace with ((rfl | rfl) | rfl) | rfl <;> decide

theorem Legible.not_isQuote {cs : List Char} (h : Legible cs) {c : Char} (hc : c ∈ cs) :
    Markup.isQuote c = false := by
  cases hquote : Markup.isQuote c with
  | false => rfl
  | true =>
      refine absurd hc (h.not_mem ?_)
      simp only [Markup.isQuote, Bool.or_eq_true, beq_iff_eq] at hquote
      rcases hquote with rfl | rfl <;> decide

/-! ## Resolving -/

namespace Scope

/-- The parts that a written name is split into are written as the name was. -/
theorem written_splitName (raw : List Char) (uri : Option String) :
    (Name.mk (splitName raw).1 (splitName raw).2 uri).written.toList = raw := by
  have hraw := List.takeWhile_append_dropWhile (p := (!(· == ':') ·)) (l := raw)
  rw [splitName, Text.cutAt?, List.span_eq_takeWhile_dropWhile]
  cases hafter : raw.dropWhile (!· == ':') with
  | nil => simp [Name.written]
  | cons c localPart =>
      have hcolon : c = ':' := by
        have hhead := List.head?_dropWhile_not (!· == ':') raw
        rw [hafter] at hhead
        simpa using hhead
      rw [hafter, hcolon] at hraw
      simpa [Name.written] using hraw

theorem written_of_resolve {scope : Scope} {isElement : Bool} {raw : List Char} {name : Name}
    (h : scope.resolve isElement raw = .ok name) : name.written.toList = raw := by
  rw [resolve] at h
  dsimp only at h
  split at h
  · cases h
    exact written_splitName raw _
  · split at h
    · cases h
      exact written_splitName raw _
    · cases h
  · cases h
    exact written_splitName raw _

theorem getD_filter_isEmpty (uri : Option String) :
    (uri.filter (!·.isEmpty)).getD "" = uri.getD "" := by
  cases uri with
  | none => rfl
  | some uri =>
      cases huri : uri.isEmpty with
      | true =>
          obtain rfl : uri = "" := by simpa using huri
          rfl
      | false => simp [Option.filter, huri]

/-- The namespace of a name is what its prefix stands for. -/
theorem uri_of_resolve {scope : Scope} {isElement : Bool} {raw : List Char} {name : Name}
    (h : scope.resolve isElement raw = .ok name) (hxml : name.pre ≠ some "xml")
    (hscoped : name.pre.isSome ∨ isElement = true) :
    name.uri.getD "" = (scope.lookup? name.pre).getD "" := by
  rw [resolve] at h
  dsimp only at h
  split at h
  · next hpre =>
      cases h
      exact absurd hpre hxml
  · split at h
    · next uri hlookup =>
        cases h
        dsimp only
        rw [getD_filter_isEmpty, hlookup]
    · cases h
  · next hnone =>
      cases h
      have hisElement : isElement = true := by simpa [hnone] using hscoped
      dsimp only
      rw [getD_filter_isEmpty, if_pos hisElement, hnone]

end Scope

/-! ## Declarations -/

theorem toList_declarationKey (d : Declaration) :
    (Tree.declarationKey d).toList =
      match d.pre with
      | some pre => "xmlns:".toList ++ pre.toList
      | none => "xmlns".toList := by
  rw [Tree.declarationKey]
  cases d.pre <;> simp

theorem declaration?_declarationKey (d : Declaration) :
    declaration? (Tree.declarationKey d).toList d.uri = some d := by
  obtain ⟨pre, uri⟩ := d
  rw [toList_declarationKey]
  cases pre with
  | none => rfl
  | some pre =>
      have hlength : "xmlns:".length = 6 := rfl
      simp [declaration?, Text.after?, hlength]

/-- The key of a declaration is the key that made it. -/
theorem declarationKey_of_declaration? {key : List Char} {value : String} {d : Declaration}
    (h : declaration? key value = some d) :
    (Tree.declarationKey d).toList = key ∧ d.uri = value := by
  rw [declaration?] at h
  split at h
  · next hkey =>
      cases h
      exact ⟨(beq_iff_eq.mp hkey).symm, rfl⟩
  · obtain ⟨pre, hpre, rfl⟩ := Option.map_eq_some_iff.mp h
    rw [Text.after?] at hpre
    split at hpre
    · next hprefix =>
        cases hpre
        obtain ⟨rest, rfl⟩ := List.isPrefixOf_iff_prefix.mp hprefix
        refine ⟨?_, rfl⟩
        rw [toList_declarationKey]
        have hlength : "xmlns:".length = "xmlns:".toList.length := rfl
        simp [hlength]
    · cases hpre

/-! ## What the writer adds -/

namespace Tree

/-- Two scopes give each prefix the same meaning. -/
def SameLookup (outer : List Declaration) (scope : Scope) : Prop :=
  ∀ pre : Option String, outer.find? (·.pre == pre) = scope.find? (·.pre == pre)

theorem SameLookup.refl (scope : Scope) : SameLookup scope scope := fun _ => rfl

theorem find?_reverse {declarations : List Declaration}
    (h : declarations.Pairwise fun a b => a.pre ≠ b.pre) (pre : Option String) :
    declarations.reverse.find? (·.pre == pre) = declarations.find? (·.pre == pre) := by
  induction declarations with
  | nil => rfl
  | cons d rest ih =>
      obtain ⟨hd, hrest⟩ := List.pairwise_cons.mp h
      rw [List.reverse_cons, List.find?_append, ih hrest, List.find?_cons]
      cases hpre : d.pre == pre with
      | true =>
          -- nothing else has the prefix
          have hnone : rest.find? (·.pre == pre) = none := by
            rw [List.find?_eq_none]
            intro other hother hsame
            rw [← beq_iff_eq.mp hsame] at hpre
            exact hd other hother (beq_iff_eq.mp hpre)
          simp [hnone, hpre]
      | false => simp [hpre]

/-- Declarations of one element hold in either order. -/
theorem SameLookup.declared {outer declarations : List Declaration} {scope : Scope}
    (h : SameLookup outer scope) (hapart : declarations.Pairwise fun a b => a.pre ≠ b.pre) :
    SameLookup (declarations ++ outer) (declarations.reverse ++ scope) := fun pre => by
  rw [List.find?_append, List.find?_append, find?_reverse hapart, h pre]

/-- A name that was resolved needs no declaration. -/
theorem bind_of_resolve {outer declared : List Declaration} {scope : Scope} {isElement : Bool}
    {raw : List Char} {name : Name} (hscope : SameLookup (declared ++ outer) scope)
    (h : scope.resolve isElement raw = .ok name)
    (hscoped : name.pre.isSome ∨ isElement = true) : bind outer declared name = declared := by
  rw [bind]
  split
  · rfl
  · next hxml =>
      have hpre : name.pre ≠ some "xml" := by
        intro hpre
        simp [hpre] at hxml
      have huri := Scope.uri_of_resolve h hpre hscoped
      have hbound : ((declared ++ outer).find? (·.pre == name.pre)).elim "" (·.uri) =
          name.uri.getD "" := by
        rw [huri, hscope, Scope.lookup?]
        cases scope.find? (·.pre == name.pre) <;> rfl
      simp only [hbound, bne_self_eq_false, Bool.false_and]
      rfl

theorem writtenDeclarations_of_resolve {outer declarations : List Declaration} {scope : Scope}
    {name : Name} {attributes : List (Name × String)}
    (hscope : SameLookup (declarations ++ outer) scope)
    (hname : scope.resolve true name.written.toList = .ok name)
    (hattributes : ∀ a ∈ attributes, scope.resolve false a.1.written.toList = .ok a.1) :
    writtenDeclarations outer declarations name attributes = declarations := by
  rw [writtenDeclarations, bind_of_resolve hscope hname (.inr rfl)]
  induction attributes with
  | nil => rfl
  | cons a rest ih =>
      rw [List.map_cons, List.foldl_cons]
      have hkept : (if a.1.pre.isSome then bind outer declarations a.1 else declarations) =
          declarations := by
        split
        · next hpre => exact bind_of_resolve hscope (hattributes a List.mem_cons_self) (.inl hpre)
        · rfl
      rw [hkept]
      exact ih fun b hb => hattributes b (List.mem_cons_of_mem _ hb)

end Tree

end Schematron.Xml
