import Schematron.Proofs.Xml.Parsed

/-!
# What is written

Trees are written as the characters of units of markup (`Tree.toList_writeAll`): a tag or two for an
element, with the declarations that the writer adds, and one unit for each text and comment. Readable
trees need no more declarations (`Tree.explicitAll_of_readable`). With names of name characters the
units are whole (`Tree.whole_unitsAll`), so that a reader finds them again.
-/

namespace Schematron.Xml

namespace Tree

mutual

/-- The units of markup that a tree is written with. -/
def units : Tree → List Markup
  | .element name declarations attributes children =>
    match children with
    | [] => [.emptyTag (tagContent name declarations attributes)]
    | child :: rest =>
      .startTag (tagContent name declarations attributes) ::
        (units child ++ unitsAll rest ++ [.endTag name.written.toList])
  | .text value => [.text (Reference.escaped value.toList)]
  | .comment value => [.comment value.toList]

def unitsAll : List Tree → List Markup
  | [] => []
  | tree :: rest => units tree ++ unitsAll rest

end

theorem unitsAll_append (xs ys : List Tree) : unitsAll (xs ++ ys) = unitsAll xs ++ unitsAll ys := by
  induction xs with
  | nil => rfl
  | cons x xs ih => simp only [List.cons_append, unitsAll, ih, List.append_assoc]

theorem unitsAll_singleton (tree : Tree) : unitsAll [tree] = units tree := List.append_nil _

/-! ## Writing -/

theorem toList_foldl_append {α : Type} (f : α → String) (xs : List α) (out : String) :
    (xs.foldl (fun out x => out ++ f x) out).toList =
      out.toList ++ xs.flatMap fun x => (f x).toList := by
  induction xs generalizing out with
  | nil => simp
  | cons x xs ih => simp [ih]

/-- The start of the tag of an element. -/
theorem toList_tag (out : String) (name : Name) (declarations : List Declaration)
    (attributes : List (Name × String)) :
    (attributes.foldl (fun out (a : Name × String) => out ++ writeAttribute a.1.written a.2)
      (declarations.foldl (fun out d => out ++ writeAttribute (declarationKey d) d.uri)
        (out ++ "<" ++ name.written))).toList =
      out.toList ++ '<' :: tagContent name declarations attributes := by
  rw [toList_foldl_append, toList_foldl_append]
  simp [tagContent, writtenPairs, pairs, List.flatMap_map]

mutual

/-- The tree with all declarations that it is written with, inside of elements that put `outer` in
scope. -/
def explicit (outer : List Declaration) : Tree → Tree
  | .element name declarations attributes children =>
    let declared := writtenDeclarations outer declarations name attributes
    .element name declared attributes (explicitAll (declared ++ outer) children)
  | tree => tree

def explicitAll (outer : List Declaration) : List Tree → List Tree
  | [] => []
  | tree :: rest => explicit outer tree :: explicitAll outer rest

end

mutual

theorem toList_write :
    (tree : Tree) → (outer : List Declaration) → (out : String) →
      (write outer out tree).toList =
        out.toList ++ (units (explicit outer tree)).flatMap Markup.chars
  | .element name declarations attributes [], outer, out => by
      rw [write, String.toList_append, toList_tag]
      simp [explicit, explicitAll, units, Markup.chars]
  | .element name declarations attributes (child :: rest), outer, out => by
      rw [write]
      simp only [String.toList_append, toList_writeAll rest, toList_write child, toList_tag]
      simp [explicit, explicitAll, units, Markup.chars]
  | .text value, _, out => by
      simp [write, explicit, units, Reference.toList_escape, Markup.chars]
  | .comment value, _, out => by
      simp [write, explicit, units, Markup.chars]

/-- Trees are written as the units of markup of their explicit forms. -/
theorem toList_writeAll :
    (trees : List Tree) → (outer : List Declaration) → (out : String) →
      (writeAll outer out trees).toList =
        out.toList ++ (unitsAll (explicitAll outer trees)).flatMap Markup.chars
  | [], _, out => by simp [writeAll, explicitAll, unitsAll]
  | tree :: rest, outer, out => by
      rw [writeAll, toList_writeAll rest, toList_write tree, explicitAll, unitsAll,
        List.flatMap_append, List.append_assoc]

end

mutual

theorem explicit_of_readable :
    (tree : Tree) → {outer : List Declaration} → {scope : Scope} → SameLookup outer scope →
      Readable scope tree → explicit outer tree = tree
  | .element name declarations attributes children, outer, scope, hscope, hreadable => by
      obtain ⟨htag, -, hchildren⟩ := hreadable
      have hinner := hscope.declared htag.declared
      have hdeclared := writtenDeclarations_of_resolve hinner htag.resolves
        fun a ha => (htag.attributes a ha).resolves
      rw [explicit, hdeclared, explicitAll_of_readable children hinner hchildren]
  | .text _, _, _, _, _ => rfl
  | .comment _, _, _, _, _ => rfl

/-- Readable trees are explicit. -/
theorem explicitAll_of_readable :
    (trees : List Tree) → {outer : List Declaration} → {scope : Scope} → SameLookup outer scope →
      ReadableAll scope trees → explicitAll outer trees = trees
  | [], _, _, _, _ => rfl
  | tree :: rest, _, _, hscope, hreadable => by
      rw [explicitAll, explicit_of_readable tree hscope hreadable.1,
        explicitAll_of_readable rest hscope hreadable.2]

end

/-! ## Tags are whole -/

open Markup Machine

theorem enclosed_of_legible {cs : List Char} (h : Legible cs) : Enclosed cs :=
  enclosed_of_plain (h.not_mem (by decide)) fun _ hc => h.not_isQuote hc

theorem enclosed_writtenPairs {pairs : List (String × String)}
    (h : ∀ p ∈ pairs, Legible p.1.toList) : Enclosed (writtenPairs pairs) := by
  induction pairs with
  | nil => exact enclosed_of_plain (by simp [writtenPairs]) (by simp [writtenPairs])
  | cons p rest ih =>
      have hspace : Enclosed [' '] := enclosed_singleton (by decide) (by decide)
      have hequals : Enclosed ['='] := enclosed_singleton (by decide) (by decide)
      have hvalue := enclosed_quoted (Reference.not_mem_escaped (.inr rfl) p.2.toList)
      have hkey := enclosed_of_legible (h p List.mem_cons_self)
      rw [writtenPairs, List.flatMap_cons, toList_writeAttribute]
      exact (hspace.append (hkey.append (hequals.append hvalue))).append
        (ih fun q hq => h q (List.mem_cons_of_mem _ hq))

theorem head_writtenPairs (pairs : List (String × String)) :
    ∀ c ∈ (writtenPairs pairs).head?, c = ' ' := by
  cases pairs with
  | nil => simp [writtenPairs]
  | cons p rest => simp [writtenPairs, toList_writeAttribute]

theorem getLast_writtenPairs (pairs : List (String × String)) :
    ∀ c ∈ (writtenPairs pairs).getLast?, c = '"' := by
  rcases List.eq_nil_or_concat pairs with rfl | ⟨init, p, rfl⟩
  · simp [writtenPairs]
  · intro c hc
    have hend : writtenPairs (init ++ [p]) = writtenPairs init ++
        ' ' :: (p.1.toList ++ '=' :: '"' :: Reference.escaped p.2.toList) ++ ['"'] := by
      simp [writtenPairs, toList_writeAttribute]
    rw [List.concat_eq_append, hend, List.getLast?_concat] at hc
    cases hc
    rfl

theorem writtenPairs_eq_nil {pairs : List (String × String)} (h : writtenPairs pairs = []) :
    pairs = [] := by
  cases pairs with
  | nil => rfl
  | cons p rest => simp [writtenPairs, toList_writeAttribute] at h

variable {scope : Scope} {name : Name} {declarations : List Declaration}
  {attributes : List (Name × String)}

theorem LegibleTag.tagContent (h : LegibleTag name declarations attributes) :
    TagContent (Tree.tagContent name declarations attributes) where
  enclosed := (enclosed_of_legible h.name).append (enclosed_writtenPairs h.pairs)
  head := by
    intro c hc
    rw [Tree.tagContent, List.head?_append, Option.mem_def, Option.or_eq_some_iff] at hc
    rcases hc with hc | ⟨-, hc⟩
    · have hname := h.name c (List.mem_of_head? hc)
      refine ⟨?_, ?_, ?_⟩ <;> rintro rfl <;> revert hname <;> decide
    · obtain rfl := head_writtenPairs _ c hc
      decide

theorem LegibleTag.getLast? (h : LegibleTag name declarations attributes) :
    ∀ c ∈ (Tree.tagContent name declarations attributes).getLast?, c ≠ '/' := by
  intro c hc
  rw [Tree.tagContent, List.getLast?_append, Option.mem_def, Option.or_eq_some_iff] at hc
  rcases hc with hc | ⟨-, hc⟩
  · obtain rfl := getLast_writtenPairs _ c hc
    decide
  · have hname := h.name c (List.mem_of_getLast? hc)
    rintro rfl
    revert hname
    decide

/-! ## Trees that can be written -/

mutual

/-- The names of the tree are made of characters of names, and an element without a name has
something else to show. -/
def Writable : Tree → Prop
  | .element name declarations attributes children =>
    LegibleTag name declarations attributes ∧
      (name.written = "" → declarations ≠ [] ∨ attributes ≠ [] ∨ children ≠ []) ∧
        WritableAll children
  | _ => True

def WritableAll : List Tree → Prop
  | [] => True
  | tree :: rest => Writable tree ∧ WritableAll rest

end

theorem writableAll_append {xs ys : List Tree} :
    WritableAll (xs ++ ys) ↔ WritableAll xs ∧ WritableAll ys := by
  induction xs with
  | nil => simp [WritableAll]
  | cons x xs ih => simp only [List.cons_append, WritableAll, ih, and_assoc]

mutual

theorem whole_units : (tree : Tree) → {scope : Scope} → Readable scope tree → Writable tree →
    ∀ u ∈ units tree, Whole u
  | .element name declarations attributes [], _, _, hwritable => by
      obtain ⟨hlegible, hnamed, -⟩ := hwritable
      intro u hu
      obtain rfl := List.mem_singleton.mp hu
      refine .emptyTag hlegible.tagContent fun hempty => ?_
      obtain ⟨hname, hpairs⟩ := List.append_eq_nil_iff.mp hempty
      obtain ⟨hdeclarations, hattributes⟩ :=
        List.append_eq_nil_iff.mp (writtenPairs_eq_nil hpairs)
      rcases hnamed (String.toList_eq_nil_iff.mp hname) with hne | hne | hne
      · exact hne (List.map_eq_nil_iff.mp hdeclarations)
      · exact hne (List.map_eq_nil_iff.mp hattributes)
      · exact hne rfl
  | .element name declarations attributes (child :: rest), _, hreadable, hwritable => by
      obtain ⟨-, -, hchild, hrest⟩ := hreadable
      obtain ⟨hlegible, -, hchild', hrest'⟩ := hwritable
      intro u hu
      rw [units, List.mem_cons, List.mem_append, List.mem_append, List.mem_singleton] at hu
      rcases hu with rfl | (hu | hu) | rfl
      · exact .startTag hlegible.tagContent hlegible.getLast?
      · exact whole_units child hchild hchild' u hu
      · exact whole_unitsAll rest hrest hrest' u hu
      · refine .endTag (enclosed_of_legible hlegible.name) fun c hc => ?_
        exact hlegible.name.not_isSpace (List.mem_of_getLast? hc)
  | .text value, _, hreadable, _ => by
      intro u hu
      obtain rfl := List.mem_singleton.mp hu
      have hvalue : value.isEmpty = false := hreadable
      refine .text (Reference.escaped_ne_nil fun hempty => ?_)
        (Reference.not_mem_escaped (.inl rfl) _)
      rw [String.toList_eq_nil_iff.mp hempty] at hvalue
      cases hvalue
  | .comment value, _, hreadable, _ => by
      intro u hu
      obtain rfl := List.mem_singleton.mp hu
      exact .comment hreadable

theorem whole_unitsAll : (trees : List Tree) → {scope : Scope} → ReadableAll scope trees →
    WritableAll trees → ∀ u ∈ unitsAll trees, Whole u
  | [], _, _, _ => by simp [unitsAll]
  | tree :: rest, _, hreadable, hwritable => by
      intro u hu
      rcases List.mem_append.mp hu with hu | hu
      · exact whole_units tree hreadable.1 hwritable.1 u hu
      · exact whole_unitsAll rest hreadable.2 hwritable.2 u hu

end

/-! ## Texts stay apart -/

/-- The first and the last unit of a tree are texts just if the tree is one. -/
theorem isText_units (tree : Tree) :
    (∃ u, (units tree).head? = some u ∧ u.isText = tree.isText) ∧
      ∀ u ∈ (units tree).getLast?, u.isText = tree.isText := by
  cases tree with
  | element name declarations attributes children =>
      cases children with
      | nil => simp [units, Markup.isText, isText]
      | cons child rest =>
          refine ⟨⟨_, rfl, rfl⟩, fun u hu => ?_⟩
          rw [units, ← List.cons_append, List.getLast?_concat] at hu
          cases hu
          rfl
  | text value => simp [units, Markup.isText, isText]
  | comment value => simp [units, Markup.isText, isText]

mutual

theorem textsApart_units : (tree : Tree) → {scope : Scope} → Readable scope tree →
    Markup.TextsApart (units tree)
  | .element name declarations attributes children, _, hreadable => by
      have hinner := textsApart_unitsAll children hreadable.2.2 hreadable.2.1
      cases children with
      | nil => exact List.isChain_singleton _
      | cons child rest =>
          rw [unitsAll] at hinner
          refine List.isChain_cons.mpr ⟨by simp [Markup.isText], List.isChain_append.mpr
            ⟨hinner, List.isChain_singleton _, fun a _ b hb => ?_⟩⟩
          cases hb
          simp [Markup.isText]
  | .text _, _, _ => List.isChain_singleton _
  | .comment _, _, _ => List.isChain_singleton _

theorem textsApart_unitsAll : (trees : List Tree) → {scope : Scope} → ReadableAll scope trees →
    TextsApart trees → Markup.TextsApart (unitsAll trees)
  | [], _, _, _ => .nil
  | tree :: rest, _, hreadable, hapart => by
      refine List.isChain_append.mpr ⟨textsApart_units tree hreadable.1,
        textsApart_unitsAll rest hreadable.2 hapart.tail, fun a ha b hb => ?_⟩
      cases rest with
      | nil => cases hb
      | cons next rest =>
          obtain ⟨⟨u, hu, hnext⟩, -⟩ := isText_units next
          rw [unitsAll, List.head?_append, hu] at hb
          cases hb
          rw [(isText_units tree).2 a ha, hnext]
          exact (List.isChain_cons_cons.mp hapart).1

end

end Tree

end Schematron.Xml
