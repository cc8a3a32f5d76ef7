import Schematron.Proofs.Xml.Written

/-!
# Reading what was written

A document that was read is written, and read again it is the same document, node for node
(`Document.parse_toXml`). The names in it have to be made of characters of XML names, since the
reader takes others, and an element without a name has to have something else: the empty tag it
would be written with is an end tag.

A reader of the units of a tree grafts the tree (`Growth.takes_units`). That is all that is needed
of a document, so that one that was put together from trees is read again too, if a reader could
have found these trees (`Document.parse_toXml_graftAll`).
-/

namespace Schematron.Xml

namespace Growth

open Xml.Tree

/-- Reading these units, wherever they stand, leads from one growth to the other. -/
def Takes (g : Growth) (us : List Markup) (g' : Growth) : Prop :=
  ∀ located : List Markup.Located, located.map (·.unit) = us → located.foldlM Growth.add g = .ok g'

variable {g g' g'' : Growth}

theorem Takes.nil : Takes g [] g := by
  intro located h
  rw [List.map_eq_nil_iff.mp h]
  rfl

theorem Takes.append {us vs : List Markup} (hu : Takes g us g') (hv : Takes g' vs g'') :
    Takes g (us ++ vs) g'' := by
  intro located h
  obtain ⟨first, second, rfl, hfirst, hsecond⟩ := List.map_eq_append_iff.mp h
  rw [List.foldlM_append, hu first hfirst]
  exact hv second hsecond

theorem Takes.single {u : Markup} (h : ∀ position, g.add ⟨position, u⟩ = .ok g') :
    Takes g [u] g' := by
  intro located hlocated
  obtain ⟨⟨position, unit⟩, rfl, rfl⟩ := List.map_eq_singleton_iff.mp hlocated
  rw [List.foldlM_cons, h position]
  rfl

/-! ## Trees inside of elements -/

/-- An element is taken if its children are. -/
theorem takes_element {g : Growth} {name : Name} {declarations : List Declaration}
    {attributes : List (Name × String)} {children : List Tree}
    (hroot : g.opened = [] → g.rooted = false) (htag : Tag g.scope name declarations attributes)
    (hlegible : LegibleTag name declarations attributes)
    (hchildren : ∀ (doc : Document) (o : OpenElement) (opened : List OpenElement),
      o.scope = declarations.reverse ++ g.scope → Takes ⟨doc, o :: opened, true⟩ (unitsAll children)
        ⟨doc.graftAll o.node children, o :: opened, true⟩) :
    g.Takes (units (.element name declarations attributes children))
      ⟨(g.doc.graft g.target (.element name declarations attributes children)).2, g.opened,
        true⟩ := by
  have hopen := htag.openElement hlegible hroot
  cases children with
  | nil =>
      refine .single fun position => ?_
      rw [Growth.add]
      dsimp only
      rw [hopen position]
      rfl
  | cons child rest =>
      have hstart : g.Takes [.startTag (tagContent name declarations attributes)] _ :=
        .single fun position => hopen position
      refine (hstart.append (hchildren _ _ _ rfl)).append (.single fun position => ?_)
      simp only [Growth.add, Growth.endElement, beq_self_eq_true, if_true]
      rfl

mutual

theorem takes_units : (tree : Tree) → {doc : Document} → {o : OpenElement} →
    {opened : List OpenElement} → Readable o.scope tree → Writable tree →
      Takes ⟨doc, o :: opened, true⟩ (units tree) ⟨(doc.graft o.node tree).2, o :: opened, true⟩
  | .element name declarations attributes children, _, o, _, hreadable, hwritable => by
      obtain ⟨htag, -, hchildren⟩ := hreadable
      obtain ⟨hlegible, -, hchildren'⟩ := hwritable
      refine takes_element nofun htag hlegible fun doc inner opened hscope => ?_
      exact takes_unitsAll children (hscope ▸ hchildren) hchildren'
  | .text value, _, o, _, _, _ => by
      refine .single fun position => ?_
      simp only [Growth.add, Reference.unescape_escaped, String.ofList_toList]
      rfl
  | .comment value, _, o, _, _, _ => by
      refine .single fun position => ?_
      simp only [Growth.add, String.ofList_toList]
      rfl

theorem takes_unitsAll : (trees : List Tree) → {doc : Document} → {o : OpenElement} →
    {opened : List OpenElement} → ReadableAll o.scope trees → WritableAll trees →
      Takes ⟨doc, o :: opened, true⟩ (unitsAll trees)
        ⟨doc.graftAll o.node trees, o :: opened, true⟩
  | [], _, _, _, _, _ => .nil
  | tree :: rest, _, _, _, hreadable, hwritable =>
      (takes_units tree hreadable.1 hwritable.1).append
        (takes_unitsAll rest hreadable.2 hwritable.2)

end

/-! ## Trees of a document node -/

theorem takes_topLevel {rooted : Bool} {trees : List Tree} (h : TopLevel rooted trees)
    (hreadable : ReadableAll [] trees) (hwritable : WritableAll trees) :
    Takes {} (unitsAll trees) ⟨Document.empty.graftAll Document.rootNode trees, [], rooted⟩ := by
  induction h with
  | nil => exact .nil
  | @comment rooted trees value h ih =>
      rw [unitsAll_append, unitsAll_singleton, Document.graftAll_concat]
      refine (ih (readableAll_append.mp hreadable).1 (writableAll_append.mp hwritable).1).append
        (.single fun position => ?_)
      simp only [Growth.add, String.ofList_toList]
      rfl
  | @element trees name declarations attributes children h ih =>
      obtain ⟨hdone, ⟨htag, -, hchildren⟩, -⟩ := readableAll_append.mp hreadable
      obtain ⟨hdone', ⟨hlegible, -, hchildren'⟩, -⟩ := writableAll_append.mp hwritable
      rw [unitsAll_append, unitsAll_singleton, Document.graftAll_concat]
      refine (ih hdone hdone').append ?_
      exact takes_element (fun _ => rfl) htag hlegible fun doc o opened hscope =>
        takes_unitsAll children (hscope ▸ hchildren) hchildren'

end Growth

namespace Document

open Xml.Tree

/-- The names of elements and attributes and the declared prefixes are made of characters of XML
names and colons. -/
def LegibleNames (doc : Document) : Prop :=
  ∀ id < doc.size, (∀ name ∈ doc.name? id, Legible name.written.toList) ∧
    ∀ d ∈ doc.declarations id, ∀ pre ∈ d.pre, Legible pre.toList

/-- An element without a name has a declaration, an attribute or a child. -/
def NamelessShown (doc : Document) : Prop :=
  ∀ id < doc.size, doc.isElement id = true → ∀ name ∈ doc.name? id, name.written = "" →
    doc.declarations id ≠ [] ∨ doc.attributes id ≠ [] ∨ doc.children id ≠ []

instance (doc : Document) : Decidable doc.LegibleNames :=
  inferInstanceAs (Decidable (∀ id < doc.size,
    (∀ name ∈ doc.name? id, Legible name.written.toList) ∧
      ∀ d ∈ doc.declarations id, ∀ pre ∈ d.pre, Legible pre.toList))

instance (doc : Document) : Decidable doc.NamelessShown :=
  inferInstanceAs (Decidable (∀ id < doc.size, doc.isElement id = true →
    ∀ name ∈ doc.name? id, name.written = "" →
      doc.declarations id ≠ [] ∨ doc.attributes id ≠ [] ∨ doc.children id ≠ []))

mutual

/-- What is known of the nodes of a document holds of the trees it has. -/
theorem writable_of_holds {doc : Document} (hnames : doc.LegibleNames)
    (hshown : doc.NamelessShown) : (tree : Tree) → {parent start : NodeId} →
      doc.Holds parent start tree → Writable tree
  | .element name declarations attributes children, _, start, h => by
      have hkind := h.element_kind
      have hlt : start < doc.size := lt_size_of_kind hkind (by simp)
      have hname : doc.name? start = some name := by rw [Document.name?_eq, hkind]; rfl
      have hdeclarations : doc.declarations start = declarations := by
        rw [Document.declarations, hkind]
      obtain ⟨hlegible, hprefixes⟩ := hnames start hlt
      refine ⟨⟨hlegible name hname, hdeclarations ▸ hprefixes, fun a ha => ?_⟩, fun hempty => ?_,
        writableAll_of_holdsAll hnames hshown children h.content⟩
      · obtain ⟨i, hi, rfl⟩ := List.mem_iff_getElem.mp ha
        have hkind : doc.kind (start + 1 + i) = .attribute attributes[i].1 attributes[i].2 := by
          rw [Document.kind, h.attribute_node hi]
          rfl
        refine (hnames _ (lt_size_of_kind hkind (by simp))).1 _ ?_
        rw [Document.name?_eq, hkind]
        rfl
      · have helement : doc.isElement start = true := by rw [Document.isElement, hkind]
        have hshows := hshown start hlt helement name hname hempty
        rw [hdeclarations, Document.attributes, h.element_node, h.element_children] at hshows
        refine hshows.imp_right (Or.imp (fun hne => ?_) fun hne => ?_)
        · rintro rfl
          exact hne rfl
        · rintro rfl
          exact hne rfl
  | .text _, _, _, _ => trivial
  | .comment _, _, _, _ => trivial

theorem writableAll_of_holdsAll {doc : Document} (hnames : doc.LegibleNames)
    (hshown : doc.NamelessShown) : (trees : List Tree) → {parent start : NodeId} →
      doc.HoldsAll parent start trees → WritableAll trees
  | [], _, _, _ => trivial
  | tree :: rest, _, _, h => ⟨writable_of_holds hnames hshown tree h.head,
      writableAll_of_holdsAll hnames hshown rest h.tail⟩

end

/-- What is written of a document begins with markup. -/
theorem dropMark_chars {trees : List Tree} {rooted : Bool} (h : TopLevel rooted trees) :
    dropMark ((unitsAll trees).flatMap Markup.chars) = (unitsAll trees).flatMap Markup.chars := by
  cases trees with
  | nil => rfl
  | cons tree rest =>
      obtain ⟨⟨u, hu, htext⟩, -⟩ := isText_units tree
      rw [h.isText_eq_false tree List.mem_cons_self] at htext
      obtain ⟨after, hchars⟩ := Markup.chars_eq_cons htext
      obtain ⟨units, hunits⟩ := List.head?_eq_some_iff.mp hu
      rw [unitsAll, hunits, List.cons_append, List.flatMap_cons, hchars]
      rfl

/-- Reading what is written of readable trees gives their document. -/
theorem parse_writeAll {trees : List Tree} (htop : TopLevel true trees)
    (hreadable : ReadableAll [] trees) (hwritable : WritableAll trees) :
    parse (writeAll [] "" trees) = .ok (Document.empty.graftAll rootNode trees) := by
  have hchars := toList_writeAll trees [] ""
  rw [explicitAll_of_readable trees (SameLookup.refl []) hreadable, String.toList_empty,
    List.nil_append] at hchars
  obtain ⟨located, hunits, hlocated⟩ :=
    Markup.units_chars (whole_unitsAll trees hreadable hwritable)
      (textsApart_unitsAll trees hreadable htop.textsApart)
  rw [parse, hchars, dropMark_chars htop, read, hunits]
  exact bind_eq_ok.mpr ⟨_, Growth.takes_topLevel htop hreadable hwritable located hlocated, rfl⟩

mutual

/-- Empty texts add nothing to a document. -/
theorem graft_tidy {doc : Document} {parent : NodeId} :
    (tree : Tree) → doc.graft parent tree.tidy = doc.graft parent tree
  | .element _ _ _ children => congrArg (some doc.size, ·) (graftAll_tidyAll children)
  | .text _ => rfl
  | .comment _ => rfl

theorem graftAll_tidyAll {doc : Document} {parent : NodeId} :
    (trees : List Tree) → doc.graftAll parent (tidyAll trees) = doc.graftAll parent trees
  | [] => rfl
  | tree :: rest => by
      rw [tidyAll]
      split
      · next hweight =>
          -- only an empty text has no weight
          have hempty : (doc.graft parent tree).2 = doc := by
            cases tree with
            | text value =>
                have hvalue : value.isEmpty = true := by simpa [weight] using hweight
                rw [graft, appendText, if_pos hvalue]
            | element => simp [weight] at hweight
            | comment => simp [weight] at hweight
          rw [List.nil_append, graftAll_tidyAll rest, graftAll, hempty]
      · rw [List.singleton_append, graftAll, graftAll, graft_tidy tree, graftAll_tidyAll rest]

end

/-- A document of trees that are readable but for empty texts is read again as it was written. -/
theorem parse_toXml_graftAll {trees : List Tree} (hproper : ProperAll trees)
    (hapart : TextsApart trees) (htop : TopLevel true (tidyAll trees))
    (hreadable : ReadableAll [] (tidyAll trees)) (hwritable : WritableAll (tidyAll trees)) :
    parse (Document.empty.graftAll rootNode trees).toXml =
      .ok (Document.empty.graftAll rootNode trees) := by
  rw [toXml, forest_graftAll hproper hapart, parse_writeAll htop hreadable hwritable,
    graftAll_tidyAll]

/-- A document that was read, written and read again is the same document. -/
theorem parse_toXml {text : String} {doc : Document} (h : parse text = .ok doc)
    (hnames : doc.LegibleNames) (hshown : doc.NamelessShown) :
    parse doc.toXml = .ok doc := by
  obtain ⟨trees, rfl, htop, hreadable⟩ := exists_trees_of_parse h
  have hapart := htop.textsApart
  have hproper := ReadableAll.proper trees hreadable
  rw [toXml, forest_graftAll hproper hapart, (ReadableAll.solid trees hreadable).tidyAll_eq]
  exact parse_writeAll htop hreadable
    (writableAll_of_holdsAll hnames hshown trees (holdsAll_graftAll hproper hapart))

/-- Two texts and a character data section become one text, instructions are dropped, and a default
namespace is taken back inside. -/
theorem parse_toXml_mixed :
    ∃ doc, parse "<!--c--><a k='1' xmlns='u'>x<![CDATA[<]]>y<?i?>z<b xmlns=''/></a>" = .ok doc ∧
      doc.LegibleNames ∧ doc.NamelessShown ∧ parse doc.toXml = .ok doc := by
  let doc : Document := ⟨#[
    { kind := .document, children := #[1, 2] },
    { kind := .comment "c", parent := some 0 },
    { kind := .element ⟨none, "a", some "u"⟩ [⟨none, "u"⟩], parent := some 0,
      children := #[4, 5], attributes := #[3] },
    { kind := .attribute ⟨none, "k", none⟩ "1", parent := some 2 },
    { kind := .text "x<yz", parent := some 2 },
    { kind := .element ⟨none, "b", none⟩ [⟨none, ""⟩], parent := some 2 }]⟩
  have hread : parse "<!--c--><a k='1' xmlns='u'>x<![CDATA[<]]>y<?i?>z<b xmlns=''/></a>" =
      .ok doc := rfl
  have hnames : doc.LegibleNames := by decide +kernel
  have hshown : doc.NamelessShown := by decide +kernel
  exact ⟨doc, hread, hnames, hshown, parse_toXml hread hnames hshown⟩

/-- The reader takes an element without a name, but not the empty tag it is written with, which is
an end tag. -/
theorem parse_toXml_nameless :
    ∃ doc, parse "<></>" = .ok doc ∧ doc.LegibleNames ∧
      parse doc.toXml = .error (.malformed 0 (.endTagUnmatched "")) := by
  refine ⟨⟨#[
    { kind := .document, children := #[1] },
    { kind := .element (.plain "") [], parent := some 0 }]⟩, rfl, by decide +kernel, ?_⟩
  decide +kernel

end Document

end Schematron.Xml
