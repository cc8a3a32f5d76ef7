import Schematron.Proofs.Xml.Grafting
import Schematron.Proofs.Xml.Resolution

/-!
# Tags and their elements

The start tags and empty tags of a text that was read are the elements of the document, in the same
order. An element has the name that is written in its tag, and the attributes that are written
there, but those of one expanded name are made one (`Document.HasTag`).

Two keys of a tag differ as they are written, and may still be one expanded name: that of two
prefixes for one namespace. Every attribute that is written is one of the element just if no two of
the tag are such (`Document.tags_of_parse`).
-/

namespace Schematron.Xml

theorem forall₂_trans {α β γ : Type} {R : α → β → Prop} {S : β → γ → Prop} {T : α → γ → Prop}
    {xs : List α} {ys : List β} {zs : List γ} (h : List.Forall₂ R xs ys)
    (h' : List.Forall₂ S ys zs) (hT : ∀ x y z, R x y → S y z → T x z) : List.Forall₂ T xs zs := by
  induction h generalizing zs with
  | nil =>
      cases h'
      exact .nil
  | cons hxy _ ih =>
      cases h' with
      | cons hyz hrest => exact .cons (hT _ _ _ hxy hyz) (ih hrest)

namespace Markup

/-- What stands in a start tag or an empty tag. -/
def tag? : Markup → Option (List Char)
  | .startTag content | .emptyTag content => some content
  | _ => none

/-- The start tags and empty tags among units, in order. -/
def tags (units : List Located) : List (List Char) := units.filterMap (·.unit.tag?)

theorem tags_cons (u : Located) (units : List Located) :
    tags (u :: units) = u.unit.tag?.toList ++ tags units := by
  rw [tags, List.filterMap_cons]
  cases u.unit.tag? <;> rfl

end Markup

/-- The attributes that are written in a tag and are no declarations. -/
def Attributes.plain (content : List Char) : List Attributes.Written :=
  (Attributes.read content).1.filter fun a => (declaration? a.key "").isNone

namespace Document

open Xml.Tree

variable {doc doc' : Document} {id : NodeId} {content : List Char}

/-! ## Elements with tags -/

/-- The name of an attribute of the element that is written with this key: an attribute without
prefix has no namespace, another one that of its prefix. -/
def attributeName (doc : Document) (element : NodeId) (key : List Char) : Name :=
  let (pre, localPart) := Scope.splitName key
  ⟨pre, localPart, Name.namespaceIn ⟨pre, localPart, none⟩ false (doc.namespacesInScope element)⟩

/-- Attributes that are written in the tag of an element: with their names and with their values,
references replaced. -/
def Given (doc : Document) (element : NodeId) :
    List Attributes.Written → List (Name × String) → Prop :=
  List.Forall₂ fun a x => x.1 = doc.attributeName element a.key ∧
    Reference.unescape a.value = .ok x.2.toList

/-- The node is the element of a tag. It has the attributes that are left after those of the tag
were set, one after the other. -/
structure HasTag (doc : Document) (content : List Char) (id : NodeId) : Prop where
  name : ∃ name declarations, doc.kind id = .element name declarations ∧
    name.written.toList = Attributes.nameOf content
  attributes : ∃ given, doc.Given id (Attributes.plain content) given ∧
    List.Forall₂ (fun own x => doc.kind own = .attribute x.1 x.2) (doc.attributes id)
      (putAttributes [] given)

/-- The node is the attribute that is written: it has the name as it is written, and the value
with the references replaced. -/
def HoldsAttribute (doc : Document) (a : Attributes.Written) (id : NodeId) : Prop :=
  ∃ name value, doc.kind id = .attribute name value ∧ name.written.toList = a.key ∧
    Reference.unescape a.value = .ok value.toList

@[simp] theorem written_attributeName (doc : Document) (element : NodeId) (key : List Char) :
    (doc.attributeName element key).written.toList = key := Scope.written_splitName key _

/-- A name that was resolved in the scope of an element is the one that it gives. -/
theorem eq_attributeName {scope : Scope} (hscope : SameLookup (doc.around id) scope)
    {key : List Char} {name : Name} (h : scope.resolve false key = .ok name) :
    name = doc.attributeName id key := by
  have huri := Scope.uri_eq_of_resolve h
  rw [← namespaceIn_namespacesInScope hscope] at huri
  have hparts : name.pre = (Scope.splitName key).1 ∧ name.localPart = (Scope.splitName key).2 := by
    rw [Scope.resolve] at h
    dsimp only at h
    split at h
    · cases h
      exact ⟨rfl, rfl⟩
    · split at h
      · cases h
        exact ⟨rfl, rfl⟩
      · cases h
    · cases h
      exact ⟨rfl, rfl⟩
  obtain ⟨pre, localPart, uri⟩ := name
  obtain ⟨rfl, rfl⟩ := hparts
  exact congrArg (Name.mk _ _) huri

/-- The pairs of a tag, resolved in the scope of its element, are its attributes. -/
theorem given_of_pairs {scope : Scope} (hscope : SameLookup (doc.around id) scope) {position : Nat}
    {pairs : List (List Char × String)} {attributes : List (Name × String)}
    (hpairs : tagAttributes position content = .ok pairs)
    (hattributes : ResolvedIn scope (plainOf pairs) attributes) :
    doc.Given id (Attributes.plain content) attributes := by
  have hplain : List.Forall₂ (fun a p => p.1 = a.key ∧ Reference.unescape a.value = .ok p.2.toList)
      (Attributes.plain content) (plainOf pairs) := by
    refine List.rel_filter (fun a p hp => ?_) (forall₂_of_tagAttributes hpairs)
    -- whether a key declares something does not depend on the value
    show (declaration? a.key "").isNone = true ↔ (declaration? p.1 p.2).isNone = true
    rw [hp.1, Option.isNone_iff_eq_none, Option.isNone_iff_eq_none]
    exact ⟨fun h => declaration?_eq_none h _, fun h => declaration?_eq_none h _⟩
  refine forall₂_trans hplain hattributes fun a p x hp hx => ⟨?_, hx.2 ▸ hp.2⟩
  exact hp.1 ▸ eq_attributeName hscope hx.1

/-- The element of a tag stays that. -/
theorem HasTag.keep (h : doc.HasTag content id) (hkeeps : doc.Keeps doc') (hlinked : Linked doc)
    (hlinked' : Linked doc') : doc'.HasTag content id := by
  obtain ⟨⟨name, declarations, hkind, hname⟩, given, hgiven, hattributes⟩ := h
  have hid : id < doc.size := lt_size_of_kind hkind nofun
  have hkept {other : NodeId} {kind : NodeKind} (hother : doc.kind other = kind)
      (hdocument : kind ≠ .document) (htext : ∀ value, kind ≠ .text value) :
      doc'.kind other = kind := by
    rcases hkeeps.kind other (lt_size_of_kind hother hdocument) with hsame | ⟨value, -, htext', -⟩
    · exact hsame.trans hother
    · exact absurd (hother.symm.trans htext') (htext value)
  refine ⟨⟨name, declarations, hkept hkind nofun nofun, hname⟩, given, ?_, ?_⟩
  · have hscope : doc'.namespacesInScope id = doc.namespacesInScope id := by
      rw [namespacesInScope_eq, namespacesInScope_eq, hkeeps.around_eq hlinked hlinked' hid]
    have hsame : doc'.attributeName id = doc.attributeName id := by
      funext key
      rw [attributeName, attributeName, hscope]
    rw [Given, hsame]
    exact hgiven
  · rw [hkeeps.attributes id hid]
    exact hattributes.imp fun own x hown => hkept hown NodeKind.noConfusion
      fun _ => NodeKind.noConfusion

/-! ## What becomes of the attributes -/

/-- No two attributes of the tag have one expanded name. -/
def NamedApart (doc : Document) (content : List Char) (id : NodeId) : Prop :=
  (Attributes.plain content).Pairwise fun a b =>
    (doc.attributeName id a.key).sameExpanded (doc.attributeName id b.key) = false

theorem namedApart_iff {xs : List (Name × String)}
    (h : List.Forall₂ (fun a x => x.1 = doc.attributeName id a.key) (Attributes.plain content) xs) :
    doc.NamedApart content id ↔ xs.Pairwise fun x y => x.1.sameExpanded y.1 = false := by
  have hnames : (Attributes.plain content).map (fun a => doc.attributeName id a.key) =
      xs.map (·.1) := by
    rw [← List.forall₂_eq_eq_eq, List.forall₂_map_left_iff, List.forall₂_map_right_iff]
    exact h.imp fun a x hx => hx.symm
  have hplain : doc.NamedApart content id ↔
      ((Attributes.plain content).map fun a => doc.attributeName id a.key).Pairwise
        fun a b => a.sameExpanded b = false := by
    rw [List.pairwise_map]
    rfl
  rw [hplain, hnames, List.pairwise_map]

/-- All attributes of a tag are attributes of its element just if their expanded names differ. -/
theorem HasTag.forall₂_iff (h : doc.HasTag content id) :
    List.Forall₂ doc.HoldsAttribute (Attributes.plain content) (doc.attributes id) ↔
      doc.NamedApart content id := by
  obtain ⟨-, given, hgiven, hnodes⟩ := h
  constructor
  · intro hholds
    -- a name is known by how it is written
    have hwritten : ∀ x ∈ putAttributes [] given,
        x.1 = doc.attributeName id x.1.written.toList := by
      refine forall_putAttributes (P := fun name => name = doc.attributeName id name.written.toList)
        (by simp) fun x hx => ?_
      obtain ⟨a, -, ha⟩ := forall₂_mem_left hgiven.flip hx
      rw [ha.1, written_attributeName]
    refine (namedApart_iff ?_).mpr (pairwise_putAttributes given .nil)
    have hkeys : List.Forall₂ (fun x a => x.1.written.toList = a.key) (putAttributes [] given)
        (Attributes.plain content) := by
      refine forall₂_trans hnodes.flip hholds.flip fun x own a hx hown => ?_
      obtain ⟨name, value, hkind, hname, -⟩ := hown
      obtain ⟨rfl, -⟩ := NodeKind.attribute.inj (hkind.symm.trans hx)
      exact hname
    exact ((List.forall₂_and_left _ _).mpr ⟨hwritten, hkeys⟩).flip.imp fun a x hx => hx.2 ▸ hx.1
  · intro hapart
    have hdistinct := (namedApart_iff (hgiven.imp fun a x hx => hx.1)).mp hapart
    have hall : putAttributes [] given = given := putAttributes_of_distinct hdistinct
    rw [hall] at hnodes
    refine forall₂_trans hgiven hnodes.flip fun a x own hx hown => ?_
    exact ⟨x.1, x.2, hown, by rw [hx.1, written_attributeName], hx.2⟩

end Document

/-! ## While a document is read -/

namespace Growth

open Document Xml.Tree

variable {g g' : Growth} {tags : List (List Char)}

/-- The elements of the document are those of the tags that were read, and the declarations around
an open element are those that names in it are resolved with. -/
structure Tagged (g : Growth) (tags : List (List Char)) : Prop where
  sound : g.Sound
  elements : List.Forall₂ g.doc.HasTag tags g.doc.elements
  scopes : ∀ o ∈ g.opened, SameLookup (g.doc.around o.node) o.scope

namespace Tagged

theorem empty : Tagged {} [] := ⟨⟨.refl, nofun⟩, .nil, nofun⟩

theorem scope (h : g.Tagged tags) : SameLookup (g.doc.around g.target) g.scope := by
  rw [Growth.target, Growth.scope]
  split
  · next innermost rest hopened => exact h.scopes innermost (hopened ▸ List.mem_cons_self)
  · rw [around_root h.sound.built.linked]
    exact .refl []

/-- What is known of a document stays where the document keeps what it has. The elements that are
new have tags of their own, and around the elements that are opened the scopes are as they were
read. -/
theorem keep (h : g.Tagged tags) (hsound : g'.Sound) (hkeeps : g.doc.Keeps g'.doc)
    {more : List (List Char)} {new : List NodeId}
    (helements : g'.doc.elements = g.doc.elements ++ new)
    (hnew : List.Forall₂ g'.doc.HasTag more new)
    (hscopes : ∀ o ∈ g'.opened, o ∈ g.opened ∨ SameLookup (g'.doc.around o.node) o.scope) :
    g'.Tagged (tags ++ more) := by
  have hlinked := h.sound.built.linked
  refine ⟨hsound, ?_, fun o ho => ?_⟩
  · rw [helements]
    exact List.rel_append
      (h.elements.imp fun _ _ htag => htag.keep hkeeps hlinked hsound.built.linked) hnew
  · rcases hscopes o ho with hold | hscope
    · rw [hkeeps.around_eq hlinked hsound.built.linked (h.sound.opened o hold)]
      exact h.scopes o hold
    · exact hscope

/-- Texts and comments are no elements. -/
theorem addContent (h : g.Tagged tags) {doc : Document} (hsound : Sound { g with doc })
    (hkeeps : g.doc.Keeps doc) (helements : doc.elements = g.doc.elements) :
    Tagged { g with doc } tags := by
  have hkept := h.keep hsound hkeeps (helements.trans (List.append_nil _).symm) .nil
    fun o ho => .inl ho
  rwa [List.append_nil] at hkept

theorem addText (h : g.Tagged tags) {position : Nat} {text : String}
    (hadd : g.addText position text = .ok g') : g'.Tagged tags := by
  have hsound := h.sound.addText hadd
  rw [Growth.addText] at hadd
  split at hadd
  · next innermost rest hopened =>
      cases hadd
      have hnode := h.sound.opened innermost (hopened ▸ List.mem_cons_self)
      exact h.addContent hsound (keeps_appendText hnode text) (elements_appendText hnode text)
  · split at hadd
    · cases hadd
      exact h
    · cases hadd

theorem closeElement (h : g.Tagged tags) : g.closeElement.Tagged tags :=
  ⟨h.sound.closeElement, h.elements, fun o ho => h.scopes o (List.mem_of_mem_tail ho)⟩

theorem endElement (h : g.Tagged tags) {position : Nat} {name : List Char}
    (hend : g.endElement position name = .ok g') : g'.Tagged tags := by
  rw [Growth.endElement] at hend
  split at hend
  · cases hend
  · split at hend
    · cases hend
      exact h.closeElement
    · cases hend

/-- The element of a tag comes in behind those that there are. -/
theorem openElement (h : g.Tagged tags) {position : Nat} {content : List Char}
    (hopen : g.openElement position content = .ok g') : g'.Tagged (tags ++ [content]) := by
  have hsound := h.sound.openElement hopen
  have hlinked := hsound.built.linked
  obtain ⟨-, pairs, hpairs, name, hname, attributes, hattributes, rfl⟩ := openElement_eq_ok.mp hopen
  have htarget := h.sound.target_lt
  have hdeclared := pairwise_declarationsOf (Pairs.of_tagAttributes hpairs)
  -- the element is grafted, with nothing in it yet
  have hgrafted : Grafted g.doc g.target
      [.element name (declarationsOf pairs) (putAttributes [] attributes) []]
      (g.doc.opened g.target name (declarationsOf pairs) attributes) := by
    rw [opened_putAttributes htarget name attributes hdeclared]
    exact graft_nodes g.doc htarget (.element name (declarationsOf pairs) _ [])
      ⟨hdeclared, pairwise_putAttributes attributes .nil, .nil, trivial⟩ nofun
  have hholds := hgrafted.holdsAll.head
  have hscope : SameLookup ((g.doc.opened g.target name (declarationsOf pairs) attributes).around
      g.doc.size) ((declarationsOf pairs).reverse ++ g.scope) := by
    rw [hholds.around_eq hlinked, hgrafted.keeps.around_eq h.sound.built.linked hlinked htarget]
    exact h.scope.declared hdeclared
  have htag : (g.doc.opened g.target name (declarationsOf pairs) attributes).HasTag content
      g.doc.size := by
    refine ⟨⟨name, _, hholds.element_kind, Scope.written_of_resolve hname⟩, attributes,
      given_of_pairs hscope hpairs hattributes, hholds.forall₂_attributes⟩
  refine h.keep hsound hgrafted.keeps hgrafted.elements_eq ?_ fun o ho => ?_
  · have helement : (g.doc.opened g.target name (declarationsOf pairs) attributes).isElement
        g.doc.size = true := by rw [Document.isElement, hholds.element_kind]
    have hnew : nodeIdsAll g.doc.size
        [.element name (declarationsOf pairs) (putAttributes [] attributes) []] =
          [g.doc.size] := rfl
    rw [hnew, List.filter_cons_of_pos helement]
    exact .cons htag .nil
  · rcases List.mem_cons.mp ho with rfl | hold
    · exact .inr hscope
    · exact .inl hold

/-- A unit brings in the element of its tag, if it is one. -/
theorem add (h : g.Tagged tags) {u : Markup.Located} (hadd : g.add u = .ok g') :
    g'.Tagged (tags ++ u.unit.tag?.toList) := by
  have hnone (h : g'.Tagged tags) : g'.Tagged (tags ++ []) := by rwa [List.append_nil]
  rw [Growth.add] at hadd
  split at hadd
  · next raw hunit =>
      rw [hunit]
      split at hadd
      · exact hnone (h.addText hadd)
      · cases hadd
  · next cdata hunit =>
      rw [hunit]
      exact hnone (h.addText hadd)
  · next comment hunit =>
      rw [hunit]
      cases hadd
      have htarget := h.sound.target_lt
      exact hnone (h.addContent (h.sound.changed (changes_appendComment htarget _))
        (keeps_appendComment htarget _) (elements_appendComment htarget _))
  · next content hunit =>
      rw [hunit]
      exact h.openElement hadd
  · next content hunit =>
      rw [hunit]
      obtain ⟨opened, hopen, rfl⟩ := map_eq_ok.mp hadd
      exact (h.openElement hopen).closeElement
  · next name hunit =>
      rw [hunit]
      exact hnone (h.endElement hadd)

theorem foldlM {units : List Markup.Located} (h : g.Tagged tags)
    (hunits : units.foldlM Growth.add g = .ok g') : g'.Tagged (tags ++ Markup.tags units) := by
  induction units generalizing g tags with
  | nil =>
      cases hunits
      rw [Markup.tags, List.filterMap_nil, List.append_nil]
      exact h
  | cons u units ih =>
      rw [List.foldlM_cons, bind_eq_ok] at hunits
      obtain ⟨mid, hadd, hrest⟩ := hunits
      have hall := ih (h.add hadd) hrest
      rwa [List.append_assoc, ← Markup.tags_cons] at hall

end Tagged

end Growth

namespace Document

variable {doc : Document}

/-- The tags of a text that was read are the elements of the document, in order. What is written
in a tag are the attributes of its element, each with its name and its value, just if no two of
them have one expanded name. -/
theorem tags_of_parse {text : String} (h : parse text = .ok doc) :
    List.Forall₂
      (fun content id => doc.HasTag content id ∧
        (List.Forall₂ doc.HoldsAttribute (Attributes.plain content) (doc.attributes id) ↔
          doc.NamedApart content id))
      (Markup.tags (Markup.units (dropMark text.toList)).1) doc.elements := by
  obtain ⟨g, hg, -, -, rfl⟩ := exists_growth_of_parse h
  have htagged := Growth.Tagged.empty.foldlM hg
  rw [List.nil_append] at htagged
  exact htagged.elements.imp fun content id htag => ⟨htag, htag.forall₂_iff⟩

/-- A declaration, an attribute in the namespace of its prefix, and two without a namespace. -/
theorem tags_of_parse_prefixed :
    ∃ doc, parse "<a xmlns:p='u' p:x='1' y='&lt;'><b x=''/></a>" = .ok doc ∧
      doc.elements = [1, 4] ∧
      List.Forall₂
        (fun content id => doc.HasTag content id ∧
          (List.Forall₂ doc.HoldsAttribute (Attributes.plain content) (doc.attributes id) ↔
            doc.NamedApart content id))
        ["a xmlns:p='u' p:x='1' y='&lt;'".toList, "b x=''".toList] [1, 4] := by
  let doc : Document := ⟨#[
    { kind := .document, children := #[1] },
    { kind := .element (.plain "a") [⟨some "p", "u"⟩], parent := some 0, children := #[4],
      attributes := #[2, 3] },
    { kind := .attribute (.qualified "p" "x" "u") "1", parent := some 1 },
    { kind := .attribute (.plain "y") "<", parent := some 1 },
    { kind := .element (.plain "b") [], parent := some 1, attributes := #[5] },
    { kind := .attribute (.plain "x") "", parent := some 4 }]⟩
  have hread : parse "<a xmlns:p='u' p:x='1' y='&lt;'><b x=''/></a>" = .ok doc := rfl
  exact ⟨doc, hread, by decide, tags_of_parse hread⟩

/-- Two prefixes stand for one namespace. The tag is read, and of two attributes that differ as they
are written one is left: it has the name of the first and the value of the second. -/
theorem parse_twoPrefixes :
    ∃ doc, parse "<a xmlns:p='u' xmlns:q='u' p:x='1' q:x='2'/>" = .ok doc ∧
      doc.elements = [1] ∧ doc.attributes 1 = [2] ∧
      doc.kind 2 = .attribute (.qualified "p" "x" "u") "2" ∧
      Markup.tags (Markup.units "<a xmlns:p='u' xmlns:q='u' p:x='1' q:x='2'/>".toList).1 =
        ["a xmlns:p='u' xmlns:q='u' p:x='1' q:x='2'".toList] ∧
      ¬List.Forall₂ doc.HoldsAttribute
        (Attributes.plain "a xmlns:p='u' xmlns:q='u' p:x='1' q:x='2'".toList)
        (doc.attributes 1) := by
  let doc : Document := ⟨#[
    { kind := .document, children := #[1] },
    { kind := .element (.plain "a") [⟨some "p", "u"⟩, ⟨some "q", "u"⟩], parent := some 0,
      attributes := #[2] },
    { kind := .attribute (.qualified "p" "x" "u") "2", parent := some 1 }]⟩
  have hread : parse "<a xmlns:p='u' xmlns:q='u' p:x='1' q:x='2'/>" = .ok doc := rfl
  refine ⟨doc, hread, by decide, by decide, rfl, rfl, fun h => ?_⟩
  have hlength :
      (Attributes.plain "a xmlns:p='u' xmlns:q='u' p:x='1' q:x='2'".toList).length = 2 := by
    decide +kernel
  have hsame := hlength ▸ h.length_eq
  cases hsame

end Document

end Schematron.Xml
