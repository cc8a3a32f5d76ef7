import Mathlib.Logic.Relation
import Schematron.Proofs.Outcome
import Schematron.Proofs.Xml.Links
import Schematron.Xml.Reader

/-!
# Building documents

Each operation on documents is a sequence of changes of seven kinds (`Change`), whose guards are
those that the operation checks. A document is built if changes lead to it from the empty one
(`Built`), with names of which a property is asked. Invariants of built documents are invariants
of the single change.

The reader makes nothing but changes (`built_of_parse`), with names whose namespace is not empty.
-/

namespace Schematron.Xml

namespace Document

/-- One change of a document; the names it brings in are allowed ones. -/
inductive Change (Allowed : Name → Prop) (doc : Document) : Document → Prop
  | element (parent : NodeId) (name : Name) (hparent : parent < doc.size) (hname : Allowed name) :
      Change Allowed doc (doc.pushListed false parent (.element name []))
  | text (parent : NodeId) (value : String) (hparent : parent < doc.size)
      (hvalue : value.isEmpty = false)
      (hlast : ∀ last, (doc.node parent).children.back? = some last → doc.isText last = false) :
      Change Allowed doc (doc.pushListed false parent (.text value))
  | comment (parent : NodeId) (value : String) (hparent : parent < doc.size) :
      Change Allowed doc (doc.pushListed false parent (.comment value))
  | attribute (element : NodeId) (name : Name) (value : String) (helement : element < doc.size)
      (hname : Allowed name) (hfresh : doc.findAttribute? element name = none) :
      Change Allowed doc (doc.pushListed true element (.attribute name value))
  | declaration {element : NodeId} {name : Name} {declarations : List Declaration}
      (declaration : Declaration) (hkind : doc.kind element = .element name declarations)
      (hfresh : declarations.any (·.pre == declaration.pre) = false) :
      Change Allowed doc (doc.setKind element (.element name (declarations ++ [declaration])))
  | moreText {id : NodeId} {before : String} (more : String) (hkind : doc.kind id = .text before) :
      Change Allowed doc (doc.setKind id (.text (before ++ more)))
  | value {id : NodeId} {name : Name} {before : String} (value : String)
      (hkind : doc.kind id = .attribute name before) :
      Change Allowed doc (doc.setKind id (.attribute name value))

/-- Changes one after the other. -/
def Changes (Allowed : Name → Prop) : Document → Document → Prop :=
  Relation.ReflTransGen (Change Allowed)

/-- Changes lead to the document from the empty one. -/
def Built (Allowed : Name → Prop) (doc : Document) : Prop := Changes Allowed .empty doc

variable {Allowed : Name → Prop} {doc doc' : Document} {parent element id : NodeId} {name : Name}

theorem lt_size_of_kind {kind : NodeKind} (h : doc.kind id = kind) (hkind : kind ≠ .document) :
    id < doc.size := by
  refine Nat.lt_of_not_le fun hle => ?_
  rw [Document.kind, node_of_size_le hle] at h
  exact hkind h.symm

theorem Change.size_le (h : Change Allowed doc doc') : doc.size ≤ doc'.size := by
  cases h <;> simp [size_pushListed, size_setKind]

theorem Changes.size_le (h : Changes Allowed doc doc') : doc.size ≤ doc'.size := by
  induction h with
  | refl => exact Nat.le_refl _
  | tail _ hchange ih => exact Nat.le_trans ih hchange.size_le

/-! ## The operations -/

theorem changes_appendElement (hparent : parent < doc.size) (hname : Allowed name) :
    Changes Allowed doc (doc.appendElement parent name).2 :=
  .single (.element parent name hparent hname)

theorem changes_declare (doc : Document) (element : NodeId) (declaration : Declaration) :
    Changes Allowed doc (doc.declare element declaration) := by
  rw [declare]
  split
  · next name declarations hkind =>
      split
      · exact .refl
      · next hfresh =>
          exact .single (.declaration declaration hkind (by simpa using hfresh))
  · exact .refl

theorem changes_setAttribute (helement : element < doc.size) (hname : Allowed name)
    (value : String) : Changes Allowed doc (doc.setAttribute element name value).2 := by
  cases hfind : doc.findAttribute? element name with
  | none =>
      rw [setAttribute_of_none hfind]
      exact .single (.attribute element name value helement hname hfind)
  | some id =>
      rw [setAttribute, hfind]
      dsimp only
      split
      · next hkind => exact .single (.value value hkind)
      · exact .refl

theorem changes_appendText (hparent : parent < doc.size) (text : String) :
    Changes Allowed doc (doc.appendText parent text).2 := by
  rw [appendText]
  split
  · exact .refl
  · next hempty =>
      split
      · next last hlast =>
          split
          · next hkind => exact .single (.moreText text hkind)
          · next hkind =>
              refine .single (.text parent text hparent (by simpa using hempty) ?_)
              intro other hother
              obtain rfl : last = other := Option.some.inj (hlast.symm.trans hother)
              rw [isText]
              split
              · next before hbefore => exact absurd hbefore (hkind before)
              · rfl
      · next hnone =>
          refine .single (.text parent text hparent (by simpa using hempty) ?_)
          simp [hnone]

theorem changes_appendComment (hparent : parent < doc.size) (text : String) :
    Changes Allowed doc (doc.appendComment parent text).2 :=
  .single (.comment parent text hparent)

theorem changes_foldl {α : Type} {f : Document → α → Document}
    (hf : ∀ doc x, Changes Allowed doc (f doc x)) (xs : List α) (doc : Document) :
    Changes Allowed doc (xs.foldl f doc) := by
  induction xs generalizing doc with
  | nil => exact .refl
  | cons x xs ih => exact (hf doc x).trans (ih (f doc x))

/-- Steps that can fail, as long as a node is there to make them at. -/
theorem changes_foldlM {ε α : Type} {f : Document → α → Except ε Document}
    (hf : ∀ doc x doc', id < doc.size → f doc x = .ok doc' → Changes Allowed doc doc')
    {xs : List α} (hid : id < doc.size) (h : xs.foldlM f doc = .ok doc') :
    Changes Allowed doc doc' := by
  induction xs generalizing doc with
  | nil =>
      cases h
      exact .refl
  | cons x xs ih =>
      rw [List.foldlM_cons, bind_eq_ok] at h
      obtain ⟨mid, hmid, hrest⟩ := h
      have hchanges := hf doc x mid hid hmid
      exact hchanges.trans (ih (Nat.lt_of_lt_of_le hid hchanges.size_le) hrest)

/-! ## Invariants -/

theorem Change.linked (hlinked : Linked doc) (h : Change Allowed doc doc') : Linked doc' := by
  have hroot {target : NodeId} {kind : NodeKind} (hkind : doc.kind target = kind)
      (hne : kind ≠ .document) : target ≠ rootNode := by
    rintro rfl
    exact hne (hkind.symm.trans hlinked.kind_root)
  cases h with
  | element parent name hparent => exact hlinked.pushListed hparent (by simp) rfl
  | text parent value hparent => exact hlinked.pushListed hparent (by simp) rfl
  | comment parent value hparent => exact hlinked.pushListed hparent (by simp) rfl
  | «attribute» element name value helement => exact hlinked.pushListed helement (by simp) rfl
  | declaration d hkind =>
      exact hlinked.setKind (lt_size_of_kind hkind (by simp)) (hroot hkind (by simp)) (by simp)
        (by rw [hkind]; rfl)
  | moreText more hkind =>
      exact hlinked.setKind (lt_size_of_kind hkind (by simp)) (hroot hkind (by simp)) (by simp)
        (by rw [hkind]; rfl)
  | value value hkind =>
      exact hlinked.setKind (lt_size_of_kind hkind (by simp)) (hroot hkind (by simp)) (by simp)
        (by rw [hkind]; rfl)

theorem Built.linked (h : Built Allowed doc) : Linked doc := by
  induction h with
  | refl => exact .empty
  | tail _ hchange ih => exact hchange.linked ih

/-- A change leaves the name of each node there was. -/
theorem Change.name?_eq (h : Change Allowed doc doc') (hid : id ≠ doc.size) :
    doc'.name? id = doc.name? id := by
  cases h with
  | element parent name hparent => rw [name?_pushListed _ hparent, if_neg hid]
  | text parent value hparent => rw [name?_pushListed _ hparent, if_neg hid]
  | comment parent value hparent => rw [name?_pushListed _ hparent, if_neg hid]
  | «attribute» element name value helement => rw [name?_pushListed _ helement, if_neg hid]
  | declaration d hkind =>
      exact name?_setKind _ _ _ (lt_size_of_kind hkind (by simp))
        (by rw [Document.name?_eq, hkind]; rfl)
  | moreText more hkind =>
      exact name?_setKind _ _ _ (lt_size_of_kind hkind (by simp))
        (by rw [Document.name?_eq, hkind]; rfl)
  | value value hkind =>
      exact name?_setKind _ _ _ (lt_size_of_kind hkind (by simp))
        (by rw [Document.name?_eq, hkind]; rfl)

/-- The name of a node that a change adds is allowed. -/
theorem Change.allowed (h : Change Allowed doc doc') (hname : doc'.name? doc.size = some name) :
    Allowed name := by
  have hkept : doc'.size = doc.size → doc'.name? doc.size = none := fun hsize =>
    name?_of_size_le (Nat.le_of_eq hsize)
  cases h with
  | element parent other hparent hother =>
      rw [name?_pushListed _ hparent, if_pos rfl] at hname
      cases hname
      exact hother
  | text parent value hparent =>
      rw [name?_pushListed _ hparent, if_pos rfl] at hname
      cases hname
  | comment parent value hparent =>
      rw [name?_pushListed _ hparent, if_pos rfl] at hname
      cases hname
  | «attribute» element other value helement hother =>
      rw [name?_pushListed _ helement, if_pos rfl] at hname
      cases hname
      exact hother
  | declaration | moreText | value =>
      rw [hkept (size_setKind _ _)] at hname
      cases hname

/-- The names in a document are allowed. -/
theorem Built.allowed (h : Built Allowed doc) (hname : doc.name? id = some name) :
    Allowed name := by
  induction h generalizing id name with
  | refl =>
      rw [Document.name?_eq, kind, node_empty] at hname
      cases hname
  | @tail before doc _ hchange ih =>
      by_cases hid : id = before.size
      · rw [hid] at hname
        exact hchange.allowed hname
      · exact ih (hchange.name?_eq hid ▸ hname)

/-- No element has two attributes of one expanded name. -/
def AttributesApart (doc : Document) : Prop :=
  ∀ element, ∀ a ∈ doc.attributes element, ∀ b ∈ doc.attributes element, ∀ name other,
    doc.name? a = some name → doc.name? b = some other → name.sameExpanded other = true → a = b

/-- No attribute of the element has the expanded name that was searched. -/
theorem sameExpanded_of_findAttribute? (hlinked : Linked doc) {other : Name}
    (hfind : doc.findAttribute? element name = none) (hid : id ∈ doc.attributes element)
    (hother : doc.name? id = some other) : other.sameExpanded name = false := by
  have hkind := ((hlinked.mem_attributes element id).mp hid).2
  rw [findAttribute?, List.find?_eq_none] at hfind
  have hne := hfind id hid
  rw [name?_eq] at hother
  cases h : doc.kind id with
  | «attribute» found value =>
      rw [h] at hne hother
      cases hother
      simpa using hne
  | _ =>
      rw [h] at hkind
      cases hkind

/-- The attributes of an element after a change: those before it, and one with a new name. -/
theorem Change.mem_attributes (h : Change Allowed doc doc') (hid : id ∈ doc'.attributes element) :
    id ∈ doc.attributes element ∨
      id = doc.size ∧ ∃ name, doc'.name? id = some name ∧
        doc.findAttribute? element name = none := by
  cases h with
  | element parent name hparent | text parent name hparent | comment parent name hparent =>
      rw [attributes_pushListed _ hparent, if_neg (by simp)] at hid
      exact .inl hid
  | «attribute» target name value htarget hname hfresh =>
      rw [attributes_pushListed _ htarget] at hid
      split at hid
      · next heq =>
          rcases List.mem_append.mp hid with hold | hnew
          · exact .inl hold
          · obtain rfl := List.mem_singleton.mp hnew
            refine .inr ⟨rfl, name, ?_, heq.1 ▸ hfresh⟩
            rw [name?_pushListed _ htarget, if_pos rfl]
            rfl
      · exact .inl hid
  | declaration d hkind | moreText d hkind | value d hkind =>
      rw [attributes_setKind _ _ _ (lt_size_of_kind hkind (by simp))] at hid
      exact .inl hid

theorem Change.attributesApart (hlinked : Linked doc) (hapart : AttributesApart doc)
    (h : Change Allowed doc doc') : AttributesApart doc' := by
  -- the new attribute has another expanded name than each of those before it
  have hnew : ∀ element id, id ∈ doc.attributes element → ∀ name other,
      doc'.name? id = some other → doc.findAttribute? element name = none →
        other.sameExpanded name = false := by
    intro element id hid name other hother hfind
    have hlt := hlinked.lt_size_of_mem_attributes hid
    rw [h.name?_eq (Nat.ne_of_lt hlt)] at hother
    exact sameExpanded_of_findAttribute? hlinked hfind hid hother
  intro element a ha b hb name other hname hother hsame
  -- two old attributes were apart before, and there is at most one new one
  rcases h.mem_attributes ha with ha | ⟨rfl, added, hadded, hfind⟩
  · rcases h.mem_attributes hb with hb | ⟨rfl, added, hadded, hfind⟩
    · rw [h.name?_eq (Nat.ne_of_lt (hlinked.lt_size_of_mem_attributes ha))] at hname
      rw [h.name?_eq (Nat.ne_of_lt (hlinked.lt_size_of_mem_attributes hb))] at hother
      exact hapart element a ha b hb name other hname hother hsame
    · obtain rfl : other = added := Option.some.inj (hother.symm.trans hadded)
      rw [hnew element a ha other name hname hfind] at hsame
      cases hsame
  · rcases h.mem_attributes hb with hb | ⟨rfl, -, -, -⟩
    · obtain rfl : name = added := Option.some.inj (hname.symm.trans hadded)
      rw [Name.sameExpanded_comm, hnew element b hb name other hother hfind] at hsame
      cases hsame
    · rfl

theorem Built.attributesApart (h : Built Allowed doc) : AttributesApart doc := by
  induction h with
  | refl =>
      intro element a ha
      have hparent := ((Linked.empty.mem_attributes element a).mp ha).1
      rw [parent?, node_empty] at hparent
      cases hparent
  | tail hbuilt hchange ih => exact hchange.attributesApart (Built.linked hbuilt) ih

end Document

/-! ## The reader -/

/-- The namespace of a name is not the empty one, which is none. -/
def Name.Resolved (name : Name) : Prop := name.uri ≠ some ""

namespace Scope

theorem resolved_of_resolve {scope : Scope} {isElement : Bool} {raw : List Char} {name : Name}
    (h : scope.resolve isElement raw = .ok name) : name.Resolved := by
  have hfilter : ∀ uri : Option String, uri.filter (!·.isEmpty) ≠ some "" := by
    intro uri huri
    have hne := (Option.filter_eq_some_iff.mp huri).2
    cases hne
  rw [resolve] at h
  dsimp only at h
  split at h
  · cases h
    exact hfilter (some xmlNamespace)
  · split at h
    · cases h
      exact hfilter (some _)
    · cases h
  · cases h
    exact hfilter _

end Scope

namespace Growth

open Document

variable {g g' : Growth}

/-- The document is built, and the open elements are among its nodes. -/
structure Sound (g : Growth) : Prop where
  built : Built Name.Resolved g.doc
  opened : ∀ o ∈ g.opened, o.node < g.doc.size

theorem Sound.target_lt (h : g.Sound) : g.target < g.doc.size := by
  rw [target]
  split
  · next innermost rest hopened => exact h.opened _ (hopened ▸ List.mem_cons_self)
  · exact Nat.lt_of_lt_of_le Nat.one_pos (Changes.size_le h.built)

/-- Changes that bring in resolved names keep a growth sound. -/
theorem Sound.changed (h : g.Sound) {doc : Document} (hchanges : Changes Name.Resolved g.doc doc) :
    Sound { g with doc } :=
  ⟨h.built.trans hchanges, fun o ho => Nat.lt_of_lt_of_le (h.opened o ho) hchanges.size_le⟩

theorem Sound.closeElement (h : g.Sound) : g.closeElement.Sound :=
  ⟨h.built, fun o ho => h.opened o (List.mem_of_mem_tail ho)⟩

theorem Sound.openElement (h : g.Sound) {position : Nat} {content : List Char}
    (hopen : g.openElement position content = .ok g') : g'.Sound := by
  rw [Growth.openElement] at hopen
  split at hopen
  · cases hopen
  · simp only [bind_eq_ok] at hopen
    obtain ⟨attributes, -, name, hname, doc, hdoc, hopen⟩ := hopen
    cases hopen
    -- the element comes first, then its declarations, then its attributes
    have hresolved : name.Resolved := by
      split at hname
      · next hresolve =>
          cases hname
          exact Scope.resolved_of_resolve hresolve
      · cases hname
    have hadded : Changes Name.Resolved g.doc (g.doc.appendElement g.target name).2 :=
      changes_appendElement h.target_lt hresolved
    have hdeclared : Changes Name.Resolved (g.doc.appendElement g.target name).2 _ :=
      changes_foldl (fun doc d => changes_declare doc g.doc.size d)
        (attributes.filterMap fun x => declaration? x.1 x.2) _
    have hnode : g.doc.size < (g.doc.appendElement g.target name).2.size := by
      rw [appendElement, pushChild_eq, size_pushListed]
      exact Nat.lt_succ_self _
    have helement := Nat.lt_of_lt_of_le hnode hdeclared.size_le
    generalize hdeclaredDoc : List.foldl (fun doc d => doc.declare g.doc.size d)
      (g.doc.appendElement g.target name).2 _ = declared at hdeclared helement
    have hset : Changes Name.Resolved declared doc := by
      rw [← hdeclaredDoc]
      refine changes_foldlM (fun doc x doc' helement hstep => ?_) (hdeclaredDoc ▸ helement) hdoc
      obtain ⟨other, hother, hstep⟩ := bind_eq_ok.mp hstep
      cases hstep
      split at hother
      · next hresolve =>
          cases hother
          exact changes_setAttribute helement (Scope.resolved_of_resolve hresolve) _
      · cases hother
    have hchanges := (hadded.trans hdeclared).trans hset
    refine ⟨h.built.trans hchanges, fun o ho => ?_⟩
    rcases List.mem_cons.mp ho with rfl | ho
    · exact Nat.lt_of_lt_of_le helement hset.size_le
    · exact Nat.lt_of_lt_of_le (h.opened o ho) (Changes.size_le hchanges)

theorem Sound.addText (h : g.Sound) {position : Nat} {text : String}
    (hadd : g.addText position text = .ok g') : g'.Sound := by
  rw [Growth.addText] at hadd
  split at hadd
  · next innermost rest hopened =>
      cases hadd
      exact h.changed (changes_appendText (h.opened _ (hopened ▸ List.mem_cons_self)) text)
  · split at hadd
    · cases hadd
      exact h
    · cases hadd

theorem Sound.endElement (h : g.Sound) {position : Nat} {name : List Char}
    (hend : g.endElement position name = .ok g') : g'.Sound := by
  rw [Growth.endElement] at hend
  split at hend
  · cases hend
  · split at hend
    · cases hend
      exact h.closeElement
    · cases hend

/-- A unit of markup keeps a growth sound. -/
theorem Sound.add (h : g.Sound) {located : Markup.Located} (hadd : g.add located = .ok g') :
    g'.Sound := by
  rw [Growth.add] at hadd
  split at hadd
  · split at hadd
    · exact h.addText hadd
    · cases hadd
  · exact h.addText hadd
  · cases hadd
    exact h.changed (changes_appendComment h.target_lt _)
  · exact h.openElement hadd
  · obtain ⟨opened, hopened, rfl⟩ := map_eq_ok.mp hadd
    exact (h.openElement hopened).closeElement
  · exact h.endElement hadd

theorem Sound.foldlM {units : List Markup.Located} (h : g.Sound)
    (hunits : units.foldlM Growth.add g = .ok g') : g'.Sound :=
  foldlM_induction (fun _ _ _ _ hsound hadd => hsound.add hadd) h hunits

end Growth

/-- A document that was read is what its units have grown to, with no element left open and the
document element begun. -/
theorem Document.exists_growth_of_parse {text : String} {doc : Document}
    (h : Document.parse text = .ok doc) :
    ∃ g : Growth, (Markup.units (dropMark text.toList)).1.foldlM Growth.add {} = .ok g ∧
      g.opened = [] ∧ g.rooted = true ∧ g.doc = doc := by
  rw [parse, read, bind_eq_ok] at h
  obtain ⟨g, hg, hfinish⟩ := h
  split at hfinish
  · cases hfinish
  · rw [Growth.finish] at hfinish
    split at hfinish
    · cases hfinish
    · next hopened =>
        split at hfinish
        · next hrooted => exact ⟨g, hg, hopened, hrooted, Except.ok.inj hfinish⟩
        · cases hfinish

/-- A document that was read is built, from resolved names. -/
theorem Document.built_of_parse {text : String} {doc : Document}
    (h : Document.parse text = .ok doc) : doc.Built Name.Resolved := by
  obtain ⟨g, hg, -, -, rfl⟩ := exists_growth_of_parse h
  have hempty : Growth.Sound {} := ⟨Relation.ReflTransGen.refl, List.forall_mem_nil _⟩
  exact (hempty.foldlM hg).built

end Schematron.Xml
