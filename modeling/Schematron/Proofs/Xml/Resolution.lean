import Schematron.Proofs.Xml.Bindings
import Schematron.Proofs.Xml.Parsed
import Schematron.Proofs.Xml.Sites

/-!
# What prefixes stand for

While a document is read, names are resolved against the declarations of the open elements. In the
finished document the same namespaces are found by going up from an element (`resolvedAt_of_parse`).
-/

namespace Schematron.Xml

/-- The namespace of a name by the declarations in a scope: the prefix `xml` has its own, any other
prefix and an element name without prefix have the namespace that is declared, if it is not empty,
and an attribute name without prefix has none. -/
def Name.namespaceIn (name : Name) (isElement : Bool) (scope : List Declaration) :
    Option String :=
  if name.pre = some "xml" then some xmlNamespace
  else if name.pre.isSome || isElement then (Scope.lookup? scope name.pre).filter (!·.isEmpty)
  else none

namespace Scope

/-- A name is resolved to what its prefix stands for in the scope. -/
theorem uri_eq_of_resolve {scope : Scope} {isElement : Bool} {raw : List Char} {name : Name}
    (h : scope.resolve isElement raw = .ok name) : name.uri = name.namespaceIn isElement scope := by
  rw [resolve] at h
  generalize splitName raw = parts at h
  obtain ⟨pre, localPart⟩ := parts
  dsimp only at h
  split at h
  · cases h
    rfl
  · next pre hxml =>
      split at h
      · next uri hlookup =>
          cases h
          rw [Name.namespaceIn, if_neg fun h => hxml (Option.some.inj h), Option.isSome_some,
            Bool.true_or, if_pos rfl, hlookup]
      · cases h
  · cases h
    cases isElement <;> rfl

end Scope

namespace Document

open Xml.Tree

/-! ## The finished document -/

theorem find?_foldl_addDeclaration (declarations done : List Declaration) (pre : Option String) :
    (declarations.foldl addDeclaration done).find? (·.pre == pre) =
      (done ++ declarations).find? (·.pre == pre) := by
  induction declarations generalizing done with
  | nil => rw [List.append_nil]; rfl
  | cons d rest ih =>
      rw [List.foldl_cons, ih, addDeclaration]
      split
      · next hany =>
          -- a declaration whose prefix is declared before is not found
          obtain ⟨earlier, hearlier, hsame⟩ := List.any_eq_true.mp hany
          rw [List.find?_append, List.find?_append, List.find?_cons]
          cases hpre : d.pre == pre with
          | false => rfl
          | true =>
              have hfound : (done.find? (·.pre == pre)).isSome := by
                rw [List.find?_isSome]
                exact ⟨earlier, hearlier, by rw [beq_iff_eq.mp hsame]; exact hpre⟩
              obtain ⟨found, hfound⟩ := Option.isSome_iff_exists.mp hfound
              rw [hfound]
              rfl
      · rw [List.append_assoc]
        rfl

theorem lookup?_namespacesInScope (doc : Document) (id : NodeId) (pre : Option String) :
    Scope.lookup? (doc.namespacesInScope id) pre = Scope.lookup? (doc.around id) pre := by
  rw [namespacesInScope_eq, Scope.lookup?, firstOfEach, find?_foldl_addDeclaration]
  rfl

/-- The name at a node is in the namespace that the declarations in scope at the element give: at
the node itself if it is an element, and at its parent if it is an attribute. -/
structure ResolvedAt (doc : Document) (id : NodeId) : Prop where
  ofElement : ∀ name declarations, doc.kind id = .element name declarations →
    name.uri = name.namespaceIn true (doc.namespacesInScope id)
  ofAttribute : ∀ name value, doc.kind id = .attribute name value → ∃ element,
    doc.parent? id = some element ∧ doc.isElement element = true ∧
      name.uri = name.namespaceIn false (doc.namespacesInScope element)

variable {doc : Document}

theorem namespaceIn_namespacesInScope {id : NodeId} {scope : Scope}
    (hscope : SameLookup (doc.around id) scope) (name : Name) (isElement : Bool) :
    name.namespaceIn isElement (doc.namespacesInScope id) = name.namespaceIn isElement scope := by
  rw [Name.namespaceIn, Name.namespaceIn, lookup?_namespacesInScope, Scope.lookup?, Scope.lookup?,
    hscope]

theorem resolvedAt_of_kind {id : NodeId} {kind : NodeKind} (h : doc.kind id = kind)
    (helement : ∀ name declarations, kind ≠ .element name declarations)
    (hattribute : ∀ name value, kind ≠ .attribute name value) : doc.ResolvedAt id :=
  ⟨fun name declarations hkind => absurd (h.symm.trans hkind) (helement name declarations),
    fun name value hkind => absurd (h.symm.trans hkind) (hattribute name value)⟩

theorem resolvedAt_of_element {id : NodeId} {name : Name} {declarations : List Declaration}
    {scope : Scope} (hkind : doc.kind id = .element name declarations)
    (hscope : SameLookup (doc.around id) scope)
    (hresolve : scope.resolve true name.written.toList = .ok name) : doc.ResolvedAt id := by
  refine ⟨fun other _ hother => ?_, fun other value hother => ?_⟩
  · rw [hkind] at hother
    cases hother
    rw [namespaceIn_namespacesInScope hscope]
    exact Scope.uri_eq_of_resolve hresolve
  · rw [hkind] at hother
    cases hother

theorem resolvedAt_of_attribute {id element : NodeId} {a : Name × String} {scope : Scope}
    (hnode : doc.node id = attributeNode element a) (helement : doc.isElement element = true)
    (hscope : SameLookup (doc.around element) scope)
    (hresolve : scope.resolve false a.1.written.toList = .ok a.1) : doc.ResolvedAt id := by
  refine ⟨fun other _ hother => ?_, fun other value hother => ⟨element, ?_, helement, ?_⟩⟩
  · rw [kind, hnode] at hother
    cases hother
  · rw [parent?, hnode]
    rfl
  · rw [kind, hnode] at hother
    obtain ⟨hname, -⟩ := NodeKind.attribute.inj hother
    rw [namespaceIn_namespacesInScope hscope, ← hname]
    exact Scope.uri_eq_of_resolve hresolve

mutual

theorem resolvedAt_tree (hlinked : Linked doc) {parent start : Nat} {scope : Scope} :
    (tree : Tree) → Readable scope tree → doc.Holds parent start tree →
      SameLookup (doc.around parent) scope →
      ∀ id : Nat, start ≤ id → id < start + tree.weight → doc.ResolvedAt id
  | .text value, hreadable, h, _ => by
      intro id hle hlt
      have hvalue : value.isEmpty = false := hreadable
      obtain rfl : id = start := by
        simp only [weight, hvalue] at hlt
        simp at hlt
        omega
      exact resolvedAt_of_kind (h.text_kind hvalue) nofun nofun
  | .comment value, _, h, _ => by
      intro id hle hlt
      obtain rfl : id = start := by
        simp only [weight] at hlt
        omega
      exact resolvedAt_of_kind h.comment_kind nofun nofun
  | .element name declarations attributes children, hreadable, h, hscope => by
      intro id hle hlt
      obtain ⟨htag, -, hchildren⟩ := hreadable
      have hinner : SameLookup (doc.around start) (declarations.reverse ++ scope) := by
        rw [h.around_eq hlinked]
        exact hscope.declared htag.declared
      have hkind := h.element_kind
      rw [weight] at hlt
      -- the element itself, one of its attributes, or a node of its content
      rcases Nat.lt_or_ge id (start + 1) with hfirst | hbehind
      · obtain rfl : id = start := by omega
        exact resolvedAt_of_element hkind hinner htag.resolves
      rcases Nat.lt_or_ge id (start + 1 + attributes.length) with hattribute | hcontent
      · obtain ⟨i, rfl⟩ := Nat.exists_eq_add_of_le hbehind
        have hi : i < attributes.length := by omega
        have helement : doc.isElement start = true := by rw [isElement, hkind]
        exact resolvedAt_of_attribute (h.attribute_node hi) helement hinner
          (htag.attributes _ (List.getElem_mem hi)).resolves
      · exact resolvedAt_trees hlinked children hchildren h.content hinner id hcontent (by omega)

/-- The names in readable trees are in the namespaces that the finished document gives. -/
theorem resolvedAt_trees (hlinked : Linked doc) {parent start : Nat} {scope : Scope} :
    (trees : List Tree) → ReadableAll scope trees → doc.HoldsAll parent start trees →
      SameLookup (doc.around parent) scope →
      ∀ id : Nat, start ≤ id → id < start + weightOfAll trees → doc.ResolvedAt id
  | [], _, _, _ => by
      intro id hle hlt
      rw [weightOfAll] at hlt
      omega
  | tree :: rest, hreadable, h, hscope => by
      intro id hle hlt
      rw [weightOfAll] at hlt
      rcases Nat.lt_or_ge id (start + tree.weight) with hfirst | hrest
      · exact resolvedAt_tree hlinked tree hreadable.1 h.head hscope id hle hfirst
      · exact resolvedAt_trees hlinked rest hreadable.2 h.tail hscope id hrest (by omega)

end

/-- In a document that was read, each name is in the namespace that its prefix has in scope. -/
theorem resolvedAt_of_parse {text : String} (h : parse text = .ok doc) (id : NodeId) :
    doc.ResolvedAt id := by
  obtain ⟨trees, hdoc, htop, hreadable⟩ := exists_trees_of_parse h
  have hmade : doc.MadeOf trees := hdoc ▸ madeOf_graftAll (ReadableAll.proper trees hreadable)
    htop.textsApart (ReadableAll.solid trees hreadable)
  rcases Nat.eq_zero_or_pos id with rfl | hpos
  · exact resolvedAt_of_kind hmade.linked.kind_root nofun nofun
  rcases Nat.lt_or_ge id doc.size with hlt | hge
  · have hscope : SameLookup (doc.around rootNode) [] := by
      rw [around_root hmade.linked]
      exact .refl []
    exact resolvedAt_trees hmade.linked trees hreadable hmade.holds hscope id hpos (hmade.size ▸ hlt)
  · have hkind : doc.kind id = .document := by rw [kind, node_of_size_le hge]
    exact resolvedAt_of_kind hkind nofun nofun

end Document

/-! ## Prefixes without a declaration -/

/-- The tag declares the prefix. -/
def Declares (content : List Char) (pre : String) : Prop :=
  ∃ a ∈ (Attributes.read content).1, a.key = "xmlns:".toList ++ pre.toList

/-- The prefix stands in the name of the tag or in that of one of its attributes that are no
declarations. -/
def UsesPrefix (content : List Char) (pre : String) : Prop :=
  (Scope.splitName (Attributes.nameOf content)).1 = some pre ∨
    ∃ a ∈ (Attributes.read content).1, (∀ value, declaration? a.key value = none) ∧
      (Scope.splitName a.key).1 = some pre

/-- A tag that can be read declares the prefixes of the declarations that it makes. -/
theorem declares_iff {position : Nat} {content : List Char} {pairs : List (List Char × String)}
    (h : tagAttributes position content = .ok pairs) {pre : String} :
    Declares content pre ↔ ∃ d ∈ declarationsOf pairs, d.pre = some pre := by
  have hkeys := keys_of_tagAttributes h
  constructor
  · rintro ⟨a, ha, hkey⟩
    have hmem : a.key ∈ pairs.map (·.1) := hkeys ▸ List.mem_map_of_mem ha
    obtain ⟨p, hp, hsame⟩ := List.mem_map.mp hmem
    have hdeclares := declaration?_declarationKey ⟨some pre, p.2⟩
    rw [toList_declarationKey] at hdeclares
    refine ⟨⟨some pre, p.2⟩, List.mem_filterMap.mpr ⟨p, hp, ?_⟩, rfl⟩
    show declaration? p.1 p.2 = _
    rw [hsame, hkey]
    exact hdeclares
  · rintro ⟨d, hd, hpre⟩
    obtain ⟨p, hp, hdeclares⟩ := List.mem_filterMap.mp hd
    have hkey := (declarationKey_of_declaration? hdeclares).1
    rw [toList_declarationKey, hpre] at hkey
    have hmem : p.1 ∈ Attributes.keys (Attributes.read content).1 := hkeys ▸ List.mem_map_of_mem hp
    obtain ⟨a, ha, hsame⟩ := List.mem_map.mp hmem
    exact ⟨a, ha, hsame.trans hkey.symm⟩

/-- A prefix that is resolved for an attribute is used in the tag. -/
theorem usesPrefix_of_mem_plainOf {position : Nat} {content : List Char}
    {pairs : List (List Char × String)} (h : tagAttributes position content = .ok pairs)
    {p : List Char × String} (hp : p ∈ plainOf pairs) {pre : String}
    (hpre : (Scope.splitName p.1).1 = some pre) : UsesPrefix content pre := by
  obtain ⟨hmem, hplain⟩ := List.mem_filter.mp hp
  have hkey : p.1 ∈ Attributes.keys (Attributes.read content).1 :=
    keys_of_tagAttributes h ▸ List.mem_map_of_mem hmem
  obtain ⟨a, ha, hsame⟩ := List.mem_map.mp hkey
  refine .inr ⟨a, ha, fun value => ?_, hsame ▸ hpre⟩
  rw [hsame]
  exact Tree.declaration?_eq_none (Option.isNone_iff_eq_none.mp hplain) value

namespace Scope

/-- Resolving fails at a prefix that nothing in scope declares. -/
theorem resolve_eq_error {scope : Scope} {isElement : Bool} {raw : List Char} {pre : String}
    (h : scope.resolve isElement raw = .error pre) :
    (splitName raw).1 = some pre ∧ pre ≠ "xml" ∧ ∀ d ∈ scope, d.pre ≠ some pre := by
  rw [resolve] at h
  generalize splitName raw = parts at h ⊢
  obtain ⟨pre', localPart⟩ := parts
  dsimp only at h
  split at h
  · cases h
  · next hxml =>
      split at h
      · cases h
      · next hlookup =>
          cases h
          refine ⟨rfl, hxml, fun d hd hpre => ?_⟩
          rw [lookup?, Option.map_eq_none_iff, List.find?_eq_none] at hlookup
          exact hlookup d hd (beq_iff_eq.mpr hpre)
  · cases h

end Scope

namespace Growth

open Markup

/-- A tag whose prefix is not bound: the prefix is used in it, and neither it nor the scope declares
the prefix. -/
def Unbound (scope : Scope) (content : List Char) (pre raw : String) : Prop :=
  raw = String.ofList (Attributes.nameOf content) ∧ pre ≠ "xml" ∧ UsesPrefix content pre ∧
    ¬Declares content pre ∧ ∀ d ∈ scope, d.pre ≠ some pre

theorem failsWith_tagAttributes (position : Nat) (content : List Char) :
    FailsWith (fun fault => ∀ pre raw, fault ≠ .unboundPrefix pre raw)
      (tagAttributes position content) := by
  refine FailsWith.bind (FailsWith.mapM fun a _ => ?_) fun pairs => ?_
  · split
    · exact FailsWith.ok _
    · exact FailsWith.error nofun
  · split
    · exact FailsWith.error nofun
    · exact FailsWith.ok _

/-- Names of a tag are resolved with the declarations of the tag before those around it. -/
theorem failsWith_resolve (g : Growth) {position : Nat} {content : List Char}
    {pairs : List (List Char × String)} (hpairs : tagAttributes position content = .ok pairs)
    (isElement : Bool) {written : List Char}
    (huses : ∀ pre, (Scope.splitName written).1 = some pre → UsesPrefix content pre) :
    FailsWith (fun fault => ∀ pre raw, fault = .unboundPrefix pre raw →
        Unbound g.scope content pre raw)
      (match Scope.resolve ((declarationsOf pairs).reverse ++ g.scope) isElement written with
        | .ok name => Except.ok name
        | .error pre =>
          .error (Fault.unboundPrefix pre (String.ofList (Attributes.nameOf content)))) := by
  split
  · exact FailsWith.ok _
  · next pre herror =>
      refine FailsWith.error fun pre' raw hsame => ?_
      cases hsame
      obtain ⟨hpre, hxml, hnone⟩ := Scope.resolve_eq_error herror
      refine ⟨rfl, hxml, huses pre hpre, fun hdeclares => ?_, fun d hd => hnone d (by simp [hd])⟩
      obtain ⟨d, hd, hsame⟩ := (declares_iff hpairs).mp hdeclares
      exact hnone d (by simp [hd]) hsame

theorem failsWith_openElement (g : Growth) (position : Nat) (content : List Char) :
    FailsWith (fun fault => ∀ pre raw, fault = .unboundPrefix pre raw →
      Unbound g.scope content pre raw) (g.openElement position content) := by
  rw [openElement]
  split
  · exact FailsWith.error (by simp)
  refine FailsWith.bind_of_ok ?_ fun pairs hpairs => ?_
  · exact fun fault hfault pre raw hsame => absurd hsame (failsWith_tagAttributes _ _ _ hfault pre raw)
  refine FailsWith.bind (failsWith_resolve g hpairs true fun _ => .inl) fun name =>
    FailsWith.bind (FailsWith.foldlM (fun doc p hp => ?_) _) fun doc => FailsWith.ok _
  refine FailsWith.bind (failsWith_resolve g hpairs false fun _ => ?_) fun name => FailsWith.ok _
  exact usesPrefix_of_mem_plainOf hpairs hp

/-- Of all units only a tag can fail in this way. -/
theorem failsWith_add (g : Growth) (u : Located) :
    FailsWith (fun fault => ∀ pre raw, fault = .unboundPrefix pre raw → ∃ content,
      (u.unit = .startTag content ∨ u.unit = .emptyTag content) ∧
        Unbound g.scope content pre raw) (g.add u) := by
  have htext (position : Nat) (text : String) :
      FailsWith (fun fault => ∀ pre raw, fault = .unboundPrefix pre raw → ∃ content,
        (u.unit = .startTag content ∨ u.unit = .emptyTag content) ∧
          Unbound g.scope content pre raw) (g.addText position text) := by
    rw [addText]
    split
    · exact FailsWith.ok _
    · split
      · exact FailsWith.ok _
      · exact FailsWith.error (by simp)
  rw [add]
  split
  · split
    · exact htext _ _
    · exact FailsWith.error (by simp)
  · exact htext _ _
  · exact FailsWith.ok _
  · next content hunit =>
      exact fun fault hfault pre raw hsame =>
        ⟨content, .inl hunit, failsWith_openElement g _ content fault hfault pre raw hsame⟩
  · next content hunit =>
      refine FailsWith.map _ fun fault hfault pre raw hsame => ?_
      exact ⟨content, .inr hunit, failsWith_openElement g _ content fault hfault pre raw hsame⟩
  · rw [endElement]
    split
    · exact FailsWith.error (by simp)
    · split
      · exact FailsWith.ok _
      · exact FailsWith.error (by simp)

/-- Where nothing in scope declares a prefix, none of the open tags does. -/
theorem not_declares_of_scope {g : Growth} {units : List Located}
    (hunits : units.foldlM Growth.add {} = .ok g) {pre : String}
    (hnone : ∀ d ∈ g.scope, d.pre ≠ some pre) : ∀ tag ∈ openTags units, ¬Declares tag pre := by
  intro tag htag hdeclares
  obtain ⟨pairs, hpairs⟩ := (opens_of_foldlM hunits).readable tag htag
  obtain ⟨d, hd, hpre⟩ := (declares_iff hpairs).mp hdeclares
  refine hnone d ?_ hpre
  rw [scope_eq hunits]
  exact List.mem_flatMap.mpr ⟨tag, htag, List.mem_reverse.mpr (declaredBy_eq hpairs ▸ hd)⟩

/-- Behind the last unit no prefix is unbound. -/
theorem finish_ne_unboundPrefix (g : Growth) (fault : Option (Nat × Malformation))
    (pre raw : String) :
    (match fault with
      | some (position, cause) => .error (.malformed position cause)
      | none => g.finish) ≠ Except.error (Fault.unboundPrefix pre raw) := by
  split
  · simp
  · rw [finish]
    split
    · simp
    · split <;> simp

end Growth

namespace Document

/-- **What prefixes stand for.** While the units of a text are read, the declarations that hold are
those on a flat stack, from which the declarations of an element are released where it ends. In the
finished document each name has the namespace that going up from its element finds. Reading fails at
an unbound prefix only where a tag uses it that does not declare it, and none of the tags that are
open around it does. -/
theorem parse_resolves (text : String) :
    (∀ (before after : List Markup.Located) (g : Growth),
      (Markup.units (dropMark text.toList)).1 = before ++ after →
        before.foldlM Growth.add {} = .ok g → g.scope = (Bindings.after before).map (·.1)) ∧
    (∀ doc, parse text = .ok doc → ∀ id, doc.ResolvedAt id) ∧
    (∀ pre raw, parse text = .error (.unboundPrefix pre raw) → pre ≠ "xml" ∧
      ∃ before u after content, (Markup.units (dropMark text.toList)).1 = before ++ u :: after ∧
        (u.unit = .startTag content ∨ u.unit = .emptyTag content) ∧
        raw = String.ofList (Attributes.nameOf content) ∧ UsesPrefix content pre ∧
        ∀ tag ∈ content :: Markup.openTags before, ¬Declares tag pre) := by
  refine ⟨fun before after g _ hunits => Growth.scope_eq_bindings hunits,
    fun doc hdoc id => resolvedAt_of_parse hdoc id, fun pre raw hparse => ?_⟩
  rw [parse, read] at hparse
  generalize Markup.units (dropMark text.toList) = cut at hparse ⊢
  obtain ⟨units, broken⟩ := cut
  cases hunits : units.foldlM Growth.add {} with
  | ok g =>
      simp only [hunits] at hparse
      exact absurd hparse (g.finish_ne_unboundPrefix _ pre raw)
  | error fault =>
      simp only [hunits] at hparse
      obtain rfl := Except.error.inj hparse
      obtain ⟨before, u, after, g, hcut, hbefore, hadd⟩ := exists_of_foldlM_error hunits
      obtain ⟨content, hunit, hraw, hxml, huses, hown, houter⟩ :=
        g.failsWith_add u _ hadd pre raw rfl
      have hopen := Growth.not_declares_of_scope hbefore houter
      exact ⟨hxml, before, u, after, content, hcut, hunit, hraw, huses,
        List.forall_mem_cons.mpr ⟨hown, hopen⟩⟩

/-- A prefix that an empty tag binds anew. -/
def reboundText : String := "<r xmlns:p='u'><p:a xmlns:p='v' p:x=''/><p:b/></r>"

/-- A prefix that is declared by an empty tag only, and used behind it. -/
def releasedText : String := "<r><a xmlns:p='u'/><p:b/></r>"

/-- What an empty tag declares holds for its own names. Behind it a prefix is bound as it was
before, or unbound. -/
theorem parse_resolves_emptyTags :
    (∃ before after g, (Markup.units (dropMark reboundText.toList)).1 = before ++ after ∧
      before.length = 2 ∧ before.foldlM Growth.add {} = .ok g ∧ g.scope = [⟨some "p", "u"⟩] ∧
      g.scope = (Bindings.after before).map (·.1)) ∧
    (∃ doc, parse reboundText = .ok doc ∧
      doc.kind 2 = .element (.qualified "p" "a" "v") [⟨some "p", "v"⟩] ∧
      doc.kind 3 = .attribute (.qualified "p" "x" "v") "" ∧
      doc.kind 4 = .element (.qualified "p" "b" "u") [] ∧ ∀ id, doc.ResolvedAt id) ∧
    parse releasedText = .error (.unboundPrefix "p" "p:b") ∧
      ∃ before u after content,
        (Markup.units (dropMark releasedText.toList)).1 = before ++ u :: after ∧
        (u.unit = .startTag content ∨ u.unit = .emptyTag content) ∧
        "p:b" = String.ofList (Attributes.nameOf content) ∧ UsesPrefix content "p" ∧
        ∀ tag ∈ content :: Markup.openTags before, ¬Declares tag "p" := by
  have hunits := (List.take_append_drop 2 (Markup.units (dropMark reboundText.toList)).1).symm
  have hread : parse releasedText = .error (.unboundPrefix "p" "p:b") := rfl
  exact ⟨⟨_, _, _, hunits, rfl, rfl, rfl, (parse_resolves reboundText).1 _ _ _ hunits rfl⟩,
    ⟨_, rfl, rfl, rfl, rfl, (parse_resolves reboundText).2.1 _ rfl⟩, hread,
    ((parse_resolves releasedText).2.2 "p" "p:b" hread).2⟩

end Document

end Schematron.Xml
