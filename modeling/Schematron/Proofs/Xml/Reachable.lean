import Mathlib.Data.List.Chain
import Mathlib.Data.List.Nodup
import Mathlib.Data.List.Perm.Subperm
import Schematron.Proofs.Xml.Building
import Schematron.Xml.Tree

/-!
# Documents that are built by hand

A document is reachable if the operations that build documents lead to it, in any order and at any
of its nodes, from the empty document or from one that was read; what is copied into it comes from
documents that are reachable themselves (`Reachable`).

* `Document.Consistent` — what the nodes and links of a document have to agree on;
* `Walked`, `Climbed` — the walks downwards and upwards as loops that come to their end, said
  without a bound on their steps;
* `consistent_of_reachable` — a reachable document is consistent, and so the walks in it come to
  their end and meet no node twice.

All operations are sequences of the changes of `Document.Change`, copies of trees too
(`changes_graft`), so that each part of the invariant is a fact about the single change.
-/

namespace Schematron.Xml

/-! ## Consistent documents -/

/-- A text is not empty, and an element declares no prefix twice. -/
def NodeKind.Proper : NodeKind → Prop
  | .text value => value.isEmpty = false
  | .element _ declarations => declarations.Pairwise fun a b => a.pre ≠ b.pre
  | _ => True

namespace Document

/-- All lists of children and of attributes in a document, one after the other. -/
def listed (doc : Document) : List NodeId :=
  (List.range doc.size).flatMap fun id => doc.children id ++ doc.attributes id

/-- No two texts stand side by side. -/
def TextsSeparate (doc : Document) : Prop :=
  ∀ id, (doc.children id).IsChain fun a b => ¬(doc.isText a = true ∧ doc.isText b = true)

/-- The nodes and links of a document make a tree. All nodes but the document node have a parent
before them, which lists them among its attributes if they are attributes and among its children
otherwise, and all lists together hold each of them once. No element has two attributes of one
expanded name or two declarations of one prefix, no text is empty, and no two texts stand side by
side. -/
structure Consistent (doc : Document) : Prop where
  parent?_root : doc.parent? rootNode = none
  parent?_lt : ∀ id, rootNode < id → id < doc.size → ∃ p < id, doc.parent? id = some p ∧
    id ∈ if doc.isAttribute id then doc.attributes p else doc.children p
  listed : doc.listed.Perm (List.range' 1 (doc.size - 1))
  attributes : AttributesApart doc
  declarations : ∀ element, (doc.declarations element).Pairwise fun a b => a.pre ≠ b.pre
  texts : ∀ id value, doc.kind id = .text value → value.isEmpty = false
  textsSeparate : TextsSeparate doc

/-- The walk along a stack, with the nodes that `below` lists put on it for each node that is
taken from it, comes to its end with these nodes. -/
inductive Walked (below : NodeId → List NodeId) : List NodeId → List NodeId → Prop
  | done : Walked below [] []
  | step {id : NodeId} {stack found : List NodeId} (rest : Walked below (below id ++ stack) found) :
      Walked below (id :: stack) (id :: found)

/-- The climb from a node along its parents comes to its end with these nodes. -/
inductive Climbed (doc : Document) : NodeId → List NodeId → Prop
  | top {id : NodeId} (h : doc.parent? id = none) : Climbed doc id []
  | up {id parent : NodeId} {above : List NodeId} (h : doc.parent? id = some parent)
      (rest : Climbed doc parent above) : Climbed doc id (parent :: above)

/-! ## Grafts are changes -/

/-- Names of which nothing is asked. -/
def AnyName (_ : Name) : Prop := True

variable {Allowed Also : Name → Prop} {doc doc' : Document} {parent element id : NodeId}
  {kind : NodeKind}

theorem Change.mono (h : Change Allowed doc doc') (himp : ∀ name, Allowed name → Also name) :
    Change Also doc doc' := by
  cases h with
  | element parent name hparent hname => exact .element parent name hparent (himp _ hname)
  | text parent value hparent hvalue hlast => exact .text parent value hparent hvalue hlast
  | comment parent value hparent => exact .comment parent value hparent
  | «attribute» element name value helement hname hfresh =>
      exact .attribute element name value helement (himp _ hname) hfresh
  | declaration d hkind hfresh => exact .declaration d hkind hfresh
  | moreText more hkind => exact .moreText more hkind
  | value value hkind => exact .value value hkind

theorem Changes.mono (h : Changes Allowed doc doc') (himp : ∀ name, Allowed name → Also name) :
    Changes Also doc doc' := by
  induction h with
  | refl => exact .refl
  | tail _ hchange ih => exact ih.tail (hchange.mono himp)

theorem changes_setAttributes (helement : element < doc.size) (attributes : List (Name × String)) :
    Changes AnyName doc (doc.setAttributes element attributes) := by
  induction attributes generalizing doc with
  | nil => exact .refl
  | cons a rest ih =>
      have hfirst : Changes AnyName doc (doc.setAttribute element a.1 a.2).2 :=
        changes_setAttribute helement trivial a.2
      exact hfirst.trans (ih (Nat.lt_of_lt_of_le helement hfirst.size_le))

mutual

theorem changes_graft {doc : Document} {parent : NodeId} (hparent : parent < doc.size) :
    (tree : Tree) → Changes AnyName doc (doc.graft parent tree).2
  | .text value => changes_appendText hparent value
  | .comment value => changes_appendComment hparent value
  | .element name declarations attributes children => by
      have hadded : Changes AnyName doc (doc.appendElement parent name).2 :=
        changes_appendElement hparent trivial
      have hnode : doc.size < (doc.appendElement parent name).2.size := by
        rw [appendElement, pushChild_eq, size_pushListed]
        exact Nat.lt_succ_self _
      have hdeclared : Changes AnyName (doc.appendElement parent name).2 _ :=
        changes_foldl (fun doc' d => changes_declare doc' doc.size d) declarations _
      have hset := changes_setAttributes (Nat.lt_of_lt_of_le hnode hdeclared.size_le) attributes
      have hopened := (hadded.trans hdeclared).trans hset
      -- the new element is a node of the document that its content is put into
      have hbelow := changes_graftAll (Nat.lt_of_lt_of_le hnode
        (Changes.size_le (hdeclared.trans hset))) children
      exact hopened.trans hbelow

theorem changes_graftAll {doc : Document} {parent : NodeId} (hparent : parent < doc.size) :
    (trees : List Tree) → Changes AnyName doc (doc.graftAll parent trees)
  | [] => .refl
  | tree :: rest => by
      have hfirst := changes_graft hparent tree
      exact hfirst.trans (changes_graftAll (Nat.lt_of_lt_of_le hparent hfirst.size_le) rest)

end

theorem changes_importContents (hparent : parent < doc.size) (source : Document) (id : NodeId) :
    Changes AnyName doc (doc.importContents parent source id) := by
  have hset := changes_setAttributes hparent (source.attributeValues id)
  exact hset.trans (changes_graftAll (Nat.lt_of_lt_of_le hparent hset.size_le) _)

theorem changes_importNode (hparent : parent < doc.size) (source : Document) (origin : NodeId) :
    Changes AnyName doc (doc.importNode parent source origin).2 := by
  rw [importNode]
  split
  · exact changes_graftAll hparent _
  · exact changes_setAttribute hparent trivial _
  · split
    · exact changes_graft hparent _
    · exact .refl

/-! ## Reachable documents -/

/-- The operations that build documents lead to the document, from the empty one or from one that
was read. The nodes they are applied at are nodes of the document. -/
inductive Reachable : Document → Prop
  | empty : Reachable .empty
  | parsed {text : String} {doc : Document} (h : parse text = .ok doc) : Reachable doc
  | appendElement {doc : Document} (h : Reachable doc) (parent : NodeId) (name : Name)
      (hparent : parent < doc.size) : Reachable (doc.appendElement parent name).2
  | setAttribute {doc : Document} (h : Reachable doc) (element : NodeId) (name : Name)
      (value : String) (helement : element < doc.size) :
      Reachable (doc.setAttribute element name value).2
  | declare {doc : Document} (h : Reachable doc) (element : NodeId) (declaration : Declaration)
      (helement : element < doc.size) : Reachable (doc.declare element declaration)
  | appendText {doc : Document} (h : Reachable doc) (parent : NodeId) (text : String)
      (hparent : parent < doc.size) : Reachable (doc.appendText parent text).2
  | appendComment {doc : Document} (h : Reachable doc) (parent : NodeId) (text : String)
      (hparent : parent < doc.size) : Reachable (doc.appendComment parent text).2
  | importNode {doc source : Document} (h : Reachable doc) (hsource : Reachable source)
      (parent origin : NodeId) (hparent : parent < doc.size) (horigin : origin < source.size) :
      Reachable (doc.importNode parent source origin).2
  | importContents {doc source : Document} (h : Reachable doc) (hsource : Reachable source)
      (target origin : NodeId) (htarget : target < doc.size) (horigin : origin < source.size) :
      Reachable (doc.importContents target source origin)

theorem Reachable.built (h : Reachable doc) : Built AnyName doc := by
  induction h with
  | empty => exact .refl
  | parsed h => exact (built_of_parse h).mono fun _ _ => trivial
  | appendElement _ parent name hparent ih =>
      exact ih.trans (changes_appendElement hparent trivial)
  | setAttribute _ element name value helement ih =>
      exact ih.trans (changes_setAttribute helement trivial value)
  | declare _ element declaration _ ih => exact ih.trans (changes_declare _ element declaration)
  | appendText _ parent text hparent ih => exact ih.trans (changes_appendText hparent text)
  | appendComment _ parent text hparent ih => exact ih.trans (changes_appendComment hparent text)
  | importNode _ _ parent origin hparent _ ih _ =>
      exact ih.trans (changes_importNode hparent _ origin)
  | importContents _ _ target origin htarget _ ih _ =>
      exact ih.trans (changes_importContents htarget _ origin)

/-! ## Kinds and texts -/

theorem forall_kind_pushListed {P : NodeKind → Prop} {asAttribute : Bool}
    (h : ∀ id, P (doc.kind id)) (hparent : parent < doc.size) (hkind : P kind) :
    ∀ id, P ((doc.pushListed asAttribute parent kind).kind id) := by
  intro id
  rw [kind_pushListed _ hparent]
  split
  · exact hkind
  · exact h id

theorem forall_kind_setKind {P : NodeKind → Prop} {target : NodeId} (h : ∀ id, P (doc.kind id))
    (htarget : target < doc.size) (hkind : P kind) :
    ∀ id, P ((doc.setKind target kind).kind id) := by
  intro id
  rw [kind_setKind _ _ _ htarget]
  split
  · exact hkind
  · exact h id

theorem Change.proper (hproper : ∀ id, (doc.kind id).Proper) (h : Change Allowed doc doc') :
    ∀ id, (doc'.kind id).Proper := by
  cases h with
  | element parent name hparent => exact forall_kind_pushListed hproper hparent .nil
  | text parent value hparent hvalue => exact forall_kind_pushListed hproper hparent hvalue
  | comment parent value hparent => exact forall_kind_pushListed hproper hparent trivial
  | «attribute» element name value helement =>
      exact forall_kind_pushListed hproper helement trivial
  | @declaration element name declarations d hkind hfresh =>
      refine forall_kind_setKind hproper (lt_size_of_kind hkind (by simp)) ?_
      have hold : declarations.Pairwise fun a b => a.pre ≠ b.pre := by
        have hold := hproper element
        rwa [hkind] at hold
      refine List.pairwise_append.mpr ⟨hold, List.pairwise_singleton _ _, fun a ha b hb => ?_⟩
      obtain rfl := List.mem_singleton.mp hb
      simpa using List.any_eq_false.mp hfresh a ha
  | @moreText id before more hkind =>
      refine forall_kind_setKind hproper (lt_size_of_kind hkind (by simp)) ?_
      have hbefore : before.isEmpty = false := by
        have hbefore := hproper id
        rwa [hkind] at hbefore
      show (before ++ more).isEmpty = false
      simp_all
  | value value hkind =>
      exact forall_kind_setKind hproper (lt_size_of_kind hkind (by simp)) trivial

theorem Built.proper (h : Built Allowed doc) : ∀ id, (doc.kind id).Proper := by
  induction h with
  | refl =>
      intro id
      rw [kind, node_empty]
      trivial
  | tail _ hchange ih => exact hchange.proper ih

theorem isText_eq (doc : Document) (id : NodeId) :
    doc.isText id = true ↔ ∃ value, doc.kind id = .text value := by
  rw [isText]
  cases doc.kind id <;> simp

theorem lt_size_of_mem_children (h : Linked doc) (hid : id ∈ doc.children parent) :
    id < doc.size :=
  Linked.lt_size_of_parent? ((h.mem_children parent id).mp hid).1

/-- Children that were apart stay apart in a document where they are texts or not as before. -/
theorem isChain_of_isText {ids : List NodeId}
    (h : ids.IsChain fun a b => ¬(doc.isText a = true ∧ doc.isText b = true))
    (hsame : ∀ id ∈ ids, doc'.isText id = doc.isText id) :
    ids.IsChain fun a b => ¬(doc'.isText a = true ∧ doc'.isText b = true) := by
  refine List.IsChain.imp_of_mem_imp (fun a b ha hb hab => ?_) h
  rwa [hsame a ha, hsame b hb]

theorem TextsSeparate.pushListed (hlinked : Linked doc) (h : TextsSeparate doc) {asAttribute : Bool}
    (hparent : parent < doc.size)
    (hlast : asAttribute = false → (∃ value, kind = .text value) →
      ∀ last, (doc.node parent).children.back? = some last → doc.isText last = false) :
    TextsSeparate (doc.pushListed asAttribute parent kind) := by
  have hsame (id : NodeId) (hid : id ≠ doc.size) :
      (doc.pushListed asAttribute parent kind).isText id = doc.isText id := by
    rw [isText, isText, kind_pushListed _ hparent, if_neg hid]
  intro id
  have hold := isChain_of_isText (h id) fun child hchild =>
    hsame child (Nat.ne_of_lt (lt_size_of_mem_children hlinked hchild))
  rw [children_pushListed _ hparent]
  split
  · next hnew =>
      obtain ⟨rfl, hchild⟩ := hnew
      refine List.isChain_append.mpr ⟨hold, List.isChain_singleton _, fun a ha b hb => ?_⟩
      obtain rfl : doc.size = b := Option.some.inj hb
      rintro ⟨hatext, hbtext⟩
      -- the new child is a text only where the last one before it is none
      have hmem : a ∈ doc.children id := List.mem_of_getLast? ha
      rw [hsame a (Nat.ne_of_lt (lt_size_of_mem_children hlinked hmem))] at hatext
      obtain ⟨value, hvalue⟩ := (isText_eq _ _).mp hbtext
      rw [kind_pushListed _ hparent, if_pos rfl] at hvalue
      have hback : (doc.node id).children.back? = some a := by
        rwa [Array.back?_eq_getElem?, ← Array.getElem?_toList, ← Array.length_toList,
          ← List.getLast?_eq_getElem?]
      rw [hlast hchild ⟨value, hvalue⟩ a hback] at hatext
      cases hatext
  · exact hold

theorem TextsSeparate.setKind (h : TextsSeparate doc) {target : NodeId}
    (htarget : target < doc.size) (hkind : (∃ value, kind = .text value) ↔ doc.isText target = true) :
    TextsSeparate (doc.setKind target kind) := by
  intro id
  rw [children_setKind _ _ _ htarget]
  refine isChain_of_isText (h id) fun child _ => ?_
  rw [Bool.eq_iff_iff, isText_eq, kind_setKind _ _ _ htarget]
  split
  · next heq => rw [hkind, heq]
  · rw [isText_eq]

theorem Change.textsSeparate (hlinked : Linked doc) (hapart : TextsSeparate doc)
    (h : Change Allowed doc doc') : TextsSeparate doc' := by
  cases h with
  | element parent name hparent =>
      exact hapart.pushListed hlinked hparent (by simp)
  | text parent value hparent hvalue hlast =>
      exact hapart.pushListed hlinked hparent fun _ _ => hlast
  | comment parent value hparent =>
      exact hapart.pushListed hlinked hparent (by simp)
  | «attribute» element name value helement =>
      exact hapart.pushListed hlinked helement (by simp)
  | declaration d hkind | moreText d hkind | value d hkind =>
      exact hapart.setKind (lt_size_of_kind hkind (by simp)) (by simp [isText, hkind])

theorem Built.textsSeparate (h : Built Allowed doc) : TextsSeparate doc := by
  induction h with
  | refl =>
      intro id
      rw [children, node_empty]
      exact .nil
  | tail hbuilt hchange ih => exact hchange.textsSeparate (Built.linked hbuilt) ih

/-! ## The lists of a linked document -/

namespace Linked

theorem parent?_of_mem (h : Linked doc) (hid : id ∈ doc.children parent ++ doc.attributes parent) :
    doc.parent? id = some parent := by
  rcases List.mem_append.mp hid with hid | hid
  · exact ((h.mem_children parent id).mp hid).1
  · exact ((h.mem_attributes parent id).mp hid).1

theorem mem_of_parent? (h : Linked doc) (hid : doc.parent? id = some parent) :
    id ∈ if doc.isAttribute id then doc.attributes parent else doc.children parent := by
  have hkind : (doc.kind id).isAttribute = doc.isAttribute id := by
    rw [isAttribute]
    cases doc.kind id <;> rfl
  split
  · next hattribute => exact (h.mem_attributes parent id).mpr ⟨hid, hkind.trans hattribute⟩
  · next hattribute =>
      exact (h.mem_children parent id).mpr ⟨hid, hkind.trans (by simpa using hattribute)⟩

theorem nodup_listed (h : Linked doc) : doc.listed.Nodup := by
  refine List.nodup_flatMap.mpr ⟨fun id _ => ?_, ?_⟩
  · -- no node is both a child and an attribute
    refine List.nodup_append.mpr ⟨h.nodup_children id, h.nodup_attributes id, ?_⟩
    rintro child hchild _ hattribute rfl
    have hneither := ((h.mem_children id child).mp hchild).2
    rw [((h.mem_attributes id child).mp hattribute).2] at hneither
    cases hneither
  · refine (List.nodup_range (n := doc.size)).imp fun {p q} hne => ?_
    intro id hp hq
    exact hne (Option.some.inj ((h.parent?_of_mem hp).symm.trans (h.parent?_of_mem hq)))

theorem mem_listed (h : Linked doc) : id ∈ doc.listed ↔ rootNode < id ∧ id < doc.size := by
  rw [listed, List.mem_flatMap]
  constructor
  · rintro ⟨p, -, hid⟩
    have hparent := h.parent?_of_mem hid
    exact ⟨Nat.lt_of_le_of_lt (Nat.zero_le p) (h.parent_lt hparent), lt_size_of_parent? hparent⟩
  · rintro ⟨hpos, hlt⟩
    obtain ⟨p, hp, hparent⟩ := h.parent?_lt id hpos hlt
    refine ⟨p, List.mem_range.mpr (Nat.lt_trans hp hlt), List.mem_append.mpr ?_⟩
    have hmem := h.mem_of_parent? hparent
    split at hmem
    · exact .inr hmem
    · exact .inl hmem

theorem listed_perm (h : Linked doc) : doc.listed.Perm (List.range' 1 (doc.size - 1)) := by
  refine (List.perm_ext_iff_of_nodup h.nodup_listed List.nodup_range').mpr fun id => ?_
  have hsize : 1 + (doc.size - 1) = doc.size := Nat.add_sub_of_le h.size_pos
  rw [h.mem_listed, List.mem_range'_1, hsize]
  exact Iff.rfl

/-! ## Walks come to their end -/

theorem climbed (h : Linked doc) (id : NodeId) : Climbed doc id (doc.ancestors id) := by
  induction id using Nat.strongRecOn with
  | _ id ih =>
      cases hparent : doc.parent? id with
      | none =>
          rw [ancestors_of_none hparent]
          exact .top hparent
      | some parent =>
          rw [h.ancestors_of_parent hparent]
          exact .up hparent (ih parent (h.parent_lt hparent))

end Linked

/-- A climb meets nodes from later to earlier ones. -/
theorem Climbed.lt (h : Linked doc) {above : List NodeId} (hclimbed : Climbed doc id above) :
    (id :: above).Pairwise (· > ·) := by
  induction hclimbed with
  | top _ => exact List.pairwise_singleton _ _
  | @up id parent above hparent _ ih =>
      have hlt : parent < id := h.parent_lt hparent
      refine List.pairwise_cons.mpr ⟨fun other hother => ?_, ih⟩
      rcases List.mem_cons.mp hother with rfl | hother
      · exact hlt
      · exact Nat.lt_trans ((List.pairwise_cons.mp ih).1 other hother) hlt

/-- A place that the walk below a node can come to: what it has found and what is on its stack are
different nodes, which stand after the node and whose parents it has found already. -/
structure Walking (doc : Document) (start : NodeId) (stack found : List NodeId) : Prop where
  nodup : (found ++ stack).Nodup
  lt_size : ∀ id ∈ found ++ stack, id < doc.size
  start_lt : ∀ id ∈ found ++ stack, start < id
  parent : ∀ id ∈ found ++ stack, ∃ p, doc.parent? id = some p ∧ (p = start ∨ p ∈ found)

theorem Walking.step (h : Linked doc) {start : NodeId} {stack found : List NodeId}
    (hwalking : Walking doc start (id :: stack) found) :
    Walking doc start (doc.children id ++ stack) (id :: found) := by
  have hold {other : NodeId} (hother : other ∈ id :: found ++ stack) :
      other ∈ found ++ id :: stack := by
    simpa [or_left_comm] using hother
  have hparent {child : NodeId} (hchild : child ∈ doc.children id) :
      doc.parent? child = some id := ((h.mem_children id child).mp hchild).1
  have hself : start < id := hwalking.start_lt id (by simp)
  have hnodup : (id :: found ++ stack).Nodup := by
    have hnodup := hwalking.nodup
    rwa [List.nodup_middle] at hnodup
  -- a child that was met before would have its parent among the nodes that were found
  have hnew : ∀ child ∈ doc.children id, child ∉ id :: found ++ stack := by
    intro child hchild hmet
    obtain ⟨p, hp, hcases⟩ := hwalking.parent child (hold hmet)
    obtain rfl : id = p := Option.some.inj ((hparent hchild).symm.trans hp)
    rcases hcases with rfl | hfound
    · exact Nat.lt_irrefl _ hself
    · exact (List.nodup_cons.mp hnodup).1 (List.mem_append_left _ hfound)
  have hmem {other : NodeId} (hother : other ∈ id :: found ++ (doc.children id ++ stack)) :
      other ∈ doc.children id ∨ other ∈ id :: found ++ stack := by
    simp only [List.mem_append] at hother ⊢
    tauto
  refine ⟨?_, fun other hother => ?_, fun other hother => ?_, fun other hother => ?_⟩
  · have hperm : (id :: found ++ (doc.children id ++ stack)).Perm
        (doc.children id ++ (id :: found ++ stack)) := by
      rw [← List.append_assoc, ← List.append_assoc]
      exact List.perm_append_comm.append_right stack
    refine hperm.nodup_iff.mpr (List.nodup_append.mpr ⟨h.nodup_children id, hnodup, ?_⟩)
    rintro child hchild other hother rfl
    exact hnew child hchild hother
  · rcases hmem hother with hchild | hother
    · exact Linked.lt_size_of_parent? (hparent hchild)
    · exact hwalking.lt_size other (hold hother)
  · rcases hmem hother with hchild | hother
    · exact Nat.lt_trans hself (h.parent_lt (hparent hchild))
    · exact hwalking.start_lt other (hold hother)
  · rcases hmem hother with hchild | hother
    · exact ⟨id, hparent hchild, .inr List.mem_cons_self⟩
    · obtain ⟨p, hp, hcases⟩ := hwalking.parent other (hold hother)
      exact ⟨p, hp, hcases.imp_right (List.mem_cons_of_mem id)⟩

/-- A walk has found fewer nodes than there are. -/
theorem Walking.length_lt {start : NodeId} {stack found : List NodeId}
    (hsize : 0 < doc.size) (hwalking : Walking doc start stack found) :
    found.length < doc.size := by
  -- the document node is not among them
  have hsub : (rootNode :: found).Subperm (List.range doc.size) := by
    refine List.subperm_of_subset (List.nodup_cons.mpr ⟨fun hroot => ?_, ?_⟩) fun id hid => ?_
    · exact Nat.not_lt_zero _ (hwalking.start_lt _ (List.mem_append_left stack hroot))
    · exact (List.nodup_append.mp hwalking.nodup).1
    · rcases List.mem_cons.mp hid with rfl | hid
      · exact List.mem_range.mpr hsize
      · exact List.mem_range.mpr (hwalking.lt_size id (List.mem_append_left stack hid))
  have hlength := hsub.length_le
  rwa [List.length_range, List.length_cons] at hlength

/-- With a step for each node that can still be met the walk comes to its end. -/
theorem Walking.walked (h : Linked doc) {start : NodeId} (fuel : Nat) {stack found : List NodeId}
    (hwalking : Walking doc start stack found) (hfuel : doc.size ≤ found.length + fuel) :
    ∃ rest, walk doc.children fuel stack found = found.reverse ++ rest ∧
      Walked doc.children stack rest ∧ (found.reverse ++ rest).Nodup := by
  induction fuel generalizing stack found with
  | zero =>
      have hlt := hwalking.length_lt h.size_pos
      omega
  | succ fuel ih =>
      cases stack with
      | nil =>
          refine ⟨[], by rw [walk, List.append_nil], .done, ?_⟩
          rw [List.append_nil, List.nodup_reverse]
          exact (List.nodup_append.mp hwalking.nodup).1
      | cons id stack =>
          have hless : doc.size ≤ (id :: found).length + fuel := by
            rw [List.length_cons]
            omega
          obtain ⟨rest, hwalk, hwalked, hnodup⟩ := ih (hwalking.step h) hless
          rw [List.reverse_cons, List.append_assoc, List.singleton_append] at hwalk hnodup
          exact ⟨id :: rest, by rw [walk, hwalk], .step hwalked, hnodup⟩

theorem Linked.walked (h : Linked doc) (id : NodeId) :
    Walked doc.children (doc.children id) (doc.descendants id) ∧ (doc.descendants id).Nodup := by
  have hparent : ∀ child ∈ doc.children id, doc.parent? child = some id := fun child hchild =>
    ((h.mem_children id child).mp hchild).1
  have hstart : Walking doc id (doc.children id) [] :=
    { nodup := h.nodup_children id
      lt_size := fun child hchild => lt_size_of_mem_children h hchild
      start_lt := fun child hchild => h.parent_lt (hparent child hchild)
      parent := fun child hchild => ⟨id, hparent child hchild, .inl rfl⟩ }
  obtain ⟨rest, hwalk, hwalked, hnodup⟩ :=
    hstart.walked h doc.size (Nat.le_of_eq (Nat.zero_add _).symm)
  rw [descendants, hwalk]
  exact ⟨hwalked, hnodup⟩

/-! ## Main result -/

theorem Built.consistent (h : Built Allowed doc) : Consistent doc where
  parent?_root := h.linked.parent?_root
  parent?_lt id hpos hlt := by
    obtain ⟨p, hp, hparent⟩ := h.linked.parent?_lt id hpos hlt
    exact ⟨p, hp, hparent, h.linked.mem_of_parent? hparent⟩
  listed := h.linked.listed_perm
  attributes := h.attributesApart
  declarations element := by
    have hproper := h.proper element
    rw [Document.declarations]
    split
    · next hkind => rwa [hkind] at hproper
    · exact .nil
  texts id value hkind := by
    have hproper := h.proper id
    rwa [hkind] at hproper
  textsSeparate := h.textsSeparate

/-- A document that any operations lead to is consistent. From each of its nodes the walk to the
ancestors and the walk to the descendants come to their ends and meet no node twice. -/
theorem consistent_of_reachable (doc : Document) (h : Reachable doc) :
    Consistent doc ∧ ∀ id,
      (Climbed doc id (doc.ancestors id) ∧ (doc.ancestors id).Nodup) ∧
        Walked doc.children (doc.children id) (doc.descendants id) ∧
          (doc.descendants id).Nodup := by
  have hbuilt := h.built
  refine ⟨hbuilt.consistent, fun id => ⟨⟨hbuilt.linked.climbed id, ?_⟩, hbuilt.linked.walked id⟩⟩
  have hdecreasing := (List.pairwise_cons.mp (hbuilt.linked.climbed id |>.lt hbuilt.linked)).2
  exact hdecreasing.imp fun hlt => Nat.ne_of_gt hlt

/-- An element with an attribute that was set twice and a text that was appended in two pieces. -/
def elementWithText : Document :=
  let doc := (empty.appendElement 0 (.plain "a")).2
  let doc := (doc.setAttribute 1 (.plain "k") "1").2
  let doc := (doc.appendText 1 "x").2
  let doc := (doc.appendText 1 "y").2
  (doc.setAttribute 1 (.plain "k") "2").2

/-- The element with its own content copied into it: the attribute is replaced, and the text is
added to the one that is there. -/
def copiedIntoItself : Document := elementWithText.importContents 1 elementWithText 1

theorem consistent_of_reachable_copy :
    copiedIntoItself.stringValue 1 = "xyxy" ∧
      Consistent copiedIntoItself ∧ ∀ id,
        (Climbed copiedIntoItself id (copiedIntoItself.ancestors id) ∧
          (copiedIntoItself.ancestors id).Nodup) ∧
        Walked copiedIntoItself.children (copiedIntoItself.children id)
            (copiedIntoItself.descendants id) ∧
          (copiedIntoItself.descendants id).Nodup := by
  have hbuilt : Reachable elementWithText :=
    ((((Reachable.empty.appendElement 0 (.plain "a") (by decide)).setAttribute 1 (.plain "k") "1"
      (by decide)).appendText 1 "x" (by decide)).appendText 1 "y" (by decide)).setAttribute 1
        (.plain "k") "2" (by decide)
  exact ⟨by decide, consistent_of_reachable _
    (hbuilt.importContents hbuilt 1 1 (by decide) (by decide))⟩

end Document

end Schematron.Xml
