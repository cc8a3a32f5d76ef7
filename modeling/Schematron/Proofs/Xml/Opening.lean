import Schematron.Proofs.Xml.Merging
import Schematron.Proofs.Xml.TagContent

/-!
# Opening elements

What the start tag of an element brings into a document: the element with the declarations and
attributes that are among the pairs of the tag (`Growth.openElement_eq_ok`). Such an element is
well made in its scope (`Tree.Tag`), and an element that is well made is opened by the pairs it is
written with (`Tree.Tag.openElement`).
-/

namespace Schematron.Xml

/-- The declarations among the pairs of a tag. -/
def declarationsOf (pairs : List (List Char × String)) : List Declaration :=
  pairs.filterMap fun (key, value) => declaration? key value

/-- The pairs of a tag that are no declarations. -/
def plainOf (pairs : List (List Char × String)) : List (List Char × String) :=
  pairs.filter fun (key, value) => (declaration? key value).isNone

/-- The pairs, resolved in a scope, are attributes with these names. -/
def ResolvedIn (scope : Scope) : List (List Char × String) → List (Name × String) → Prop :=
  List.Forall₂ fun p a => scope.resolve false p.1 = .ok a.1 ∧ p.2 = a.2

theorem ResolvedIn.exists_of_mem {scope : Scope} {pairs : List (List Char × String)}
    {attributes : List (Name × String)} (h : ResolvedIn scope pairs attributes)
    {a : Name × String} (ha : a ∈ attributes) :
    ∃ p ∈ pairs, scope.resolve false p.1 = .ok a.1 := by
  induction h with
  | nil => cases ha
  | cons hp _ ih =>
      rcases List.mem_cons.mp ha with rfl | ha
      · exact ⟨_, List.mem_cons_self, hp.1⟩
      · obtain ⟨p, hmem, hresolve⟩ := ih ha
        exact ⟨p, List.mem_cons_of_mem _ hmem, hresolve⟩

namespace Growth

open Document

/-- Steps that each resolve the key of a pair and set the attribute. -/
theorem foldlM_setAttribute {scope : Scope} {id : NodeId}
    {f : Document → List Char × String → Except Fault Document}
    (hf : ∀ doc p doc', f doc p = .ok doc' ↔
      ∃ name, scope.resolve false p.1 = .ok name ∧ (doc.setAttribute id name p.2).2 = doc')
    {doc doc' : Document} {plain : List (List Char × String)} :
    plain.foldlM f doc = .ok doc' ↔
      ∃ attributes, ResolvedIn scope plain attributes ∧ doc' = doc.setAttributes id attributes := by
  induction plain generalizing doc with
  | nil =>
      constructor
      · intro h
        cases h
        exact ⟨[], .nil, rfl⟩
      · rintro ⟨attributes, hattributes, rfl⟩
        cases hattributes
        rfl
  | cons p plain ih =>
      rw [List.foldlM_cons, bind_eq_ok]
      constructor
      · rintro ⟨mid, hmid, hrest⟩
        obtain ⟨name, hname, rfl⟩ := (hf doc p mid).mp hmid
        obtain ⟨attributes, hattributes, rfl⟩ := ih.mp hrest
        exact ⟨(name, p.2) :: attributes, .cons ⟨hname, rfl⟩ hattributes, rfl⟩
      · rintro ⟨attributes, hattributes, rfl⟩
        cases hattributes with
        | @cons _ a _ rest ha hrest =>
            refine ⟨_, (hf doc p _).mpr ⟨a.1, ha.1, rfl⟩, ih.mpr ⟨rest, hrest, ?_⟩⟩
            rw [ha.2]
            rfl

theorem exists_foldlM_setAttribute {scope : Scope} {id : NodeId}
    {f : Document → List Char × String → Except Fault Document}
    (hf : ∀ doc p doc', f doc p = .ok doc' ↔
      ∃ name, scope.resolve false p.1 = .ok name ∧ (doc.setAttribute id name p.2).2 = doc')
    {doc : Document} {plain : List (List Char × String)} {P : Document → Prop} :
    (∃ doc', plain.foldlM f doc = .ok doc' ∧ P doc') ↔
      ∃ attributes, ResolvedIn scope plain attributes ∧ P (doc.setAttributes id attributes) := by
  constructor
  · rintro ⟨doc', hdoc, hP⟩
    obtain ⟨attributes, hattributes, rfl⟩ := (foldlM_setAttribute hf).mp hdoc
    exact ⟨attributes, hattributes, hP⟩
  · rintro ⟨attributes, hattributes, hP⟩
    exact ⟨_, (foldlM_setAttribute hf).mpr ⟨attributes, hattributes, rfl⟩, hP⟩

/-- When the tag of an element can be read, and what comes of it. -/
theorem openElement_eq_ok {g g' : Growth} {position : Nat} {content : List Char} :
    g.openElement position content = .ok g' ↔
      (g.opened = [] → g.rooted = false) ∧
        ∃ pairs, tagAttributes position content = .ok pairs ∧
          ∃ name, Scope.resolve ((declarationsOf pairs).reverse ++ g.scope) true
            (Attributes.nameOf content) = .ok name ∧
          ∃ attributes, ResolvedIn ((declarationsOf pairs).reverse ++ g.scope) (plainOf pairs)
              attributes ∧
            { doc := g.doc.opened g.target name (declarationsOf pairs) attributes
              opened := ⟨g.doc.size, Attributes.nameOf content,
                (declarationsOf pairs).reverse ++ g.scope⟩ :: g.opened
              rooted := true } = g' := by
  have hroot : (g.opened.isEmpty && g.rooted) = false ↔ (g.opened = [] → g.rooted = false) := by
    simp
  rw [openElement, ← hroot]
  cases g.opened.isEmpty && g.rooted with
  | true =>
      constructor
      · intro h
        cases h
      · rintro ⟨hguard, -⟩
        cases hguard
  | false =>
      simp only [Bool.false_eq_true, if_false, true_and, bind_eq_ok, Except.ok.injEq]
      refine exists_congr fun pairs => and_congr_right fun _ => exists_congr fun name => ?_
      rw [← declarationsOf]
      refine and_congr ?_ (exists_foldlM_setAttribute fun doc p doc' => ?_)
      · cases Scope.resolve ((declarationsOf pairs).reverse ++ g.scope) true
          (Attributes.nameOf content) <;> simp
      · simp only [bind_eq_ok, Except.ok.injEq]
        refine exists_congr fun name => and_congr_left fun _ => ?_
        cases Scope.resolve ((declarationsOf pairs).reverse ++ g.scope) false p.1 <;> simp

end Growth

namespace Tree

/-- The name of an attribute that an element in this scope, its own declarations included, can
have been given. -/
structure AttributeName (scope : Scope) (name : Name) : Prop where
  resolves : scope.resolve false name.written.toList = .ok name
  plain : ∀ value, declaration? name.written.toList value = none
  ne_nil : name.written.toList ≠ []

/-- The name, declarations and attributes of an element that can stand in a scope. -/
structure Tag (scope : Scope) (name : Name) (declarations : List Declaration)
    (attributes : List (Name × String)) : Prop where
  declared : declarations.Pairwise fun a b => a.pre ≠ b.pre
  apart : attributes.Pairwise fun a b => a.1.sameExpanded b.1 = false
  resolves : Scope.resolve (declarations.reverse ++ scope) true name.written.toList = .ok name
  attributes : ∀ a ∈ attributes, AttributeName (declarations.reverse ++ scope) a.1

/-! ## From the pairs of a tag -/

theorem declaration?_eq_none {key : List Char} {value : String}
    (h : declaration? key value = none) (other : String) : declaration? key other = none := by
  rw [declaration?] at h ⊢
  split at h
  · cases h
  · next hkey => rwa [if_neg hkey, Option.map_eq_none_iff] at *

theorem pairwise_declarationsOf {pairs : List (List Char × String)}
    (h : Pairs (pairs.map (·.1))) :
    (declarationsOf pairs).Pairwise fun a b => a.pre ≠ b.pre := by
  rw [declarationsOf, List.pairwise_filterMap]
  have hkeys : pairs.Pairwise fun p q => p.1 ≠ q.1 := List.pairwise_map.mp h.nodup
  refine hkeys.imp fun {p q} hne d hd e he hsame => hne ?_
  rw [← (declarationKey_of_declaration? hd).1, ← (declarationKey_of_declaration? he).1,
    declarationKey, declarationKey, hsame]

theorem Tag.of_pairs {scope : Scope} {name : Name} {raw : List Char}
    {pairs : List (List Char × String)} {attributes : List (Name × String)}
    (hpairs : Pairs (pairs.map (·.1)))
    (hname : Scope.resolve ((declarationsOf pairs).reverse ++ scope) true raw = .ok name)
    (hattributes :
      ResolvedIn ((declarationsOf pairs).reverse ++ scope) (plainOf pairs) attributes) :
    Tag scope name (declarationsOf pairs) (putAttributes [] attributes) where
  declared := pairwise_declarationsOf hpairs
  apart := pairwise_putAttributes attributes .nil
  resolves := by rwa [Scope.written_of_resolve hname]
  attributes := by
    refine forall_putAttributes (by simp) fun a ha => ?_
    obtain ⟨p, hp, hresolve⟩ := hattributes.exists_of_mem ha
    obtain ⟨hmem, hplain⟩ := List.mem_filter.mp hp
    have hwritten := Scope.written_of_resolve hresolve
    refine ⟨hwritten ▸ hresolve, fun value => ?_, ?_⟩
    · rw [hwritten]
      exact declaration?_eq_none (Option.isNone_iff_eq_none.mp hplain) value
    · rw [hwritten]
      exact hpairs.ne_nil p.1 (List.mem_map_of_mem hmem)

/-! ## To the pairs of a tag -/

/-- The pairs that an element is written with. -/
def pairs (declarations : List Declaration) (attributes : List (Name × String)) :
    List (String × String) :=
  declarations.map (fun d => (declarationKey d, d.uri)) ++
    attributes.map fun a => (a.1.written, a.2)

/-- The content of the start tag of an element. -/
def tagContent (name : Name) (declarations : List Declaration)
    (attributes : List (Name × String)) : List Char :=
  name.written.toList ++ writtenPairs (pairs declarations attributes)

/-- The names that an element is written with are made of characters of names. -/
structure LegibleTag (name : Name) (declarations : List Declaration)
    (attributes : List (Name × String)) : Prop where
  name : Legible name.written.toList
  declarations : ∀ d ∈ declarations, ∀ pre ∈ d.pre, Legible pre.toList
  attributes : ∀ a ∈ attributes, Legible a.1.written.toList

variable {scope : Scope} {name : Name} {declarations : List Declaration}
  {attributes : List (Name × String)}

theorem LegibleTag.pairs (h : LegibleTag name declarations attributes) :
    ∀ p ∈ pairs declarations attributes, Legible p.1.toList := by
  intro p hp
  rcases List.mem_append.mp hp with hp | hp
  · obtain ⟨d, hd, rfl⟩ := List.mem_map.mp hp
    have hstart : Legible "xmlns:".toList := by decide
    have hplain : Legible "xmlns".toList := by decide
    have hpre := h.declarations d hd
    dsimp only
    rw [toList_declarationKey]
    cases hd : d.pre with
    | none => exact hplain
    | some pre => exact hstart.append (hpre pre hd)
  · obtain ⟨a, ha, rfl⟩ := List.mem_map.mp hp
    exact h.attributes a ha

theorem pre_eq_of_declarationKey {d e : Declaration}
    (h : (declarationKey d).toList = (declarationKey e).toList) : d.pre = e.pre := by
  have hd := declaration?_declarationKey d
  have he : declaration? (declarationKey e).toList d.uri = some ⟨e.pre, d.uri⟩ :=
    declaration?_declarationKey ⟨e.pre, d.uri⟩
  rw [h, he] at hd
  exact (congrArg Declaration.pre (Option.some.inj hd)).symm

/-- No two keys that an element is written with are the same. -/
theorem Tag.keys (h : Tag scope name declarations attributes) :
    Pairs ((Tree.pairs declarations attributes).map (·.1.toList)) := by
  have hkeys : (Tree.pairs declarations attributes).map (·.1.toList) =
      declarations.map (fun d => (declarationKey d).toList) ++
        attributes.map fun a => a.1.written.toList := by
    rw [Tree.pairs, List.map_append, List.map_map, List.map_map]
    rfl
  rw [hkeys]
  refine ⟨List.nodup_append.mpr ⟨?_, ?_, ?_⟩, fun key hkey => ?_⟩
  · exact List.pairwise_map.mpr (h.declared.imp fun hne hsame =>
      hne (pre_eq_of_declarationKey hsame))
  · -- a written name resolves to one name only
    refine List.pairwise_map.mpr (h.apart.imp_of_mem fun {a b} ha hb hne hsame => ?_)
    have hresolve := (h.attributes a ha).resolves
    rw [hsame, (h.attributes b hb).resolves] at hresolve
    rw [Except.ok.inj hresolve, Name.sameExpanded_iff.mpr ⟨rfl, rfl⟩] at hne
    cases hne
  · intro key hkey other hother hsame
    obtain ⟨d, -, rfl⟩ := List.mem_map.mp hkey
    obtain ⟨a, ha, rfl⟩ := List.mem_map.mp hother
    have hplain := (h.attributes a ha).plain d.uri
    rw [← hsame, declaration?_declarationKey] at hplain
    cases hplain
  · rcases List.mem_append.mp hkey with hkey | hkey
    · obtain ⟨d, -, rfl⟩ := List.mem_map.mp hkey
      rw [toList_declarationKey]
      cases d.pre <;> simp
    · obtain ⟨a, ha, rfl⟩ := List.mem_map.mp hkey
      exact (h.attributes a ha).ne_nil

/-- Where no attribute looks like one, the declarations among the pairs are those of the element. -/
theorem declarationsOf_pairs
    (h : ∀ a ∈ attributes, ∀ value, declaration? a.1.written.toList value = none) :
    declarationsOf ((pairs declarations attributes).map fun p => (p.1.toList, p.2)) =
      declarations := by
  have hdeclared : declarations.filterMap (fun d => declaration? (declarationKey d).toList d.uri) =
      declarations := by
    simp only [declaration?_declarationKey, List.filterMap_some]
  have hnone : attributes.filterMap (fun a => declaration? a.1.written.toList a.2) = [] :=
    List.filterMap_eq_nil_iff.mpr fun a ha => h a ha a.2
  rw [declarationsOf, pairs, List.filterMap_map, List.filterMap_append, List.filterMap_map,
    List.filterMap_map]
  exact (congrArg₂ (· ++ ·) hdeclared hnone).trans (List.append_nil _)

theorem plainOf_pairs (h : Tag scope name declarations attributes) :
    plainOf ((pairs declarations attributes).map fun p => (p.1.toList, p.2)) =
      attributes.map fun a => (a.1.written.toList, a.2) := by
  rw [plainOf, pairs, List.map_append, List.map_map, List.map_map, List.filter_append,
    List.filter_eq_nil_iff.mpr, List.filter_eq_self.mpr, List.nil_append]
  · rfl
  · intro p hp
    obtain ⟨a, ha, rfl⟩ := List.mem_map.mp hp
    simp [(h.attributes a ha).plain]
  · intro p hp
    obtain ⟨d, -, rfl⟩ := List.mem_map.mp hp
    simp [declaration?_declarationKey]

/-- An element is opened by the tag that it is written with. -/
theorem Tag.openElement {g : Growth} (h : Tag g.scope name declarations attributes)
    (hlegible : LegibleTag name declarations attributes)
    (hroot : g.opened = [] → g.rooted = false) (position : Nat) :
    g.openElement position (tagContent name declarations attributes) =
      .ok
        { doc := g.doc.opened g.target name declarations attributes
          opened := ⟨g.doc.size, name.written.toList, declarations.reverse ++ g.scope⟩ :: g.opened
          rooted := true } := by
  refine Growth.openElement_eq_ok.mpr ⟨hroot, _,
    tagAttributes_written position hlegible.name h.keys hlegible.pairs, name, ?_⟩
  rw [tagContent, (Attributes.nameOf_written hlegible.name _).1,
    declarationsOf_pairs fun a ha => (h.attributes a ha).plain, plainOf_pairs h]
  refine ⟨h.resolves, attributes, ?_, rfl⟩
  rw [ResolvedIn, List.forall₂_map_left_iff, List.forall₂_same]
  exact fun a ha => ⟨(h.attributes a ha).resolves, rfl⟩

end Tree

end Schematron.Xml
