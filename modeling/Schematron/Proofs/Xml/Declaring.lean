import Schematron.Proofs.Runs
import Schematron.Proofs.Xml.Elements
import Schematron.Proofs.Xml.Written

/-!
# What the writer declares

An element is written with its own declarations and with those that its names need where it stands.
Each declaration that is added leaves what the other prefixes stand for (`Tree.bound_bind_of_ne`),
and no two names of an element ask for different ones (`Tree.WellNamed`). So behind all of them the
prefix of each name stands for the namespace of the name (`Tree.covers_writtenDeclarations`), and a
reader that knows only the text finds the same namespaces (`Document.faithful_toXml`).

A reader takes an attribute named `xmlns` or with this prefix for a declaration; the writer does not.
-/

namespace Schematron.Xml

/-! ## What names ask for -/

namespace Name

/-- The namespace of a name; the empty one is none. -/
def namespace? (name : Name) : Option String := name.uri.filter (!·.isEmpty)

/-- The name with its namespace, the empty one being none. -/
def settled (name : Name) : Name := { name with uri := name.namespace? }

/-- The declaration that a name asks for. -/
def asks (name : Name) : Declaration := ⟨name.pre, name.namespace?.getD ""⟩

/-- The name can be written: no colon stands in its parts, a prefix has a namespace, and the prefix
`xml` has its own. -/
structure WellMade (name : Name) : Prop where
  localPart : ':' ∉ name.localPart.toList
  pre : ∀ pre ∈ name.pre, ':' ∉ pre.toList
  prefixed : name.pre.isSome → name.namespace?.isSome
  xml : name.pre = some "xml" ↔ name.uri = some xmlNamespace

instance (name : Name) : Decidable name.WellMade :=
  decidable_of_iff (':' ∉ name.localPart.toList ∧ (∀ pre ∈ name.pre, ':' ∉ pre.toList) ∧
      (name.pre.isSome → name.namespace?.isSome) ∧
        (name.pre = some "xml" ↔ name.uri = some xmlNamespace))
    ⟨fun ⟨hlocal, hpre, hprefixed, hxml⟩ => ⟨hlocal, hpre, hprefixed, hxml⟩,
      fun h => ⟨h.localPart, h.pre, h.prefixed, h.xml⟩⟩

theorem WellMade.splitName_written {name : Name} (h : name.WellMade) :
    Scope.splitName name.written.toList = (name.pre, name.localPart) := by
  rw [Scope.splitName, written]
  cases hpre : name.pre with
  | none => simp only [Text.cutAt?_eq_none h.localPart, String.ofList_toList]
  | some pre =>
      have hwritten : (pre ++ ":" ++ name.localPart).toList =
          pre.toList ++ ':' :: name.localPart.toList := by simp
      simp only [hwritten, Text.cutAt?_append (h.pre pre hpre), String.ofList_toList]

theorem asks_uri (name : Name) : name.asks.uri = name.uri.getD "" :=
  Scope.getD_filter_isEmpty name.uri

end Name

namespace Tree

variable {outer declared : List Declaration} {name : Name} {pre : Option String}

/-! ## One more declaration -/

/-- The namespace that a prefix, or none, stands for by the first declaration of it. -/
def bound (scope : List Declaration) (pre : Option String) : String :=
  (scope.find? (·.pre == pre)).elim "" (·.uri)

theorem bind_eq (hname : name.WellMade) (hxml : name.pre ≠ some "xml") :
    bind outer declared name =
      if bound (declared ++ outer) name.pre != name.asks.uri &&
          !declared.any (·.pre == name.pre) then
        declared ++ [name.asks]
      else declared := by
  have huri : name.uri ≠ some xmlNamespace := fun h => hxml (hname.xml.mpr h)
  have hskip : (name.pre == some "xml" || name.uri == some xmlNamespace) = false := by
    simp [hxml, huri]
  have hasks : (⟨name.pre, name.uri.getD ""⟩ : Declaration) = name.asks := by
    rw [← Name.asks_uri]
    rfl
  rw [bind, hskip, if_neg Bool.false_ne_true]
  simp only [hasks, Name.asks_uri]
  rfl

theorem bind_of_xml (hxml : name.pre = some "xml") : bind outer declared name = declared := by
  simp [bind, hxml]

/-- At most what the name asks for is declared. -/
theorem mem_bind (hname : name.WellMade) {d : Declaration} (h : d ∈ bind outer declared name) :
    d ∈ declared ∨ d = name.asks := by
  by_cases hxml : name.pre = some "xml"
  · rw [bind_of_xml hxml] at h
    exact .inl h
  · rw [bind_eq hname hxml] at h
    split at h
    · simpa using h
    · exact .inl h

theorem pairwise_bind (hname : name.WellMade)
    (h : declared.Pairwise fun a b => a.pre ≠ b.pre) :
    (bind outer declared name).Pairwise fun a b => a.pre ≠ b.pre := by
  by_cases hxml : name.pre = some "xml"
  · rwa [bind_of_xml hxml]
  · rw [bind_eq hname hxml]
    split
    · next hnew =>
        obtain ⟨-, hnew⟩ := Bool.and_eq_true_iff.mp hnew
        refine List.pairwise_append.mpr ⟨h, List.pairwise_singleton _ _, fun a ha b hb => ?_⟩
        obtain rfl := List.mem_singleton.mp hb
        intro hsame
        rw [Bool.not_eq_true', List.any_eq_false] at hnew
        exact hnew a ha (beq_iff_eq.mpr hsame)
    · exact h

/-- Behind it the prefix of the name stands for what the name asks for. -/
theorem bound_bind_self (hname : name.WellMade) (hxml : name.pre ≠ some "xml")
    (hagree : ∀ d ∈ declared, d.pre = name.pre → d.uri = name.asks.uri) :
    bound (bind outer declared name ++ outer) name.pre = name.asks.uri := by
  rw [bind_eq hname hxml]
  by_cases hbound : bound (declared ++ outer) name.pre = name.asks.uri
  · simp [hbound]
  · -- a declaration of the element itself would be the one asked for
    have hnone : declared.find? (·.pre == name.pre) = none := by
      cases hfind : declared.find? (·.pre == name.pre) with
      | none => rfl
      | some d =>
          refine absurd ?_ hbound
          have hpre : d.pre = name.pre := by simpa using List.find?_some hfind
          rw [bound, List.find?_append, hfind]
          exact hagree d (List.mem_of_find?_eq_some hfind) hpre
    have hnew : declared.any (·.pre == name.pre) = false := by
      rw [List.any_eq_false]
      exact List.find?_eq_none.mp hnone
    have hself : (name.asks.pre == name.pre) = true := beq_self_eq_true name.pre
    rw [if_pos (by simpa [hnew] using hbound), bound, List.append_assoc, List.find?_append, hnone,
      List.cons_append, List.find?_cons, hself]
    rfl

/-- Any other prefix stands for what it stood for. -/
theorem bound_bind_of_ne (hname : name.WellMade) (hne : pre ≠ name.pre) :
    bound (bind outer declared name ++ outer) pre = bound (declared ++ outer) pre := by
  by_cases hxml : name.pre = some "xml"
  · rw [bind_of_xml hxml]
  · rw [bind_eq hname hxml]
    split
    · have hskip : (name.asks.pre == pre) = false := beq_eq_false_iff_ne.mpr (Ne.symm hne)
      rw [bound, bound, List.append_assoc, List.find?_append, List.find?_append,
        List.find?_append, List.find?_cons, hskip]
      rfl
    · rfl

/-! ## All declarations of an element -/

/-- The declarations that an element asks for: those it has, that of its name, and those of the names
of its attributes with a prefix. -/
def asked (name : Name) (declarations : List Declaration) (attributes : List (Name × String)) :
    List Declaration :=
  declarations ++ name.asks :: (attributes.filter (·.1.pre.isSome)).map (·.1.asks)

/-- An element whose names can be written: they are well made, an attribute without prefix has no
namespace, and nothing asks for two namespaces under one prefix. -/
structure WellNamed (name : Name) (declarations : List Declaration)
    (attributes : List (Name × String)) : Prop where
  own : name.WellMade
  others : ∀ a ∈ attributes, a.1.WellMade
  plain : ∀ a ∈ attributes, a.1.pre = none → a.1.namespace? = none
  agree : ∀ d ∈ asked name declarations attributes, ∀ e ∈ asked name declarations attributes,
    d.pre = e.pre → d.uri = e.uri

instance (name : Name) (declarations : List Declaration) (attributes : List (Name × String)) :
    Decidable (WellNamed name declarations attributes) :=
  decidable_of_iff (name.WellMade ∧ (∀ a ∈ attributes, a.1.WellMade) ∧
      (∀ a ∈ attributes, a.1.pre = none → a.1.namespace? = none) ∧
        ∀ d ∈ asked name declarations attributes, ∀ e ∈ asked name declarations attributes,
          d.pre = e.pre → d.uri = e.uri)
    ⟨fun ⟨hown, hothers, hplain, hagree⟩ => ⟨hown, hothers, hplain, hagree⟩,
      fun h => ⟨h.own, h.others, h.plain, h.agree⟩⟩

/-- With the declarations the prefixes of the names stand for what these ask for, and no prefix is
declared twice. -/
structure Covers (asked outer declared : List Declaration) (names : List Name) : Prop where
  mem : ∀ d ∈ declared, d ∈ asked
  apart : declared.Pairwise fun a b => a.pre ≠ b.pre
  asks : ∀ n ∈ names, n.asks ∈ asked
  bound : ∀ n ∈ names, n.pre ≠ some "xml" → bound (declared ++ outer) n.pre = n.asks.uri

namespace Covers

variable {asked : List Declaration} {names : List Name}

/-- One more name is covered behind the declaration that it needs. -/
theorem bind (h : Covers asked outer declared names)
    (hagree : ∀ d ∈ asked, ∀ e ∈ asked, d.pre = e.pre → d.uri = e.uri) (hname : name.WellMade)
    (hasks : name.asks ∈ asked) :
    Covers asked outer (Tree.bind outer declared name) (names ++ [name]) where
  mem := by
    intro d hd
    obtain hd | rfl := mem_bind hname hd
    · exact h.mem d hd
    · exact hasks
  apart := pairwise_bind hname h.apart
  asks := by
    intro n hn
    obtain hn | hn := List.mem_append.mp hn
    · exact h.asks n hn
    · exact List.mem_singleton.mp hn ▸ hasks
  bound := by
    intro n hn hxml
    have hself (hxml : name.pre ≠ some "xml") :
        Tree.bound (Tree.bind outer declared name ++ outer) name.pre = name.asks.uri :=
      bound_bind_self hname hxml fun d hd hpre => hagree d (h.mem d hd) name.asks hasks hpre
    obtain hn | hn := List.mem_append.mp hn
    · by_cases hpre : n.pre = name.pre
      · rw [hpre, hself (hpre ▸ hxml)]
        exact hagree name.asks hasks n.asks (h.asks n hn) hpre.symm
      · rw [bound_bind_of_ne hname hpre]
        exact h.bound n hn hxml
    · obtain rfl := List.mem_singleton.mp hn
      exact hself hxml

theorem foldl (h : Covers asked outer declared names)
    (hagree : ∀ d ∈ asked, ∀ e ∈ asked, d.pre = e.pre → d.uri = e.uri) {more : List Name}
    (hmore : ∀ n ∈ more, n.WellMade) (hasks : ∀ n ∈ more, n.pre.isSome → n.asks ∈ asked) :
    Covers asked outer
      (more.foldl (fun declared name =>
        if name.pre.isSome then Tree.bind outer declared name else declared) declared)
      (names ++ more.filter (·.pre.isSome)) := by
  induction more generalizing declared names with
  | nil => simpa using h
  | cons n more ih =>
      obtain ⟨hn, hmore⟩ := List.forall_mem_cons.mp hmore
      obtain ⟨hnasks, hasks⟩ := List.forall_mem_cons.mp hasks
      rw [List.foldl_cons]
      cases hpre : n.pre.isSome with
      | true =>
          have hfilter : (n :: more).filter (·.pre.isSome) = n :: more.filter (·.pre.isSome) := by
            simp [hpre]
          rw [if_pos rfl, hfilter, List.append_cons]
          exact ih (h.bind hagree hn (hnasks hpre)) hmore hasks
      | false =>
          have hfilter : (n :: more).filter (·.pre.isSome) = more.filter (·.pre.isSome) := by
            simp [hpre]
          rw [if_neg Bool.false_ne_true, hfilter]
          exact ih h hmore hasks

end Covers

variable {declarations : List Declaration} {attributes : List (Name × String)}

/-- An element is written with declarations for all of its names. -/
theorem covers_writtenDeclarations (h : WellNamed name declarations attributes)
    (hapart : declarations.Pairwise fun a b => a.pre ≠ b.pre) (outer : List Declaration) :
    Covers (asked name declarations attributes) outer
      (writtenDeclarations outer declarations name attributes)
      (name :: (attributes.map (·.1)).filter (·.pre.isSome)) := by
  have hstart : Covers (asked name declarations attributes) outer declarations [] :=
    ⟨fun d hd => List.mem_append_left _ hd, hapart, nofun, nofun⟩
  have hname := hstart.bind h.agree h.own (List.mem_append_right _ List.mem_cons_self)
  refine hname.foldl h.agree (fun n hn => ?_) fun n hn hpre => ?_
  · obtain ⟨a, ha, rfl⟩ := List.mem_map.mp hn
    exact h.others a ha
  · obtain ⟨a, ha, rfl⟩ := List.mem_map.mp hn
    exact List.mem_append_right _ (List.mem_cons_of_mem _
      (List.mem_map_of_mem (List.mem_filter.mpr ⟨ha, hpre⟩)))

/-! ## Resolving what is written -/

theorem filter_eq_of_getD {uri uri' : Option String} (h : uri.getD "" = uri'.getD "") :
    uri.filter (!·.isEmpty) = uri'.filter (!·.isEmpty) := by
  have hfilter (uri : Option String) :
      uri.filter (!·.isEmpty) = (some (uri.getD "")).filter (!·.isEmpty) := by
    cases uri <;> rfl
  rw [hfilter uri, hfilter uri', h]

/-- A written name is resolved to its namespace where its prefix stands for what it asks for. -/
theorem resolve_written {declared : List Declaration} {scope : Scope} {isElement : Bool}
    (hname : name.WellMade) (hscope : SameLookup declared scope)
    (hbound : name.pre.isSome ∨ isElement = true → name.pre ≠ some "xml" →
      bound declared name.pre = name.asks.uri)
    (hplain : isElement = false → name.pre = none → name.namespace? = none) :
    scope.resolve isElement name.written.toList = .ok name.settled := by
  have hlookup (hscoped : name.pre.isSome ∨ isElement = true) (hxml : name.pre ≠ some "xml") :
      (scope.lookup? name.pre).filter (!·.isEmpty) = name.namespace? := by
    refine filter_eq_of_getD ?_
    rw [← Name.asks_uri, ← hbound hscoped hxml, bound, hscope, Scope.lookup?]
    cases scope.find? (·.pre == name.pre) <;> rfl
  rw [Scope.resolve, hname.splitName_written]
  dsimp only
  split
  · next hpre =>
      have huri : name.namespace? = some xmlNamespace := by
        rw [Name.namespace?, hname.xml.mp hpre]
        rfl
      rw [Name.settled, huri]
      rfl
  · next pre hxml hpre =>
      have hprefixed : name.pre.isSome := by rw [hpre]; rfl
      have hfound := hlookup (.inl hprefixed) fun h => hxml (Option.some.inj (hpre.symm.trans h))
      have hsome := hname.prefixed hprefixed
      rw [Name.settled, ← hfound]
      rw [← hfound] at hsome
      cases huri : scope.lookup? name.pre with
      | none =>
          rw [huri] at hsome
          cases hsome
      | some uri => rfl
  · next hpre =>
      rw [Name.settled]
      cases isElement with
      | true => rw [← hlookup (.inr rfl) (by simp [hpre]), hpre]; rfl
      | false => rw [hplain rfl hpre]; rfl

/-! ## Reading tags back -/

/-- The declarations among the pairs that an element is written with. -/
def declaredIn (declarations : List Declaration) (attributes : List (Name × String)) :
    List Declaration :=
  declarationsOf ((pairs declarations attributes).map fun p => (p.1.toList, p.2))

/-- The tag of an element declares no prefix twice, and with what it declares its names stand for
their own namespaces. -/
structure FaithfulTag (scope : Scope) (declared : List Declaration) (name : Name)
    (attributes : List (Name × String)) : Prop where
  apart : declared.Pairwise fun a b => a.pre ≠ b.pre
  own : Scope.resolve (declared.reverse ++ scope) true name.written.toList = .ok name.settled
  others : ∀ a ∈ attributes,
    Scope.resolve (declared.reverse ++ scope) false a.1.written.toList = .ok a.1.settled

mutual

/-- Each tag that the tree is written with is faithful, with the declarations that the tags around
it are read with. -/
def Faithful (scope : Scope) : Tree → Prop
  | .element name declarations attributes children =>
    FaithfulTag scope (declaredIn declarations attributes) name attributes ∧
      FaithfulAll ((declaredIn declarations attributes).reverse ++ scope) children
  | _ => True

def FaithfulAll (scope : Scope) : List Tree → Prop
  | [] => True
  | tree :: rest => Faithful scope tree ∧ FaithfulAll scope rest

end

/-- A name that is neither `xmlns` nor has this prefix does not look like a declaration. -/
theorem declaration?_written (hname : name.WellMade) (hpre : name.pre ≠ some "xmlns")
    (hplain : name.pre = none → name.localPart ≠ "xmlns") (value : String) :
    declaration? name.written.toList value = none := by
  cases hfound : declaration? name.written.toList value with
  | none => rfl
  | some d =>
      exfalso
      obtain ⟨hkey, -⟩ := declarationKey_of_declaration? hfound
      rw [toList_declarationKey] at hkey
      have hsplit := hname.splitName_written
      rw [← hkey] at hsplit
      cases hd : d.pre with
      | none =>
          rw [hd] at hsplit
          have hplainKey : Scope.splitName "xmlns".toList = (none, "xmlns") := by decide
          obtain ⟨hnone, hlocal⟩ := Prod.mk.inj (hsplit.symm.trans hplainKey)
          exact hplain hnone hlocal
      | some pre =>
          rw [hd] at hsplit
          have hstart : (Scope.splitName ("xmlns:".toList ++ pre.toList)).1 = some "xmlns" := rfl
          rw [hsplit] at hstart
          exact hpre hstart

/-- An element that is written so that it can be read back: its names can be written, no prefix is
declared twice, and no attribute looks like a declaration. -/
structure Declarable (name : Name) (declarations : List Declaration)
    (attributes : List (Name × String)) : Prop extends
    WellNamed name declarations attributes where
  apart : declarations.Pairwise fun a b => a.pre ≠ b.pre
  noDeclaration : ∀ a ∈ attributes, ∀ value, declaration? a.1.written.toList value = none

/-- All elements in the trees can be read back. -/
def DeclarableAll (trees : List Tree) : Prop :=
  AllElements (fun tree => ∀ name declarations attributes children,
    tree = .element name declarations attributes children →
      Declarable name declarations attributes) trees

theorem Declarable.faithfulTag (h : Declarable name declarations attributes) {scope : Scope}
    (hscope : SameLookup outer scope) :
    FaithfulTag scope (writtenDeclarations outer declarations name attributes) name attributes := by
  have hcovers := covers_writtenDeclarations h.toWellNamed h.apart outer
  have hinner := hscope.declared hcovers.apart
  refine ⟨hcovers.apart, ?_, fun a ha => ?_⟩
  · refine resolve_written h.own hinner (fun _ hxml => ?_) nofun
    exact hcovers.bound name List.mem_cons_self hxml
  · refine resolve_written (h.others a ha) hinner (fun hpre hxml => ?_) fun _ => h.plain a ha
    have hprefixed : a.1.pre.isSome = true := hpre.resolve_right Bool.false_ne_true
    refine hcovers.bound a.1 (List.mem_cons_of_mem _ ?_) hxml
    exact List.mem_filter.mpr ⟨List.mem_map_of_mem ha, hprefixed⟩

mutual

theorem faithful_explicit :
    (tree : Tree) → {outer : List Declaration} → {scope : Scope} → SameLookup outer scope →
      DeclarableAll [tree] → Faithful scope (explicit outer tree)
  | .element name declarations attributes children, outer, scope, hscope, h => by
      obtain ⟨hself, hchildren⟩ := allElements_element.mp h
      have htag := hself name declarations attributes children rfl
      have hfaithful := htag.faithfulTag hscope
      have hdeclared : declaredIn (writtenDeclarations outer declarations name attributes)
          attributes = writtenDeclarations outer declarations name attributes :=
        declarationsOf_pairs htag.noDeclaration
      rw [explicit, Faithful, hdeclared]
      exact ⟨hfaithful, faithfulAll_explicitAll children (hscope.declared hfaithful.apart) hchildren⟩
  | .text _, _, _, _, _ => trivial
  | .comment _, _, _, _, _ => trivial

/-- What is written of trees whose elements can be read back is faithful. -/
theorem faithfulAll_explicitAll :
    (trees : List Tree) → {outer : List Declaration} → {scope : Scope} → SameLookup outer scope →
      DeclarableAll trees → FaithfulAll scope (explicitAll outer trees)
  | [], _, _, _, _ => trivial
  | tree :: rest, _, _, hscope, h => by
      obtain ⟨htree, hrest⟩ := allElements_cons.mp h
      exact ⟨faithful_explicit tree hscope htree, faithfulAll_explicitAll rest hscope hrest⟩

end

end Tree

namespace Document

open Xml.Tree

variable {doc : Document}

theorem exists_attribute_of_attributeValues {id : NodeId} {a : Name × String}
    (ha : a ∈ doc.attributeValues id) : ∃ id, doc.kind id = .attribute a.1 a.2 := by
  obtain ⟨id, -, hvalue⟩ := List.mem_filterMap.mp ha
  split at hvalue
  · next hkind =>
      cases hvalue
      exact ⟨id, hkind⟩
  · cases hvalue

theorem declarableAll_treeWithin (h : ∀ id name declarations,
      doc.kind id = .element name declarations →
        Declarable name declarations (doc.attributeValues id)) (depth : Nat) :
    ∀ {id : NodeId} {tree : Tree}, doc.treeWithin depth id = some tree → DeclarableAll [tree] := by
  induction depth with
  | zero => nofun
  | succ depth ih =>
      intro id tree htree
      rw [treeWithin] at htree
      split at htree
      · next name declarations hkind =>
          cases htree
          refine allElements_element.mpr ⟨?_, allElements_of_forall_mem fun child hchild => ?_⟩
          · rintro _ _ _ _ ⟨⟩
            exact h id name declarations hkind
          · obtain ⟨below, -, hbelow⟩ := List.mem_filterMap.mp hchild
            exact ih hbelow
      · cases htree
        exact allElements_of_name?_eq_none rfl
      · cases htree
        exact allElements_of_name?_eq_none rfl
      · cases htree
      · cases htree

/-- A document that is built by hand, whose names can be written and none of whose attributes looks
like a declaration, is written as tags in which each name is read with its own namespace, and no tag
declares a prefix twice. The declarations that a name is read with are those written on its element
and on the elements around it. -/
theorem faithful_toXml (hdoc : Reachable doc)
    (hnamed : ∀ id name declarations, doc.kind id = .element name declarations →
      WellNamed name declarations (doc.attributeValues id))
    (hattribute : ∀ id name value, doc.kind id = .attribute name value →
      name.pre ≠ some "xmlns" ∧ (name.pre = none → name.localPart ≠ "xmlns")) :
    doc.toXml.toList = (unitsAll (explicitAll [] doc.forest)).flatMap Markup.chars ∧
      FaithfulAll [] (explicitAll [] doc.forest) := by
  have hdeclarable : ∀ id name declarations, doc.kind id = .element name declarations →
      Declarable name declarations (doc.attributeValues id) := by
    intro id name declarations hkind
    refine ⟨hnamed id name declarations hkind, ?_, fun a ha value => ?_⟩
    · have hproper := hdoc.built.consistent.declarations id
      rwa [Document.declarations, hkind] at hproper
    · obtain ⟨own, hown⟩ := exists_attribute_of_attributeValues ha
      obtain ⟨hpre, hplain⟩ := hattribute own a.1 a.2 hown
      exact declaration?_written ((hnamed id name declarations hkind).others a ha) hpre hplain value
  refine ⟨?_, faithfulAll_explicitAll doc.forest (SameLookup.refl []) ?_⟩
  · rw [toXml, toList_writeAll, String.toList_empty, List.nil_append]
  · refine allElements_of_forall_mem fun tree htree => ?_
    obtain ⟨id, -, hid⟩ := List.mem_filterMap.mp htree
    exact declarableAll_treeWithin hdeclarable doc.size hid

/-- An element in a default namespace, and in it one without a namespace, where the prefix is bound
again. -/
def reboundPrefix : Document :=
  let doc := (empty.appendElement 0 (.qualified "p" "r" "urn:1")).2
  let doc := doc.declare 1 ⟨none, "urn:d"⟩
  let doc := (doc.appendElement 1 (.plain "c")).2
  (doc.setAttribute 2 (.qualified "p" "k" "urn:2") "v").2

/-- The default namespace is taken away, and the prefix gets its other namespace. -/
theorem faithful_toXml_reboundPrefix :
    reboundPrefix.toXml =
        "<p:r xmlns=\"urn:d\" xmlns:p=\"urn:1\"><c xmlns=\"\" xmlns:p=\"urn:2\" p:k=\"v\"/></p:r>" ∧
      reboundPrefix.toXml.toList =
          (unitsAll (explicitAll [] reboundPrefix.forest)).flatMap Markup.chars ∧
        FaithfulAll [] (explicitAll [] reboundPrefix.forest) := by
  have hdoc : Reachable reboundPrefix :=
    (((Reachable.empty.appendElement 0 (.qualified "p" "r" "urn:1") (by decide)).declare 1
      ⟨none, "urn:d"⟩ (by decide)).appendElement 1 (.plain "c") (by decide)).setAttribute 2
        (.qualified "p" "k" "urn:2") "v" (by decide)
  refine ⟨by decide, faithful_toXml hdoc (fun id name declarations hkind => ?_)
    fun id name value hkind => ?_⟩
  · have hid : id < 4 := lt_size_of_kind hkind nofun
    match id, hid with
    | 0, _ => cases hkind
    | 1, _ => cases hkind; decide
    | 2, _ => cases hkind; decide
    | 3, _ => cases hkind
  · have hid : id < 4 := lt_size_of_kind hkind nofun
    match id, hid with
    | 0, _ => cases hkind
    | 1, _ => cases hkind
    | 2, _ => cases hkind
    | 3, _ => cases hkind; decide

/-- An element without a namespace, with an attribute that looks like a declaration. -/
def attributeNamedXmlns : Document :=
  ((empty.appendElement 0 (.plain "a")).2.setAttribute 1 (.plain "xmlns") "urn:x").2

/-- Read with what its tag declares, the element has the namespace that the attribute names. -/
theorem not_faithful_attributeNamedXmlns :
    Reachable attributeNamedXmlns ∧
      (∀ id name declarations, attributeNamedXmlns.kind id = .element name declarations →
        WellNamed name declarations (attributeNamedXmlns.attributeValues id)) ∧
      attributeNamedXmlns.kind 1 = .element (.plain "a") [] ∧
      attributeNamedXmlns.toXml = "<a xmlns=\"urn:x\"/>" ∧
      Scope.resolve (declarationsOf [("xmlns".toList, "urn:x")]) true "a".toList =
        .ok ⟨none, "a", some "urn:x"⟩ ∧
      ¬FaithfulAll [] (explicitAll [] attributeNamedXmlns.forest) := by
  refine ⟨(Reachable.empty.appendElement 0 (.plain "a") (by decide)).setAttribute 1
    (.plain "xmlns") "urn:x" (by decide), fun id name declarations hkind => ?_, rfl, by decide, rfl,
    fun h => ?_⟩
  · have hid : id < 3 := lt_size_of_kind hkind nofun
    match id, hid with
    | 0, _ => cases hkind
    | 1, _ => cases hkind; decide
    | 2, _ => cases hkind
  · exact nomatch h.1.1.own

end Document

end Schematron.Xml
