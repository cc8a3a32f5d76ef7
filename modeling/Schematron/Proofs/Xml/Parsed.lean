import Schematron.Proofs.Xml.Cutting
import Schematron.Proofs.Xml.Opening
import Schematron.Proofs.Xml.Readback

/-!
# Documents that were read

A document that was read is the trees of its document node, grafted onto the empty document
(`Document.exists_trees_of_parse`). These trees are readable: their names resolve in the scope they
stand in, no two texts stand side by side, and no comment could have ended earlier.

While a document is read, some elements are open. What is complete of it are the trees before the
place that is reached: those below the document node, and for each open element those below it
(`Growth.Stage`).
-/

namespace Schematron.Xml

namespace Tree

/-! ## Readable trees -/

mutual

/-- A reader could have found the tree in a scope. -/
def Readable (scope : Scope) : Tree → Prop
  | .element name declarations attributes children =>
    Tag scope name declarations attributes ∧ TextsApart children ∧
      ReadableAll (declarations.reverse ++ scope) children
  | .text value => value.isEmpty = false
  | .comment value => Markup.Uncut value.toList

def ReadableAll (scope : Scope) : List Tree → Prop
  | [] => True
  | tree :: rest => Readable scope tree ∧ ReadableAll scope rest

end

variable {scope : Scope}

theorem readableAll_append {xs ys : List Tree} :
    ReadableAll scope (xs ++ ys) ↔ ReadableAll scope xs ∧ ReadableAll scope ys := by
  induction xs with
  | nil => simp [ReadableAll]
  | cons x xs ih => simp only [List.cons_append, ReadableAll, ih, and_assoc]

theorem readableAll_singleton {tree : Tree} :
    ReadableAll scope [tree] ↔ Readable scope tree := by
  simp [ReadableAll]

mutual

theorem Readable.proper : (tree : Tree) → {scope : Scope} → Readable scope tree → Proper tree
  | .element _ _ _ children, _, h =>
      ⟨h.1.declared, h.1.apart, h.2.1, ReadableAll.proper children h.2.2⟩
  | .text _, _, _ => trivial
  | .comment _, _, _ => trivial

theorem ReadableAll.proper :
    (trees : List Tree) → {scope : Scope} → ReadableAll scope trees → ProperAll trees
  | [], _, _ => trivial
  | tree :: rest, _, h => ⟨Readable.proper tree h.1, ReadableAll.proper rest h.2⟩

end

mutual

/-- Readable trees have no empty texts. -/
theorem Readable.solid : (tree : Tree) → {scope : Scope} → Readable scope tree → Solid tree
  | .element _ _ _ children, _, h => ReadableAll.solid children h.2.2
  | .text _, _, h => h
  | .comment _, _, _ => trivial

theorem ReadableAll.solid :
    (trees : List Tree) → {scope : Scope} → ReadableAll scope trees → SolidAll trees
  | [], _, _ => trivial
  | tree :: rest, _, h => ⟨Readable.solid tree h.1, ReadableAll.solid rest h.2⟩

end

/-! ## Trees one after the other -/

theorem textsApart_concat {trees : List Tree} {tree : Tree} (h : TextsApart trees)
    (htext : tree.isText = false) : TextsApart (trees ++ [tree]) := by
  refine List.isChain_append.mpr ⟨h, List.isChain_singleton _, fun a _ b hb => ?_⟩
  cases hb
  simp [htext]

/-- The trees below a document node, to which each one is added at the end. With the document
element among them they are rooted. -/
inductive TopLevel : Bool → List Tree → Prop
  | nil : TopLevel false []
  | comment {rooted : Bool} {trees : List Tree} (value : String) (h : TopLevel rooted trees) :
      TopLevel rooted (trees ++ [.comment value])
  | element {trees : List Tree} (name : Name) (declarations : List Declaration)
      (attributes : List (Name × String)) (children : List Tree) (h : TopLevel false trees) :
      TopLevel true (trees ++ [.element name declarations attributes children])

theorem TopLevel.textsApart {rooted : Bool} {trees : List Tree} (h : TopLevel rooted trees) :
    TextsApart trees := by
  induction h with
  | nil => exact .nil
  | comment value _ ih => exact textsApart_concat ih rfl
  | element name declarations attributes children _ ih => exact textsApart_concat ih rfl

theorem TopLevel.isText_eq_false {rooted : Bool} {trees : List Tree} (h : TopLevel rooted trees) :
    ∀ tree ∈ trees, tree.isText = false := by
  induction h with
  | nil => simp
  | comment value _ ih => simpa [or_imp, forall_and, isText] using ih
  | element name declarations attributes children _ ih =>
      simpa [or_imp, forall_and, isText] using ih

/-- More text at the end of readable trees. -/
theorem extendWith_readable {trees : List Tree} (hreadable : ReadableAll scope trees)
    (hapart : TextsApart trees) (more : String) :
    ReadableAll scope (extendWith trees more) ∧ TextsApart (extendWith trees more) := by
  rw [extendWith]
  split
  · exact ⟨hreadable, hapart⟩
  · next hmore =>
      have hmore : more.isEmpty = false := by simpa using hmore
      split
      · next value hlast =>
          obtain ⟨init, rfl⟩ := List.getLast?_eq_some_iff.mp hlast
          rw [List.dropLast_concat]
          obtain ⟨hinit, -⟩ := readableAll_append.mp hreadable
          refine ⟨readableAll_append.mpr ⟨hinit, readableAll_singleton.mpr ?_⟩, ?_⟩
          · show (value ++ more).isEmpty = false
            simp_all
          · -- the longer text has the neighbour of the one it takes the place of
            rw [TextsApart, List.isChain_append] at hapart ⊢
            refine ⟨hapart.1, List.isChain_singleton _, fun a ha b hb => ?_⟩
            cases hb
            exact hapart.2.2 a ha (.text value) rfl
      · next hother =>
          refine ⟨readableAll_append.mpr ⟨hreadable, readableAll_singleton.mpr hmore⟩, ?_⟩
          refine List.isChain_append.mpr ⟨hapart, List.isChain_singleton _, fun a ha b _ => ?_⟩
          cases a with
          | text value => exact absurd ha (hother value)
          | _ => simp [isText]

end Tree

/-! ## While a document is read -/

namespace Growth

open Document Xml.Tree

/-- A place that reading a document can come to, and the trees that are complete below the
innermost open element, or the document node. -/
inductive Stage : Growth → List Tree → Prop
  | top {rooted : Bool} {done : List Tree} (htop : TopLevel rooted done)
      (hdone : ReadableAll [] done) :
      Stage ⟨Document.empty.graftAll rootNode done, [], rooted⟩ done
  | inside {g : Growth} {before done : List Tree} {name : Name} {declarations : List Declaration}
      {attributes : List (Name × String)} (outer : Stage g before)
      (hroot : g.opened = [] → g.rooted = false)
      (htag : Tag g.scope name declarations attributes)
      (hdone : ReadableAll (declarations.reverse ++ g.scope) done) (hapart : TextsApart done) :
      Stage
        { doc := (g.doc.opened g.target name declarations attributes).graftAll g.doc.size done
          opened := ⟨g.doc.size, name.written.toList, declarations.reverse ++ g.scope⟩ :: g.opened
          rooted := true } done

variable {g g' : Growth} {done : List Tree}

namespace Stage

theorem readable (h : Stage g done) : ReadableAll g.scope done := by
  cases h with
  | top htop hdone => exact hdone
  | inside outer hroot htag hdone hapart => exact hdone

theorem textsApart (h : Stage g done) : TextsApart done := by
  cases h with
  | top htop hdone => exact htop.textsApart
  | inside outer hroot htag hdone hapart => exact hapart

theorem topLevel (h : Stage g done) (hopened : g.opened = []) : TopLevel g.rooted done := by
  cases h with
  | top htop hdone => exact htop
  | inside outer hroot htag hdone hapart => cases hopened

theorem target_lt (h : Stage g done) : g.target < g.doc.size := by
  cases h with
  | top htop hdone => exact Nat.lt_of_lt_of_le Nat.one_pos (size_le_graftAll .empty rootNode done)
  | inside outer hroot htag hdone hapart =>
      exact Nat.lt_of_lt_of_le (size_lt_opened _ _ _ _ _) (size_le_graftAll _ _ done)

/-- One more tree is complete; below the document node it has to be one that may stand there. -/
theorem child (h : Stage g done) {tree : Tree} {rooted : Bool} (hreadable : Readable g.scope tree)
    (hapart : TextsApart (done ++ [tree]))
    (htop : g.opened = [] → TopLevel rooted (done ++ [tree]))
    (hinside : g.opened ≠ [] → rooted = true) :
    Stage { g with doc := (g.doc.graft g.target tree).2, rooted := rooted } (done ++ [tree]) := by
  have hall : ReadableAll g.scope (done ++ [tree]) :=
    readableAll_append.mpr ⟨h.readable, readableAll_singleton.mpr hreadable⟩
  cases h with
  | top _ _ =>
      have hstage := Stage.top (htop rfl) hall
      rwa [graftAll_concat] at hstage
  | inside outer hroot htag hdone _ =>
      obtain rfl := hinside (List.cons_ne_nil _ _)
      have hstage := Stage.inside outer hroot htag hall hapart
      rwa [graftAll_concat] at hstage

theorem rooted (h : Stage g done) (hopened : g.opened ≠ []) : g.rooted = true := by
  cases h with
  | top _ _ => exact absurd rfl hopened
  | inside _ _ _ _ _ => rfl

theorem comment (h : Stage g done) {value : String} (huncut : Markup.Uncut value.toList) :
    Stage { g with doc := (g.doc.appendComment g.target value).2 } (done ++ [.comment value]) := by
  have hreadable : Readable g.scope (.comment value) := huncut
  exact h.child hreadable (textsApart_concat h.textsApart rfl)
    (fun hopened => .comment value (h.topLevel hopened)) h.rooted

theorem text (h : Stage g done) (hopened : g.opened ≠ []) (text : String) :
    Stage { g with doc := (g.doc.appendText g.target text).2 } (extendWith done text) := by
  cases h with
  | top _ _ => exact absurd rfl hopened
  | @inside g before _ name declarations attributes outer hroot htag hdone hapart =>
      obtain ⟨hall, hapart⟩ := extendWith_readable hdone hapart text
      have hstage := Stage.inside outer hroot htag hall hapart
      rwa [graftAll_extendWith (size_lt_opened _ _ _ _ _)] at hstage

theorem openElement (h : Stage g done) {position : Nat} {content : List Char}
    (hopen : g.openElement position content = .ok g') : Stage g' [] := by
  obtain ⟨hroot, pairs, hpairs, name, hname, attributes, hattributes, rfl⟩ :=
    openElement_eq_ok.mp hopen
  have hkeys := Pairs.of_tagAttributes hpairs
  have htag := Tag.of_pairs hkeys hname hattributes
  have hstage : Stage _ [] := Stage.inside h hroot htag trivial .nil
  rw [opened_putAttributes h.target_lt name attributes htag.declared,
    ← Scope.written_of_resolve hname]
  exact hstage

/-- The innermost element is complete when it is closed. -/
theorem closeElement (h : Stage g done) (hopened : g.opened ≠ []) :
    ∃ before, Stage g.closeElement before := by
  cases h with
  | top _ _ => exact absurd rfl hopened
  | @inside g before _ name declarations attributes outer hroot htag hdone hapart =>
      have hreadable : Readable g.scope (.element name declarations attributes done) :=
        ⟨htag, hapart, hdone⟩
      have hstage := outer.child hreadable (textsApart_concat outer.textsApart rfl)
        (fun hnone => .element _ _ _ _ (hroot hnone ▸ outer.topLevel hnone)) fun _ => rfl
      exact ⟨_, hstage⟩

theorem addText (h : Stage g done) {position : Nat} {text : String}
    (hadd : g.addText position text = .ok g') : ∃ done', Stage g' done' := by
  rw [Growth.addText] at hadd
  split at hadd
  · next innermost rest hopened =>
      cases hadd
      have htarget : g.target = innermost.node := by rw [target, hopened]
      exact ⟨_, htarget ▸ h.text (by simp [hopened]) text⟩
  · split at hadd
    · cases hadd
      exact ⟨done, h⟩
    · cases hadd

theorem endElement (h : Stage g done) {position : Nat} {name : List Char}
    (hend : g.endElement position name = .ok g') : ∃ done', Stage g' done' := by
  rw [Growth.endElement] at hend
  split at hend
  · cases hend
  · next innermost rest hopened =>
      split at hend
      · cases hend
        exact h.closeElement (by simp [hopened])
      · cases hend

/-- A unit of markup leads from one place to another. -/
theorem add (h : Stage g done) {located : Markup.Located}
    (huncut : ∀ content, located.unit = .comment content → Markup.Uncut content)
    (hadd : g.add located = .ok g') : ∃ done', Stage g' done' := by
  rw [Growth.add] at hadd
  split at hadd
  · split at hadd
    · exact h.addText hadd
    · cases hadd
  · exact h.addText hadd
  · next content hunit =>
      cases hadd
      exact ⟨_, h.comment (by rw [String.toList_ofList]; exact huncut content hunit)⟩
  · exact ⟨[], h.openElement hadd⟩
  · obtain ⟨opened, hopen, rfl⟩ := map_eq_ok.mp hadd
    refine (h.openElement hopen).closeElement ?_
    obtain ⟨-, _, -, _, -, _, -, rfl⟩ := openElement_eq_ok.mp hopen
    exact List.cons_ne_nil _ _
  · exact h.endElement hadd

theorem foldlM {units : List Markup.Located} (h : Stage g done)
    (huncut : ∀ u ∈ units, ∀ content, u.unit = .comment content → Markup.Uncut content)
    (hunits : units.foldlM Growth.add g = .ok g') : ∃ done', Stage g' done' := by
  refine foldlM_induction (P := fun g => ∃ done, Stage g done) ?_ ⟨done, h⟩ hunits
  rintro g u hu g' ⟨done, hstage⟩ hadd
  exact hstage.add (huncut u hu) hadd

end Stage

end Growth

namespace Document

open Xml.Tree

/-- A document that was read is its trees, grafted onto the empty document. -/
theorem exists_trees_of_parse {text : String} {doc : Document} (h : parse text = .ok doc) :
    ∃ trees, doc = Document.empty.graftAll rootNode trees ∧ TopLevel true trees ∧
      ReadableAll [] trees := by
  obtain ⟨g, hg, hopened, hrooted, rfl⟩ := exists_growth_of_parse h
  have hempty : Growth.Stage {} [] := .top .nil trivial
  obtain ⟨done, hstage⟩ := hempty.foldlM (fun u hu content => Markup.uncut_of_units hu) hg
  have htop := hstage.topLevel hopened
  have hreadable := hstage.readable
  cases hstage with
  | top _ _ => exact ⟨done, rfl, hrooted ▸ htop, hreadable⟩
  | inside _ _ _ _ _ => cases hopened

end Document

end Schematron.Xml
