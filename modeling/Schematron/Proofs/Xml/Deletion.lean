import Schematron.Proofs.Xml.Continuing
import Schematron.Proofs.Xml.Opening
import Schematron.Proofs.Xml.Sites

/-!
# Deleting comments

A text that can be read can be read without one of its comments, and the documents differ in
comments (`Document.read_of_dropsComment`). So can the bytes of a text, byte order marks included,
without any choice of comments (`Document.parseBytes_of_deletesComments`).

Two growths stand beside each other if the same elements are open in them and what is complete
differs in comments (`Growth.Beside`). Each unit that the first one takes the second one takes as
well, wherever it stands, and they still stand beside each other.
-/

namespace Schematron.Xml

namespace Tree

/-! ## Text at the end of trees -/

theorem sameButComments_extendWith (trees : List Tree) (more : String) :
    SameButComments (extendWith trees more) (trees ++ settleText more []) := by
  rw [extendWith, settleText]
  split
  · rw [List.append_nil]
    exact .refl trees
  · split
    · next value hlast =>
        obtain ⟨init, rfl⟩ := List.getLast?_eq_some_iff.mp hlast
        rw [List.dropLast_concat, List.append_assoc]
        exact (SameButComments.refl init).append (SameButComments.texts value more).symm
    · exact .refl _

/-- Two texts with a comment between them are one text. -/
theorem sameButComments_texts (value comment more : String) :
    SameButComments (settleText value [] ++ [.comment comment] ++ settleText more [])
      (settleText (value ++ more) []) := by
  have hcomment : SameButComments (settleText value [] ++ [.comment comment] ++ settleText more [])
      (settleText value [] ++ settleText more []) := by
    have hnone := (SameButComments.refl (settleText value [])).append
      ((SameButComments.comment comment).append (.refl (settleText more [])))
    rwa [← List.append_assoc, List.nil_append] at hnone
  refine hcomment.trans ?_
  rw [← settleText_settleText]
  cases hvalue : value.isEmpty with
  | true =>
      simp only [settleText, hvalue, if_true, List.nil_append]
      exact .refl _
  | false =>
      cases hmore : more.isEmpty with
      | true =>
          simp only [settleText, hmore, if_true, List.append_nil]
          exact .refl _
      | false =>
          simp only [settleText, hvalue, hmore, Bool.false_eq_true, if_false]
          exact .texts value more

end Tree

namespace Growth

open Document Xml.Tree Markup

variable {g g' k start start' : Growth} {done done' : List Tree}

/-! ## Places -/

/-- The growth with trees at the end of its innermost open element. -/
def filled (g : Growth) (trees : List Tree) : Growth :=
  { g with doc := g.doc.graftAll g.target trees }

/-- The growth with one more element, which is open. -/
def opens (g : Growth) (raw : List Char) (scope : Scope) (name : Name)
    (declarations : List Declaration) (attributes : List (Name × String)) : Growth where
  doc := g.doc.opened g.target name declarations attributes
  opened := ⟨g.doc.size, raw, scope⟩ :: g.opened
  rooted := true

/-- The same elements are open, and what stands before their start tags differs in comments. In the
innermost one there is nothing yet. -/
inductive Fresh : Growth → Growth → Prop
  | top (rooted : Bool) : Fresh ⟨.empty, [], rooted⟩ ⟨.empty, [], rooted⟩
  | inside {g g' : Growth} {done done' : List Tree} (outer : Fresh g g')
      (hdone : SameButComments done done') (raw : List Char) (scope : Scope) (name : Name)
      (declarations : List Declaration) (attributes : List (Name × String)) :
      Fresh ((g.filled done).opens raw scope name declarations attributes)
        ((g'.filled done').opens raw scope name declarations attributes)

/-- The same elements are open, and what is complete differs in comments. -/
inductive Beside : Growth → Growth → Prop
  | filled {start start' : Growth} {done done' : List Tree} (hstart : Fresh start start')
      (hdone : SameButComments done done') : Beside (start.filled done) (start'.filled done')

namespace Fresh

theorem target_lt (h : Fresh start start') :
    start.target < start.doc.size ∧ start'.target < start'.doc.size := by
  cases h with
  | top rooted => exact ⟨Nat.one_pos, Nat.one_pos⟩
  | inside outer hdone raw scope name declarations attributes =>
      exact ⟨size_lt_opened _ _ _ _ _, size_lt_opened _ _ _ _ _⟩

theorem opened_eq_nil (h : Fresh start start') : start.opened = [] ↔ start'.opened = [] := by
  cases h with
  | top rooted => exact Iff.rfl
  | inside outer hdone raw scope name declarations attributes => exact iff_of_false nofun nofun

theorem scope_eq (h : Fresh start start') : start.scope = start'.scope := by
  cases h <;> rfl

theorem rooted_eq (h : Fresh start start') : start.rooted = start'.rooted := by
  cases h <;> rfl

theorem rooted (h : Fresh start start') :
    Fresh { start with rooted := true } { start' with rooted := true } := by
  cases h with
  | top rooted => exact .top true
  | inside outer hdone raw scope name declarations attributes =>
      exact .inside outer hdone raw scope name declarations attributes

theorem beside (h : Fresh start start') : Beside start start' := .filled h (.refl [])

end Fresh

/-! ## Text -/

/-- What a text becomes that stands at a place: outside of all elements nothing. -/
def textAt (g : Growth) (text : String) : List Tree :=
  if g.opened.isEmpty then [] else settleText text []

theorem append_textAt_nil (g : Growth) (trees : List Tree) :
    trees ++ g.textAt (String.ofList []) = trees := by
  rw [textAt, show settleText (String.ofList []) [] = [] from rfl, ite_self, List.append_nil]

theorem Fresh.textAt_eq (h : Fresh start start') (text : String) :
    start.textAt text = start'.textAt text := by
  cases h <;> rfl

theorem sameButComments_textAt (g : Growth) (value comment more : String) :
    SameButComments (g.textAt value ++ [.comment comment] ++ g.textAt more)
      (g.textAt (value ++ more)) := by
  rw [textAt, textAt, textAt]
  split
  · exact .comment comment
  · exact sameButComments_texts value comment more

/-- Text can be added to an element, and blank text everywhere. -/
theorem exists_addText (hlt : start.target < start.doc.size) (done : List Tree) (text : String) :
    ∃ more, SameButComments more (done ++ start.textAt text) ∧
      ∀ position k, (start.filled done).addText position text = .ok k ↔
        (start.opened = [] → Text.allBlank text = true) ∧ start.filled more = k := by
  obtain ⟨doc, opened, rooted⟩ := start
  cases opened with
  | nil =>
      refine ⟨done, ?_, fun position k => ?_⟩
      · show SameButComments done (done ++ [])
        rw [List.append_nil]
        exact .refl done
      · rw [addText]
        cases Text.allBlank text <;> simp [filled]
  | cons innermost outer =>
      refine ⟨extendWith done text, sameButComments_extendWith done text, fun position k => ?_⟩
      have hextend := graftAll_extendWith hlt done text
      simp only [addText, filled, target, Except.ok.injEq, reduceCtorEq, false_implies, true_and]
      exact Eq.congr_left (congrArg (fun doc => (⟨doc, innermost :: outer, rooted⟩ : Growth))
        hextend.symm)

/-- A run of text that was read. -/
theorem textAt_of_foldlM (hlt : start.target < start.doc.size) {us : List Located}
    {raw : List Char} (hus : us.map (·.unit) = textUnits raw)
    (h : us.foldlM add (start.filled done) = .ok k) :
    ∃ text more, Reference.unescape raw = .ok text ∧
      (start.opened = [] → Text.allBlank (String.ofList text) = true) ∧
      SameButComments more (done ++ start.textAt (String.ofList text)) ∧ k = start.filled more := by
  rw [textUnits] at hus
  split at hus
  · next hraw =>
      obtain rfl := List.isEmpty_iff.mp hraw
      obtain rfl := List.map_eq_nil_iff.mp hus
      cases h
      refine ⟨[], done, rfl, fun _ => rfl, ?_, rfl⟩
      rw [append_textAt_nil]
      exact .refl done
  · obtain ⟨⟨position, unit⟩, rfl, rfl⟩ := List.map_eq_singleton_iff.mp hus
    obtain ⟨mid, hadd, hend⟩ := bind_eq_ok.mp h
    cases hend
    rw [add] at hadd
    dsimp only at hadd
    split at hadd
    · next text htext =>
        obtain ⟨more, hmore, hiff⟩ := exists_addText hlt done (String.ofList text)
        obtain ⟨hblank, rfl⟩ := (hiff _ _).mp hadd
        exact ⟨text, more, htext, hblank, hmore, rfl⟩
    · cases hadd

/-- A run of text that can be read. -/
theorem foldlM_of_textAt (hlt : start.target < start.doc.size) {us : List Located}
    {raw text : List Char} (hus : us.map (·.unit) = textUnits raw)
    (htext : Reference.unescape raw = .ok text)
    (hblank : start.opened = [] → Text.allBlank (String.ofList text) = true) :
    ∃ more, us.foldlM add (start.filled done) = .ok (start.filled more) ∧
      SameButComments more (done ++ start.textAt (String.ofList text)) := by
  rw [textUnits] at hus
  split at hus
  · next hraw =>
      obtain rfl := List.isEmpty_iff.mp hraw
      obtain rfl := List.map_eq_nil_iff.mp hus
      cases htext
      refine ⟨done, rfl, ?_⟩
      rw [List.reverse_nil, append_textAt_nil]
      exact .refl done
  · obtain ⟨⟨position, unit⟩, rfl, rfl⟩ := List.map_eq_singleton_iff.mp hus
    obtain ⟨more, hmore, hiff⟩ := exists_addText hlt done (String.ofList text)
    refine ⟨more, bind_eq_ok.mpr ⟨_, ?_, rfl⟩, hmore⟩
    rw [add]
    dsimp only
    rw [htext]
    exact (hiff _ _).mpr ⟨hblank, rfl⟩

theorem add_comment (position : Nat) (content : List Char) :
    (start.filled done).add ⟨position, .comment content⟩ =
      .ok (start.filled (done ++ [.comment (String.ofList content)])) := by
  rw [filled, filled, graftAll_concat]
  rfl

/-- A comment between two runs of text. Where they are read, the run that they are without it can
be read. -/
theorem Beside.withoutComment (h : Beside g g') {us us' : List Located}
    {earlier later content : List Char}
    (hus : us.map (·.unit) = textUnits earlier ++ [.comment content] ++ textUnits later)
    (hus' : us'.map (·.unit) = textUnits (earlier ++ later)) (hread : us.foldlM add g = .ok k) :
    ∃ k', us'.foldlM add g' = .ok k' ∧ Beside k k' := by
  cases h with
  | @filled start start' done done' hstart hdone =>
      obtain ⟨hlt, hlt'⟩ := hstart.target_lt
      obtain ⟨begun, us₂, rfl, hbegun, hus₂⟩ := List.map_eq_append_iff.mp hus
      obtain ⟨us₀, us₁, rfl, hus₀, hus₁⟩ := List.map_eq_append_iff.mp hbegun
      obtain ⟨⟨position, unit⟩, rfl, rfl⟩ := List.map_eq_singleton_iff.mp hus₁
      rw [List.foldlM_append, List.foldlM_append] at hread
      obtain ⟨mid, hmid, hlast⟩ := bind_eq_ok.mp hread
      obtain ⟨first, hfirst, hcomment⟩ := bind_eq_ok.mp hmid
      obtain ⟨text, some₀, htext, hblank, hsome₀, rfl⟩ := textAt_of_foldlM hlt hus₀ hfirst
      rw [List.foldlM_cons, add_comment] at hcomment
      cases hcomment
      obtain ⟨more, some₁, hmore, hblank', hsome₁, rfl⟩ := textAt_of_foldlM hlt hus₂ hlast
      have hboth : start'.opened = [] →
          Text.allBlank (String.ofList (text ++ more)) = true := by
        intro hopened
        have hopened := hstart.opened_eq_nil.mpr hopened
        simp only [Text.allBlank, String.toList_ofList, List.all_append, Bool.and_eq_true] at *
        exact ⟨hblank hopened, hblank' hopened⟩
      obtain ⟨all, hall, hsame⟩ :=
        foldlM_of_textAt hlt' hus' (Reference.unescape_append htext hmore) hboth
      refine ⟨_, hall, .filled hstart ?_⟩
      have htexts := sameButComments_textAt start (String.ofList text) (String.ofList content)
        (String.ofList more)
      rw [← String.ofList_append] at htexts
      rw [← hstart.textAt_eq] at hsame
      have hthree := (hsome₀.append (.refl [.comment (String.ofList content)])).append
        (.refl (start.textAt (String.ofList more)))
      rw [List.append_assoc done, List.append_assoc done] at hthree
      exact ((hsome₁.trans hthree).trans (hdone.append htexts)).trans hsame.symm

/-! ## Tags -/

theorem Beside.openElement (h : Beside g g') {position : Nat} {content : List Char}
    (hopen : g.openElement position content = .ok k) (position' : Nat) :
    ∃ k', g'.openElement position' content = .ok k' ∧ Beside k k' := by
  cases h with
  | @filled start start' done done' hstart hdone =>
      obtain ⟨hroot, pairs, hpairs, name, hname, attributes, hattributes, rfl⟩ :=
        openElement_eq_ok.mp hopen
      have hscope : (start.filled done).scope = (start'.filled done').scope := hstart.scope_eq
      rw [hscope] at hname hattributes ⊢
      refine ⟨_, openElement_eq_ok.mpr ⟨fun hopened => ?_, pairs,
        tagAttributes_of_position hpairs position', name, hname, attributes, hattributes, rfl⟩, ?_⟩
      · exact hstart.rooted_eq ▸ hroot (hstart.opened_eq_nil.mpr hopened)
      · exact (Fresh.inside hstart hdone _ _ name _ attributes).beside

/-- The innermost element is one more tree of the one around it. -/
theorem Beside.closeElement (h : Beside g g') : Beside g.closeElement g'.closeElement := by
  cases h with
  | @filled start start' children children' hstart hchildren =>
      cases hstart with
      | top rooted => exact .filled (.top rooted) hchildren
      | @inside start start' done done' outer hdone raw scope name declarations attributes =>
          have hclosed := Beside.filled outer.rooted
            (hdone.append (.element name declarations attributes hchildren))
          rw [Growth.filled, Growth.filled, graftAll_concat, graftAll_concat] at hclosed
          exact hclosed

theorem Beside.endElement (h : Beside g g') {position : Nat} {name : List Char}
    (hend : g.endElement position name = .ok k) (position' : Nat) :
    ∃ k', g'.endElement position' name = .ok k' ∧ Beside k k' := by
  have hclosed := h.closeElement
  cases h with
  | @filled start start' children children' hstart hchildren =>
      cases hstart with
      | top rooted => cases hend
      | inside outer hdone raw scope name' declarations attributes =>
          rw [Growth.endElement] at hend ⊢
          simp only [Growth.filled, opens] at hend ⊢
          split at hend
          · next hname =>
              cases hend
              exact ⟨_, if_pos hname, hclosed⟩
          · cases hend

/-! ## Reading on -/

theorem Beside.addText (h : Beside g g') {position : Nat} {text : String}
    (hadd : g.addText position text = .ok k) (position' : Nat) :
    ∃ k', g'.addText position' text = .ok k' ∧ Beside k k' := by
  cases h with
  | @filled start start' done done' hstart hdone =>
      obtain ⟨hlt, hlt'⟩ := hstart.target_lt
      obtain ⟨more, hmore, hiff⟩ := exists_addText hlt done text
      obtain ⟨more', hmore', hiff'⟩ := exists_addText hlt' done' text
      obtain ⟨hblank, rfl⟩ := (hiff _ _).mp hadd
      refine ⟨_, (hiff' position' _).mpr ⟨fun hopened => ?_, rfl⟩, .filled hstart ?_⟩
      · exact hblank (hstart.opened_eq_nil.mpr hopened)
      · rw [← hstart.textAt_eq] at hmore'
        exact (hmore.trans (hdone.append (.refl _))).trans hmore'.symm

/-- What one growth takes is taken by one beside it, wherever it stands. -/
theorem Beside.add (h : Beside g g') {position : Nat} {unit : Markup}
    (hadd : g.add ⟨position, unit⟩ = .ok k) (position' : Nat) :
    ∃ k', g'.add ⟨position', unit⟩ = .ok k' ∧ Beside k k' := by
  cases unit with
  | text raw =>
      rw [Growth.add] at hadd ⊢
      dsimp only at hadd ⊢
      split at hadd
      · exact h.addText hadd position'
      · cases hadd
  | cdata content => exact h.addText hadd position'
  | comment content =>
      cases h with
      | filled hstart hdone =>
          rw [add_comment] at hadd ⊢
          cases hadd
          exact ⟨_, rfl, .filled hstart (hdone.append (.refl _))⟩
  | startTag content => exact h.openElement hadd position'
  | emptyTag content =>
      obtain ⟨opened, hopened, rfl⟩ := map_eq_ok.mp hadd
      obtain ⟨opened', hopened', hbeside⟩ := h.openElement hopened position'
      exact ⟨_, map_eq_ok.mpr ⟨opened', hopened', rfl⟩, hbeside.closeElement⟩
  | endTag name => exact h.endElement hadd position'

theorem Beside.foldlM (h : Beside g g') {us us' : List Located}
    (hus : us.map (·.unit) = us'.map (·.unit)) (hread : us.foldlM Growth.add g = .ok k) :
    ∃ k', us'.foldlM Growth.add g' = .ok k' ∧ Beside k k' := by
  induction us generalizing g g' us' with
  | nil =>
      obtain rfl := List.map_eq_nil_iff.mp hus.symm
      cases hread
      exact ⟨g', rfl, h⟩
  | cons u us ih =>
      obtain ⟨⟨position', unit⟩, us', rfl, rfl, hrest⟩ := List.map_eq_cons_iff.mp hus.symm
      obtain ⟨mid, hmid, hend⟩ := bind_eq_ok.mp hread
      obtain ⟨mid', hmid', hbeside⟩ := h.add hmid position'
      obtain ⟨k', hk', hresult⟩ := ih hbeside hrest.symm hend
      exact ⟨k', bind_eq_ok.mpr ⟨mid', hmid', hk'⟩, hresult⟩

theorem Beside.finish (h : Beside g g') {doc : Document} (hfinish : g.finish = .ok doc) :
    ∃ doc', g'.finish = .ok doc' ∧ SameDocument doc doc' := by
  cases h with
  | @filled start start' done done' hstart hdone =>
      cases hstart with
      | inside outer hbefore raw scope name declarations attributes => cases hfinish
      | top rooted =>
          cases rooted with
          | false => cases hfinish
          | true =>
              cases hfinish
              exact ⟨_, rfl, .ofForest hdone⟩

end Growth

namespace Document

open Markup

/-- A text can be read if it ends no unit early, its units are taken, and nothing is left open. -/
theorem read_eq_ok {cs : List Char} {doc : Document} :
    read cs = .ok doc ↔ (units cs).2 = none ∧
      ∃ g, (units cs).1.foldlM Growth.add {} = .ok g ∧ g.finish = .ok doc := by
  rw [read]
  generalize units cs = located
  obtain ⟨us, fault⟩ := located
  dsimp only
  rw [bind_eq_ok]
  cases fault <;> simp

/-- A text that can be read can be read without one of its comments. -/
theorem read_of_dropsComment {cs cs' : List Char} (h : DropsComment cs cs') {doc : Document}
    (hread : read cs = .ok doc) : ∃ doc', read cs' = .ok doc' ∧ SameDocument doc doc' := by
  obtain ⟨earlier, text, content, raw, later, hunits, hunits', hfault⟩ := units_of_dropsComment h
  obtain ⟨hnone, g, hg, hfinish⟩ := read_eq_ok.mp hread
  rw [hnone] at hfault
  -- the units are those before, the two texts with the comment between them, and those after
  rw [List.append_assoc earlier, List.append_assoc earlier] at hunits
  obtain ⟨begun, us₂, hus, hbegun, hus₂⟩ := List.map_eq_append_iff.mp hunits
  obtain ⟨us₀, us₁, rfl, hus₀, hus₁⟩ := List.map_eq_append_iff.mp hbegun
  obtain ⟨begun', us₂', hus', hbegun', hus₂'⟩ := List.map_eq_append_iff.mp hunits'
  obtain ⟨us₀', us₁', rfl, hus₀', hus₁'⟩ := List.map_eq_append_iff.mp hbegun'
  rw [hus, List.foldlM_append, List.foldlM_append] at hg
  obtain ⟨second, hsecond, hthird⟩ := bind_eq_ok.mp hg
  obtain ⟨first, hfirst, hsecond⟩ := bind_eq_ok.mp hsecond
  have hempty : Growth.Beside {} {} := (Growth.Fresh.top false).beside
  obtain ⟨first', hfirst', hbeside⟩ := hempty.foldlM (hus₀.trans hus₀'.symm) hfirst
  obtain ⟨second', hsecond', hbeside⟩ := hbeside.withoutComment hus₁ hus₁' hsecond
  obtain ⟨g', hg', hbeside⟩ := hbeside.foldlM (hus₂.trans hus₂'.symm) hthird
  obtain ⟨doc', hfinish', hsame⟩ := hbeside.finish hfinish
  refine ⟨doc', read_eq_ok.mpr ⟨Option.isNone_iff_eq_none.mp hfault.symm, g', ?_, hfinish'⟩, hsame⟩
  rw [hus', List.foldlM_append, List.foldlM_append, hfirst']
  exact bind_eq_ok.mpr ⟨second', hsecond', hg'⟩

/-! ## Byte order marks -/

/-- In a text that can be read there is markup, and nothing but blanks before it. -/
theorem allBlank_of_read {raw rest : List Char} {doc : Document}
    (hread : read (raw ++ rest) = .ok doc) (hraw : '<' ∉ raw) (hrest : ∀ c ∈ rest.head?, c = '<') :
    rest ≠ [] ∧ ∃ text, Reference.unescape raw = .ok text ∧
      Text.allBlank (String.ofList text) = true := by
  have hbegin : ({} : Machine).reading = .text 0 [] := rfl
  obtain ⟨hunits, -⟩ := Machine.finish_foldl hbegin hraw hrest
  obtain ⟨-, g, hg, hfinish⟩ := read_eq_ok.mp hread
  obtain ⟨us, us', hus, hfirst, hsecond⟩ := List.map_eq_append_iff.mp hunits
  have hlocated : (units (raw ++ rest)).1 = us ++ us' := hus
  rw [hlocated, List.foldlM_append] at hg
  obtain ⟨mid, hmid, hend⟩ := bind_eq_ok.mp hg
  have hlt : Growth.target {} < ({} : Growth).doc.size := Nat.one_pos
  have hstart : us.foldlM Growth.add (Growth.filled {} []) = .ok mid := hmid
  obtain ⟨text, more, htext, hblank, -, rfl⟩ := Growth.textAt_of_foldlM hlt hfirst hstart
  refine ⟨?_, text, htext, hblank rfl⟩
  rintro rfl
  obtain rfl := List.map_eq_nil_iff.mp hsecond
  cases hend
  cases hfinish

/-- Before the markup of a text that can be read there are blanks and references. -/
theorem isBlank_of_read {before after : List Char} {c : Char} {doc : Document}
    (hread : read (before ++ c :: after) = .ok doc) (hbefore : '<' ∉ before ∧ '&' ∉ before)
    (hc : c ≠ '<' ∧ c ≠ '&') : Unicode.isBlank c = true := by
  obtain ⟨raw, rest, rfl, hraw, hrest⟩ := exists_run after
  have hrun : '<' ∉ before ++ c :: raw := by simp [hbefore.1, Ne.symm hc.1, hraw]
  rw [← List.cons_append, ← List.append_assoc] at hread
  obtain ⟨-, text, htext, hblank⟩ := allBlank_of_read hread hrun hrest
  have hmem := Reference.mem_unescape htext hbefore.2 hc.2
  rw [Text.allBlank, String.toList_ofList, List.all_eq_true] at hblank
  exact hblank c hmem

theorem dropMark_eq_self {cs : List Char} (h : cs.head? ≠ some '\uFEFF') : dropMark cs = cs := by
  unfold dropMark
  split
  · exact absurd rfl h
  · rfl

/-- The comment can as well be deleted after a byte order mark is dropped. -/
theorem dropsComment_dropMark {cs cs' : List Char} (h : DropsComment cs cs')
    (hread : dropMark cs = cs → ∃ doc, read cs = .ok doc) :
    DropsComment (dropMark cs) (dropMark cs') := by
  obtain @⟨before, content, after, houtside, huncut⟩ := h
  cases before with
  | nil =>
      obtain ⟨doc, hdoc⟩ := hread rfl
      obtain ⟨doc', hdoc', -⟩ := read_of_dropsComment (.drop after houtside huncut) hdoc
      -- a mark behind the comment would be text outside of all elements
      have hmark : after.head? ≠ some '\uFEFF' := by
        intro hhead
        obtain ⟨rest, rfl⟩ := List.head?_eq_some_iff.mp hhead
        have hblank : Unicode.isBlank '\uFEFF' = true :=
          isBlank_of_read (show read ([] ++ _ :: rest) = _ from hdoc') (by simp) (by decide)
        revert hblank
        decide
      rw [List.nil_append, List.nil_append, dropMark_eq_self hmark]
      exact .drop after houtside huncut
  | cons c before =>
      by_cases hc : c = '\uFEFF'
      · subst hc
        exact .drop after (houtside.tail (by decide)) huncut
      · rw [dropMark_eq_self (by simpa using hc), dropMark_eq_self (by simpa using hc)]
        exact .drop after houtside huncut

/-! ## Bytes -/

/-- The second bytes are the first ones, a text in UTF-8, without one of its comments: one that the
reader takes for a comment, since it stands outside of all other markup. -/
inductive DeletesComment : ByteArray → ByteArray → Prop
  | delete {before content : String} (after : String) (houtside : Outside before.toList)
      (huncut : Uncut content.toList) :
      DeletesComment (before ++ "<!--" ++ content ++ "-->" ++ after).toUTF8 (before ++ after).toUTF8

/-- Comments are deleted, one after the other. -/
def DeletesComments : ByteArray → ByteArray → Prop := Relation.ReflTransGen DeletesComment

theorem parseBytes_toUTF8 (text : String) :
    parseBytes text.toUTF8 = read (dropMark (dropMark text.toList)) := by
  rw [parseBytes, show String.fromUTF8? text.toUTF8 = some text from dif_pos text.isValidUTF8]

/-- A document that can be read can be read without a comment. -/
theorem parseBytes_of_deletesComment {bytes bytes' : ByteArray} (h : DeletesComment bytes bytes')
    {doc : Document} (hread : parseBytes bytes = .ok doc) :
    ∃ doc', parseBytes bytes' = .ok doc' ∧ SameDocument doc doc' := by
  obtain @⟨before, content, after, houtside, huncut⟩ := h
  rw [parseBytes_toUTF8] at hread ⊢
  have hdrops : DropsComment (before ++ "<!--" ++ content ++ "-->" ++ after).toList
      (before ++ after).toList := by
    have hdrop := DropsComment.drop after.toList houtside huncut
    have hchars : chars (.comment content.toList) =
        "<!--".toList ++ (content.toList ++ "-->".toList) := rfl
    rw [hchars] at hdrop
    simp only [String.toList_append, List.append_assoc] at hdrop ⊢
    exact hdrop
  refine read_of_dropsComment ?_ hread
  refine dropsComment_dropMark (dropsComment_dropMark hdrops fun hsame => ⟨doc, ?_⟩) fun hsame =>
    ⟨doc, ?_⟩
  · rwa [hsame, hsame] at hread
  · rwa [hsame] at hread

theorem sameDocument_of_read {cs : List Char} {doc : Document} (h : read cs = .ok doc) :
    SameDocument doc doc := by
  obtain ⟨-, g, hg, hfinish⟩ := read_eq_ok.mp h
  have hempty : Growth.Beside {} {} := (Growth.Fresh.top false).beside
  obtain ⟨g', hg', hbeside⟩ := hempty.foldlM rfl hg
  obtain rfl : g = g' := Except.ok.inj (hg.symm.trans hg')
  obtain ⟨doc', hfinish', hsame⟩ := hbeside.finish hfinish
  obtain rfl : doc = doc' := Except.ok.inj (hfinish.symm.trans hfinish')
  exact hsame

theorem sameDocument_of_parseBytes {bytes : ByteArray} {doc : Document}
    (h : parseBytes bytes = .ok doc) : SameDocument doc doc := by
  rw [parseBytes] at h
  split at h
  · exact sameDocument_of_read h
  · cases h

/-- A document that can be read can be read without comments, and is the same but for these. -/
theorem parseBytes_of_deletesComments {bytes bytes' : ByteArray}
    (h : DeletesComments bytes bytes') {doc : Document} (hread : parseBytes bytes = .ok doc) :
    ∃ doc', parseBytes bytes' = .ok doc' ∧ SameDocument doc doc' := by
  induction h with
  | refl => exact ⟨doc, hread, sameDocument_of_parseBytes hread⟩
  | tail _ hdelete ih =>
      obtain ⟨mid, hmid, hsame⟩ := ih
      obtain ⟨doc', hdoc', hsame'⟩ := parseBytes_of_deletesComment hdelete hmid
      exact ⟨doc', hdoc', hsame.trans hsame'⟩

end Document

end Schematron.Xml
