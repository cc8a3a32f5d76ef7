import Schematron.Proofs.XPath.Location
import Schematron.Proofs.Xml.Lineage

/-!
# Locations tell nodes apart

Two nodes of a document that was read have different locations (`location_injective`). The steps of
a location are found again in its text: each one is known by the run of name characters that it
begins with and by the character behind (`LocationStep.opening`), and ends where a slash or nothing
follows.

A namespace is quoted as it is, and the text goes on behind it with an apostrophe and a bracket. So
a namespace of an element that holds these itself, and a position and a slash behind, is read as the
end of a step and the beginning of another one. Such a namespace is ruled out
(`LocationStep.BreaksOut`), and with one there are two nodes of one location.
-/

namespace Schematron.XPath

open Xml Document

namespace LocationStep

/-! ## Steps -/

def isAttribute : LocationStep → Bool
  | .attribute .. => true
  | _ => false

/-- In quotes, the namespace looks like the end of a step with another one behind it. -/
def BreaksOut (uri : String) : Prop :=
  ∃ position : Nat, ("']" ++ positionText position ++ "/").toList <:+: uri.toList

/-- What breaks out has a slash. -/
theorem not_breaksOut {uri : String} (h : '/' ∉ uri.toList) : ¬BreaksOut uri :=
  fun ⟨_, hpart⟩ => h (hpart.subset (by simp))

/-- Local names are made of characters of names, and no namespace of an element breaks out of its
step. -/
def Clear : LocationStep → Prop
  | .element localPart uri _ => Legible localPart.toList ∧ ∀ u ∈ uri, ¬BreaksOut u
  | .attribute localPart _ => Legible localPart.toList
  | .text _ | .comment _ => True

/-- The run of name characters that a step begins with, and the character behind the run. -/
def opening : LocationStep → List Char × Char
  | .element localPart none _ => (localPart.toList, '[')
  | .element _ (some _) _ => ([], '*')
  | .attribute _ _ => ([], '@')
  | .text _ => ("text".toList, '(')
  | .comment _ => ("comment".toList, '(')

/-- What comes behind the opening of a step. -/
def remainder : LocationStep → List Char
  | .element _ none position => (toString position).toList ++ "]".toList
  | .element localPart (some uri) position =>
    ":".toList ++ localPart.toList ++ "[namespace-uri()='".toList ++ uri.toList ++
      "']".toList ++ (positionText position).toList
  | .attribute localPart none => localPart.toList
  | .attribute localPart (some uri) =>
    "*[local-name()='".toList ++ localPart.toList ++ "' and namespace-uri()='".toList ++
      uri.toList ++ "']".toList
  | .text position | .comment position => ")".toList ++ (positionText position).toList

theorem toList_written (s : LocationStep) :
    s.written.toList = s.opening.1 ++ s.opening.2 :: s.remainder := by
  rcases s with ⟨localPart, _ | uri, position⟩ | ⟨localPart, _ | uri⟩ | position | position <;>
    simp [written.eq_def, opening.eq_def, remainder.eq_def, positionText]

variable {s s' : LocationStep} {rest rest' : List Char}

/-- Two texts that begin with a step begin with the same run of name characters and the same
character behind. -/
theorem opening_inj (hs : s.Clear) (hs' : s'.Clear)
    (h : s.written.toList ++ rest = s'.written.toList ++ rest') :
    s.opening = s'.opening ∧ s.remainder ++ rest = s'.remainder ++ rest' := by
  have hrun {s : LocationStep} (hs : s.Clear) :
      (∀ c ∈ s.opening.1, isNameChar c = true) ∧ isNameChar s.opening.2 = false := by
    rcases s with ⟨localPart, _ | uri, position⟩ | ⟨localPart, uri⟩ | position | position
    · exact ⟨hs.1, rfl⟩
    · exact ⟨nofun, rfl⟩
    · exact ⟨nofun, rfl⟩
    · exact ⟨(by decide : Legible "text".toList), rfl⟩
    · exact ⟨(by decide : Legible "comment".toList), rfl⟩
  have hspan {s : LocationStep} (hs : s.Clear) (rest : List Char) :
      (s.written.toList ++ rest).span isNameChar =
        (s.opening.1, s.opening.2 :: (s.remainder ++ rest)) := by
    rw [toList_written, List.append_assoc, List.cons_append]
    refine Text.span_append (hrun hs).1 fun c hc => ?_
    cases hc
    exact (hrun hs).2
  obtain ⟨hname, hbehind⟩ := Prod.mk.inj ((hspan hs rest).symm.trans (h ▸ hspan hs' rest'))
  obtain ⟨hchar, hremainder⟩ := List.cons.inj hbehind
  exact ⟨Prod.ext hname hchar, hremainder⟩

theorem isAttribute_eq (s : LocationStep) : s.isAttribute = (s.opening.2 == '@') := by
  rcases s with ⟨localPart, _ | uri, position⟩ | ⟨localPart, uri⟩ | position | position <;> rfl

/-! ## Positions and namespaces -/

theorem toList_toString (n : Nat) : (toString n).toList = Nat.toDigits 10 n := by
  rw [Nat.toString_eq_repr, Nat.toList_repr]

theorem position_inj {n m : Nat}
    (h : (toString n).toList ++ ']' :: rest = (toString m).toList ++ ']' :: rest') :
    n = m ∧ rest = rest' := by
  have hbehind (rest : List Char) :
      ∀ c ∈ (']' :: rest).head?, c.isDigit = false ∧ c ≠ '.' := by
    rintro c ⟨⟩
    decide
  have hcut := Lexer.cutNumber_toDigits n (hbehind rest)
  rw [← toList_toString, h, toList_toString, Lexer.cutNumber_toDigits m (hbehind rest')] at hcut
  obtain ⟨hnumber, hrest⟩ := Prod.mk.inj hcut
  cases hnumber
  cases hrest
  exact ⟨rfl, rfl⟩

/-- What a step has behind the namespace that it quotes. -/
def quoteEnd (position : Nat) : List Char := "']".toList ++ (positionText position).toList

theorem exists_quoteEnd (position : Nat) :
    ∃ behind, quoteEnd position = '\'' :: behind ∧ '\'' ∉ behind := by
  refine ⟨']' :: '[' :: ((toString position).toList ++ [']']), by simp [quoteEnd, positionText], ?_⟩
  have hdigits : '\'' ∉ (toString position).toList := by
    rw [toList_toString]
    intro hmem
    have hdigit := Nat.isDigit_of_mem_toDigits (by decide) (by decide) hmem
    cases hdigit
  simpa using hdigits

/-- Of two quoted namespaces the second one is not longer: it would hold the end of the step that
quotes the first one, and either what follows there or another apostrophe. -/
theorem length_le_of_quoted {uri other : String} {n m : Nat} (hother : ¬BreaksOut other)
    (hrest : EndsStep rest)
    (h : uri.toList ++ (quoteEnd n ++ rest) = other.toList ++ (quoteEnd m ++ rest')) :
    other.toList.length ≤ uri.toList.length := by
  obtain ⟨behind, hquote, hbehind⟩ := exists_quoteEnd n
  obtain ⟨behind', hquote', -⟩ := exists_quoteEnd m
  have hnone : rest ≠ quoteEnd m ++ rest' := by
    rintro rfl
    have hslash := hrest '\'' (by rw [hquote']; rfl)
    exact absurd hslash (by decide)
  rcases List.append_eq_append_iff.mp h with ⟨more, hmore, hend⟩ | ⟨more, hmore, -⟩
  · cases more with
    | nil => exact Nat.le_of_eq (by rw [hmore, List.append_nil])
    | cons c more =>
        exfalso
        rcases List.append_eq_append_iff.mp hend with ⟨after, hafter, hgo⟩ | ⟨after, hafter, hgo⟩
        · -- the second namespace goes on behind the step of the first one
          cases after with
          | nil => exact hnone hgo
          | cons d after =>
              have hslash : d = '/' := hrest d (by rw [hgo]; rfl)
              refine hother ⟨n, uri.toList, after, ?_⟩
              rw [hmore, hafter, hslash]
              simp [quoteEnd]
        · -- the second namespace ends within the end of the first step
          cases after with
          | nil => exact hnone hgo.symm
          | cons d after =>
              rw [hquote, List.cons_append, List.cons.injEq] at hafter
              rw [hquote', List.cons_append, List.cons_append, List.cons.injEq] at hgo
              rw [hafter.2, ← hgo.1] at hbehind
              simp at hbehind
  · rw [hmore, List.length_append]
    exact Nat.le_add_right _ _

theorem quoted_inj {uri other : String} {n m : Nat} (huri : ¬BreaksOut uri)
    (hother : ¬BreaksOut other) (hrest : EndsStep rest) (hrest' : EndsStep rest')
    (h : uri.toList ++ (quoteEnd n ++ rest) = other.toList ++ (quoteEnd m ++ rest')) :
    uri = other ∧ n = m ∧ rest = rest' := by
  have hlength := Nat.le_antisymm (length_le_of_quoted huri hrest' h.symm)
    (length_le_of_quoted hother hrest h)
  obtain ⟨hsame, hend⟩ := List.append_inj h hlength
  refine ⟨String.toList_inj.mp hsame, position_inj ?_⟩
  simpa [quoteEnd, positionText] using hend

/-! ## Steps are found again -/

/-- Local names that are followed by something that is no name character. -/
theorem localPart_inj {localPart other : String} {c c' : Char} (h : Legible localPart.toList)
    (h' : Legible other.toList) (hc : isNameChar c = false) (hc' : isNameChar c' = false)
    (hsame : localPart.toList ++ c :: rest = other.toList ++ c' :: rest') :
    localPart = other ∧ rest = rest' := by
  have hspan {localPart : String} {c : Char} (h : Legible localPart.toList)
      (hc : isNameChar c = false) (rest : List Char) :
      (localPart.toList ++ c :: rest).span isNameChar = (localPart.toList, c :: rest) :=
    Text.span_append h fun d hd => by cases hd; exact hc
  obtain ⟨hname, hrest⟩ := Prod.mk.inj ((hspan h hc rest).symm.trans (hsame ▸ hspan h' hc' rest'))
  exact ⟨String.toList_inj.mp hname, (List.cons.inj hrest).2⟩

/-- A step that is no attribute is known where a slash or nothing follows. -/
theorem written_inj (hs : s.Clear) (hs' : s'.Clear) (hattribute : s.isAttribute = false)
    (hrest : EndsStep rest) (hrest' : EndsStep rest')
    (h : s.written.toList ++ rest = s'.written.toList ++ rest') : s = s' ∧ rest = rest' := by
  obtain ⟨hopening, hremainder⟩ := opening_inj hs hs' h
  -- the openings leave steps of one kind
  rcases s with ⟨localPart, _ | uri, position⟩ | ⟨localPart, uri⟩ | position | position <;>
    rcases s' with ⟨other, _ | uri', position'⟩ | ⟨other, uri'⟩ | position' | position' <;>
    simp [opening.eq_def] at hopening
  · obtain ⟨rfl, rfl⟩ := position_inj (by simpa [remainder.eq_def] using hremainder)
    obtain rfl := String.toList_inj.mp hopening
    exact ⟨rfl, rfl⟩
  · have hname : localPart.toList ++ '[' :: ("namespace-uri()='".toList ++
        (uri.toList ++ (quoteEnd position ++ rest))) = other.toList ++ '[' ::
          ("namespace-uri()='".toList ++ (uri'.toList ++ (quoteEnd position' ++ rest'))) := by
      simpa [remainder.eq_def, quoteEnd] using hremainder
    obtain ⟨rfl, hquoted⟩ := localPart_inj hs.1 hs'.1 rfl rfl hname
    obtain ⟨rfl, rfl, rfl⟩ := quoted_inj (hs.2 uri rfl) (hs'.2 uri' rfl) hrest hrest'
      (List.append_cancel_left hquoted)
    exact ⟨rfl, rfl⟩
  · cases hattribute
  · obtain ⟨rfl, rfl⟩ := position_inj (by simpa [remainder.eq_def, positionText] using hremainder)
    exact ⟨rfl, rfl⟩
  · obtain ⟨rfl, rfl⟩ := position_inj (by simpa [remainder.eq_def, positionText] using hremainder)
    exact ⟨rfl, rfl⟩

/-- Behind an attribute nothing follows, so its namespace may hold anything. -/
theorem attribute_inj (hs : s.Clear) (hs' : s'.Clear) (hattribute : s.isAttribute = true)
    (hattribute' : s'.isAttribute = true) (h : s.written.toList = s'.written.toList) : s = s' := by
  have hstar {localPart : String} (hlocal : Legible localPart.toList) (rest : List Char) :
      localPart.toList ≠ '*' :: rest := fun hsame =>
    hlocal.not_mem (c := '*') rfl (hsame ▸ List.mem_cons_self)
  rcases s with _ | ⟨localPart, _ | uri⟩ | _ | _ <;> try cases hattribute
  all_goals rcases s' with _ | ⟨other, _ | uri'⟩ | _ | _ <;> try cases hattribute'
  · have hname : localPart.toList = other.toList := by simpa [written.eq_def] using h
    rw [String.toList_inj.mp hname]
  · exact absurd (by simpa [written.eq_def] using h) (hstar hs _)
  · exact absurd (by simpa [written.eq_def] using h.symm) (hstar hs' _)
  · have hname : localPart.toList ++ '\'' :: (" and namespace-uri()='".toList ++
        (uri.toList ++ "']".toList)) = other.toList ++ '\'' ::
          (" and namespace-uri()='".toList ++ (uri'.toList ++ "']".toList)) := by
      simpa [written.eq_def] using h
    obtain ⟨rfl, hquoted⟩ := localPart_inj hs hs' rfl rfl hname
    rw [String.toList_inj.mp (List.append_cancel_right (List.append_cancel_left hquoted))]

end LocationStep

/-! ## Paths are found again -/

open LocationStep

/-- The text of steps, each with the slash in front of it. -/
def slashed (steps : List LocationStep) : List Char := steps.flatMap ('/' :: ·.written.toList)

theorem endsStep_slashed (steps : List LocationStep) : EndsStep (slashed steps) := by
  cases steps with
  | nil => nofun
  | cons s steps =>
      rintro c ⟨⟩
      rfl

/-- The steps, of which only the last can be an attribute, are known by their text. -/
theorem slashed_inj {steps steps' : List LocationStep} (hclear : ∀ s ∈ steps, s.Clear)
    (hclear' : ∀ s ∈ steps', s.Clear) (hinner : steps.Pairwise fun s _ => s.isAttribute = false)
    (hinner' : steps'.Pairwise fun s _ => s.isAttribute = false)
    (h : slashed steps = slashed steps') : steps = steps' := by
  induction steps generalizing steps' with
  | nil =>
      cases steps' with
      | nil => rfl
      | cons => cases h
  | cons s steps ih =>
      cases steps' with
      | nil => cases h
      | cons s' steps' =>
          obtain ⟨hs, hclear⟩ := List.forall_mem_cons.mp hclear
          obtain ⟨hs', hclear'⟩ := List.forall_mem_cons.mp hclear'
          obtain ⟨hlast, hinner⟩ := List.pairwise_cons.mp hinner
          obtain ⟨hlast', hinner'⟩ := List.pairwise_cons.mp hinner'
          have htext : s.written.toList ++ slashed steps = s'.written.toList ++ slashed steps' :=
            (List.cons.inj h).2
          have hkind : s.isAttribute = s'.isAttribute := by
            rw [LocationStep.isAttribute_eq, LocationStep.isAttribute_eq,
              (opening_inj hs hs' htext).1]
          cases hattribute : s.isAttribute with
          | false =>
              obtain ⟨hsame, hrest⟩ := written_inj hs hs' hattribute (endsStep_slashed steps)
                (endsStep_slashed steps') htext
              rw [hsame, ih hclear hclear' hinner hinner' hrest]
          | true =>
              -- an attribute is the last step
              have hnone {steps : List LocationStep} (h : ∀ t ∈ steps, true = false) :
                  steps = [] :=
                List.eq_nil_iff_forall_not_mem.mpr fun t ht => Bool.noConfusion (h t ht)
              obtain rfl := hnone (hattribute ▸ hlast)
              obtain rfl := hnone (hattribute ▸ hkind ▸ hlast')
              have hwritten : s.written.toList = s'.written.toList := by
                simpa [slashed] using htext
              rw [attribute_inj hs hs' hattribute (hkind ▸ hattribute) hwritten]

theorem locationText_inj {steps steps' : List LocationStep} (hclear : ∀ s ∈ steps, s.Clear)
    (hclear' : ∀ s ∈ steps', s.Clear) (hinner : steps.Pairwise fun s _ => s.isAttribute = false)
    (hinner' : steps'.Pairwise fun s _ => s.isAttribute = false)
    (h : locationText steps = locationText steps') : steps = steps' := by
  -- the text of no steps is a slash alone, and no step is written as nothing
  have hne (s : LocationStep) (steps : List LocationStep) :
      locationText [] ≠ locationText (s :: steps) := by
    intro hsame
    have hlist := congrArg String.toList hsame
    rw [toList_locationText, toList_written] at hlist
    simp [locationText] at hlist
  cases steps with
  | nil =>
      cases steps' with
      | nil => rfl
      | cons s' steps' => exact absurd h (hne s' steps')
  | cons s steps =>
      cases steps' with
      | nil => exact absurd h.symm (hne s steps)
      | cons s' steps' =>
          refine slashed_inj hclear hclear' hinner hinner' ?_
          have hlist := congrArg String.toList h
          rwa [toList_locationText, toList_locationText] at hlist

/-! ## Nodes are found again -/

variable {doc : Document} {id id' parent : NodeId}

/-- The place of a node among the siblings of its kind. -/
theorem length_filter_takeWhile (ids : List NodeId) {p : NodeId → Bool} (hid : p id = true) :
    ((ids.takeWhile (· != id)).filter p).length = (ids.filter p).idxOf id := by
  induction ids with
  | nil => rfl
  | cons other ids ih =>
      by_cases hother : other = id
      · subst hother
        rw [List.takeWhile_cons_of_neg (by simp), List.filter_cons_of_pos hid, List.idxOf_cons_self]
        rfl
      · rw [List.takeWhile_cons_of_pos (by simpa using hother)]
        cases hp : p other with
        | true =>
            rw [List.filter_cons_of_pos hp, List.filter_cons_of_pos hp, List.length_cons,
              List.idxOf_cons_ne _ hother, ih]
        | false =>
            rw [List.filter_cons_of_neg (by simp [hp]), List.filter_cons_of_neg (by simp [hp]), ih]

/-- The siblings that a step counts. -/
def LocationStep.counts (doc : Document) : LocationStep → NodeId → Bool
  | .element localPart uri _, id =>
    match doc.kind id with
    | .element name _ => localPart == name.localPart && uri == name.uri
    | _ => false
  | .attribute _ _, _ => false
  | .text _, id => doc.isText id
  | .comment _, id => doc.isComment id

/-- The number that a step counts to. -/
def LocationStep.position? : LocationStep → Option Nat
  | .element _ _ position | .text position | .comment position => some position
  | .attribute _ _ => none

/-- A node that is no attribute is among those that its step counts, and the number is its place
among them. -/
theorem counts_of_stepTo {s : LocationStep} (hs : stepTo? doc id = some s)
    (hattribute : s.isAttribute = false) :
    (doc.kind id).isAttribute = false ∧ doc.sameKind id = s.counts doc ∧
      doc.sameKind id id = true ∧ s.position? = some (doc.siblingPosition id) := by
  rw [stepTo?] at hs
  cases hkind : doc.kind id with
  | document =>
      rw [hkind] at hs
      cases hs
  | element name declarations =>
      rw [hkind] at hs
      cases hs
      refine ⟨rfl, funext fun x => ?_, by simp [sameKind, hkind, Name.sameExpanded], rfl⟩
      rw [sameKind, hkind, counts]
      cases doc.kind x <;> rfl
  | «attribute» name value =>
      rw [hkind] at hs
      cases hs
      cases hattribute
  | text value =>
      rw [hkind] at hs
      cases hs
      refine ⟨rfl, funext fun x => ?_, by simp [sameKind, hkind], rfl⟩
      rw [sameKind, hkind, counts, isText]
      cases doc.kind x <;> rfl
  | comment value =>
      rw [hkind] at hs
      cases hs
      refine ⟨rfl, funext fun x => ?_, by simp [sameKind, hkind], rfl⟩
      rw [sameKind, hkind, counts, isComment]
      cases doc.kind x <;> rfl

theorem name_of_stepTo {localPart : String} {uri : Option String}
    (hs : stepTo? doc id = some (.attribute localPart uri)) :
    (doc.kind id).isAttribute = true ∧
      ∃ name, doc.name? id = some name ∧ name.localPart = localPart ∧ name.uri = uri := by
  rw [stepTo?] at hs
  cases hkind : doc.kind id with
  | «attribute» name value =>
      rw [hkind] at hs
      cases hs
      exact ⟨rfl, name, by rw [name?, hkind], rfl, rfl⟩
  | _ =>
      rw [hkind] at hs
      cases hs

/-- The step to a node tells it from all others below its parent. -/
theorem eq_of_stepTo (h : Linked doc) (hapart : AttributesApart doc)
    (hparent : doc.parent? id = some parent) (hparent' : doc.parent? id' = some parent)
    {s : LocationStep} (hs : stepTo? doc id = some s) (hs' : stepTo? doc id' = some s) :
    id = id' := by
  cases hattribute : s.isAttribute with
  | false =>
      -- siblings of one kind are known by their positions
      obtain ⟨hlisted, hcounts, hself, hposition⟩ := counts_of_stepTo hs hattribute
      obtain ⟨-, hcounts', hself', hposition'⟩ := counts_of_stepTo hs' hattribute
      have hid := (h.mem_children parent id).mpr ⟨hparent, hlisted⟩
      have hplace := Option.some.inj (hposition.symm.trans hposition')
      rw [siblingPosition, siblingPosition, hparent, hparent'] at hplace
      dsimp only at hplace
      rw [length_filter_takeWhile _ hself, length_filter_takeWhile _ hself', hcounts',
        ← hcounts] at hplace
      exact (List.idxOf_inj (List.mem_filter.mpr ⟨hid, hself⟩)).mp (Nat.succ.inj hplace)
  | true =>
      -- attributes are known by their expanded names
      obtain ⟨localPart, uri, rfl⟩ : ∃ localPart uri, s = .attribute localPart uri := by
        cases s with
        | «attribute» localPart uri => exact ⟨localPart, uri, rfl⟩
        | _ => cases hattribute
      obtain ⟨hlisted, name, hname, hlocal, huri⟩ := name_of_stepTo hs
      obtain ⟨hlisted', name', hname', hlocal', huri'⟩ := name_of_stepTo hs'
      refine hapart parent id ((h.mem_attributes parent id).mpr ⟨hparent, hlisted⟩) id'
        ((h.mem_attributes parent id').mpr ⟨hparent', hlisted'⟩) name name' hname hname' ?_
      rw [Name.sameExpanded, hlocal, hlocal', huri, huri', beq_self_eq_true, beq_self_eq_true,
        Bool.and_self]

theorem exists_stepTo (h : Linked doc) (hparent : doc.parent? id = some parent) :
    ∃ s, stepTo? doc id = some s := by
  have hpos : rootNode < id := Nat.lt_of_le_of_lt (Nat.zero_le _) (h.parent_lt hparent)
  have hkind := h.kind_ne id hpos (Linked.lt_size_of_parent? hparent)
  rw [stepTo?]
  cases hid : doc.kind id with
  | document => exact absurd hid hkind
  | _ => exact ⟨_, rfl⟩

/-- A path is the path of one node. -/
theorem pathTo_inj (h : Linked doc) (hapart : AttributesApart doc) (hid : id < doc.size)
    (hid' : id' < doc.size) (hsame : pathTo doc id = pathTo doc id') : id = id' := by
  have hcases (id : NodeId) (hid : id < doc.size) : id = rootNode ∧ pathTo doc id = [] ∨
      ∃ parent s, parent < id ∧ doc.parent? id = some parent ∧ stepTo? doc id = some s ∧
        pathTo doc id = pathTo doc parent ++ [s] := by
    rcases Nat.eq_zero_or_pos id with rfl | hpos
    · exact .inl ⟨rfl, pathTo_root h⟩
    · obtain ⟨parent, hlt, hparent⟩ := h.parent?_lt id hpos hid
      obtain ⟨s, hs⟩ := exists_stepTo h hparent
      exact .inr ⟨parent, s, hlt, hparent, hs, pathTo_of_parent h hparent hs⟩
  induction id using Nat.strongRecOn generalizing id' with
  | ind id ih =>
      rcases hcases id hid with ⟨rfl, hroot⟩ | ⟨parent, s, hlt, hparent, hs, hpath⟩
      · rcases hcases id' hid' with ⟨rfl, -⟩ | ⟨parent', s', -, -, -, hpath'⟩
        · rfl
        · rw [hroot, hpath'] at hsame
          simp at hsame
      · rcases hcases id' hid' with ⟨rfl, hroot⟩ | ⟨parent', s', hlt', hparent', hs', hpath'⟩
        · rw [hroot, hpath] at hsame
          simp at hsame
        · rw [hpath, hpath'] at hsame
          obtain ⟨habove, hstep⟩ := List.append_inj' hsame rfl
          obtain rfl := ih parent hlt (Nat.lt_trans hlt hid) (Nat.lt_trans hlt' hid') habove
          cases hstep
          exact eq_of_stepTo h hapart hparent hparent' hs hs'

/-! ## Main result -/

theorem isAttribute_of_stepTo {s : LocationStep} (hs : stepTo? doc id = some s) :
    s.isAttribute = doc.isAttribute id := by
  rw [stepTo?] at hs
  rw [Document.isAttribute]
  cases hkind : doc.kind id with
  | document =>
      rw [hkind] at hs
      cases hs
  | _ =>
      rw [hkind] at hs
      cases hs
      rfl

/-- Only the last step of a path leads to an attribute. -/
theorem pairwise_pathTo (h : Numbered doc) (id : NodeId) :
    (pathTo doc id).Pairwise fun s _ => s.isAttribute = false := by
  rw [pathTo, List.pairwise_reverse, List.pairwise_filterMap, List.pairwise_cons]
  have habove {other : NodeId} (hother : other ∈ doc.ancestors id) {s : LocationStep}
      (hs : stepTo? doc other = some s) : s.isAttribute = false := by
    rw [isAttribute_of_stepTo hs]
    exact h.isAttribute_eq_false_of_mem_ancestors hother
  exact ⟨fun other hother _ _ _ hs => habove hother hs,
    List.pairwise_of_forall_mem_list fun _ _ other hother _ _ _ hs => habove hother hs⟩

theorem clear_of_mem_pathTo
    (hnames : ∀ id name, doc.name? id = some name → Legible name.localPart.toList)
    (huris : ∀ id name declarations, doc.kind id = .element name declarations →
      ∀ uri ∈ name.uri, ¬BreaksOut uri) : ∀ s ∈ pathTo doc id, s.Clear := by
  intro s hs
  rw [pathTo, List.mem_reverse, List.mem_filterMap] at hs
  obtain ⟨other, -, hother⟩ := hs
  rw [stepTo?] at hother
  cases hkind : doc.kind other with
  | document =>
      rw [hkind] at hother
      cases hother
  | element name declarations =>
      rw [hkind] at hother
      cases hother
      exact ⟨hnames other name (by rw [name?, hkind]), huris other name declarations hkind⟩
  | «attribute» name value =>
      rw [hkind] at hother
      cases hother
      exact hnames other name (by rw [name?, hkind])
  | text | comment =>
      rw [hkind] at hother
      cases hother
      trivial

/-- Two nodes of a document that was read have different locations, if its local names are made of
characters of names and no namespace of an element breaks out of the step that quotes it. What the
namespaces of attributes hold does not matter. -/
theorem location_injective {text : String} (hparse : Document.parse text = .ok doc)
    (hnames : ∀ id name, doc.name? id = some name → Legible name.localPart.toList)
    (huris : ∀ id name declarations, doc.kind id = .element name declarations →
      ∀ uri ∈ name.uri, ¬BreaksOut uri)
    (hid : id < doc.size) (hid' : id' < doc.size) (h : doc.location id = doc.location id') :
    id = id' := by
  have hbuilt := built_of_parse hparse
  have hnumbered := numbered_of_parse hparse
  rw [location_eq, location_eq] at h
  have hpath := locationText_inj (clear_of_mem_pathTo hnames huris)
    (clear_of_mem_pathTo hnames huris) (pairwise_pathTo hnumbered id)
    (pairwise_pathTo hnumbered id') h
  exact pathTo_inj hbuilt.linked hbuilt.attributesApart hid hid' hpath

/-- An element whose namespace holds an apostrophe, and an attribute whose namespace looks like the
end of a step. -/
def quotedText : String :=
  "<r xmlns=\"it's\" xmlns:p=\"u'][1]/v\" p:k='1'><a xmlns=''/>t<a xmlns=''/></r>"

theorem location_injective_quotedText :
    ∃ doc, Document.parse quotedText = .ok doc ∧
      (List.range doc.size).map doc.location =
        ["/", "/*:r[namespace-uri()='it's'][1]",
          "/*:r[namespace-uri()='it's'][1]/@*[local-name()='k' and namespace-uri()='u'][1]/v']",
          "/*:r[namespace-uri()='it's'][1]/a[1]", "/*:r[namespace-uri()='it's'][1]/text()[1]",
          "/*:r[namespace-uri()='it's'][1]/a[2]"] ∧
      ∀ id < doc.size, ∀ id' < doc.size, doc.location id = doc.location id' → id = id' := by
  let doc : Document := ⟨#[
    { kind := .document, children := #[1] },
    { kind := .element ⟨none, "r", some "it's"⟩ [⟨none, "it's"⟩, ⟨some "p", "u'][1]/v"⟩],
      parent := some 0, children := #[3, 4, 5], attributes := #[2] },
    { kind := .attribute (.qualified "p" "k" "u'][1]/v") "1", parent := some 1 },
    { kind := .element (.plain "a") [⟨none, ""⟩], parent := some 1 },
    { kind := .text "t", parent := some 1 },
    { kind := .element (.plain "a") [⟨none, ""⟩], parent := some 1 }]⟩
  have hread : Document.parse quotedText = .ok doc := toOption_eq_some.mp (by decide +kernel)
  have hnames : ∀ id < 6, ∀ name ∈ doc.name? id, Legible name.localPart.toList := by decide
  have huris : ∀ id < 6, doc.isElement id = true → ∀ name ∈ doc.name? id, ∀ uri ∈ name.uri,
      '/' ∉ uri.toList := by decide
  refine ⟨doc, hread, by decide +kernel, fun id hid id' hid' => location_injective hread
    (fun id name hname => hnames id (lt_size_of_name? hname) name hname)
    (fun id name declarations hkind uri huri => ?_) hid hid'⟩
  have hname : doc.name? id = some name := by rw [name?, hkind]
  have helement : doc.isElement id = true := by rw [isElement, hkind]
  exact not_breaksOut (huris id (lt_size_of_name? hname) helement name hname uri huri)

/-- The namespace of the first child of the root is that of the second one, followed by the text of
the step to what is below this. -/
def imitatingText : String :=
  "<r><a xmlns=\"V'][1]/*:b[namespace-uri()='W\"/><a xmlns='V'><b xmlns='W'/></a></r>"

/-- Two elements of one location, which are not even on one level. -/
theorem location_imitatingText :
    ∃ doc, Document.parse imitatingText = .ok doc ∧
      (∀ id name, doc.name? id = some name → Legible name.written.toList) ∧
      doc.name? 2 = some ⟨none, "a", some "V'][1]/*:b[namespace-uri()='W"⟩ ∧
      doc.name? 4 = some ⟨none, "b", some "W"⟩ ∧
      doc.location 2 = "/r[1]/*:a[namespace-uri()='V'][1]/*:b[namespace-uri()='W'][1]" ∧
      doc.location 4 = "/r[1]/*:a[namespace-uri()='V'][1]/*:b[namespace-uri()='W'][1]" := by
  let doc : Document := ⟨#[
    { kind := .document, children := #[1] },
    { kind := .element (.plain "r") [], parent := some 0, children := #[2, 3] },
    { kind := .element ⟨none, "a", some "V'][1]/*:b[namespace-uri()='W"⟩
        [⟨none, "V'][1]/*:b[namespace-uri()='W"⟩], parent := some 1 },
    { kind := .element ⟨none, "a", some "V"⟩ [⟨none, "V"⟩], parent := some 1, children := #[4] },
    { kind := .element ⟨none, "b", some "W"⟩ [⟨none, "W"⟩], parent := some 3 }]⟩
  have hread : Document.parse imitatingText = .ok doc := toOption_eq_some.mp (by decide +kernel)
  have hnames : ∀ id < 5, ∀ name ∈ doc.name? id, Legible name.written.toList := by decide
  exact ⟨doc, hread, fun id name hname => hnames id (lt_size_of_name? hname) name hname, rfl, rfl,
    by decide +kernel, by decide +kernel⟩

end Schematron.XPath
