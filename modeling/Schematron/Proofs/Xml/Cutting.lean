import Mathlib.Data.List.Chain
import Schematron.Xml.Markup

/-!
# Units of markup and their characters

Whole units, no two runs of text side by side, are what their characters are cut into
(`units_chars`). The machine is followed from unit to unit: it stands between two units when it
reads text (`Machine.Stands`), and a whole unit takes it from there to the next such place.

The comments that a text is cut into could all be written again (`uncut_of_units`).
-/

namespace Schematron.Xml.Markup

/-- A unit as it is written. -/
def chars : Markup → List Char
  | .text raw => raw
  | .cdata content => ['<', '!', '[', 'C', 'D', 'A', 'T', 'A', '['] ++ content ++ [']', ']', '>']
  | .comment content => ['<', '!', '-', '-'] ++ content ++ ['-', '-', '>']
  | .startTag content => '<' :: (content ++ ['>'])
  | .emptyTag content => '<' :: (content ++ ['/', '>'])
  | .endTag name => '<' :: '/' :: (name ++ ['>'])

def isText : Markup → Bool
  | .text _ => true
  | _ => false

/-- A unit that is no text begins like all markup. -/
theorem chars_eq_cons {u : Markup} (h : u.isText = false) : ∃ after, u.chars = '<' :: after := by
  cases u with
  | text raw => cases h
  | _ => exact ⟨_, rfl⟩

/-- No two runs of text stand side by side. -/
def TextsApart (us : List Markup) : Prop :=
  us.IsChain fun a b => ¬(a.isText = true ∧ b.isText = true)

/-- Nothing in the content ends a comment. -/
def Uncut (content : List Char) : Prop := ¬ ['-', '-', '>'] <:+: content

instance (content : List Char) : Decidable (Uncut content) :=
  inferInstanceAs (Decidable (¬ ['-', '-', '>'] <:+: content))

namespace Machine

variable {m : Machine} {us : List Markup}

/-- The machine reads text, and the units up to here are these. -/
def Stands (m : Machine) (us : List Markup) : Prop :=
  ∃ start seen, m.reading = .text start seen ∧
    (m.emitText start seen).map (·.unit) = us.reverse

/-- The machine has read these units and nothing of the next one. -/
def Clear (m : Machine) (us : List Markup) : Prop :=
  ∃ start, m.reading = .text start [] ∧ m.units.map (·.unit) = us.reverse

theorem Clear.stands (h : m.Clear us) : m.Stands us := by
  obtain ⟨start, hreading, hunits⟩ := h
  exact ⟨start, [], hreading, hunits⟩

/-! ## Text -/

/-- Characters that are only added to what was seen. -/
theorem foldl_seen {R : List Char → Reading} {cs : List Char}
    (hstep : ∀ c ∈ cs, ∀ (m : Machine) (seen : List Char), m.reading = R seen →
      (m.step c).reading = R (c :: seen) ∧ (m.step c).units = m.units) {seen : List Char}
    (h : m.reading = R seen) :
    (cs.foldl step m).reading = R (cs.reverse ++ seen) ∧ (cs.foldl step m).units = m.units := by
  induction cs generalizing m seen with
  | nil => exact ⟨h, rfl⟩
  | cons c cs ih =>
      obtain ⟨hread, hkept⟩ := hstep c List.mem_cons_self m seen h
      obtain ⟨hread', hkept'⟩ := ih (fun d hd => hstep d (List.mem_cons_of_mem _ hd)) hread
      rw [List.foldl_cons, List.reverse_cons, List.append_assoc]
      exact ⟨hread', hkept'.trans hkept⟩

theorem foldl_text {raw : List Char} (hraw : '<' ∉ raw) {start : Nat} {seen : List Char}
    (h : m.reading = .text start seen) :
    (raw.foldl step m).reading = .text start (raw.reverse ++ seen) ∧
      (raw.foldl step m).units = m.units := by
  refine foldl_seen (R := .text start) (fun c hc m seen hreading => ?_) h
  have hlt : c ≠ '<' := ne_of_mem_of_not_mem hc hraw
  simp [step, read, hreading, hlt]

theorem Clear.text (h : m.Clear us) {raw : List Char} (hne : raw ≠ []) (hraw : '<' ∉ raw) :
    (raw.foldl step m).Stands (us ++ [.text raw]) := by
  obtain ⟨start, hreading, hunits⟩ := h
  obtain ⟨hread, hkept⟩ := foldl_text hraw hreading
  refine ⟨start, _, hread, ?_⟩
  simp [emitText, hne, hkept, hunits]

/-- The machine after the `<` of the next unit. -/
theorem Stands.opened (h : m.Stands us) :
    ∃ start, (m.step '<').reading = .opened start ∧
      (m.step '<').units.map (·.unit) = us.reverse := by
  obtain ⟨start, seen, hreading, hunits⟩ := h
  exact ⟨m.offset, by simp [step, read, hreading], by simpa [step, read, hreading] using hunits⟩

/-! ## Tags -/

/-- Read inside a tag, the characters leave it open, and no quote with it. -/
def Enclosed (cs : List Char) : Prop :=
  ∀ (m : Machine) (start : Nat) (seen : List Char), m.reading = .tag start none seen →
    (cs.foldl step m).reading = .tag start none (cs.reverse ++ seen) ∧
      (cs.foldl step m).units = m.units

theorem Enclosed.append {xs ys : List Char} (hx : Enclosed xs) (hy : Enclosed ys) :
    Enclosed (xs ++ ys) := by
  intro m start seen h
  obtain ⟨hreading, hunits⟩ := hx m start seen h
  obtain ⟨hreading', hunits'⟩ := hy _ start _ hreading
  rw [List.foldl_append, List.reverse_append, List.append_assoc]
  exact ⟨hreading', hunits'.trans hunits⟩

theorem enclosed_of_plain {cs : List Char} (hgt : '>' ∉ cs)
    (hquote : ∀ c ∈ cs, isQuote c = false) : Enclosed cs := by
  intro m start seen h
  refine foldl_seen (R := .tag start none) (fun c hc m seen hreading => ?_) h
  have hclose : c ≠ '>' := ne_of_mem_of_not_mem hc hgt
  simp [step, read, hreading, stepTag, hclose, hquote c hc]

theorem enclosed_singleton {c : Char} (hgt : c ≠ '>') (hquote : isQuote c = false) :
    Enclosed [c] :=
  enclosed_of_plain (by simpa using Ne.symm hgt) (by simpa using hquote)

/-- Inside a quoted value, too, only the quote has a meaning. -/
theorem foldl_quoted {cs : List Char} (hcs : '"' ∉ cs) {start : Nat} {seen : List Char}
    (h : m.reading = .tag start (some '"') seen) :
    (cs.foldl step m).reading = .tag start (some '"') (cs.reverse ++ seen) ∧
      (cs.foldl step m).units = m.units := by
  refine foldl_seen (R := .tag start (some '"')) (fun c hc m seen hreading => ?_) h
  have hquote : c ≠ '"' := ne_of_mem_of_not_mem hc hcs
  simp [step, read, hreading, stepTag, hquote]

theorem step_quote {start : Nat} {seen : List Char} (h : m.reading = .tag start none seen) :
    (m.step '"').reading = .tag start (some '"') ('"' :: seen) ∧ (m.step '"').units = m.units := by
  simp [step, read, h, stepTag, isQuote]

theorem step_unquote {start : Nat} {seen : List Char}
    (h : m.reading = .tag start (some '"') seen) :
    (m.step '"').reading = .tag start none ('"' :: seen) ∧ (m.step '"').units = m.units := by
  simp [step, read, h, stepTag]

/-- A quoted value may hold anything but the quote. -/
theorem enclosed_quoted {cs : List Char} (h : '"' ∉ cs) : Enclosed ('"' :: (cs ++ ['"'])) := by
  intro m start seen hreading
  obtain ⟨hopen, hunits⟩ := step_quote hreading
  obtain ⟨hread, hunits'⟩ := foldl_quoted h hopen
  obtain ⟨hclose, hunits''⟩ := step_unquote hread
  rw [List.foldl_cons, List.foldl_append, List.foldl_cons, List.foldl_nil]
  exact ⟨by simpa using hclose, hunits''.trans (hunits'.trans hunits)⟩

/-- After the `<` of a tag the machine is as inside of one of which nothing was read. -/
theorem step_opened {start : Nat} (h : m.reading = .opened start) {c : Char} (hbang : c ≠ '!')
    (hquery : c ≠ '?') : m.step c = { m with reading := .tag start none [] }.step c := by
  have hread : m.read c = m.stepTag start none [] c := by
    simp only [read, h]
  have hinside : { m with reading := .tag start none [] }.read c = m.stepTag start none [] c := by
    simp only [read, stepTag, emit, skip]
  rw [step, step, hread, hinside]

theorem step_closeTag {start : Nat} {seen : List Char} (h : m.reading = .tag start none seen) :
    ∃ next, (m.step '>').reading = .text next [] ∧
      (m.step '>').units = ⟨start, tagOf seen.reverse⟩ :: m.units := by
  simp [step, read, h, stepTag, emit, skip]

/-- A tag is read from its `<` to its `>`. -/
theorem Stands.tag (h : m.Stands us) {content : List Char} (hcontent : Enclosed content)
    (hhead : ∀ c ∈ content.head?, c ≠ '!' ∧ c ≠ '?') :
    (('<' :: (content ++ ['>'])).foldl step m).Clear (us ++ [tagOf content]) := by
  obtain ⟨start, hreading, hunits⟩ := h.opened
  generalize hinside : { m.step '<' with reading := Reading.tag start none [] } = inside
  have hsame : (content ++ ['>']).foldl step (m.step '<') =
      (content ++ ['>']).foldl step inside := by
    subst hinside
    cases content with
    | nil => rw [List.nil_append, List.foldl_cons, List.foldl_cons,
        step_opened hreading (by decide) (by decide)]
    | cons c cs =>
        obtain ⟨hbang, hquery⟩ := hhead c rfl
        rw [List.cons_append, List.foldl_cons, List.foldl_cons,
          step_opened hreading hbang hquery]
  obtain ⟨hread, hkept⟩ := hcontent inside start [] (by rw [← hinside])
  rw [List.foldl_cons, hsame, List.foldl_append, List.foldl_cons, List.foldl_nil]
  obtain ⟨next, hclosed, hemitted⟩ := step_closeTag hread
  refine ⟨next, hclosed, ?_⟩
  rw [hemitted, hkept, ← hinside, List.map_cons, hunits, List.append_nil, List.reverse_reverse,
    List.reverse_concat]

/-! ## Comments -/

/-- Of the characters of a comment that were seen, `>` ends the comment only after `--` that
follows the opening. -/
theorem stepComment_of_open {start : Nat} {seen : List Char} {c : Char}
    (hopen : ∀ before, c = '>' → seen = '-' :: '-' :: before → before.length < 3) :
    m.stepComment start seen c = { m with reading := .comment start (c :: seen) } := by
  unfold stepComment
  split
  · next before => rw [if_neg (Nat.not_le.mpr (hopen before rfl rfl))]
  · rfl

/-- What was seen of a comment with nothing that ends it. -/
def seenOf (content : List Char) : List Char := content.reverse ++ ['-', '-', '!']

theorem eq_of_seenOf {content before : List Char} (hseen : seenOf content = '-' :: '-' :: before)
    (hlong : 3 ≤ before.length) : ∃ init, content = init ++ ['-', '-'] := by
  rw [seenOf] at hseen
  cases hcontent : content.reverse with
  | nil =>
      rw [hcontent] at hseen
      cases hseen
      simp at hlong
  | cons last init =>
      cases init with
      | nil =>
          rw [hcontent] at hseen
          cases hseen
          simp at hlong
      | cons second init =>
          rw [hcontent] at hseen
          cases hseen
          exact ⟨init.reverse, by rw [← List.reverse_reverse content, hcontent]; simp⟩

theorem foldl_comment {content done : List Char} (huncut : Uncut (done ++ content)) {start : Nat}
    (h : m.reading = .comment start (seenOf done)) :
    (content.foldl step m).reading = .comment start (seenOf (done ++ content)) ∧
      (content.foldl step m).units = m.units := by
  induction content generalizing m done with
  | nil => exact ⟨by rw [List.append_nil]; exact h, rfl⟩
  | cons c content ih =>
      have hopen : ∀ before, c = '>' → seenOf done = '-' :: '-' :: before → before.length < 3 := by
        rintro before rfl hseen
        refine Nat.lt_of_not_le fun hlong => huncut ?_
        obtain ⟨init, rfl⟩ := eq_of_seenOf hseen hlong
        exact ⟨init, content, by simp⟩
      have hstep : (m.step c).reading = .comment start (seenOf (done ++ [c])) ∧
          (m.step c).units = m.units := by
        rw [seenOf, List.reverse_append]
        simp [step, read, h, stepComment_of_open hopen]
        rfl
      rw [List.append_cons] at huncut
      obtain ⟨hread, hunits⟩ := ih huncut hstep.1
      rw [List.foldl_cons, List.append_cons]
      exact ⟨hread, hunits.trans hstep.2⟩

theorem comment?_seenOf (content : List Char) :
    comment? ('-' :: '-' :: seenOf content) = some content := by
  simp [comment?, seenOf]

theorem foldl_openComment {start : Nat} (h : m.reading = .opened start) :
    (['!', '-', '-'].foldl step m).reading = .comment start (seenOf []) ∧
      (['!', '-', '-'].foldl step m).units = m.units := by
  simp [step, read, h, stepComment, seenOf]

theorem foldl_dashes {start : Nat} {seen : List Char} (h : m.reading = .comment start seen) :
    (['-', '-'].foldl step m).reading = .comment start ('-' :: '-' :: seen) ∧
      (['-', '-'].foldl step m).units = m.units := by
  simp [step, read, h, stepComment]

theorem step_closeComment {start : Nat} {content : List Char}
    (h : m.reading = .comment start ('-' :: '-' :: seenOf content)) :
    ∃ next, (m.step '>').reading = .text next [] ∧
      (m.step '>').units = ⟨start, .comment content⟩ :: m.units := by
  have hlength : 3 ≤ (seenOf content).length := by simp [seenOf]
  simp [step, read, h, stepComment, hlength, comment?_seenOf, emit, skip]

theorem Stands.comment (h : m.Stands us) {content : List Char} (huncut : Uncut content) :
    ((chars (.comment content)).foldl step m).Clear (us ++ [.comment content]) := by
  obtain ⟨start, hopened, hunits⟩ := h.opened
  obtain ⟨hbegun, hkept⟩ := foldl_openComment hopened
  obtain ⟨hread, hkept'⟩ := @foldl_comment _ _ [] huncut _ hbegun
  obtain ⟨hdashes, hkept''⟩ := foldl_dashes hread
  obtain ⟨next, hclosed, hemitted⟩ := step_closeComment hdashes
  have hchars : (chars (.comment content)).foldl step m =
      (['-', '-'].foldl step (content.foldl step (['!', '-', '-'].foldl step (m.step '<')))).step
        '>' := by
    simp only [chars, List.foldl_append, List.foldl_cons, List.foldl_nil]
  rw [hchars]
  refine ⟨next, hclosed, ?_⟩
  rw [hemitted, hkept'', hkept', hkept, List.map_cons, hunits, List.reverse_concat, List.nil_append]

/-! ## Whole units -/

/-- The content of a tag that is read as it was written. -/
structure TagContent (content : List Char) : Prop where
  enclosed : Enclosed content
  head : ∀ c ∈ content.head?, c ≠ '!' ∧ c ≠ '?' ∧ c ≠ '/'

/-- The unit is read as it was written. -/
inductive Whole : Markup → Prop
  | text {raw : List Char} (hne : raw ≠ []) (hraw : '<' ∉ raw) : Whole (.text raw)
  | comment {content : List Char} (huncut : Uncut content) : Whole (.comment content)
  | startTag {content : List Char} (hcontent : TagContent content)
      (hlast : ∀ c ∈ content.getLast?, c ≠ '/') : Whole (.startTag content)
  | emptyTag {content : List Char} (hcontent : TagContent content) (hne : content ≠ []) :
      Whole (.emptyTag content)
  | endTag {name : List Char} (hname : Enclosed name)
      (hlast : ∀ c ∈ name.getLast?, isSpace c = false) : Whole (.endTag name)

theorem tagOf_startTag {content : List Char} (hcontent : TagContent content)
    (hlast : ∀ c ∈ content.getLast?, c ≠ '/') : tagOf content = .startTag content := by
  unfold tagOf
  split
  · exact absurd rfl (hcontent.head '/' rfl).2.2
  · rw [if_neg]
    intro hslash
    exact hlast '/' (by simpa using hslash) rfl

theorem tagOf_emptyTag {content : List Char} (hcontent : TagContent content) (hne : content ≠ []) :
    tagOf (content ++ ['/']) = .emptyTag content := by
  unfold tagOf
  split
  · next name heq =>
      obtain ⟨c, rest, rfl⟩ := List.exists_cons_of_ne_nil hne
      cases heq
      exact absurd rfl (hcontent.head '/' rfl).2.2
  · rw [if_pos (by simp), List.dropLast_concat]

theorem tagOf_endTag {name : List Char} (hlast : ∀ c ∈ name.getLast?, isSpace c = false) :
    tagOf ('/' :: name) = .endTag name := by
  have hdrop : name.reverse.dropWhile isSpace = name.reverse := by
    cases hname : name.reverse with
    | nil => rfl
    | cons c rest =>
        have hlastOf : name.getLast? = some c := by
          rw [← List.reverse_reverse name, hname, List.getLast?_reverse]
          rfl
        rw [List.dropWhile_cons, if_neg (by simp [hlast c hlastOf])]
  have htag : tagOf ('/' :: name) = .endTag (endName name) := rfl
  rw [htag, endName, hdrop]
  split
  · rfl
  · rw [List.reverse_reverse]

/-- A whole unit that is no text is read from wherever the machine stands. -/
theorem Stands.whole (h : m.Stands us) {u : Markup} (hu : Whole u) (htext : u.isText = false) :
    (u.chars.foldl step m).Clear (us ++ [u]) := by
  cases hu with
  | text hne hraw => cases htext
  | comment huncut => exact h.comment huncut
  | startTag hcontent hlast =>
      have htag := h.tag hcontent.enclosed fun c hc =>
        ⟨(hcontent.head c hc).1, (hcontent.head c hc).2.1⟩
      rwa [tagOf_startTag hcontent hlast] at htag
  | @emptyTag content hcontent hne =>
      have hslash : Enclosed ['/'] := enclosed_singleton (by decide) (by decide)
      have htag := h.tag (hcontent.enclosed.append hslash) (fun c hc => by
        rw [List.head?_append_of_ne_nil _ hne] at hc
        exact ⟨(hcontent.head c hc).1, (hcontent.head c hc).2.1⟩)
      rw [tagOf_emptyTag hcontent hne, List.append_assoc] at htag
      exact htag
  | endTag hname hlast =>
      have hslash : Enclosed ['/'] := enclosed_singleton (by decide) (by decide)
      have htag := h.tag (hslash.append hname) (fun c hc => by
        cases hc
        exact ⟨by decide, by decide⟩)
      rw [List.singleton_append, tagOf_endTag hlast] at htag
      exact htag

/-- Whole units are read one after the other, if a text is never followed by another. -/
theorem foldl_chars {rest : List Markup} (hwhole : ∀ u ∈ rest, Whole u)
    (hapart : TextsApart rest)
    (h : m.Clear us ∨ m.Stands us ∧ ∀ u ∈ rest.head?, u.isText = false) :
    ((rest.flatMap chars).foldl step m).Stands (us ++ rest) := by
  induction rest generalizing m us with
  | nil =>
      rw [List.append_nil]
      exact h.elim Clear.stands And.left
  | cons u rest ih =>
      rw [List.flatMap_cons, List.foldl_append, List.append_cons]
      refine ih (fun v hv => hwhole v (List.mem_cons_of_mem _ hv)) hapart.tail ?_
      have hu := hwhole u List.mem_cons_self
      cases htext : u.isText with
      | false =>
          have hstands : m.Stands us := h.elim Clear.stands And.left
          exact .inl (hstands.whole hu htext)
      | true =>
          cases hu with
          | text hne hraw =>
              have hclear : m.Clear us := h.resolve_right fun hstands =>
                Bool.noConfusion (hstands.2 _ rfl)
              refine .inr ⟨hclear.text hne hraw, fun v hv => ?_⟩
              cases rest with
              | nil => cases hv
              | cons next rest =>
                  cases hv
                  have := (List.isChain_cons_cons.mp hapart).1
                  simpa [isText] using this
          | _ => cases htext

/-! ## Comments that were read -/

/-- Of what was seen of a comment, no `>` ends it. -/
def Open (seen : List Char) : Prop :=
  ∀ after before, seen = after ++ '>' :: '-' :: '-' :: before → before.length < 3

theorem open_of_not_mem {seen : List Char} (h : '>' ∉ seen) : Open seen := by
  rintro after before rfl
  exact absurd (by simp) h

theorem Open.cons {seen : List Char} (h : Open seen) {c : Char}
    (hopen : ∀ before, c = '>' → seen = '-' :: '-' :: before → before.length < 3) :
    Open (c :: seen) := by
  intro after before hsplit
  cases after with
  | nil =>
      cases hsplit
      exact hopen before rfl rfl
  | cons d after =>
      cases hsplit
      exact h after before rfl

/-- The comments among the units can be written again, and the one that is being read is open. -/
structure Uncutting (m : Machine) : Prop where
  units : ∀ u ∈ m.units, ∀ content, u.unit = .comment content → Uncut content
  reading : ∀ start seen, m.reading = .comment start seen → Open seen

/-- The content of a comment is all that was seen of it but the dashes. -/
theorem eq_seenOf {before content : List Char} (hlong : 3 ≤ before.length)
    (h : comment? ('-' :: '-' :: before) = some content) : before = seenOf content := by
  obtain ⟨first, second, third, rest, hbefore⟩ :
      ∃ first second third rest, before.reverse = first :: second :: third :: rest := by
    rw [← List.length_reverse] at hlong
    match hreverse : before.reverse, hlong with
    | first :: second :: third :: rest, _ => exact ⟨first, second, third, rest, rfl⟩
  have hsplit : before = rest.reverse ++ [third, second, first] := by
    rw [← List.reverse_reverse before, hbefore]
    simp
  rw [comment?, List.reverse_cons, List.reverse_cons, hbefore] at h
  split at h
  · next rest' heq =>
      cases h
      cases heq
      rw [hsplit, seenOf]
      simp
  · cases h

theorem uncut_of_open {content : List Char} (h : Open ('-' :: '-' :: seenOf content)) :
    Uncut content := by
  rintro ⟨before, after, rfl⟩
  have hlength := h ('-' :: '-' :: after.reverse) (seenOf before) (by simp [seenOf])
  rw [seenOf, List.length_append] at hlength
  exact absurd hlength (Nat.not_lt.mpr (Nat.le_add_left 3 _))

theorem Uncutting.emit {u : Markup} (h : m.Uncutting) (c : Char) (position : Nat)
    (hu : ∀ content, u = .comment content → Uncut content) : (m.emit c position u).Uncutting := by
  refine ⟨fun v hv content hcontent => ?_, fun start seen hreading => by cases hreading⟩
  rcases List.mem_cons.mp hv with rfl | hv
  · exact hu content hcontent
  · exact h.units v hv content hcontent

theorem Uncutting.emitText (h : m.Uncutting) (start : Nat) (seen : List Char) :
    ∀ u ∈ m.emitText start seen, ∀ content, u.unit = .comment content → Uncut content := by
  intro u hu content hcontent
  rw [Machine.emitText] at hu
  split at hu
  · exact h.units u hu content hcontent
  · rcases List.mem_cons.mp hu with rfl | hu
    · cases hcontent
    · exact h.units u hu content hcontent

theorem tagOf_ne_comment (cs content : List Char) : tagOf cs ≠ .comment content := by
  unfold tagOf
  split
  · simp
  · split <;> simp

theorem Uncutting.stepTag (h : m.Uncutting) (start : Nat) (quote : Option Char) (seen : List Char)
    (c : Char) : (m.stepTag start quote seen c).Uncutting := by
  unfold Machine.stepTag
  split
  · exact ⟨h.units, by simp⟩
  · split
    · exact h.emit c start fun content hcontent => absurd hcontent (tagOf_ne_comment _ content)
    · exact ⟨h.units, by simp⟩

theorem Uncutting.stepComment (h : m.Uncutting) {start : Nat} {seen : List Char}
    (hreading : m.reading = .comment start seen) (c : Char) :
    (m.stepComment start seen c).Uncutting := by
  have hseen := h.reading start seen hreading
  unfold Machine.stepComment
  split
  · next before =>
      split
      · next hlong =>
          split
          · next content hcontent =>
              refine h.emit '>' start fun other hother => ?_
              cases hother
              rw [eq_seenOf hlong hcontent] at hseen
              exact uncut_of_open hseen
          · exact ⟨h.units, by simp [fail]⟩
      · next hshort =>
          refine ⟨h.units, fun start seen hreading => ?_⟩
          cases hreading
          refine hseen.cons fun other _ hother => ?_
          cases hother
          exact Nat.lt_of_not_le hshort
  · next hother =>
      refine ⟨h.units, fun start seen hreading => ?_⟩
      cases hreading
      exact hseen.cons fun before hc hseen => absurd hseen (hother before hc)

theorem Uncutting.step (h : m.Uncutting) (c : Char) : (m.step c).Uncutting := by
  suffices hread : (m.read c).Uncutting from ⟨hread.units, hread.reading⟩
  unfold read
  split
  · exact h
  · split
    · exact ⟨h.emitText _ _, by simp⟩
    · exact ⟨h.units, by simp⟩
  · split
    · exact ⟨h.units, by simp⟩
    · exact ⟨h.units, by simp⟩
    · exact h.stepTag _ _ _ _
  · split
    · refine ⟨h.units, fun start seen hreading => ?_⟩
      cases hreading
      exact open_of_not_mem (by decide)
    all_goals exact ⟨h.units, by simp [fail]⟩
  · next start seen hreading => exact h.stepComment hreading c
  · unfold stepCData
    split
    · split
      · exact h.emit _ _ (by simp)
      · exact ⟨h.units, by simp [fail]⟩
    · exact ⟨h.units, by simp⟩
  · unfold stepDoctype
    split
    · exact ⟨h.units, by simp⟩
    · exact ⟨h.units, by simp⟩
    · split
      · split
        · exact ⟨h.units, by simp [fail]⟩
        · exact ⟨h.units, by simp [skip]⟩
      · exact ⟨h.units, by simp [fail]⟩
    · exact ⟨h.units, by simp⟩
  · unfold stepInstruction
    split
    · exact ⟨h.units, by simp [fail]⟩
    · exact ⟨h.units, by simp [skip]⟩
    · exact ⟨h.units, by simp⟩
  · exact h.stepTag _ _ _ _

theorem Uncutting.finish (h : m.Uncutting) :
    ∀ u ∈ m.finish.1, ∀ content, u.unit = .comment content → Uncut content := by
  unfold Machine.finish
  split
  case h_2 start seen hreading => exact h.emitText start seen
  all_goals exact h.units

end Machine

open Machine

/-- Whole units are what their characters are cut into. -/
theorem units_chars {us : List Markup} (hwhole : ∀ u ∈ us, Whole u) (hapart : TextsApart us) :
    ∃ located, units (us.flatMap chars) = (located, none) ∧ located.map (·.unit) = us := by
  obtain ⟨start, seen, hreading, hunits⟩ :=
    @foldl_chars {} [] us hwhole hapart (.inl ⟨0, rfl, rfl⟩)
  refine ⟨_, by rw [units, finish, hreading], ?_⟩
  rw [List.map_reverse, hunits, List.reverse_reverse, List.nil_append]

/-- The comments of a text can be written again. -/
theorem uncut_of_units {cs : List Char} {u : Located} (h : u ∈ (units cs).1)
    {content : List Char} (hcontent : u.unit = .comment content) : Uncut content := by
  have hstart : Uncutting {} := ⟨by simp, by simp⟩
  have hcut := (List.foldlRecOn cs step hstart fun m hm c _ => hm.step c).finish
  exact hcut u (List.mem_reverse.mp h) content hcontent

end Schematron.Xml.Markup
