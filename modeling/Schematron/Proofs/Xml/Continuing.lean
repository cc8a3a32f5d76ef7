import Schematron.Proofs.Xml.Cutting

/-!
# Reading on

What the machine makes of the rest of a text does not depend on where in the text it stands, nor on
the units before (`Machine.Aligned`). So the units of a text are, positions apart, those of its
first part, the text up to the next `<`, and the units of what is left from there on
(`Machine.finish_foldl`).

A comment that is left out of a text (`DropsComment`) is therefore missing among the units, and
nothing else changes but that the texts on both sides of it are one (`units_of_dropsComment`). Each
comment that the machine reads can be left out (`exists_dropsComment_of_units`); markup inside of a
document type declaration is none that it reads.
-/

namespace Schematron.Xml.Markup

/-- What is being read, wherever it stands. -/
def Reading.unplaced : Reading → Reading
  | .text _ seen => .text 0 seen
  | .opened _ => .opened 0
  | .declaration _ => .declaration 0
  | .comment _ seen => .comment 0 seen
  | .cdata _ seen => .cdata 0 seen
  | .doctype _ depth seen => .doctype 0 depth seen
  | .instruction _ seen => .instruction 0 seen
  | .tag _ quote seen => .tag 0 quote seen
  | .failed _ cause => .failed 0 cause

/-- A run of text, if there is any. -/
def textUnits (raw : List Char) : List Markup := if raw.isEmpty then [] else [.text raw]

namespace Machine

/-- Positions apart, the machines read the same, and have recorded the same units since they had
recorded these. -/
structure Aligned (base base' : List Located) (m m' : Machine) : Prop where
  reading : m.reading.unplaced = m'.reading.unplaced
  units : ∃ new new', m.units = new ++ base ∧ m'.units = new' ++ base' ∧
    new.map (·.unit) = new'.map (·.unit)

namespace Aligned

variable {base base' : List Located} {m m' : Machine}

theorem of_reading (h : m.reading.unplaced = m'.reading.unplaced) :
    Aligned m.units m'.units m m' := ⟨h, [], [], rfl, rfl, rfl⟩

/-- Something else is read, without a new unit. -/
theorem reads (h : Aligned base base' m m') {reading reading' : Reading}
    (hreading : reading.unplaced = reading'.unplaced) :
    Aligned base base' { m with reading } { m' with reading := reading' } := ⟨hreading, h.units⟩

/-- One more unit is recorded, and something else is read. -/
theorem records (h : Aligned base base' m m') (position position' : Nat) (unit : Markup)
    {reading reading' : Reading} (hreading : reading.unplaced = reading'.unplaced) :
    Aligned base base' { m with units := ⟨position, unit⟩ :: m.units, reading }
      { m' with units := ⟨position', unit⟩ :: m'.units, reading := reading' } := by
  obtain ⟨new, new', hunits, hunits', hnew⟩ := h.units
  exact ⟨hreading, ⟨position, unit⟩ :: new, ⟨position', unit⟩ :: new', by simp [hunits],
    by simp [hunits'], by simp [hnew]⟩

theorem recordsText (h : Aligned base base' m m') (start start' : Nat) (seen : List Char)
    {reading reading' : Reading} (hreading : reading.unplaced = reading'.unplaced) :
    Aligned base base' { m with units := m.emitText start seen, reading }
      { m' with units := m'.emitText start' seen, reading := reading' } := by
  rw [emitText, emitText]
  split
  · exact h.reads hreading
  · exact h.records start start' _ hreading

theorem emit (h : Aligned base base' m m') (c : Char) (position position' : Nat) (unit : Markup) :
    Aligned base base' (m.emit c position unit) (m'.emit c position' unit) :=
  h.records position position' unit rfl

theorem skip (h : Aligned base base' m m') (c : Char) :
    Aligned base base' (m.skip c) (m'.skip c) := h.reads rfl

theorem fail (h : Aligned base base' m m') (position position' : Nat) (cause : Malformation) :
    Aligned base base' (m.fail position cause) (m'.fail position' cause) := h.reads rfl

theorem stepTag (h : Aligned base base' m m') (start start' : Nat) (quote : Option Char)
    (seen : List Char) (c : Char) :
    Aligned base base' (m.stepTag start quote seen c) (m'.stepTag start' quote seen c) := by
  unfold Machine.stepTag
  split
  · exact h.reads rfl
  · split
    · exact h.emit c start start' _
    · exact h.reads rfl

theorem stepComment (h : Aligned base base' m m') (start start' : Nat) (seen : List Char)
    (c : Char) :
    Aligned base base' (m.stepComment start seen c) (m'.stepComment start' seen c) := by
  unfold Machine.stepComment
  split
  · split
    · split
      · exact h.emit _ start start' _
      · exact h.fail start start' _
    · exact h.reads rfl
  · exact h.reads rfl

theorem stepCData (h : Aligned base base' m m') (start start' : Nat) (seen : List Char)
    (c : Char) :
    Aligned base base' (m.stepCData start seen c) (m'.stepCData start' seen c) := by
  unfold Machine.stepCData
  split
  · split
    · exact h.emit _ start start' _
    · exact h.fail start start' _
  · exact h.reads rfl

theorem stepDoctype (h : Aligned base base' m m') (start start' depth : Nat) (seen : List Char)
    (c : Char) :
    Aligned base base' (m.stepDoctype start depth seen c) (m'.stepDoctype start' depth seen c) := by
  unfold Machine.stepDoctype
  split
  · exact h.reads rfl
  · exact h.reads rfl
  · split
    · split
      · exact h.fail _ _ _
      · exact h.skip _
    · exact h.fail start start' _
  · exact h.reads rfl

theorem stepInstruction (h : Aligned base base' m m') (start start' : Nat) (seen : List Char)
    (c : Char) :
    Aligned base base' (m.stepInstruction start seen c) (m'.stepInstruction start' seen c) := by
  unfold Machine.stepInstruction
  split
  · exact h.fail start start' _
  · exact h.skip _
  · exact h.reads rfl

theorem read (h : Aligned base base' m m') (c : Char) :
    Aligned base base' (m.read c) (m'.read c) := by
  have hreading := h.reading
  unfold Machine.read
  cases hm : m.reading <;> cases hm' : m'.reading <;> rw [hm, hm'] at hreading <;> cases hreading
  case text.text.refl start seen start' =>
    dsimp only
    split
    · exact h.recordsText start start' seen rfl
    · exact h.reads rfl
  case opened.opened.refl start start' =>
    dsimp only
    split
    · exact h.reads rfl
    · exact h.reads rfl
    · exact h.stepTag start start' none [] c
  case declaration.declaration.refl start start' =>
    dsimp only
    split
    · exact h.reads rfl
    · exact h.reads rfl
    · exact h.reads rfl
    · exact h.reads rfl
    · exact h.fail start start' _
  case comment.comment.refl start seen start' => exact h.stepComment start start' seen c
  case cdata.cdata.refl start seen start' => exact h.stepCData start start' seen c
  case doctype.doctype.refl start depth seen start' => exact h.stepDoctype start start' depth seen c
  case instruction.instruction.refl start seen start' => exact h.stepInstruction start start' seen c
  case tag.tag.refl start quote seen start' => exact h.stepTag start start' quote seen c
  case failed.failed.refl => exact h

/-- The machines stay aligned while they read the same characters. -/
theorem foldl (h : Aligned base base' m m') (cs : List Char) :
    Aligned base base' (cs.foldl step m) (cs.foldl step m') := by
  induction cs generalizing m m' with
  | nil => exact h
  | cons c cs ih =>
      have hread := h.read c
      exact ih ⟨hread.reading, hread.units⟩

/-- Aligned machines come to the same end. -/
theorem finish (h : Aligned base base' m m') :
    (∃ new new', m.finish.1 = new ++ base ∧ m'.finish.1 = new' ++ base' ∧
      new.map (·.unit) = new'.map (·.unit)) ∧ m.finish.2.isNone = m'.finish.2.isNone := by
  have hreading := h.reading
  unfold Machine.finish
  cases hm : m.reading <;> cases hm' : m'.reading <;> rw [hm, hm'] at hreading <;> cases hreading
  case text.text.refl start seen start' =>
    have hreads : (Reading.text 0 []).unplaced = (Reading.text 0 []).unplaced := rfl
    exact ⟨(h.recordsText start start' seen hreads).units, rfl⟩
  all_goals exact ⟨h.units, rfl⟩

end Aligned

/-! ## The units of what is left -/

theorem map_emitText (m : Machine) (start : Nat) (seen : List Char) :
    (m.emitText start seen).reverse.map (·.unit) =
      m.units.reverse.map (·.unit) ++ textUnits seen.reverse := by
  rw [emitText, textUnits, List.isEmpty_reverse]
  split
  · exact (List.append_nil _).symm
  · simp

/-- From places where text is read, machines that read markup are aligned. -/
theorem aligned_of_text {m m' : Machine} {start start' : Nat} {seen seen' : List Char}
    (h : m.reading = .text start seen) (h' : m'.reading = .text start' seen') (rest : List Char) :
    Aligned (m.emitText start seen) (m'.emitText start' seen') (('<' :: rest).foldl step m)
      (('<' :: rest).foldl step m') := by
  have hunits : (m.step '<').units = m.emitText start seen := by simp [step, read, h]
  have hunits' : (m'.step '<').units = m'.emitText start' seen' := by simp [step, read, h']
  rw [← hunits, ← hunits']
  refine (Aligned.of_reading ?_).foldl rest
  simp [step, read, h, h', Reading.unplaced]

/-- From a place where text is read, the units are those before, the run of text up to the next
`<`, and the units of what is left from there on. -/
theorem finish_foldl {m : Machine} {start : Nat} {seen : List Char}
    (h : m.reading = .text start seen) {raw rest : List Char} (hraw : '<' ∉ raw)
    (hrest : ∀ c ∈ rest.head?, c = '<') :
    ((raw ++ rest).foldl step m).finish.1.reverse.map (·.unit) =
        m.units.reverse.map (·.unit) ++ textUnits (seen.reverse ++ raw) ++
          (Markup.units rest).1.map (·.unit) ∧
      ((raw ++ rest).foldl step m).finish.2.isNone = (Markup.units rest).2.isNone := by
  obtain ⟨hreading, hunits⟩ := foldl_text hraw h
  rw [List.foldl_append]
  generalize raw.foldl step m = mid at hreading hunits
  have hseen : seen.reverse ++ raw = (raw.reverse ++ seen).reverse := by simp
  rw [hseen, ← hunits, ← map_emitText mid start]
  cases rest with
  | nil =>
      rw [List.foldl_nil, finish, hreading]
      exact ⟨(List.append_nil _).symm, rfl⟩
  | cons c rest =>
      obtain rfl := hrest c rfl
      -- after the `<` the machine is aligned with one that begins to read there
      have hbegin : ({} : Machine).reading = .text 0 [] := rfl
      obtain ⟨⟨new, new', hnew, hnew', hsame⟩, hfault⟩ :=
        (aligned_of_text hreading hbegin rest).finish
      have hfirst : (Markup.units ('<' :: rest)).1 = new'.reverse := by
        rw [Markup.units]
        dsimp only
        rw [hnew']
        exact congrArg _ (List.append_nil new')
      rw [hnew, hfirst]
      refine ⟨?_, hfault⟩
      rw [List.reverse_append, List.map_append]
      exact congrArg _ (by rw [List.map_reverse, hsame, ← List.map_reverse])

end Machine

/-- A text is a run of text and what is left from the first `<` on. -/
theorem exists_run (cs : List Char) :
    ∃ raw rest, cs = raw ++ rest ∧ '<' ∉ raw ∧ ∀ c ∈ rest.head?, c = '<' := by
  induction cs with
  | nil => exact ⟨[], [], rfl, List.not_mem_nil, nofun⟩
  | cons c cs ih =>
      by_cases hc : c = '<'
      · exact ⟨[], c :: cs, rfl, List.not_mem_nil, by simpa using hc⟩
      · obtain ⟨raw, rest, rfl, hraw, hrest⟩ := ih
        exact ⟨c :: raw, rest, rfl, by simpa [hraw] using Ne.symm hc, hrest⟩

/-- After these characters text is read: they end outside of all markup. -/
def Outside (cs : List Char) : Prop :=
  ∃ start seen, (cs.foldl Machine.step {}).reading = .text start seen

/-- Where markup ends does not depend on the text before it. -/
theorem Outside.tail {c : Char} {cs : List Char} (h : Outside (c :: cs)) (hc : c ≠ '<') :
    Outside cs := by
  obtain ⟨start, seen, h⟩ := h
  have hfirst : (Machine.step {} c).reading = .text 0 [c] := by
    simp [Machine.step, Machine.read, hc]
  have hbegin : ({} : Machine).reading = .text 0 [] := rfl
  obtain ⟨raw, rest, rfl, hraw, hrest⟩ := exists_run cs
  rw [List.foldl_cons, List.foldl_append] at h
  rw [Outside, List.foldl_append]
  obtain ⟨hreading, -⟩ := Machine.foldl_text hraw hfirst
  obtain ⟨hreading', -⟩ := Machine.foldl_text hraw hbegin
  cases rest with
  | nil => exact ⟨_, _, hreading'⟩
  | cons next rest =>
      obtain rfl := hrest next rfl
      have haligned := (Machine.aligned_of_text hreading hreading' rest).reading
      rw [h] at haligned
      cases hend : (('<' :: rest).foldl Machine.step (raw.foldl Machine.step {})).reading with
      | text start' seen' => exact ⟨start', seen', rfl⟩
      | _ =>
          rw [hend] at haligned
          cases haligned

/-- The second text is the first one without one of its comments. -/
inductive DropsComment : List Char → List Char → Prop
  | drop {before content : List Char} (after : List Char) (houtside : Outside before)
      (huncut : Uncut content) :
      DropsComment (before ++ chars (.comment content) ++ after) (before ++ after)

/-! ## Where comments are read -/

namespace Machine

variable {m : Machine} {c : Char} {start : Nat}

theorem opened_of_read (h : (m.read c).reading = .opened start) :
    c = '<' ∧ ∃ begun seen, m.reading = .text begun seen := by
  unfold read at h
  cases hm : m.reading <;> rw [hm] at h <;>
    simp only [stepTag, stepComment, stepCData, stepDoctype, stepInstruction, emit, skip, fail]
      at h <;> grind

theorem declaration_of_read (h : (m.read c).reading = .declaration start) :
    c = '!' ∧ m.reading = .opened start := by
  unfold read at h
  cases hm : m.reading <;> rw [hm] at h <;>
    simp only [stepTag, stepComment, stepCData, stepDoctype, stepInstruction, emit, skip, fail]
      at h <;> grind

theorem comment_of_read {seen : List Char} (h : (m.read c).reading = .comment start seen) :
    (c = '-' ∧ seen = ['-', '!'] ∧ m.reading = .declaration start) ∨
      ∃ before, seen = c :: before ∧ m.reading = .comment start before := by
  unfold read at h
  cases hm : m.reading <;> rw [hm] at h <;>
    simp only [stepTag, stepComment, stepCData, stepDoctype, stepInstruction, emit, skip, fail]
      at h <;> grind

/-- A comment is recorded when its last character is read. -/
theorem units_of_read {u : Located} {content : List Char} (h : u ∈ (m.read c).units)
    (hu : u.unit = .comment content) :
    u ∈ m.units ∨ c = '>' ∧ ∃ start, m.reading = .comment start ('-' :: '-' :: seenOf content) := by
  unfold read at h
  cases hm : m.reading with
  | comment start seen =>
      rw [hm] at h
      dsimp only at h
      unfold stepComment at h
      split at h
      · split at h
        · next hlong =>
            split at h
            · next other hother =>
                rcases List.mem_cons.mp h with rfl | h
                · cases hu
                  rw [eq_seenOf hlong hother]
                  exact .inr ⟨rfl, start, rfl⟩
                · exact .inl h
            · exact .inl h
        · exact .inl h
      · exact .inl h
  | _ =>
      -- what else is recorded is no comment
      left
      rw [hm] at h
      simp only [emitText, stepTag, stepCData, stepDoctype, stepInstruction, emit, skip, fail] at h
      have htag := tagOf_ne_comment
      grind

end Machine

theorem exists_of_reading_declaration {cs : List Char} {start : Nat}
    (h : (cs.foldl Machine.step {}).reading = .declaration start) :
    ∃ before, cs = before ++ ['<', '!'] ∧ Outside before := by
  rcases List.eq_nil_or_concat' cs with rfl | ⟨opened, c, rfl⟩
  · cases h
  · rw [List.foldl_concat] at h
    obtain ⟨rfl, hopened⟩ := Machine.declaration_of_read h
    rcases List.eq_nil_or_concat' opened with rfl | ⟨before, d, rfl⟩
    · cases hopened
    · rw [List.foldl_concat] at hopened
      obtain ⟨rfl, houtside⟩ := Machine.opened_of_read hopened
      exact ⟨before, by simp, houtside⟩

/-- The characters up to a place in a comment are those before the comment, outside of all markup,
and those that were seen of it. -/
theorem exists_of_reading_comment {cs : List Char} {start : Nat} {seen : List Char}
    (h : (cs.foldl Machine.step {}).reading = .comment start seen) :
    ∃ before, cs = before ++ '<' :: seen.reverse ∧ Outside before := by
  induction cs using List.reverseRecOn generalizing seen with
  | nil => cases h
  | append_singleton cs c ih =>
      rw [List.foldl_concat] at h
      rcases Machine.comment_of_read h with ⟨rfl, rfl, hreading⟩ | ⟨seen, rfl, hreading⟩
      · obtain ⟨before, rfl, houtside⟩ := exists_of_reading_declaration hreading
        exact ⟨before, by simp, houtside⟩
      · obtain ⟨before, rfl, houtside⟩ := ih hreading
        exact ⟨before, by simp, houtside⟩

/-- Each comment that is read can be left out. -/
theorem exists_dropsComment_of_units {cs : List Char} {u : Located} (h : u ∈ (units cs).1)
    {content : List Char} (hcontent : u.unit = .comment content) :
    ∃ before after, cs = before ++ chars (.comment content) ++ after ∧
      DropsComment cs (before ++ after) := by
  have huncut := uncut_of_units h hcontent
  suffices hsuffices : ∃ before after, cs = before ++ chars (.comment content) ++ after ∧
      Outside before by
    obtain ⟨before, after, rfl, houtside⟩ := hsuffices
    exact ⟨before, after, rfl, .drop after houtside huncut⟩
  have hmem : u ∈ (cs.foldl Machine.step {}).units := by
    have hfinish : u ∈ (cs.foldl Machine.step {}).finish.1 := List.mem_reverse.mp h
    unfold Machine.finish at hfinish
    split at hfinish <;> try exact hfinish
    rw [Machine.emitText] at hfinish
    split at hfinish
    · exact hfinish
    · rcases List.mem_cons.mp hfinish with rfl | hfinish
      · cases hcontent
      · exact hfinish
  clear h
  induction cs using List.reverseRecOn with
  | nil => cases hmem
  | append_singleton cs c ih =>
      rw [List.foldl_concat] at hmem
      rcases Machine.units_of_read hmem hcontent with hmem | ⟨rfl, start, hreading⟩
      · obtain ⟨before, after, rfl, houtside⟩ := ih hmem
        exact ⟨before, after ++ [c], by simp, houtside⟩
      · obtain ⟨before, rfl, houtside⟩ := exists_of_reading_comment hreading
        exact ⟨before, [], by simp [chars, Machine.seenOf], houtside⟩

/-! ## Units without a comment -/

/-- Of the units of a text without a comment the comment is missing, and the texts on both sides
of it are one. -/
theorem units_of_dropsComment {cs cs' : List Char} (h : DropsComment cs cs') :
    ∃ earlier text content raw later,
      (units cs).1.map (·.unit) =
        earlier ++ textUnits text ++ [.comment content] ++ textUnits raw ++ later ∧
      (units cs').1.map (·.unit) = earlier ++ textUnits (text ++ raw) ++ later ∧
      (units cs).2.isNone = (units cs').2.isNone := by
  obtain @⟨before, content, after, ⟨start, seen, hreading⟩, huncut⟩ := h
  obtain ⟨raw, rest, rfl, hraw, hrest⟩ := exists_run after
  have hunits (cs : List Char) : units (before ++ cs) =
      ((cs.foldl Machine.step (before.foldl Machine.step {})).finish.1.reverse,
        (cs.foldl Machine.step (before.foldl Machine.step {})).finish.2) := by
    rw [units, List.foldl_append]
  rw [List.append_assoc, hunits, hunits, List.foldl_append]
  generalize before.foldl Machine.step {} = m at hreading ⊢
  have hstands : m.Stands (m.units.reverse.map (·.unit) ++ textUnits seen.reverse) := by
    refine ⟨start, seen, hreading, ?_⟩
    rw [← Machine.map_emitText m start seen, List.map_reverse, List.reverse_reverse]
  obtain ⟨next, hnext, hrecorded⟩ := hstands.comment huncut
  obtain ⟨hleft, hfault⟩ := Machine.finish_foldl hnext hraw hrest
  obtain ⟨hright, hfault'⟩ := Machine.finish_foldl hreading hraw hrest
  have hbefore := congrArg List.reverse hrecorded
  rw [← List.map_reverse, List.reverse_reverse] at hbefore
  rw [hbefore, List.reverse_nil, List.nil_append] at hleft
  exact ⟨_, _, content, raw, _, hleft, hright, hfault.trans hfault'.symm⟩

end Schematron.Xml.Markup
