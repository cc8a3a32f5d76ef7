import Mathlib.Data.List.Chain
import Mathlib.Data.List.Nodup
import Schematron.Proofs.XPath.Lexing
import Schematron.Schema.Substitution

/-!
# References to parameters

A text is cut in exactly one way into plain runs and references (`IsCut`, `IsCut.unique`): a run
ends at the next dollar sign, and a reference takes the longest name that follows its dollar sign.
What a substitution does is said piece by piece on this cut (`apply_isCut`): a reference whose whole
name is that of a parameter becomes the value of the parameter, which is not looked through again,
and all else stays. The references themselves can be told without a cut, as the names behind the
dollar signs (`references_eq_namesBehindDollars`).
-/

namespace Schematron.Schema

open Substitution

/-! ## Cuts -/

/-- A piece as it stands in a text. -/
def Piece.written : Piece → List Char
  | .plain run => run
  | .reference name => '$' :: name.toList

/-- The second piece can stand right behind the first: no run behind a run, and behind a reference
no character that could still belong to its name. -/
def Piece.Borders : Piece → Piece → Prop
  | .plain _, .plain _ => False
  | .reference _, .plain run => ∀ c ∈ run.head?, isReferenceChar c = false
  | _, .reference _ => True

/-- The pieces are the text, cut into plain runs and references as long as they can be. -/
structure IsCut (text : List Char) (cut : List Piece) : Prop where
  written : cut.flatMap Piece.written = text
  plain : ∀ run, .plain run ∈ cut → run ≠ [] ∧ '$' ∉ run
  name : ∀ name, .reference name ∈ cut → ∀ c ∈ name.toList, isReferenceChar c = true
  borders : cut.IsChain Piece.Borders

namespace IsCut

variable {text : List Char} {cut : List Piece} {piece : Piece} {rest : List Piece}

theorem nil : IsCut [] [] := ⟨rfl, nofun, nofun, .nil⟩

theorem tail (h : IsCut text (piece :: rest)) : IsCut (rest.flatMap Piece.written) rest :=
  ⟨rfl, fun run hrun => h.plain run (List.mem_cons_of_mem _ hrun),
    fun name hname => h.name name (List.mem_cons_of_mem _ hname), h.borders.tail⟩

/-- A plain run that a text begins with goes on up to the next dollar sign. -/
theorem span_plain {run : List Char} (h : IsCut text (.plain run :: rest)) :
    text.span (· != '$') = (run, rest.flatMap Piece.written) := by
  rw [← h.written, List.flatMap_cons]
  refine Text.span_append (fun c hc => ?_) fun c hc => ?_
  · rw [bne_iff_ne]
    rintro rfl
    exact (h.plain run List.mem_cons_self).2 hc
  · cases rest with
    | nil => cases hc
    | cons next rest =>
        cases next with
        | plain other => exact absurd (List.isChain_cons_cons.mp h.borders).1 id
        | reference name =>
            cases hc
            rfl

/-- A reference that a text begins with takes the longest name. -/
theorem span_reference {name : String} {after : List Char}
    (h : IsCut ('$' :: after) (.reference name :: rest)) :
    after.span isReferenceChar = (name.toList, rest.flatMap Piece.written) := by
  have hafter : name.toList ++ rest.flatMap Piece.written = after := (List.cons.inj h.written).2
  rw [← hafter]
  refine Text.span_append (h.name name List.mem_cons_self) fun c hc => ?_
  cases rest with
  | nil => cases hc
  | cons next rest =>
      cases next with
      | plain run =>
          obtain ⟨hne, -⟩ := h.plain run (by simp)
          obtain ⟨first, run, rfl⟩ := List.exists_cons_of_ne_nil hne
          exact (List.isChain_cons_cons.mp h.borders).1 c hc
      | reference other =>
          cases hc
          decide

/-- A text begins with a plain run or with a dollar sign. -/
theorem head?_of_plain {run : List Char} (h : IsCut text (.plain run :: rest)) :
    ∃ c more, text = c :: more ∧ c ≠ '$' := by
  obtain ⟨hne, hdollar⟩ := h.plain run List.mem_cons_self
  obtain ⟨c, run, rfl⟩ := List.exists_cons_of_ne_nil hne
  exact ⟨c, run ++ rest.flatMap Piece.written, h.written.symm, fun hc => hdollar (by simp [hc])⟩

theorem eq_nil (h : IsCut [] cut) : cut = [] := by
  cases cut with
  | nil => rfl
  | cons piece rest =>
      cases piece with
      | plain run =>
          obtain ⟨c, more, htext, -⟩ := h.head?_of_plain
          cases htext
      | reference name => cases h.written

/-- There is one way to cut a text. -/
theorem unique {other : List Piece} (h : IsCut text cut) (hother : IsCut text other) :
    cut = other := by
  induction cut generalizing text other with
  | nil =>
      obtain rfl := h.written
      exact hother.eq_nil.symm
  | cons piece rest ih =>
      cases other with
      | nil =>
          obtain rfl := hother.written
          exact h.eq_nil
      | cons piece' rest' =>
          -- the first pieces are of one kind, and end at the same place
          cases piece with
          | plain run =>
              cases piece' with
              | plain run' =>
                  have hspan := h.span_plain.symm.trans hother.span_plain
                  obtain ⟨rfl, hrest⟩ := Prod.mk.inj hspan
                  rw [ih h.tail (hrest ▸ hother.tail)]
              | reference name' =>
                  obtain ⟨c, more, rfl, hc⟩ := h.head?_of_plain
                  exact absurd (List.cons.inj hother.written).1.symm hc
          | reference name =>
              obtain rfl := h.written
              cases piece' with
              | plain run' =>
                  obtain ⟨c, more, htext, hc⟩ := hother.head?_of_plain
                  exact absurd (List.cons.inj htext).1.symm hc
              | reference name' =>
                  have hspan := h.span_reference.symm.trans hother.span_reference
                  obtain ⟨hname, hrest⟩ := Prod.mk.inj hspan
                  rw [String.toList_inj.mp hname, ih h.tail (hrest ▸ hother.tail)]

theorem cons_plain {run : List Char} (hne : run ≠ []) (hrun : '$' ∉ run) (h : IsCut text cut)
    (hstart : ∀ c ∈ text.head?, c = '$') : IsCut (run ++ text) (.plain run :: cut) where
  written := by rw [List.flatMap_cons, h.written]; rfl
  plain := by
    rintro other (_ | ⟨_, hother⟩)
    · exact ⟨hne, hrun⟩
    · exact h.plain other hother
  name := by
    rintro name (_ | ⟨_, hname⟩)
    exact h.name name hname
  borders := by
    refine List.isChain_cons.mpr ⟨fun next hnext => ?_, h.borders⟩
    obtain ⟨rest, rfl⟩ := List.head?_eq_some_iff.mp hnext
    cases next with
    | plain other =>
        obtain ⟨c, more, rfl, hc⟩ := h.head?_of_plain
        exact absurd (hstart c rfl) hc
    | reference name => trivial

theorem cons_reference {name : String} (hname : ∀ c ∈ name.toList, isReferenceChar c = true)
    (h : IsCut text cut) (hstart : ∀ c ∈ text.head?, isReferenceChar c = false) :
    IsCut ('$' :: (name.toList ++ text)) (.reference name :: cut) where
  written := by rw [List.flatMap_cons, h.written]; rfl
  plain := by
    rintro run (_ | ⟨_, hrun⟩)
    exact h.plain run hrun
  name := by
    rintro other (_ | ⟨_, hother⟩)
    · exact hname
    · exact h.name other hother
  borders := by
    refine List.isChain_cons.mpr ⟨fun next hnext => ?_, h.borders⟩
    obtain ⟨rest, rfl⟩ := List.head?_eq_some_iff.mp hnext
    cases next with
    | plain run =>
        obtain ⟨first, run, rfl⟩ := List.exists_cons_of_ne_nil (h.plain run List.mem_cons_self).1
        obtain rfl := h.written
        exact hstart
    | reference other => trivial

end IsCut

/-! ## The cut of a text -/

/-- The parts between the dollar signs of a text hold none, and are the text. -/
theorem splitAt_dollar (cs : List Char) :
    ∃ first rest, Text.splitAt (· == '$') cs = first :: rest ∧
      (∀ run ∈ first :: rest, '$' ∉ run) ∧ first ++ rest.flatMap ('$' :: ·) = cs := by
  induction cs with
  | nil => exact ⟨[], [], rfl, by simp, rfl⟩
  | cons c cs ih =>
      obtain ⟨first, rest, hsplit, hruns, hcs⟩ := ih
      rw [Text.splitAt_cons, hsplit]
      by_cases hc : c = '$'
      · refine ⟨[], first :: rest, by simp [hc], List.forall_mem_cons.mpr ⟨by simp, hruns⟩, ?_⟩
        rw [← hcs, hc]
        rfl
      · obtain ⟨hfirst, hrest⟩ := List.forall_mem_cons.mp hruns
        refine ⟨c :: first, rest, by simp [hc], List.forall_mem_cons.mpr ⟨?_, hrest⟩, ?_⟩
        · exact List.not_mem_cons_of_ne_of_not_mem (Ne.symm hc) hfirst
        · rw [← hcs]
          rfl

/-- The pieces behind the dollar signs are cut: each run begins with the name of its reference. -/
theorem isCut_afterDollars {runs : List (List Char)} (h : ∀ run ∈ runs, '$' ∉ run) :
    IsCut (runs.flatMap ('$' :: ·)) ((runs.flatMap piecesAfterDollar).filter (· != .plain [])) := by
  induction runs with
  | nil => exact .nil
  | cons run runs ih =>
      obtain ⟨hrun, hruns⟩ := List.forall_mem_cons.mp h
      have hrest := ih hruns
      have hstart : ∀ c ∈ (runs.flatMap ('$' :: ·)).head?, c = '$' := by
        cases runs with
        | nil => nofun
        | cons next runs => exact fun c hc => (Option.some.inj hc).symm
      -- the run is the name of the reference, and what follows the name
      have hname : ∀ c ∈ (String.ofList (run.takeWhile isReferenceChar)).toList,
          isReferenceChar c = true := by
        rw [String.toList_ofList]
        exact fun c hc => List.mem_takeWhile_imp hc
      have hwritten : (String.ofList (run.takeWhile isReferenceChar)).toList ++
          run.dropWhile isReferenceChar = run := by
        rw [String.toList_ofList, List.takeWhile_append_dropWhile]
      rw [List.flatMap_cons, List.flatMap_cons, List.filter_append, List.cons_append]
      show IsCut ('$' :: (run ++ _))
        ((Piece.reference _ :: [Piece.plain (run.dropWhile isReferenceChar)].filter _) ++ _)
      by_cases hdrop : run.dropWhile isReferenceChar = []
      · rw [hdrop, List.append_nil] at hwritten
        have hcut := IsCut.cons_reference hname hrest fun c hc => by rw [hstart c hc]; decide
        rw [hwritten] at hcut
        simpa [hdrop] using hcut
      · have hdollar : '$' ∉ run.dropWhile isReferenceChar :=
          fun hmem => hrun ((List.dropWhile_suffix _).mem hmem)
        have hcut := IsCut.cons_reference hname (hrest.cons_plain hdrop hdollar hstart) fun c hc => by
          rw [List.head?_append_of_ne_nil _ hdrop] at hc
          exact Text.head?_dropWhile isReferenceChar run c hc
        rw [← List.append_assoc, hwritten] at hcut
        simpa [hdrop] using hcut

/-- The pieces of a text without the empty runs. -/
def cutOf (text : String) : List Piece := (pieces text).filter (· != .plain [])

theorem isCut_cutOf (text : String) : IsCut text.toList (cutOf text) := by
  obtain ⟨first, rest, hsplit, hruns, htext⟩ := splitAt_dollar text.toList
  obtain ⟨hfirst, hrest⟩ := List.forall_mem_cons.mp hruns
  have hcut := isCut_afterDollars hrest
  rw [cutOf, pieces, hsplit, ← htext]
  by_cases hne : first = []
  · simpa [hne] using hcut
  · have hstart : ∀ c ∈ (rest.flatMap ('$' :: ·)).head?, c = '$' := by
      cases rest with
      | nil => nofun
      | cons next rest => exact fun c hc => (Option.some.inj hc).symm
    simpa [hne] using hcut.cons_plain hne hfirst hstart

/-- The empty runs add nothing to what is replaced. -/
theorem toList_apply (parameters : Parameters) (text : String) :
    (apply parameters text).toList = (cutOf text).flatMap (replacement parameters) := by
  rw [apply, String.toList_ofList, cutOf]
  induction pieces text with
  | nil => rfl
  | cons piece rest ih =>
      by_cases hempty : piece = .plain []
      · rw [List.flatMap_cons, ih, hempty]
        rfl
      · rw [List.flatMap_cons, List.filter_cons_of_pos (by simpa using hempty), List.flatMap_cons, ih]

/-- The name of a reference. -/
def Piece.name? : Piece → Option String
  | .plain _ => none
  | .reference name => some name

theorem references_eq (text : String) : references text = (cutOf text).filterMap Piece.name? := by
  rw [references, cutOf, List.filterMap_filter]
  refine List.filterMap_congr fun piece _ => ?_
  cases piece with
  | plain run => cases run <;> rfl
  | reference name => rfl

/-! ## Names behind dollar signs -/

/-- The longest name behind each dollar sign of a text, in order. -/
def namesBehindDollars : List Char → List String
  | [] => []
  | c :: rest =>
    if c = '$' then String.ofList (rest.takeWhile isReferenceChar) :: namesBehindDollars rest
    else namesBehindDollars rest

/-- A name ends before the next dollar sign, so that it is the same in a part as in the text. -/
theorem map_takeWhile_splitAt (cs : List Char) :
    ∃ first rest, Text.splitAt (· == '$') cs = first :: rest ∧
      first.takeWhile isReferenceChar = cs.takeWhile isReferenceChar ∧
      rest.map (fun run => String.ofList (run.takeWhile isReferenceChar)) =
        namesBehindDollars cs := by
  induction cs with
  | nil => exact ⟨[], [], rfl, rfl, rfl⟩
  | cons c cs ih =>
      obtain ⟨first, rest, hsplit, hfirst, hrest⟩ := ih
      rw [Text.splitAt_cons, hsplit]
      by_cases hc : c = '$'
      · subst hc
        have hdollar : isReferenceChar '$' = false := by decide
        refine ⟨[], first :: rest, rfl, by simp [hdollar], ?_⟩
        rw [List.map_cons, hfirst, hrest]
        rfl
      · refine ⟨c :: first, rest, by simp [hc], ?_, ?_⟩
        · rw [List.takeWhile_cons, List.takeWhile_cons, hfirst]
        · rw [hrest, namesBehindDollars, if_neg hc]

/-- The references of a text are the names behind its dollar signs. -/
theorem references_eq_namesBehindDollars (text : String) :
    references text = namesBehindDollars text.toList := by
  obtain ⟨first, rest, hsplit, -, hnames⟩ := map_takeWhile_splitAt text.toList
  rw [references, pieces, hsplit, ← hnames]
  simp only [List.filterMap_cons]
  clear hsplit hnames
  induction rest with
  | nil => rfl
  | cons run rest ih =>
      rw [List.flatMap_cons, List.filterMap_append, ih]
      rfl

/-! ## Replacing -/

/-- What a piece becomes: a reference to a parameter becomes the value of the first parameter of
its name, and any other piece stays as it is written. -/
inductive Becomes (parameters : Parameters) : Piece → List Char → Prop
  | plain (run : List Char) : Becomes parameters (.plain run) run
  | parameter {before after : Parameters} {name value : String}
      (hparameters : parameters = before ++ (name, value) :: after)
      (hfirst : name ∉ before.map (·.1)) : Becomes parameters (.reference name) value.toList
  | other {name : String} (hname : name ∉ parameters.map (·.1)) :
      Becomes parameters (.reference name) ('$' :: name.toList)

/-- The first parameter of a name has the value that the name is looked up with. -/
theorem lookup_eq_some_iff {parameters : Parameters} {name value : String} :
    parameters.lookup name = some value ↔ ∃ before after,
      parameters = before ++ (name, value) :: after ∧ name ∉ before.map (·.1) := by
  rw [List.lookup_eq_some_iff]
  simp only [bne_iff_ne, List.mem_map, not_exists, not_and]
  constructor
  · rintro ⟨before, after, hparameters, hfirst⟩
    exact ⟨before, after, hparameters, fun other hother h => hfirst other hother h.symm⟩
  · rintro ⟨before, after, hparameters, hfirst⟩
    exact ⟨before, after, hparameters, fun other hother h => hfirst other hother h.symm⟩

theorem lookup_eq_none_iff {parameters : Parameters} {name : String} :
    parameters.lookup name = none ↔ name ∉ parameters.map (·.1) := by
  rw [List.lookup_eq_none_iff]
  simp only [bne_iff_ne, List.mem_map, not_exists, not_and]
  exact ⟨fun h other hother => Ne.symm (h other hother), fun h other hother => Ne.symm (h other hother)⟩

theorem becomes_replacement (parameters : Parameters) (piece : Piece) :
    Becomes parameters piece (replacement parameters piece) := by
  cases piece with
  | plain run => exact .plain run
  | reference name =>
      rw [replacement]
      cases hvalue : parameters.lookup name with
      | none => exact .other (lookup_eq_none_iff.mp hvalue)
      | some value =>
          obtain ⟨before, after, hparameters, hfirst⟩ := lookup_eq_some_iff.mp hvalue
          exact .parameter hparameters hfirst

/-- Of parameters with names of their own, each has its value. -/
theorem lookup_eq_some_iff_mem {parameters : Parameters} (h : (parameters.map (·.1)).Nodup)
    {name value : String} :
    parameters.lookup name = some value ↔ (name, value) ∈ parameters := by
  rw [lookup_eq_some_iff]
  constructor
  · rintro ⟨before, after, rfl, -⟩
    exact List.mem_append_right _ List.mem_cons_self
  · intro hmem
    obtain ⟨before, after, rfl⟩ := List.mem_iff_append.mp hmem
    refine ⟨before, after, rfl, fun hbefore => ?_⟩
    rw [List.map_append] at h
    exact List.disjoint_of_nodup_append h hbefore List.mem_cons_self

theorem lookup_perm {parameters others : Parameters} (h : (parameters.map (·.1)).Nodup)
    (hperm : others.Perm parameters) (name : String) :
    others.lookup name = parameters.lookup name := by
  have hothers : (others.map (·.1)).Nodup := (hperm.map _).nodup_iff.mpr h
  refine Option.ext fun value => ?_
  rw [lookup_eq_some_iff_mem h, lookup_eq_some_iff_mem hothers]
  exact hperm.mem_iff

/-! ## What is recorded -/

/-- Going through names and keeping the new ones keeps the first of each. -/
theorem foldl_eq_eraseDups (names : List String) :
    names.foldl (fun found name => if found.contains name then found else found ++ [name]) [] =
      names.eraseDups := by
  induction names using List.reverseRecOn with
  | nil => rfl
  | append_singleton names name ih =>
      rw [List.foldl_concat, ih, List.eraseDups_append]
      by_cases hname : name ∈ names
      · simp [hname, List.removeAll]
      · simp [hname, List.removeAll, List.eraseDups_cons]

/-- The names that the cuts of texts refer to, in order. -/
def namesIn (cuts : List (List Piece)) : List String := cuts.flatMap (·.filterMap Piece.name?)

theorem mem_namesIn {cuts : List (List Piece)} {name : String} :
    name ∈ namesIn cuts ↔ ∃ cut ∈ cuts, .reference name ∈ cut := by
  simp only [namesIn, List.mem_flatMap, List.mem_filterMap]
  refine exists_congr fun cut => and_congr_right fun _ => ?_
  constructor
  · rintro ⟨piece, hpiece, hname⟩
    cases piece with
    | plain run => cases hname
    | reference other =>
        cases hname
        exact hpiece
  · exact fun h => ⟨_, h, rfl⟩

theorem flatMap_references {texts : List String} {cuts : List (List Piece)}
    (h : List.Forall₂ (fun text cut => IsCut text.toList cut) texts cuts) :
    texts.flatMap references = namesIn cuts := by
  induction h with
  | nil => rfl
  | @cons text cut texts cuts hcut _ ih =>
      rw [List.flatMap_cons, ih, references_eq, (isCut_cutOf text).unique hcut]
      rfl

/-- What substituting in texts records of the references on their cuts: the parameters that are
replaced somewhere, and the other names that no variable has, each once in the order in which they
come first. -/
structure Records (parameters : Parameters) (variableNames : List String) (texts : List String)
    (cuts : List (List Piece)) : Prop where
  referenced : ∀ name ∈ parameters.map (·.1),
    (texts.flatMap references).contains name ↔ ∃ cut ∈ cuts, .reference name ∈ cut
  unresolved : Substitution.unresolved
      (fun name => (parameters.map (·.1)).contains name || variableNames.contains name) texts =
    ((namesIn cuts).filter fun name =>
      name ≠ "" ∧ name ∉ parameters.map (·.1) ∧ name ∉ variableNames).eraseDups

theorem records {parameters : Parameters} {variableNames : List String} {texts : List String}
    {cuts : List (List Piece)}
    (h : List.Forall₂ (fun text cut => IsCut text.toList cut) texts cuts) :
    Records parameters variableNames texts cuts where
  referenced := by
    intro name _
    rw [flatMap_references h, List.contains_iff_mem, mem_namesIn]
  unresolved := by
    rw [Substitution.unresolved, flatMap_references h, foldl_eq_eraseDups]
    congr 1
    refine List.filter_congr fun name _ => ?_
    rw [Bool.eq_iff_iff]
    simp

/-- **Substitution is simultaneous and exact.** There is one cut of a text, and on it each reference
to a parameter is replaced by the value of the first parameter of its name and all else is kept; the
value is not looked through again. Over the texts of a pattern, the references to parameters and
those to no known name are recorded. Parameters with names of their own may come in any order, and a
text without a reference to a parameter stays as it is. -/
theorem apply_isCut (parameters : Parameters) (variableNames : List String) :
    (∀ text : String, ∃! cut, IsCut text.toList cut) ∧
    (∀ (text : String) (cut : List Piece), IsCut text.toList cut →
      ∃ parts, List.Forall₂ (Becomes parameters) cut parts ∧
        (apply parameters text).toList = parts.flatten) ∧
    (∀ (texts : List String) (cuts : List (List Piece)),
      List.Forall₂ (fun text cut => IsCut text.toList cut) texts cuts →
        Records parameters variableNames texts cuts) ∧
    ((parameters.map (·.1)).Nodup → ∀ others : Parameters, others.Perm parameters →
      ∀ text, apply others text = apply parameters text) ∧
    (∀ (text : String) (cut : List Piece), IsCut text.toList cut →
      (∀ name ∈ parameters.map (·.1), .reference name ∉ cut) → apply parameters text = text) := by
  refine ⟨fun text => ⟨cutOf text, isCut_cutOf text, fun _ hcut => hcut.unique (isCut_cutOf text)⟩,
    fun text cut hcut => ?_, fun _ _ h => records h, fun hnodup others hperm text => ?_,
    fun text cut hcut hnone => ?_⟩
  · refine ⟨cut.map (replacement parameters), ?_, ?_⟩
    · rw [List.forall₂_map_right_iff, List.forall₂_same]
      exact fun piece _ => becomes_replacement parameters piece
    · rw [toList_apply, hcut.unique (isCut_cutOf text), List.flatMap_def]
  · refine String.toList_inj.mp ?_
    rw [toList_apply, toList_apply]
    refine List.flatMap_congr fun piece _ => ?_
    cases piece with
    | plain run => rfl
    | reference name => rw [replacement, replacement, lookup_perm hnodup hperm]
  · refine String.toList_inj.mp ?_
    rw [toList_apply, (isCut_cutOf text).unique hcut, ← hcut.written]
    refine List.flatMap_congr fun piece hpiece => ?_
    cases piece with
    | plain run => rfl
    | reference name =>
        have hname : parameters.lookup name = none :=
          lookup_eq_none_iff.mpr fun hname => hnone name hname hpiece
        rw [replacement, hname]
        rfl

/-- Parameters of which the value of one refers to the other. -/
def crossing : Parameters := [("a", "$b"), ("b", "x")]

/-- A name that begins with that of a parameter, the two parameters, and a bare dollar sign. -/
def crossingCut : List Piece :=
  [.reference "ab", .plain [' '], .reference "a", .reference "b", .reference ""]

/-- The longer name is not taken for the shorter one, and the value is not looked through again;
nor does it matter which parameter comes first. A text with the longer name only is not changed. -/
theorem apply_isCut_crossing :
    IsCut "$ab $a$b$".toList crossingCut ∧
      (∃ parts, List.Forall₂ (Becomes crossing) crossingCut parts ∧
        (apply crossing "$ab $a$b$").toList = parts.flatten) ∧
      apply crossing "$ab $a$b$" = "$ab $bx$" ∧
      Records crossing ["n"] ["$ab $a$b$"] [crossingCut] ∧
      apply [("b", "x"), ("a", "$b")] "$ab $a$b$" = apply crossing "$ab $a$b$" ∧
      apply crossing "$ab$" = "$ab$" := by
  have hcutOf : cutOf "$ab $a$b$" = crossingCut := by decide +kernel
  have hcut : IsCut "$ab $a$b$".toList crossingCut := hcutOf ▸ isCut_cutOf "$ab $a$b$"
  have hlongerOf : cutOf "$ab$" = [.reference "ab", .reference ""] := by decide +kernel
  have hlonger : IsCut "$ab$".toList [.reference "ab", .reference ""] :=
    hlongerOf ▸ isCut_cutOf "$ab$"
  obtain ⟨-, hreplaced, hrecords, horder, hsame⟩ := apply_isCut crossing ["n"]
  exact ⟨hcut, hreplaced _ _ hcut, by decide +kernel, hrecords _ _ (.cons hcut .nil),
    horder (by decide) _ (.swap _ _ _) _, hsame _ _ hlonger (by decide)⟩

end Schematron.Schema
