import Schematron.Proofs.Outcome
import Schematron.Proofs.XPath.Parts
import Schematron.XPath.Parser

/-!
# Rules for what is read

Each reader makes an expression of one kind from tokens and from what other readers made. So what
is true of every single expression that is made, given what is true of every token, is true of all
parts of what is read (`every_of_parse`).

The readers call each other on less fuel, so that what holds of all of them is shown by induction
on the fuel (`Parser.Obeys`).
-/

namespace Schematron.XPath

namespace Parser

/-- A test that is read from tokens with the property, or that stands in an abbreviated step. -/
def IsRead (setting : Setting) (T : Token → Prop) (test : NodeTest) : Prop :=
  test = .node ∨
    ∃ ts rest, (∀ t ∈ ts, T t) ∧ nodeTest setting ts = .ok (test, rest)

/-- A property of single expressions has all expressions that are built from tokens with a property
of theirs: there is a rule for each kind of expression. -/
structure Rules [Regex.Engine] (setting : Setting) (T : Token → Prop) (Q : Expr → Prop) : Prop where
  binary : ∀ {operator left right}, Q (.binary operator left right)
  negate : ∀ {operand}, Q (.negate operand)
  literal : ∀ {value}, T (.literal value) → Q (.literal value)
  number : ∀ {value}, T (.number value) → Q (.number value.toFloat)
  variableRef : ∀ {name}, T (.variableName name) → name ∈ setting.names.variableNames →
    Q (.variableRef name)
  call : ∀ {function arguments}, checkCall function arguments = .ok () →
    Q (.call function arguments)
  filter : ∀ {operand predicates}, predicates ≠ [] → Q (.filter operand predicates)
  path : ∀ {start steps}, start = .root ∨ steps ≠ [] →
    (∀ axis test predicates, .mk axis test predicates ∈ steps → IsRead setting T test) →
      Q (.path start steps)

/-- The step is made by the rules. -/
def Made (setting : Setting) (T : Token → Prop) (Q : Expr → Prop) : Step → Prop
  | .mk _ test predicates => IsRead setting T test ∧ ∀ e ∈ predicates, e.Every Q

/-- What the readers answer is made by the rules, as far as the fuel goes, and the tokens they leave
are some of those they are given. -/
structure Obeys [Regex.Engine] (setting : Setting) (T : Token → Prop) (Q : Expr → Prop)
    (fuel : Nat) : Prop where
  expression : ∀ {level ts e rest}, (∀ t ∈ ts, T t) →
    expression setting fuel level ts = .ok (e, rest) → e.Every Q ∧ ∀ t ∈ rest, T t
  operands : ∀ {level left ts e rest}, left.Every Q → (∀ t ∈ ts, T t) →
    operands setting fuel level left ts = .ok (e, rest) → e.Every Q ∧ ∀ t ∈ rest, T t
  path : ∀ {ts e rest}, (∀ t ∈ ts, T t) → path setting fuel ts = .ok (e, rest) →
    e.Every Q ∧ ∀ t ∈ rest, T t
  relative : ∀ {ts steps rest}, (∀ t ∈ ts, T t) → relative setting fuel ts = .ok (steps, rest) →
    (steps ≠ [] ∧ ∀ step ∈ steps, Made setting T Q step) ∧ ∀ t ∈ rest, T t
  step : ∀ {ts one rest}, (∀ t ∈ ts, T t) → step setting fuel ts = .ok (one, rest) →
    Made setting T Q one ∧ ∀ t ∈ rest, T t
  predicateList : ∀ {ts es rest}, (∀ t ∈ ts, T t) →
    predicateList setting fuel ts = .ok (es, rest) →
      (∀ e ∈ es, e.Every Q) ∧ ∀ t ∈ rest, T t
  primary : ∀ {ts e rest}, (∀ t ∈ ts, T t) → primary setting fuel ts = .ok (e, rest) →
    e.Every Q ∧ ∀ t ∈ rest, T t
  argumentList : ∀ {ts es rest}, (∀ t ∈ ts, T t) →
    argumentList setting fuel ts = .ok (es, rest) →
      (∀ e ∈ es, e.Every Q) ∧ ∀ t ∈ rest, T t
  moreArguments : ∀ {ts es rest}, (∀ t ∈ ts, T t) →
    moreArguments setting fuel ts = .ok (es, rest) →
      (∀ e ∈ es, e.Every Q) ∧ ∀ t ∈ rest, T t

variable {setting : Setting} {T : Token → Prop} {Q : Expr → Prop} {fuel : Nat}
  {ts rest : List Token} {e : Expr} {es : List Expr}

theorem giveUp_ne_ok {α : Type} {x : α} : setting.giveUp ts ≠ .ok x := nofun

theorem forall_of_expect {wanted : Token} (hts : ∀ t ∈ ts, T t)
    (h : expect setting wanted ts = .ok rest) : ∀ t ∈ rest, T t := by
  rw [expect.eq_def] at h
  split at h
  · split at h
    · cases h
      exact (List.forall_mem_cons.mp hts).2
    · cases h
  · cases h

theorem forall_of_nodeTest {test : NodeTest} (hts : ∀ t ∈ ts, T t)
    (h : nodeTest setting ts = .ok (test, rest)) : ∀ t ∈ rest, T t := by
  rw [nodeTest.eq_def] at h
  split at h
  · cases h
    exact (List.forall_mem_cons.mp hts).2
  · have hmore := (List.forall_mem_cons.mp (List.forall_mem_cons.mp hts).2).2
    split at h
    · obtain ⟨_, hexpect, h⟩ := bind_eq_ok.mp h
      cases h
      exact forall_of_expect hmore hexpect
    · cases h
  · obtain ⟨_, -, h⟩ := bind_eq_ok.mp h
    cases h
    exact (List.forall_mem_cons.mp hts).2
  · cases h

theorem forall_of_stepAxis {axis : Axis} (hts : ∀ t ∈ ts, T t)
    (h : stepAxis setting ts = .ok (axis, rest)) : ∀ t ∈ rest, T t := by
  rw [stepAxis.eq_def] at h
  split at h
  · cases h
    exact (List.forall_mem_cons.mp hts).2
  · split at h
    · cases h
      exact (List.forall_mem_cons.mp (List.forall_mem_cons.mp hts).2).2
    · cases h
  · cases h
    exact hts

theorem obeys_zero [Regex.Engine] : Obeys setting T Q 0 where
  expression _ h := absurd h giveUp_ne_ok
  operands _ _ h := absurd h giveUp_ne_ok
  path _ h := absurd h giveUp_ne_ok
  relative _ h := absurd h giveUp_ne_ok
  step _ h := absurd h giveUp_ne_ok
  predicateList _ h := absurd h giveUp_ne_ok
  primary _ h := absurd h giveUp_ne_ok
  argumentList _ h := absurd h giveUp_ne_ok
  moreArguments _ h := absurd h giveUp_ne_ok

/-- A path is made by the rules if its start and its steps are. -/
theorem Rules.every_path [Regex.Engine] (rules : Rules setting T Q) {start : PathStart}
    {steps : List Step} (hstart : ∀ part ∈ start.parts, Q part) (hne : start = .root ∨ steps ≠ [])
    (hsteps : ∀ step ∈ steps, Made setting T Q step) : (Expr.path start steps).Every Q := by
  refine XPath.every_path.mpr ⟨rules.path hne ?_, hstart, ?_⟩
  · intro axis test predicates hstep
    exact (hsteps _ hstep).1
  · rintro ⟨axis, test, predicates⟩ hstep
    exact every_step.mpr (hsteps _ hstep).2

/-- The place between two slashes. -/
theorem made_anyDepth : Made setting T Q Step.anyDepth := ⟨.inl rfl, nofun⟩

variable [Regex.Engine]

namespace Obeys

variable (rules : Rules setting T Q) (ih : Obeys setting T Q fuel)

include ih

include rules in
theorem expression_succ {level : Nat} (hts : ∀ t ∈ ts, T t)
    (h : Parser.expression setting (fuel + 1) level ts = .ok (e, rest)) :
    e.Every Q ∧ ∀ t ∈ rest, T t := by
  unfold Parser.expression at h
  split at h
  · exact ih.path hts h
  · split at h
    · split at h
      · obtain ⟨⟨operand, rest⟩, hoperand, h⟩ := bind_eq_ok.mp h
        cases h
        obtain ⟨hevery, hrest⟩ := ih.expression (List.forall_mem_cons.mp hts).2 hoperand
        exact ⟨every_negate.mpr ⟨rules.negate, hevery⟩, hrest⟩
      · exact ih.expression hts h
    · obtain ⟨⟨left, rest⟩, hleft, h⟩ := bind_eq_ok.mp h
      obtain ⟨hevery, hrest⟩ := ih.expression hts hleft
      exact ih.operands hevery hrest h

include rules in
theorem operands_succ {level : Nat} {left : Expr} (hleft : left.Every Q) (hts : ∀ t ∈ ts, T t)
    (h : Parser.operands setting (fuel + 1) level left ts = .ok (e, rest)) :
    e.Every Q ∧ ∀ t ∈ rest, T t := by
  cases ts with
  | nil =>
      cases h
      exact ⟨hleft, hts⟩
  | cons t ts =>
      unfold Parser.operands at h
      split at h
      · obtain ⟨⟨right, rest⟩, hright, h⟩ := bind_eq_ok.mp h
        obtain ⟨hevery, hrest⟩ := ih.expression (List.forall_mem_cons.mp hts).2 hright
        exact ih.operands (every_binary.mpr ⟨rules.binary, hleft, hevery⟩) hrest h
      · cases h
        exact ⟨hleft, hts⟩

omit ih in
/-- An operand with the predicates that follow it. -/
theorem every_withPredicates (rules : Rules setting T Q) {operand : Expr} {predicates : List Expr}
    (hoperand : operand.Every Q) (hpredicates : ∀ e ∈ predicates, e.Every Q) :
    (if predicates.isEmpty then operand else .filter operand predicates).Every Q := by
  split
  · exact hoperand
  · next hne =>
      have hne : predicates ≠ [] := by simpa using hne
      exact every_filter.mpr ⟨rules.filter hne, hoperand, hpredicates⟩

include rules in
theorem path_succ (hts : ∀ t ∈ ts, T t)
    (h : Parser.path setting (fuel + 1) ts = .ok (e, rest)) : e.Every Q ∧ ∀ t ∈ rest, T t := by
  unfold Parser.path at h
  split at h
  · obtain ⟨⟨operand, rest⟩, hoperand, h⟩ := bind_eq_ok.mp h
    obtain ⟨⟨predicates, rest⟩, hpredicates, h⟩ := bind_eq_ok.mp h
    obtain ⟨hoperand, hrest⟩ := ih.primary hts hoperand
    obtain ⟨hpredicates, hrest⟩ := ih.predicateList hrest hpredicates
    -- a primary expression, and then perhaps steps from the nodes that it selects
    have hevery := every_withPredicates rules hoperand hpredicates
    dsimp only at h
    split at h
    · obtain ⟨⟨steps, rest⟩, hsteps, h⟩ := bind_eq_ok.mp h
      cases h
      obtain ⟨⟨hne, hsteps⟩, hrest⟩ := ih.relative (List.forall_mem_cons.mp hrest).2 hsteps
      exact ⟨rules.every_path hevery (.inr hne) hsteps, hrest⟩
    · obtain ⟨⟨steps, rest⟩, hsteps, h⟩ := bind_eq_ok.mp h
      cases h
      obtain ⟨⟨-, hsteps⟩, hrest⟩ := ih.relative (List.forall_mem_cons.mp hrest).2 hsteps
      exact ⟨rules.every_path hevery (.inr (List.cons_ne_nil _ _))
        (List.forall_mem_cons.mpr ⟨made_anyDepth, hsteps⟩), hrest⟩
    · cases h
      exact ⟨hevery, hrest⟩
  · split at h
    · have hmore := (List.forall_mem_cons.mp hts).2
      split at h
      · obtain ⟨⟨steps, rest⟩, hsteps, h⟩ := bind_eq_ok.mp h
        cases h
        obtain ⟨⟨-, hsteps⟩, hrest⟩ := ih.relative hmore hsteps
        exact ⟨rules.every_path nofun (.inl rfl) hsteps, hrest⟩
      · cases h
        exact ⟨rules.every_path nofun (.inl rfl) nofun, hmore⟩
    · obtain ⟨⟨steps, rest⟩, hsteps, h⟩ := bind_eq_ok.mp h
      cases h
      obtain ⟨⟨-, hsteps⟩, hrest⟩ := ih.relative (List.forall_mem_cons.mp hts).2 hsteps
      exact ⟨rules.every_path nofun (.inl rfl)
        (List.forall_mem_cons.mpr ⟨made_anyDepth, hsteps⟩), hrest⟩
    · obtain ⟨⟨steps, rest⟩, hsteps, h⟩ := bind_eq_ok.mp h
      cases h
      obtain ⟨⟨hne, hsteps⟩, hrest⟩ := ih.relative hts hsteps
      exact ⟨rules.every_path nofun (.inr hne) hsteps, hrest⟩

theorem relative_succ {steps : List Step} (hts : ∀ t ∈ ts, T t)
    (h : Parser.relative setting (fuel + 1) ts = .ok (steps, rest)) :
    (steps ≠ [] ∧ ∀ step ∈ steps, Made setting T Q step) ∧ ∀ t ∈ rest, T t := by
  unfold Parser.relative at h
  obtain ⟨⟨first, rest⟩, hstep, h⟩ := bind_eq_ok.mp h
  obtain ⟨hfirst, hrest⟩ := ih.step hts hstep
  dsimp only at h
  split at h
  · obtain ⟨⟨steps, rest⟩, hsteps, h⟩ := bind_eq_ok.mp h
    cases h
    obtain ⟨⟨-, hsteps⟩, hrest⟩ := ih.relative (List.forall_mem_cons.mp hrest).2 hsteps
    exact ⟨⟨List.cons_ne_nil _ _, List.forall_mem_cons.mpr ⟨hfirst, hsteps⟩⟩, hrest⟩
  · obtain ⟨⟨steps, rest⟩, hsteps, h⟩ := bind_eq_ok.mp h
    cases h
    obtain ⟨⟨-, hsteps⟩, hrest⟩ := ih.relative (List.forall_mem_cons.mp hrest).2 hsteps
    refine ⟨⟨List.cons_ne_nil _ _, List.forall_mem_cons.mpr ⟨hfirst, ?_⟩⟩, hrest⟩
    exact List.forall_mem_cons.mpr ⟨made_anyDepth, hsteps⟩
  · cases h
    exact ⟨⟨List.cons_ne_nil _ _, List.forall_mem_singleton.mpr hfirst⟩, hrest⟩

theorem step_succ {step : Step} (hts : ∀ t ∈ ts, T t)
    (h : Parser.step setting (fuel + 1) ts = .ok (step, rest)) :
    Made setting T Q step ∧ ∀ t ∈ rest, T t := by
  unfold Parser.step at h
  split at h
  · cases h
    exact ⟨⟨.inl rfl, nofun⟩, (List.forall_mem_cons.mp hts).2⟩
  · cases h
    exact ⟨⟨.inl rfl, nofun⟩, (List.forall_mem_cons.mp hts).2⟩
  · obtain ⟨⟨axis, rest⟩, haxis, h⟩ := bind_eq_ok.mp h
    obtain ⟨⟨test, rest⟩, htest, h⟩ := bind_eq_ok.mp h
    obtain ⟨⟨predicates, rest⟩, hpredicates, h⟩ := bind_eq_ok.mp h
    cases h
    have htested := forall_of_stepAxis hts haxis
    obtain ⟨hpredicates, hrest⟩ := ih.predicateList (forall_of_nodeTest htested htest) hpredicates
    exact ⟨⟨.inr ⟨_, _, htested, htest⟩, hpredicates⟩, hrest⟩

theorem predicateList_succ (hts : ∀ t ∈ ts, T t)
    (h : Parser.predicateList setting (fuel + 1) ts = .ok (es, rest)) :
    (∀ e ∈ es, e.Every Q) ∧ ∀ t ∈ rest, T t := by
  unfold Parser.predicateList at h
  split at h
  · obtain ⟨⟨predicate, rest⟩, hpredicate, h⟩ := bind_eq_ok.mp h
    obtain ⟨rest, hclose, h⟩ := bind_eq_ok.mp h
    obtain ⟨⟨predicates, rest⟩, hpredicates, h⟩ := bind_eq_ok.mp h
    cases h
    obtain ⟨hpredicate, hrest⟩ := ih.expression (List.forall_mem_cons.mp hts).2 hpredicate
    obtain ⟨hpredicates, hrest⟩ := ih.predicateList (forall_of_expect hrest hclose) hpredicates
    exact ⟨List.forall_mem_cons.mpr ⟨hpredicate, hpredicates⟩, hrest⟩
  · cases h
    exact ⟨nofun, hts⟩

include rules in
theorem primary_succ (hts : ∀ t ∈ ts, T t)
    (h : Parser.primary setting (fuel + 1) ts = .ok (e, rest)) :
    e.Every Q ∧ ∀ t ∈ rest, T t := by
  unfold Parser.primary at h
  split at h
  · cases h
    obtain ⟨hfirst, hrest⟩ := List.forall_mem_cons.mp hts
    exact ⟨List.forall_mem_singleton.mpr (rules.literal hfirst), hrest⟩
  · cases h
    obtain ⟨hfirst, hrest⟩ := List.forall_mem_cons.mp hts
    exact ⟨List.forall_mem_singleton.mpr (rules.number hfirst), hrest⟩
  · obtain ⟨hfirst, hrest⟩ := List.forall_mem_cons.mp hts
    split at h
    next hname =>
      cases h
      refine ⟨every_variableRef.mpr (rules.variableRef hfirst ?_), hrest⟩
      exact List.contains_iff_mem.mp hname
    · cases h
  · obtain ⟨⟨inner, rest⟩, hinner, h⟩ := bind_eq_ok.mp h
    obtain ⟨rest, hclose, h⟩ := bind_eq_ok.mp h
    cases h
    obtain ⟨hinner, hrest⟩ := ih.expression (List.forall_mem_cons.mp hts).2 hinner
    exact ⟨hinner, forall_of_expect hrest hclose⟩
  · obtain ⟨function, -, h⟩ := bind_eq_ok.mp h
    obtain ⟨rest, hopen, h⟩ := bind_eq_ok.mp h
    obtain ⟨⟨arguments, rest⟩, harguments, h⟩ := bind_eq_ok.mp h
    obtain ⟨_, hcheck, h⟩ := bind_eq_ok.mp h
    cases h
    have hmore := forall_of_expect (List.forall_mem_cons.mp hts).2 hopen
    obtain ⟨harguments, hrest⟩ := ih.argumentList hmore harguments
    exact ⟨every_call.mpr ⟨rules.call hcheck, harguments⟩, hrest⟩
  · cases h

theorem argumentList_succ (hts : ∀ t ∈ ts, T t)
    (h : Parser.argumentList setting (fuel + 1) ts = .ok (es, rest)) :
    (∀ e ∈ es, e.Every Q) ∧ ∀ t ∈ rest, T t := by
  unfold Parser.argumentList at h
  split at h
  · cases h
    exact ⟨nofun, (List.forall_mem_cons.mp hts).2⟩
  · exact ih.moreArguments hts h

theorem moreArguments_succ (hts : ∀ t ∈ ts, T t)
    (h : Parser.moreArguments setting (fuel + 1) ts = .ok (es, rest)) :
    (∀ e ∈ es, e.Every Q) ∧ ∀ t ∈ rest, T t := by
  unfold Parser.moreArguments at h
  obtain ⟨⟨first, rest⟩, hexpression, h⟩ := bind_eq_ok.mp h
  obtain ⟨hfirst, hrest⟩ := ih.expression hts hexpression
  dsimp only at h
  split at h
  · cases h
    exact ⟨List.forall_mem_singleton.mpr hfirst, (List.forall_mem_cons.mp hrest).2⟩
  · obtain ⟨rest, hcomma, h⟩ := bind_eq_ok.mp h
    obtain ⟨⟨more, rest⟩, hmore, h⟩ := bind_eq_ok.mp h
    cases h
    obtain ⟨hmore, hrest⟩ := ih.moreArguments (forall_of_expect hrest hcomma) hmore
    exact ⟨List.forall_mem_cons.mpr ⟨hfirst, hmore⟩, hrest⟩

end Obeys

theorem obeys (rules : Rules setting T Q) (fuel : Nat) : Obeys setting T Q fuel := by
  induction fuel with
  | zero => exact obeys_zero
  | succ fuel ih =>
      exact ⟨ih.expression_succ rules, ih.operands_succ rules, ih.path_succ rules,
        ih.relative_succ, ih.step_succ, ih.predicateList_succ, ih.primary_succ rules,
        ih.argumentList_succ, ih.moreArguments_succ⟩

end Parser

/-- What is read of a text is made by any rules for its tokens. -/
theorem every_of_parse [Regex.Engine] {names : StaticContext} {source : String} {e : Expr}
    {T : Token → Prop} {Q : Expr → Prop} (rules : Parser.Rules ⟨source, names⟩ T Q)
    (htokens : ∀ ts, Lexer.tokens source.toList = .ok ts → ∀ t ∈ ts, T t)
    (h : Expr.parse names source = .ok e) : e.Every Q := by
  rw [Expr.parse] at h
  split at h
  · cases h
  · cases h
  next ts _ hts =>
    obtain ⟨⟨e, rest⟩, he, h⟩ := bind_eq_ok.mp h
    dsimp only at h
    split at h
    · cases h
      exact ((Parser.obeys rules _).expression (htokens ts hts) he).1
    · cases h

end Schematron.XPath
