import Schematron.Proofs.Schema.Scope

/-!
# Rules that are reported never to fire

A pattern is compiled rule by rule, and a rule with the context text of one before it in the
pattern is reported. These reports are the only warnings that begin as they do: the last stage
reports the repeated rules of the compiled program in their order, and no others
(`reports_of_compile`). As all contexts of a program are compiled where the same names are known, a
repeated rule has the context of a rule before it (`context_of_repeated`).

Whatever a run of the stage keeps besides is followed only as far as reports go (`Reports`); most
parts of it report nothing (`Silent`).
-/

namespace Schematron.Schema

open Xml (Document Tree)
open XPath (Query StaticContext)

/-! ## Repeated rules -/

/-- The places of the rules with the context text of a rule before them. -/
def repeated (rules : List Rule) : List Nat :=
  (List.range rules.length).filter fun place =>
    rules[place]?.any fun rule =>
      (rules.take place).any (·.context.source == rule.context.source)

theorem repeated_append (rules : List Rule) (rule : Rule) :
    repeated (rules ++ [rule]) = repeated rules ++
      if rules.any (·.context.source == rule.context.source) then [rules.length] else [] := by
  rw [repeated, List.length_append, List.length_singleton, List.range_succ, List.filter_append]
  congr 1
  · refine List.filter_congr fun place hplace => ?_
    have hlt : place < rules.length := List.mem_range.mp hplace
    rw [List.getElem?_append_left hlt, List.take_append_of_le_length (Nat.le_of_lt hlt)]
  · rw [List.filter_singleton, List.getElem?_concat_length, Option.any_some, List.take_left]
    cases rules.any (·.context.source == rule.context.source) <;> rfl

/-- A repeated rule stands after one with its context text. -/
theorem mem_repeated {rules : List Rule} {place : Nat} :
    place ∈ repeated rules ↔ ∃ rule, rules[place]? = some rule ∧
      ∃ earlier ∈ rules.take place, earlier.context.source = rule.context.source := by
  simp only [repeated, List.mem_filter, List.mem_range, Option.any_eq_true, List.any_eq_true,
    beq_iff_eq]
  constructor
  · exact And.right
  · rintro ⟨rule, hrule, hearlier⟩
    exact ⟨(List.getElem?_eq_some_iff.mp hrule).1, rule, hrule, hearlier⟩

/-- The report of a rule of a pattern that never fires. -/
def neverFires (label : String) (rule : Rule) : String :=
  "Rule with context '" ++ rule.context.source ++ "' in pattern '" ++ label ++
    "' never fires: an earlier rule has the same context"

/-- The reports of the repeated ones of some rules. -/
def reportsOf (label : String) (rules : List Rule) : List String :=
  (repeated rules).filterMap fun place => rules[place]?.map (neverFires label)

theorem reportsOf_append (label : String) (rules : List Rule) (rule : Rule) :
    reportsOf label (rules ++ [rule]) = reportsOf label rules ++
      if rules.any (·.context.source == rule.context.source) then [neverFires label rule]
      else [] := by
  rw [reportsOf, repeated_append, List.filterMap_append]
  congr 1
  · refine List.filterMap_congr fun place hplace => ?_
    have hlt : place < rules.length := List.mem_range.mp (List.mem_filter.mp hplace).1
    rw [List.getElem?_append_left hlt]
  · split
    · simp
    · rfl

/-- The reports of the rules of a pattern. -/
def Pattern.reports (pattern : Pattern) : List String :=
  reportsOf (pattern.id.getD "(anonymous)") pattern.rules

/-- A warning that reports a rule. -/
def isReport (message : String) : Bool := "Rule with context '".toList.isPrefixOf message.toList

theorem isReport_neverFires (label : String) (rule : Rule) :
    isReport (neverFires label rule) = true := by
  unfold neverFires
  rw [isReport, List.isPrefixOf_iff_prefix]
  simp only [String.toList_append, List.append_assoc]
  exact List.prefix_append _ _

/-! ## Reports of runs -/

/-- Whenever the run has a result, the reports that it adds are these of the result. -/
def Reports {α : Type} (m : StageRun α) (P : α → List String → Prop) : Prop :=
  ∀ sink x sink', m.run sink = .ok (x, sink') →
    ∃ new, sink'.warnings.filter isReport = sink.warnings.filter isReport ++ new ∧ P x new

/-- The run reports no rule. -/
def Silent {α : Type} (m : StageRun α) : Prop := Reports m fun _ new => new = []

section

variable {α β : Type} {P : α → List String → Prop} {Q : β → List String → Prop}

namespace Reports

theorem pure {x : α} (h : P x []) : Reports (Pure.pure x) P := by
  intro sink y sink' hrun
  cases hrun
  exact ⟨[], (List.append_nil _).symm, h⟩

theorem throw {fault : StageFault} : Reports (MonadExcept.throw fault : StageRun α) P := by
  intro sink x sink' hrun
  cases hrun

/-- A part of a run and what goes on with its result: the reports of both, one after the other. -/
theorem bind {m : StageRun α} {f : α → StageRun β} (hm : Reports m P)
    (hf : ∀ x new, P x new → Reports (f x) fun y more => Q y (new ++ more)) :
    Reports (m >>= f) Q := by
  intro sink y sink' hrun
  rw [StateT.run_bind] at hrun
  obtain ⟨⟨x, middle⟩, hx, hy⟩ := bind_eq_ok.mp hrun
  obtain ⟨new, hnew, hP⟩ := hm sink x middle hx
  obtain ⟨more, hmore, hQ⟩ := hf x new hP middle y sink' hy
  exact ⟨new ++ more, by rw [hmore, hnew, List.append_assoc], hQ⟩

theorem mono {P' : α → List String → Prop} {m : StageRun α} (h : Reports m P)
    (hP : ∀ x new, P x new → P' x new) : Reports m P' := by
  intro sink x sink' hrun
  obtain ⟨new, hnew, hx⟩ := h sink x sink' hrun
  exact ⟨new, hnew, hP x new hx⟩

theorem warn (message : String) :
    Reports (StageRun.warn message) fun _ new => new = [message].filter isReport := by
  intro sink x sink' hrun
  cases hrun
  exact ⟨_, List.filter_append .., rfl⟩

theorem mapM {f : α → StageRun β} {reports : β → List String} {xs : List α}
    (h : ∀ x ∈ xs, Reports (f x) fun y new => new = reports y) :
    Reports (xs.mapM f) fun ys new => new = ys.flatMap reports := by
  induction xs with
  | nil => exact pure rfl
  | cons x xs ih =>
      rw [List.mapM_cons]
      refine (h x List.mem_cons_self).bind fun y new hnew => ?_
      refine (ih fun x hx => h x (List.mem_cons_of_mem _ hx)).bind fun ys more hmore => ?_
      exact pure (by simp [hnew, hmore])

/-- If each step reports what it makes the reports longer by, so does the whole fold. -/
theorem foldlM {f : β → α → StageRun β} {reports : β → List String}
    (h : ∀ b x, Reports (f b x) fun b' new => reports b' = reports b ++ new) (xs : List α) (b : β) :
    Reports (xs.foldlM f b) fun b' new => reports b' = reports b ++ new := by
  induction xs generalizing b with
  | nil => exact pure (List.append_nil _).symm
  | cons x xs ih =>
      rw [List.foldlM_cons]
      refine (h b x).bind fun b' new hnew => (ih b').mono fun b'' more hmore => ?_
      rw [hmore, hnew, List.append_assoc]

end Reports

namespace Silent

theorem pure (x : α) : Silent (Pure.pure x : StageRun α) := Reports.pure rfl

theorem throw {fault : StageFault} : Silent (MonadExcept.throw fault : StageRun α) := Reports.throw

/-- What comes after a part that reports nothing makes all reports. -/
theorem then_ {m : StageRun α} {f : α → StageRun β} (hm : Silent m) (hf : ∀ x, Reports (f x) Q) :
    Reports (m >>= f) Q :=
  Reports.bind hm fun x new hnew => by
    subst hnew
    exact hf x

theorem bind {m : StageRun α} {f : α → StageRun β} (hm : Silent m) (hf : ∀ x, Silent (f x)) :
    Silent (m >>= f) := hm.then_ hf

theorem warn {message : String} (h : isReport message = false) : Silent (StageRun.warn message) :=
  (Reports.warn message).mono fun _ new hnew => by
    rw [hnew, List.filter_singleton, h]
    rfl

theorem warnIf {reason : Bool} {message : String} (h : isReport message = false) :
    Silent (StageRun.warnIf reason message) := by
  rw [StageRun.warnIf]
  split
  · exact warn h
  · exact pure ()

theorem mapM {f : α → StageRun β} (h : ∀ x, Silent (f x)) (xs : List α) : Silent (xs.mapM f) := by
  induction xs with
  | nil => exact pure []
  | cons x xs ih =>
      rw [List.mapM_cons]
      exact (h x).bind fun y => ih.bind fun ys => pure (y :: ys)

theorem foldlM {f : β → α → StageRun β} (h : ∀ b x, Silent (f b x)) (xs : List α) (b : β) :
    Silent (xs.foldlM f b) := by
  induction xs generalizing b with
  | nil => exact pure b
  | cons x xs ih =>
      rw [List.foldlM_cons]
      exact (h b x).bind ih

theorem forM {f : α → StageRun Unit} (h : ∀ x, Silent (f x)) (xs : List α) : Silent (xs.forM f) := by
  induction xs with
  | nil => exact pure ()
  | cons x xs ih => exact (h x).bind fun _ => ih

end Silent

end

namespace Skeleton

/-! ## Parts without reports -/

theorem require_silent {α : Type} (message : String) (x : Option α) : Silent (require message x) := by
  cases x with
  | some x => exact .pure x
  | none => exact .throw

theorem compiled_silent (what : String) (result : Except XPath.Fault Query) :
    Silent (compiled what result) := by
  cases result with
  | ok query => exact .pure query
  | error fault => exact .throw

section

variable [Regex.Engine]

theorem compileLet_silent (names : StaticContext) (tree : Tree) : Silent (compileLet names tree) := by
  rw [compileLet]
  refine (require_silent _ _).bind fun name => ?_
  split
  · exact (compiled_silent _ _).bind fun query => .pure _
  · exact .pure _

mutual

theorem messageParts_silent (names : StaticContext) : (tree : Tree) → Silent (messageParts names tree)
  | .text value => .pure _
  | .comment _ => .pure _
  | .element name declarations attributes children => by
      rw [messageParts]
      split
      · exact (require_silent _ _).bind fun select => (compiled_silent _ _).bind fun _ => .pure _
      · split
        · exact (compiled_silent _ _).bind fun _ => .pure _
        · exact .pure _
      · exact messagePartsOfAll_silent names children

theorem messagePartsOfAll_silent (names : StaticContext) :
    (trees : List Tree) → Silent (messagePartsOfAll names trees)
  | [] => .pure _
  | tree :: rest =>
      (messageParts_silent names tree).bind fun _ =>
        (messagePartsOfAll_silent names rest).bind fun _ => .pure _

end

theorem compileMessage_silent (names : StaticContext) (tree : Tree) :
    Silent (compileMessage names tree) :=
  (messagePartsOfAll_silent names tree.children).bind fun _ => .pure _

namespace Setting

variable (setting : Setting)

theorem compileDiagnostics_silent (body : RuleBody) (kind : AssertionKind) (source : String)
    (tree : Tree) :
    Silent (setting.compileDiagnostics body
      ("<" ++ kind.schemaElement ++ " test=\"" ++ source ++ "\">") tree) := by
  rw [compileDiagnostics]
  refine (Silent.mapM (fun word => ?_) _).bind fun found => .pure _
  dsimp only
  split
  · exact (compileMessage_silent _ _).bind fun _ => .pure _
  · exact (Silent.warn (by simp [isReport, List.isPrefixOf])).bind fun _ => .pure _

theorem compileAssertion_silent (kind : AssertionKind) (body : RuleBody) (tree : Tree) :
    Silent (setting.compileAssertion kind body tree) := by
  refine (require_silent _ _).bind fun source => (compiled_silent _ _).bind fun test => ?_
  have hflag (channel : Channel) (flag : Option String) : Silent (warnOfReplacedFlag
      ("<" ++ kind.schemaElement ++ " test=\"" ++ source ++ "\">") channel flag) := by
    cases flag with
    | some flag => exact .warnIf (by simp [isReport, List.isPrefixOf])
    | none => exact .pure ()
  exact (hflag _ _).bind fun _ => (compileMessage_silent _ _).bind fun _ =>
    (Silent.warnIf (by simp [isReport, List.isPrefixOf])).bind fun _ =>
      (setting.compileDiagnostics_silent body kind source tree).bind fun _ => .pure _

theorem compileChild_silent {extend : String → RuleBody → StageRun RuleBody}
    (hextend : ∀ id body, Silent (extend id body)) (body : RuleBody) (child : Tree) :
    Silent (setting.compileChild extend body child) := by
  rw [compileChild]
  dsimp only
  split
  · exact (compileLet_silent _ _).bind fun _ => .pure _
  · exact (setting.compileAssertion_silent _ _ _).bind fun _ => .pure _
  · exact (setting.compileAssertion_silent _ _ _).bind fun _ => .pure _
  · exact (require_silent _ _).bind fun id => hextend id body
  · exact .pure _
  · exact .pure _
  · exact .pure _
  · exact (Silent.warn (by simp [isReport, List.isPrefixOf])).bind fun _ => .pure _

theorem extend_silent (depth : Nat) (chain : List String) (id : String) (body : RuleBody) :
    Silent (setting.extend depth chain id body) := by
  induction depth generalizing chain id body with
  | zero =>
      rw [extend]
      refine (require_silent _ _).bind fun target => ?_
      split <;> exact .throw
  | succ depth ih =>
      rw [extend]
      refine (require_silent _ _).bind fun target => ?_
      split
      · exact .throw
      · exact Silent.foldlM (setting.compileChild_silent (ih (chain ++ [id]))) _ _

theorem compileRule_silent (names : StaticContext) (pattern : String) (tree : Tree) :
    Silent (setting.compileRule names pattern tree) :=
  (require_silent _ _).bind fun _ => (compiled_silent _ _).bind fun _ =>
    (Silent.foldlM (setting.compileChild_silent (setting.extend_silent _ [])) _ _).bind
      fun _ => .pure _

/-! ## Reported rules -/

theorem compilePatternChild_reports (names : StaticContext) (label : String) (rules : List Rule)
    (child : Tree) :
    Reports (setting.compilePatternChild names label rules child) fun rules' new =>
      reportsOf label rules' = reportsOf label rules ++ new := by
  have hsame : Reports (pure rules) fun rules' new =>
      reportsOf label rules' = reportsOf label rules ++ new := .pure (List.append_nil _).symm
  rw [compilePatternChild]
  split
  · split
    · exact hsame
    · refine (setting.compileRule_silent names label child).then_ fun rule => ?_
      refine Reports.bind (P := fun _ new => new =
        if rules.any (·.context.source == rule.context.source) then [neverFires label rule] else [])
        ?_ fun _ new hnew => .pure ?_
      · rw [StageRun.warnIf]
        split
        · show Reports (StageRun.warn (neverFires label rule)) _
          exact (Reports.warn _).mono fun _ new hnew => by
            rw [hnew, List.filter_singleton, isReport_neverFires]
            rfl
        · exact .pure rfl
      · rw [reportsOf_append, List.append_nil, hnew]
  · exact hsame
  · exact hsame
  · exact hsame
  · exact hsame
  · exact hsame
  · exact (Silent.warn (by simp [isReport, List.isPrefixOf])).then_ fun _ => hsame

/-- Of a pattern the repeated rules are reported. -/
theorem compilePattern_reports (names : StaticContext) (tree : Tree) :
    Reports (setting.compilePattern names tree) fun pattern new => new = pattern.reports := by
  refine (Reports.foldlM (setting.compilePatternChild_reports names _) _ []).bind
    fun rules new hnew => (Silent.warnIf (by simp [isReport, List.isPrefixOf])).then_
      fun _ => .pure ?_
  rw [List.append_nil, Pattern.reports, hnew]
  rfl

end Setting

end

theorem activePatterns_silent (phase : Option (String × Tree)) (schema : Tree) :
    Silent (activePatterns phase schema) := by
  refine (Silent.foldlM (fun concrete pattern => ?_) _ _).bind fun concrete => ?_
  · split
    · exact (Silent.warn (by simp [isReport, List.isPrefixOf])).bind fun _ => .pure _
    · refine Silent.bind ?_ fun _ => .pure _
      cases pattern.setting? "id" with
      | some id => exact .warnIf (by simp [isReport, List.isPrefixOf])
      | none => exact .pure ()
  · split
    · exact .pure _
    · exact (Silent.mapM (fun child => (require_silent _ _).bind fun id =>
        (Silent.warnIf (by simp [isReport, List.isPrefixOf])).bind fun _ => .pure id) _).bind
          fun _ => .pure _

theorem selectPhase_silent (options : SkeletonOptions) (requested : Option String) (schema : Tree) :
    Silent (selectPhase options requested schema) := by
  have hnamed (name : String) : Silent (if name == "#ALL" then pure none else do
      let phase ← require ("Unknown phase '" ++ name ++ "'")
        ((schema.schemaChildren "phase").find? (·.setting? "id" == some name))
      pure (some (name, phase))) := by
    split
    · exact .pure _
    · exact (require_silent _ _).bind fun _ => .pure _
  rw [selectPhase]
  split <;> exact hnamed _

theorem compileGlobals_silent [Regex.Engine] (names : StaticContext) (lets : List Tree) :
    Silent (compileGlobals names lets) := by
  refine .foldlM (fun globals tree => (compileLet_silent _ _).bind fun bound => ?_) _ _
  split
  · exact .throw
  · exact .pure _

theorem readAbstractRules_silent (schema : Tree) : Silent (readAbstractRules schema) :=
  (Silent.mapM (fun _ => (require_silent _ _).bind fun _ => .pure _) _).bind fun _ => .pure _

theorem readNamespaces_silent (schema : Tree) : Silent (readNamespaces schema) := by
  refine .mapM (fun child => ?_) _
  split
  · exact .pure _
  · exact .throw

theorem readQueryBinding_silent (options : SkeletonOptions) (schema : Tree) :
    Silent (readQueryBinding options schema) := by
  rw [readQueryBinding]
  split
  · split
    · exact .pure _
    · exact .throw
  · exact .pure _

theorem warnOfUnknownParts_silent (schema : Tree) : Silent (warnOfUnknownParts schema) :=
  .forM (fun _ => .warnIf (by simp [isReport, List.isPrefixOf])) _

end Skeleton

variable [Regex.Engine]

open Skeleton in
/-- The last stage reports the repeated rules of the program. -/
theorem compileSkeleton_reports (options : SkeletonOptions) (requestedPhase : Option String)
    (resource digest : String) (schema : Document) :
    Reports (compileSkeleton options requestedPhase resource digest schema) fun program new =>
      new = program.patterns.flatMap Pattern.reports := by
  rw [compileSkeleton]
  split
  · refine (readQueryBinding_silent _ _).then_ fun _ => (warnOfUnknownParts_silent _).then_ fun _ =>
      (readNamespaces_silent _).then_ fun _ => (readAbstractRules_silent _).then_ fun _ =>
      (selectPhase_silent _ _ _).then_ fun _ => (activePatterns_silent _ _).then_ fun _ =>
      (compileGlobals_silent _ _).then_ fun _ => ?_
    exact (Reports.mapM fun pattern _ => Setting.compilePattern_reports _ _ pattern).bind
      fun patterns new hnew => .pure (by rw [List.append_nil, hnew])
  · exact .throw

/-! ## Contexts -/

namespace Skeleton

/-- The context of the rule is compiled from its text where the names are known. -/
def HasContext (names : StaticContext) (rule : Rule) : Prop :=
  Query.compilePattern names rule.context.source = .ok rule.context

theorem compiledContext_yields (names : StaticContext) (what source : String) :
    Yields (compiled what (Query.compilePattern names source)) fun context =>
      Query.compilePattern names context.source = .ok context := by
  cases h : Query.compilePattern names source with
  | error fault => exact .throw
  | ok query =>
      refine .pure ?_
      obtain ⟨e, -, he⟩ := bind_eq_ok.mp h
      cases he
      exact h

namespace Setting

variable (setting : Setting) (names : StaticContext)

theorem compileRule_hasContext (label : String) (tree : Tree) :
    Yields (setting.compileRule names label tree) (HasContext names) :=
  .then_ fun _ => (compiledContext_yields names _ _).bind fun _ hcontext => .then_ fun _ =>
    .pure hcontext

theorem compilePattern_hasContext (tree : Tree) :
    Yields (setting.compilePattern names tree) fun pattern =>
      ∀ rule ∈ pattern.rules, HasContext names rule := by
  refine (Yields.foldlM (Q := fun rules : List Rule => ∀ rule ∈ rules, HasContext names rule)
    (List.forall_mem_nil _) fun rules hrules child _ => ?_).bind
      fun rules hrules => .then_ fun _ => .pure hrules
  rw [compilePatternChild]
  split
  · split
    · exact .pure hrules
    · exact (setting.compileRule_hasContext names _ child).bind fun rule hrule => .then_ fun _ =>
        .pure (List.forall_mem_append.mpr ⟨hrules, List.forall_mem_singleton.mpr hrule⟩)
  · exact .pure hrules
  · exact .pure hrules
  · exact .pure hrules
  · exact .pure hrules
  · exact .pure hrules
  · exact .then_ fun _ => .pure hrules

end Setting

end Skeleton

open Skeleton in
theorem compileSkeleton_hasContext (options : SkeletonOptions) (requestedPhase : Option String)
    (resource digest : String) (schema : Document) :
    Yields (compileSkeleton options requestedPhase resource digest schema) fun program =>
      ∃ names, ∀ pattern ∈ program.patterns, ∀ rule ∈ pattern.rules, HasContext names rule := by
  rw [compileSkeleton]
  split
  · refine .then_ fun _ => .then_ fun _ => .then_ fun _ => .then_ fun _ => .then_ fun _ =>
      .then_ fun _ => .then_ fun globals => ?_
    exact (Yields.mapM fun pattern _ => Setting.compilePattern_hasContext _ _ pattern).bind
      fun patterns hpatterns => .pure ⟨globals.1, hpatterns⟩
  · exact .throw

/-! ## Compilation -/

section

variable {options : CompilerOptions} {resolver : Resource.Resolver} {source : SchemaSource}
  {program : Program} {warnings : List CompileWarning}

/-- The warning reports a rule of a pattern. -/
def CompileWarning.isReport (warning : CompileWarning) : Bool :=
  warning.stage == .skeleton && Schema.isReport warning.message

/-- The repeated rules of a program are reported in their order, and no others. -/
theorem reports_of_compile (h : compile options resolver source = .ok (program, warnings)) :
    warnings.filter CompileWarning.isReport =
      (program.patterns.flatMap Pattern.reports).map (CompileWarning.mk .skeleton) := by
  obtain ⟨set, schema, sink, others, hrun, rfl, hothers⟩ := lastRun_of_compile h
  obtain ⟨new, hnew, rfl⟩ := compileSkeleton_reports _ _ _ _ _ _ _ _ hrun
  have hnone : others.filter CompileWarning.isReport = [] :=
    List.filter_eq_nil_iff.mpr fun warning hwarning => by
      simp [CompileWarning.isReport, hothers warning hwarning]
  have hall : (CompileWarning.isReport ∘ CompileWarning.mk .skeleton) = Schema.isReport := rfl
  rw [List.filter_append, hnone, List.nil_append, List.filter_map, hall, hnew]
  rfl

/-- All contexts of rules are compiled where the same names are known. -/
theorem contexts_of_compile (h : compile options resolver source = .ok (program, warnings)) :
    ∃ names, ∀ pattern ∈ program.patterns, ∀ rule ∈ pattern.rules,
      Skeleton.HasContext names rule := by
  obtain ⟨set, schema, sink, others, hrun, -⟩ := lastRun_of_compile h
  exact compileSkeleton_hasContext _ _ _ _ _ _ _ _ hrun

/-- In a compiled program a repeated rule has the context of a rule before it. -/
theorem context_of_repeated (h : compile options resolver source = .ok (program, warnings))
    {pattern : Pattern} (hpattern : pattern ∈ program.patterns) {place : Nat}
    (hplace : place ∈ repeated pattern.rules) {rule : Rule}
    (hrule : pattern.rules[place]? = some rule) :
    ∃ earlier ∈ pattern.rules.take place, earlier.context = rule.context := by
  obtain ⟨names, hcontexts⟩ := contexts_of_compile h
  obtain ⟨rule', hrule', earlier, hearlier, hsource⟩ := mem_repeated.mp hplace
  obtain rfl := Option.some.inj (hrule'.symm.trans hrule)
  have hone := hcontexts pattern hpattern earlier (List.mem_of_mem_take hearlier)
  have hother := hcontexts pattern hpattern rule' (List.mem_of_getElem? hrule)
  rw [Skeleton.HasContext, hsource] at hone
  exact ⟨earlier, hearlier, Except.ok.inj (hone.symm.trans hother)⟩

end

end Schematron.Schema
