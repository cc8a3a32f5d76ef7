import Mathlib.Data.List.Flatten
import Mathlib.Data.List.Nodup
import Schematron.Proofs.Schema.OtherScope
import Schematron.Proofs.Schema.Scope

/-!
# Phases of a schema

A phase leaves out patterns, and the shared variables with them. What it leaves is the same as
without a phase: compiled for a phase that has no variables of its own, a schema has those of its
patterns that the phase activates, and some of its shared variables, in their order
(`Parts.select`). The reason is that what a pattern or a variable is compiled to does not depend
on the variables that are known, as long as it is accepted.
-/

namespace Schematron.Schema

open Xml (Document Tree)
open XPath (StaticContext)

namespace Skeleton

/-- The first phase of an id. -/
def phaseOf? (schema : Tree) (id : String) : Option Tree :=
  (schema.schemaChildren "phase").find? (·.setting? "id" == some id)

/-- The ids of patterns that a phase activates. -/
def activated (phase : Tree) : List String :=
  (phase.schemaChildren "active").filterMap (·.setting? "pattern")

/-- An id is one of these. -/
def Selects (ids : List String) (id : Option String) : Bool := id.any ids.contains

/-! ## The phase and its patterns -/

theorem filterMap_of_forall₂ {α β : Type} {f : α → Option β} {xs : List α} {ys : List β}
    (h : List.Forall₂ (fun x y => f x = some y) xs ys) : xs.filterMap f = ys := by
  induction h with
  | nil => rfl
  | cons hxy _ ih => rw [List.filterMap_cons_some hxy, ih]

theorem Gives.of_require {α : Type} {message : String} {x : Option α} {a : α}
    (h : Gives (require message x) a) : x = some a := by
  cases x with
  | some x => rw [Gives.pure h]
  | none => exact absurd h not_gives_throw

theorem phase_of_gives {options : SkeletonOptions} {schema : Tree} {id : String}
    {phase : Option (String × Tree)} (hdefault : id ≠ "#DEFAULT") (hall : id ≠ "#ALL")
    (h : Gives (selectPhase options (some id) schema) phase) :
    ∃ tree, phaseOf? schema id = some tree ∧ phase = some (id, tree) := by
  have hstep : Gives (require ("Unknown phase '" ++ id ++ "'") (phaseOf? schema id) >>=
      fun tree => pure (some (id, tree))) phase := by
    simpa [selectPhase, hdefault, hall, phaseOf?] using h
  obtain ⟨tree, htree, h⟩ := hstep.bind
  exact ⟨tree, Gives.of_require htree, h.pure.symm⟩

theorem phase_of_gives_all {options : SkeletonOptions} {schema : Tree}
    {phase : Option (String × Tree)} (h : Gives (selectPhase options (some "#ALL") schema) phase) :
    phase = none := Gives.pure h |>.symm

theorem concretePatterns_relates (schema : Tree) :
    Relates Eq (concretePatterns schema) (concretePatterns schema) := by
  refine Relates.foldlM (R := Eq) (fun concrete _ hconcrete pattern _ => ?_) rfl
  obtain rfl := hconcrete
  split
  · exact .then_ fun _ _ => .pure rfl
  · exact .then_ fun _ _ => .pure rfl

/-- The active patterns of a phase are those of all patterns that it activates. -/
theorem activePatterns_of_phase {schema tree : Tree} {id : String} {active all : List Tree}
    (hactive : Gives (activePatterns (some (id, tree)) schema) active)
    (hall : Gives (activePatterns none schema) all) :
    active = all.filter fun pattern => Selects (activated tree) (pattern.setting? "id") := by
  obtain ⟨concrete, hconcrete, hactive⟩ := hactive.bind
  obtain ⟨concrete', hconcrete', hall⟩ := hall.bind
  obtain rfl := concretePatterns_relates schema concrete concrete' hconcrete hconcrete'
  obtain rfl := hall.pure
  obtain ⟨ids, hids, hactive⟩ := hactive.bind
  -- every `active` names a pattern, or there was no result
  have hactivated : activated tree = ids := by
    refine filterMap_of_forall₂ (hids.mapM.imp fun child _ hchild => ?_)
    obtain ⟨id, hid, hchild⟩ := hchild.bind
    obtain ⟨_, -, hchild⟩ := hchild.bind
    obtain rfl := hchild.pure
    exact Gives.of_require hid
  rw [hactivated]
  exact hactive.pure.symm

/-! ## The parts of a program -/

variable [Regex.Engine]

/-- What is found in a schema before its patterns are compiled. -/
structure Parts where
  namespaces : List (String × String)
  abstractRules : List (String × Tree)
  phase : Option (String × Tree)
  patterns : List Tree
  names : StaticContext

/-- The variables that all patterns share. -/
def Parts.lets (parts : Parts) (schema : Tree) : List Tree :=
  (schema :: (parts.phase.map (·.2)).toList ++ parts.patterns).flatMap (·.schemaChildren "let")

/-- The program is compiled from these parts of the schema. -/
structure Parts.Compile (parts : Parts) (options : SkeletonOptions) (requested : Option String)
    (schema : Tree) (program : Program) : Prop where
  namespaces : Gives (readNamespaces schema) parts.namespaces
  abstractRules : Gives (readAbstractRules schema) parts.abstractRules
  phase : Gives (selectPhase options requested schema) parts.phase
  active : Gives (activePatterns parts.phase schema) parts.patterns
  globals : Gives (compileGlobals
    (parts.namespaces.foldl (fun names (pre, uri) => names.withNamespace pre uri) {})
    (parts.lets schema)) (parts.names, program.globals)
  patterns : Gives (parts.patterns.mapM (Setting.compilePattern
    ⟨options, parts.abstractRules, readDiagnostics schema⟩ parts.names)) program.patterns

theorem parts_of_gives {options : SkeletonOptions} {requested : Option String}
    {resource digest : String} {doc : Document} {program : Program}
    (h : Gives (compileSkeleton options requested resource digest doc) program) :
    ∃ schema parts, doc.documentTree?.filter (·.isSchemaElement "schema") = some schema ∧
      Parts.Compile parts options requested schema program := by
  rw [compileSkeleton] at h
  split at h
  next schema hschema =>
    obtain ⟨_, -, h⟩ := h.bind
    obtain ⟨_, -, h⟩ := h.bind
    obtain ⟨namespaces, hnamespaces, h⟩ := h.bind
    obtain ⟨abstractRules, hrules, h⟩ := h.bind
    obtain ⟨phase, hphase, h⟩ := h.bind
    obtain ⟨patterns, hpatterns, h⟩ := h.bind
    obtain ⟨⟨names, globals⟩, hglobals, h⟩ := h.bind
    obtain ⟨compiled, hcompiled, h⟩ := h.bind
    obtain rfl := h.pure
    exact ⟨schema, ⟨namespaces, abstractRules, phase, patterns, names⟩, hschema,
      hnamespaces, hrules, hphase, hpatterns, hglobals, hcompiled⟩
  · exact absurd h not_gives_throw

/-! ## Shared variables -/

/-- The variable can be compiled from the tree where prefixes stand for these namespaces. -/
def IsLet (namespaces : List (String × String)) (tree : Tree) (v : Variable) : Prop :=
  ∃ known : StaticContext, known.namespaces = namespaces ∧ Gives (compileLet known tree) v

theorem rightUnique_isLet (namespaces : List (String × String)) :
    Relator.RightUnique (IsLet namespaces) := by
  rintro tree v w ⟨known, hknown, hv⟩ ⟨known', hknown', hw⟩
  exact compileLet_relates (hknown.trans hknown'.symm) tree v w hv hw

/-- The names of the variables before these differ, and they go on to differ. -/
theorem globals_of_foldlM {names names' : StaticContext} {lets : List Tree}
    {before globals : List Variable} (hbefore : (before.map (·.name)).Nodup)
    (h : Gives (lets.foldlM (fun (names, globals) tree => do
      let bound ← compileLet names tree
      if globals.any (·.name == bound.name) then
        throw (.diagnostic (.error ("Variable $" ++ bound.name ++ " is declared twice")))
      else pure (names.withVariable bound.name, globals ++ [bound])) (names, before))
        (names', globals)) :
    names'.namespaces = names.namespaces ∧ (globals.map (·.name)).Nodup ∧
      ∃ rest, globals = before ++ rest ∧ List.Forall₂ (IsLet names.namespaces) lets rest := by
  induction lets generalizing names before with
  | nil =>
      obtain ⟨rfl, rfl⟩ := Prod.mk.inj h.pure
      exact ⟨rfl, hbefore, [], (List.append_nil _).symm, .nil⟩
  | cons tree lets ih =>
      rw [List.foldlM_cons] at h
      obtain ⟨⟨next, known⟩, hnext, h⟩ := h.bind
      obtain ⟨bound, hbound, hnext⟩ := hnext.bind
      split at hnext
      · exact absurd hnext not_gives_throw
      next hnew =>
        obtain ⟨rfl, rfl⟩ := Prod.mk.inj hnext.pure
        have hnodup : ((before ++ [bound]).map (·.name)).Nodup := by
          rw [List.map_append, List.map_singleton, List.nodup_append]
          refine ⟨hbefore, List.nodup_singleton _, fun name hname other hother heq => hnew ?_⟩
          obtain ⟨v, hv, rfl⟩ := List.mem_map.mp hname
          obtain rfl := List.mem_singleton.mp hother
          exact List.any_eq_true.mpr ⟨v, hv, beq_iff_eq.mpr heq⟩
        obtain ⟨hnames, hdistinct, rest, rfl, hrest⟩ := ih hnodup h
        refine ⟨hnames, hdistinct, bound :: rest, by simp, .cons ⟨names, rfl, hbound⟩ hrest⟩

/-- Shared variables are compiled from their trees in order, and no two have one name. -/
theorem globals_of_gives {names names' : StaticContext} {lets : List Tree}
    {globals : List Variable} (h : Gives (compileGlobals names lets) (names', globals)) :
    names'.namespaces = names.namespaces ∧ (globals.map (·.name)).Nodup ∧
      List.Forall₂ (IsLet names'.namespaces) lets globals := by
  have hnone : (([] : List Variable).map (·.name)).Nodup := List.nodup_nil
  obtain ⟨hnames, hdistinct, rest, rfl, hrest⟩ := globals_of_foldlM hnone h
  exact ⟨hnames, hdistinct, hnames ▸ hrest⟩

omit [Regex.Engine] in
/-- What is made of some elements of a list, one by one, is some of what is made of all. -/
theorem sublist_of_rightUnique {α β : Type} {R : α → β → Prop} (hR : Relator.RightUnique R)
    {xs xs' : List α} {ys ys' : List β} (hsublist : xs.Sublist xs') (h : List.Forall₂ R xs ys)
    (h' : List.Forall₂ R xs' ys') : ys.Sublist ys' := by
  induction hsublist generalizing ys ys' with
  | slnil =>
      cases h
      exact List.nil_sublist _
  | cons x _ ih =>
      cases h' with
      | cons _ h' => exact (ih h h').cons _
  | cons_cons x _ ih =>
      cases h with
      | cons hy h =>
          cases h' with
          | cons hy' h' =>
              obtain rfl := hR hy hy'
              exact (ih h h').cons_cons _

/-! ## Patterns -/

/-- The pattern can be compiled from the tree where prefixes stand for these namespaces. -/
def IsPattern (setting : Setting) (namespaces : List (String × String)) (tree : Tree)
    (pattern : Pattern) : Prop :=
  ∃ known : StaticContext, known.namespaces = namespaces ∧
    Gives (setting.compilePattern known tree) pattern

theorem rightUnique_isPattern (setting : Setting) (namespaces : List (String × String)) :
    Relator.RightUnique (IsPattern setting namespaces) := by
  rintro tree one two ⟨known, hknown, hone⟩ ⟨known', hknown', htwo⟩
  exact setting.compilePattern_relates (hknown.trans hknown'.symm) tree one two hone htwo

theorem IsPattern.id_eq {setting : Setting} {namespaces : List (String × String)} {tree : Tree}
    {pattern : Pattern} (h : IsPattern setting namespaces tree pattern) :
    pattern.id = tree.setting? "id" := by
  obtain ⟨known, -, h⟩ := h
  obtain ⟨rules, -, h⟩ := h.bind
  obtain ⟨_, -, h⟩ := h.bind
  obtain rfl := h.pure
  rfl

/-- Patterns that are left out by their ids can as well be left out after they are compiled. -/
theorem filter_of_isPattern {setting : Setting} {namespaces : List (String × String)}
    {trees : List Tree} {some all : List Pattern} {selects : Option String → Bool}
    (hsome : List.Forall₂ (IsPattern setting namespaces)
      (trees.filter fun tree => selects (tree.setting? "id")) some)
    (hall : List.Forall₂ (IsPattern setting namespaces) trees all) :
    some = all.filter fun pattern => selects pattern.id := by
  have hkept : List.Forall₂ (IsPattern setting namespaces)
      (trees.filter fun tree => selects (tree.setting? "id"))
      (all.filter fun pattern => selects pattern.id) := by
    refine List.rel_filter (fun tree pattern h => ?_) hall
    exact iff_of_eq (congrArg (selects · = true) h.id_eq.symm)
  exact (rightUnique_isPattern setting namespaces).forall₂ hsome hkept

/-! ## The program of a phase -/

omit [Regex.Engine] in
theorem readNamespaces_relates (schema : Tree) :
    Relates Eq (readNamespaces schema) (readNamespaces schema) := by
  intro one two hone htwo
  refine List.forall₂_eq_eq_eq ▸ Relates.mapM (R := Eq) (fun child _ => ?_) one two hone htwo
  split
  · exact .pure rfl
  · exact .throw_left

omit [Regex.Engine] in
theorem readAbstractRules_relates (schema : Tree) :
    Relates Eq (readAbstractRules schema) (readAbstractRules schema) := by
  refine (Relates.mapM (R := Eq) fun tree _ => ?_).bind fun rules rules' hrules => ?_
  · refine (require_relates _ _).bind fun id _ => ?_
    rintro rfl
    exact .pure rfl
  · obtain rfl := List.forall₂_eq_eq_eq ▸ hrules
    exact .pure rfl

namespace Parts.Compile

variable {parts : Parts} {options : SkeletonOptions} {requested : Option String} {schema : Tree}
  {program : Program}

theorem names_eq (h : parts.Compile options requested schema program) :
    parts.names.namespaces = (parts.namespaces.foldl
      (fun names (pre, uri) => names.withNamespace pre uri) ({} : StaticContext)).namespaces :=
  (globals_of_gives h.globals).1

theorem distinct (h : parts.Compile options requested schema program) :
    (program.globals.map (·.name)).Nodup := (globals_of_gives h.globals).2.1

theorem isLet (h : parts.Compile options requested schema program) :
    List.Forall₂ (IsLet parts.names.namespaces) (parts.lets schema) program.globals :=
  (globals_of_gives h.globals).2.2

theorem isPattern (h : parts.Compile options requested schema program) :
    List.Forall₂ (IsPattern ⟨options, parts.abstractRules, readDiagnostics schema⟩
      parts.names.namespaces) parts.patterns program.patterns :=
  h.patterns.mapM.imp fun _ _ hpattern => ⟨parts.names, rfl, hpattern⟩

/-- Compiled for a phase without variables of its own, a schema has the patterns that the phase
activates, and no shared variables but those it has without a phase. -/
theorem select {all : Parts} {whole : Program} {id : String} (hdefault : id ≠ "#DEFAULT")
    (hid : id ≠ "#ALL") (h : parts.Compile options (some id) schema program)
    (hall : all.Compile options (some "#ALL") schema whole) :
    ∃ phase, phaseOf? schema id = some phase ∧ (phase.schemaChildren "let" = [] →
      program.patterns =
        whole.patterns.filter (fun pattern => Selects (activated phase) pattern.id) ∧
      program.globals.Sublist whole.globals) := by
  obtain ⟨phase, hphase, hparts⟩ := phase_of_gives hdefault hid h.phase
  have hnone := phase_of_gives_all hall.phase
  refine ⟨phase, hphase, fun hlets => ?_⟩
  -- both are compiled where prefixes and the ids of abstract rules stand for the same
  have hnamespaces : parts.namespaces = all.namespaces :=
    readNamespaces_relates schema _ _ h.namespaces hall.namespaces
  have hrules : parts.abstractRules = all.abstractRules :=
    readAbstractRules_relates schema _ _ h.abstractRules hall.abstractRules
  have hnames : parts.names.namespaces = all.names.namespaces := by
    rw [h.names_eq, hall.names_eq, hnamespaces]
  have hactive : parts.patterns =
      all.patterns.filter fun tree => Selects (activated phase) (tree.setting? "id") :=
    activePatterns_of_phase (hparts ▸ h.active) (hnone ▸ hall.active)
  constructor
  · have hpatterns := h.isPattern
    rw [hrules, hnames, hactive] at hpatterns
    exact filter_of_isPattern hpatterns hall.isPattern
  · have hsublist : (parts.lets schema).Sublist (all.lets schema) := by
      simp only [Parts.lets, hparts, hnone, Option.map_some, Option.map_none, Option.toList_some,
        Option.toList_none, List.flatMap_append, List.flatMap_cons, List.flatMap_nil, hlets,
        List.append_nil]
      refine (List.Sublist.refl _).append ?_
      rw [hactive]
      exact List.filter_sublist.flatMap _
    exact sublist_of_rightUnique (rightUnique_isLet _) hsublist h.isLet (hnames ▸ hall.isLet)

end Parts.Compile

end Skeleton

/-! ## Compilation -/

/-- The schema that is left of a source for the last stage. -/
def expand (options : CompilerOptions) (resolver : Resource.Resolver) (source : SchemaSource) :
    Except CompileFault Document := do
  let schema ← source.read
  let (included, _) ← runInclusion options resolver source.resource schema
  let (concrete, _) ← runAbstraction options resolver source.resource included
  .ok concrete

/-- What a source is compiled to, the last stage makes of the schema that is left for it. -/
theorem gives_of_compile [Regex.Engine] {options : CompilerOptions} {resolver : Resource.Resolver}
    {source : SchemaSource} {program : Program} {warnings : List CompileWarning}
    (h : compile options resolver source = .ok (program, warnings)) :
    ∃ doc set, expand options resolver source = .ok doc ∧
      StageProgram.fetch resolver options.skeletonProgram = .ok (.skeleton set) ∧
      Gives (compileSkeleton set options.phase source.resource source.digest doc) program := by
  obtain ⟨schema, hschema, h⟩ := bind_eq_ok.mp h
  obtain ⟨⟨included, _⟩, hincluded, h⟩ := bind_eq_ok.mp h
  obtain ⟨⟨concrete, _⟩, hconcrete, h⟩ := bind_eq_ok.mp h
  obtain ⟨⟨compiled, _⟩, hcompiled, h⟩ := bind_eq_ok.mp h
  cases h
  have hexpand : expand options resolver source = .ok concrete :=
    bind_eq_ok.mpr ⟨schema, hschema, bind_eq_ok.mpr ⟨_, hincluded,
      bind_eq_ok.mpr ⟨_, hconcrete, rfl⟩⟩⟩
  obtain ⟨stageProgram, hfetch, hcompiled⟩ := bind_eq_ok.mp hcompiled
  cases stageProgram with
  | inclusion _ => cases hcompiled
  | abstraction _ => cases hcompiled
  | skeleton set =>
      obtain ⟨sink, hrun, -⟩ := run_of_runStage hcompiled
      exact ⟨concrete, set, hexpand, hfetch, {}, sink, hrun⟩

end Schematron.Schema
