import Schematron.Validation.Run

/-!
# The records of the parts of a run

A run threads one progress through all its parts. Here each part gets the record that it adds, as
a function of the variables that have values when it begins:

* `bindAll` — the stack after some variables are bound one after the other;
* `messageText`, `assertionRecord`, `ruleRecord`, `patternRecord` — what a part answers and adds,
  without any progress;
* `Adds` — a part of a run does what its record says, whatever came before it, and leaves the
  stack of variables as it found it;
* `run_eq` — a run is the binding of the shared variables followed by the records of the patterns.

The invariant that carries all of it is that the stack is cut back at the end of every rule
(`bindAll_drop`), so that every rule, node and pattern begins with the shared variables alone.
-/

namespace Schematron.Validation

open Schema
open Xml (Document NodeId)
open XPath (Context EvalFault Query Value)

/-! ## Records -/

namespace Record

/-- One record after another. -/
def append (a b : Record) : Record := ⟨a.events ++ b.events, a.notes ++ b.notes⟩

/-- Records one after another. -/
def join (records : List Record) : Record :=
  ⟨records.flatMap (·.events), records.flatMap (·.notes)⟩

@[simp] theorem join_nil : join [] = {} := rfl

@[simp] theorem join_cons (record : Record) (rest : List Record) :
    join (record :: rest) = record.append (join rest) := rfl

@[simp] theorem append_empty (a : Record) : a.append {} = a := by
  simp [append]

theorem join_append (xs ys : List Record) : join (xs ++ ys) = (join xs).append (join ys) := by
  simp [join, append]

end Record

/-- The progress with a record added to it. -/
def Progress.extend (p : Progress) (record : Record) : Progress :=
  { p with
    events := p.events ++ record.events.toArray
    notes := p.notes ++ record.notes.toArray }

namespace Progress

@[simp] theorem extend_empty (p : Progress) : p.extend {} = p := by
  simp [extend]

theorem extend_extend (p : Progress) (a b : Record) :
    (p.extend a).extend b = p.extend (a.append b) := by
  simp [extend, Record.append]

theorem happen_eq_extend (p : Progress) (event : Event) :
    p.happen event = p.extend ⟨[event], []⟩ := by
  simp [happen, extend]

theorem note_eq_extend (p : Progress) (text : String) : p.note text = p.extend ⟨[], [text]⟩ := by
  simp [note, extend]

theorem record_extend (p : Progress) (record : Record) :
    (p.extend record).record = p.record.append record := by
  simp [Progress.record, extend, Record.append]

end Progress

/-! ## What the parts answer and add -/

section

variable [Regex.Engine]

/-- The stack after some variables are bound at a node, each known to those after it. -/
def bindAll (doc : Document) (node : NodeId) (bindings : Bindings) (lets : List Variable) :
    Except RunFault Bindings :=
  lets.foldlM (fun bindings v => do
    let value ← Variable.evaluate { doc, node, bindings } v
    .ok ((v.name, value) :: bindings)) bindings

/-- The text of a part of a message, and the note that it leaves. -/
def partText (context : Context) : MessagePart → Except RunFault (String × Record)
  | .text value => .ok (value, {})
  | .valueOf query => do
    .ok (← withSource query (query.evaluateText context), {})
  | .nodeName none => .ok ((firstName? context.doc [context.node]).getD "", {})
  | .nodeName (some path) => do
    let ids ← withSource path do
      (← path.evaluate context).toNodes (.namedPath path.source)
    match firstName? context.doc ids with
    | some name => .ok (name, {})
    | none => .ok ("", ⟨[], ["<name path=\"" ++ path.source ++ "\"> selected no named node"]⟩)

/-- The text of a message, with the notes of its parts. -/
def messageText (context : Context) (message : MessageTemplate) :
    Except RunFault (String × Record) := do
  let parts ← message.mapM (partText context)
  .ok (String.join (parts.map (·.1)), .join (parts.map (·.2)))

/-- The text of a diagnostic with its id, and the notes of its parts. -/
def diagnosticText (context : Context) (diagnostic : DiagnosticTemplate) :
    Except RunFault ((String × String) × Record) := do
  let (text, notes) ← messageText context diagnostic.message
  .ok ((diagnostic.id, text), notes)

/-- What an assertion adds that fires in a context. -/
def firingRecord (context : Context) (assertion : Assertion) : Except RunFault Record := do
  let (message, notes) ← messageText context assertion.message
  let diagnostics ← assertion.diagnostics.mapM (diagnosticText context)
  let firing : Firing :=
    { assertion, location := context.doc.location context.node, message
      diagnostics := diagnostics.map (·.1) }
  .ok (.join [notes, .join (diagnostics.map (·.2)), ⟨[.firing firing], []⟩])

/-- What checking an assertion in a context adds. -/
def assertionRecord (context : Context) (assertion : Assertion) : Except RunFault Record := do
  let holds ← withSource assertion.test (assertion.test.evaluateBool context)
  if assertion.kind.fires holds then firingRecord context assertion else .ok {}

/-- What a rule adds that fires on a node. -/
def ruleRecord (doc : Document) (globals : Bindings) (rule : Rule) (node : NodeId) :
    Except RunFault Record := do
  let bindings ← bindAll doc node globals rule.lets
  let records ← rule.assertions.mapM (assertionRecord { doc, node, bindings })
  .ok (.join (⟨[.firedRule rule], []⟩ :: records))

/-- What a pattern adds. -/
def patternRecord (doc : Document) (globals : Bindings) (pattern : Pattern) :
    Except RunFault Record := do
  let selected ← selectNodes doc globals pattern
  let records ← (firedRules doc.size selected).mapM fun (rule, node) =>
    ruleRecord doc globals rule node
  .ok (.join (⟨[.activePattern pattern], []⟩ :: records))

end

/-! ## Parts of a run without their progress -/

/-- On any progress with these variables on its stack, the part answers and adds what `outcome`
says, and leaves the stack as it is. -/
def Adds {α : Type} (bindings : Bindings) (part : Running α)
    (outcome : Except RunFault (α × Record)) : Prop :=
  ∀ p : Progress, p.bindings = bindings →
    part.run p = outcome.map fun (x, record) => (x, p.extend record)

namespace Adds

variable {α β : Type} {b : Bindings}

theorem pure (x : α) : Adds b (Pure.pure x) (.ok (x, {})) := by
  intro p _
  show Except.ok (x, p) = Except.ok (x, p.extend {})
  rw [Progress.extend_empty]

theorem lift (r : Except RunFault α) : Adds b (StateT.lift r) (r.map (·, {})) := by
  intro p _
  cases r with
  | error e => rfl
  | ok x =>
      show Except.ok (x, p) = Except.ok (x, p.extend {})
      rw [Progress.extend_empty]

/-- A part and what goes on with its answer: the records of both, one after the other. -/
theorem bind {m : Running α} {f : α → Running β} {r : Except RunFault (α × Record)}
    {s : α → Except RunFault (β × Record)} (hm : Adds b m r) (hf : ∀ x, Adds b (f x) (s x)) :
    Adds b (m >>= f) (r >>= fun x => (s x.1).map fun y => (y.1, x.2.append y.2)) := by
  intro p hp
  rw [StateT.run_bind, hm p hp]
  cases r with
  | error e => rfl
  | ok x =>
      show (f x.1).run (p.extend x.2) = _
      rw [hf x.1 (p.extend x.2) hp]
      show (s x.1).map _ = ((s x.1).map _).map _
      cases s x.1 with
      | error e => rfl
      | ok y =>
          show Except.ok (y.1, (p.extend x.2).extend y.2) = Except.ok (y.1, p.extend _)
          rw [Progress.extend_extend]

theorem congr {m : Running α} {r s : Except RunFault (α × Record)} (h : Adds b m r) (e : r = s) :
    Adds b m s := e ▸ h

/-- A part that begins by looking at the context sees the variables on the stack. -/
theorem contextAt_bind {doc : Document} {node : NodeId} {f : Context → Running β}
    {r : Except RunFault (β × Record)} (h : Adds b (f { doc, node, bindings := b }) r) :
    Adds b (contextAt doc node >>= f) r := by
  intro p hp
  rw [StateT.run_bind]
  show (f { doc, node, bindings := p.bindings }).run p = _
  rw [hp]
  exact h p hp

theorem happen (event : Event) :
    Adds b (modify (·.happen event)) (.ok ((), ⟨[event], []⟩)) := by
  intro p _
  show Except.ok ((), p.happen event) = Except.ok ((), p.extend ⟨[event], []⟩)
  rw [Progress.happen_eq_extend]

theorem note (text : String) : Adds b (modify (·.note text)) (.ok ((), ⟨[], [text]⟩)) := by
  intro p _
  show Except.ok ((), p.note text) = Except.ok ((), p.extend ⟨[], [text]⟩)
  rw [Progress.note_eq_extend]

theorem mapM {f : α → Running β} {g : α → Except RunFault (β × Record)}
    (h : ∀ x, Adds b (f x) (g x)) (xs : List α) :
    Adds b (xs.mapM f)
      (xs.mapM g >>= fun rs => .ok (rs.map (·.1), .join (rs.map (·.2)))) := by
  induction xs with
  | nil => exact pure []
  | cons x xs ih =>
      simp only [List.mapM_cons]
      refine (bind (h x) fun y => bind ih fun ys => pure (y :: ys)).congr ?_
      cases g x with
      | error e => rfl
      | ok y =>
          cases xs.mapM g with
          | error e => rfl
          | ok ys =>
              show Except.ok _ = Except.ok _
              simp

theorem forM {f : α → Running Unit} {g : α → Except RunFault Record}
    (h : ∀ x, Adds b (f x) ((g x).map ((), ·))) (xs : List α) :
    Adds b (xs.forM f) ((xs.mapM g).map fun records => ((), .join records)) := by
  induction xs with
  | nil => exact pure ()
  | cons x xs ih =>
      simp only [List.mapM_cons]
      refine (bind (h x) fun _ => ih).congr ?_
      cases g x with
      | error e => rfl
      | ok record =>
          cases xs.mapM g with
          | error e => rfl
          | ok records => rfl

end Adds

/-! ## Messages and assertions -/

variable [Regex.Engine]

theorem renderPart_adds (b : Bindings) (context : Context) (part : MessagePart) :
    Adds b (renderPart context part) (partText context part) := by
  match part with
  | .text value => exact .pure value
  | .valueOf query =>
      refine (Adds.lift (withSource query (query.evaluateText context))).congr ?_
      rw [partText]
      cases withSource query (query.evaluateText context) <;> rfl
  | .nodeName none => exact .pure _
  | .nodeName (some path) =>
      refine (Adds.bind (.lift _)
        (s := fun ids => match firstName? context.doc ids with
          | some name => .ok (name, {})
          | none => .ok ("", ⟨[], ["<name path=\"" ++ path.source ++
              "\"> selected no named node"]⟩)) fun ids => ?_).congr ?_
      · cases firstName? context.doc ids with
        | some name => exact .pure name
        | none => exact (Adds.note _).bind fun _ => .pure ""
      · rw [partText]
        generalize withSource path _ = r
        cases r with
        | error e => rfl
        | ok ids =>
            show Except.map _ (match firstName? context.doc ids with
              | some name => _
              | none => _) = _
            cases h : firstName? context.doc ids <;>
              simp [h, bind, Except.bind, Except.map, Record.append]

theorem render_adds (b : Bindings) (context : Context) (message : MessageTemplate) :
    Adds b (render context message) (messageText context message) := by
  refine (Adds.bind (.mapM (renderPart_adds b context) message) fun parts =>
    .pure (String.join parts)).congr ?_
  rw [messageText]
  cases List.mapM (partText context) message with
  | error e => rfl
  | ok parts => exact congrArg (fun record => Except.ok (_, record)) (Record.append_empty _)

theorem diagnose_adds (b : Bindings) (context : Context) (diagnostic : DiagnosticTemplate) :
    Adds b (diagnose context diagnostic) (diagnosticText context diagnostic) := by
  refine ((render_adds b context diagnostic.message).bind fun text =>
    .pure (diagnostic.id, text)).congr ?_
  rw [diagnosticText]
  cases messageText context diagnostic.message with
  | error e => rfl
  | ok text => exact congrArg (fun record => Except.ok (_, record)) (Record.append_empty _)

theorem fire_adds (b : Bindings) (context : Context) (assertion : Assertion) :
    Adds b (fire context assertion) ((firingRecord context assertion).map ((), ·)) := by
  refine ((render_adds b context assertion.message).bind fun message =>
    (Adds.mapM (diagnose_adds b context) assertion.diagnostics).bind fun diagnostics =>
      .happen (.firing { assertion, location := context.doc.location context.node, message
                         diagnostics })).congr ?_
  rw [firingRecord]
  cases messageText context assertion.message with
  | error e => rfl
  | ok message =>
      cases assertion.diagnostics.mapM (diagnosticText context) <;> rfl

/-- An assertion adds its record, whatever the run recorded before. -/
theorem checkAssertion_adds (doc : Document) (node : NodeId) (b : Bindings)
    (assertion : Assertion) :
    Adds b (checkAssertion doc node assertion)
      ((assertionRecord { doc, node, bindings := b } assertion).map ((), ·)) := by
  refine Adds.contextAt_bind ?_
  generalize ({ doc, node, bindings := b } : Context) = context
  refine ((Adds.lift (withSource assertion.test (assertion.test.evaluateBool context))).bind
    (s := fun holds =>
      (if assertion.kind.fires holds then firingRecord context assertion else .ok {}).map ((), ·))
    fun holds => ?_).congr ?_
  · cases assertion.kind.fires holds with
    | false => exact .pure ()
    | true => exact fire_adds b context assertion
  · rw [assertionRecord]
    cases withSource assertion.test (assertion.test.evaluateBool context) with
    | error e => rfl
    | ok holds =>
        show Except.map _ (Except.map _ _) = Except.map _ (if assertion.kind.fires holds then _ else _)
        cases (if assertion.kind.fires holds then firingRecord context assertion else .ok {}) <;> rfl

/-! ## The stack of variables -/

/-- Binding variables puts one on the stack for each and records nothing. -/
theorem forM_bindVariable (doc : Document) (node : NodeId) (lets : List Variable)
    (p : Progress) :
    (lets.forM (bindVariable doc node)).run p =
      (bindAll doc node p.bindings lets).map fun b => ((), { p with bindings := b }) := by
  induction lets generalizing p with
  | nil => rfl
  | cons v rest ih =>
      have hone : (bindVariable doc node v).run p =
          (Variable.evaluate { doc, node, bindings := p.bindings } v).map fun value =>
            ((), p.bind v.name value) := by
        show (Except.bind (Except.bind _ _) _ : Except RunFault _) = _
        cases Variable.evaluate { doc, node, bindings := p.bindings } v <;> rfl
      show (bindVariable doc node v >>= fun _ => rest.forM _).run p = _
      rw [StateT.run_bind, hone, bindAll, List.foldlM_cons]
      cases Variable.evaluate { doc, node, bindings := p.bindings } v with
      | error e => rfl
      | ok value => exact ih (p.bind v.name value)

/-- The names of the variables that are bound, the last one first. -/
theorem bindAll_names {doc : Document} {node : NodeId} {lets : List Variable}
    {b b' : Bindings} (h : bindAll doc node b lets = .ok b') :
    ∃ new : Bindings, b' = new ++ b ∧ new.map (·.1) = (lets.map (·.name)).reverse := by
  induction lets generalizing b with
  | nil =>
      injection h with h
      exact ⟨[], h.symm, rfl⟩
  | cons v rest ih =>
      rw [bindAll, List.foldlM_cons] at h
      cases hv : Variable.evaluate { doc, node, bindings := b } v with
      | error e => rw [hv] at h; cases h
      | ok value =>
          rw [hv] at h
          obtain ⟨new, rfl, hnames⟩ := ih (b := (v.name, value) :: b) h
          exact ⟨new ++ [(v.name, value)], by simp, by simp [hnames]⟩

/-- Cutting the stack back to its height before some variables were bound leaves what was there. -/
theorem bindAll_drop {doc : Document} {node : NodeId} {lets : List Variable} {b b' : Bindings}
    (h : bindAll doc node b lets = .ok b') : b'.drop (b'.length - b.length) = b := by
  obtain ⟨new, rfl, -⟩ := bindAll_names h
  simp

/-! ## Rules, patterns and programs -/

/-- A rule adds its record and takes everything off the stack that it put there. -/
theorem fireRule_adds (doc : Document) (rule : Rule) (node : NodeId) (b : Bindings) :
    Adds b (fireRule doc rule node) ((ruleRecord doc b rule node).map ((), ·)) := by
  rintro p rfl
  have hsteps : (fireRule doc rule node).run p =
      (rule.lets.forM (bindVariable doc node)).run (p.happen (.firedRule rule)) >>= fun x =>
        (rule.assertions.forM (checkAssertion doc node)).run x.2 >>= fun y =>
          .ok ((), y.2.unwind p.bindings.length) := rfl
  rw [hsteps, forM_bindVariable, ruleRecord]
  show Except.map _ (bindAll doc node p.bindings rule.lets) >>= _ = _
  cases hb : bindAll doc node p.bindings rule.lets with
  | error e => rfl
  | ok b' =>
      have hassertions := Adds.forM (checkAssertion_adds doc node b') rule.assertions
        { p.happen (.firedRule rule) with bindings := b' } rfl
      show StateT.run (rule.assertions.forM (checkAssertion doc node)) _ >>= _ = _
      rw [hassertions]
      show _ = Except.map _ (Except.map _ (List.mapM _ _ >>= _))
      cases rule.assertions.mapM (assertionRecord { doc, node, bindings := b' }) with
      | error e => rfl
      | ok records =>
          -- what is left of the stack is what the rule found
          show Except.ok ((), Progress.unwind _ _) = Except.ok ((), _)
          simp [Progress.unwind, Progress.extend, Progress.happen, Record.append, bindAll_drop hb]

/-- A pattern adds its record and leaves the stack as it is. -/
theorem runPattern_adds (doc : Document) (pattern : Pattern) (b : Bindings) :
    Adds b (runPattern doc pattern) ((patternRecord doc b pattern).map ((), ·)) := by
  intro p hp
  have hsteps : (runPattern doc pattern).run p =
      selectNodes doc p.bindings pattern >>= fun selected =>
        ((firedRules doc.size selected).forM fun x => fireRule doc x.1 x.2).run
          (p.happen (.activePattern pattern)) := by
    show ((selectNodes doc p.bindings pattern).bind _).bind _ =
      (selectNodes doc p.bindings pattern).bind _
    cases selectNodes doc p.bindings pattern <;> rfl
  rw [hsteps, hp, patternRecord]
  cases selectNodes doc b pattern with
  | error e => rfl
  | ok selected =>
      have hrules := Adds.forM (fun x : Rule × NodeId => fireRule_adds doc x.1 x.2 b)
        (firedRules doc.size selected) (p.happen (.activePattern pattern)) hp
      show StateT.run (List.forM (firedRules doc.size selected) _) _ = _
      rw [hrules]
      show _ = Except.map _ (Except.map _ (List.mapM _ _ >>= _))
      cases (firedRules doc.size selected).mapM fun x => ruleRecord doc b x.1 x.2 with
      | error e => rfl
      | ok records =>
          show Except.ok ((), _) = Except.ok ((), _)
          rw [Progress.happen_eq_extend, Progress.extend_extend]
          rfl

/-- A run binds the shared variables and then adds the records of the patterns, each as it is
made on the shared variables alone. -/
theorem run_eq (program : Program) (doc : Document) :
    run program doc =
      bindAll doc Document.rootNode [] program.globals >>= fun globals =>
        (program.patterns.mapM (patternRecord doc globals)).map Record.join := by
  have hsteps : (runProgram program doc).run {} =
      (program.globals.forM (bindVariable doc Document.rootNode)).run {} >>= fun x =>
        (program.patterns.forM (runPattern doc)).run x.2 := rfl
  rw [run, hsteps, forM_bindVariable]
  show (Except.map _ (bindAll doc Document.rootNode [] program.globals) >>= _) >>= _ = _
  cases bindAll doc Document.rootNode [] program.globals with
  | error e => rfl
  | ok globals =>
      have hpatterns := Adds.forM (fun pattern => runPattern_adds doc pattern globals)
        program.patterns { bindings := globals } rfl
      show StateT.run (program.patterns.forM _) _ >>= _ = _
      rw [hpatterns]
      show _ = Except.map _ (List.mapM _ _)
      cases program.patterns.mapM (patternRecord doc globals) with
      | error e => rfl
      | ok records =>
          show Except.ok (Progress.record (Progress.extend _ _)) = Except.ok _
          rw [Progress.record_extend]
          rfl

end Schematron.Validation
