import Schematron.Proofs.Outcome
import Schematron.Proofs.Validation.Records
import Schematron.Proofs.Validation.ReportTree

/-!
# Runs of parts of a program

The patterns of a program have nothing to do with each other: the run of a program with the
patterns of two programs is the runs of the two, one after the other, in its faults, in its report
and in its messages (`run_append`). The reason is that a rule leaves the stack of variables as it
found it, so that whatever follows begins as if nothing had gone before (`Isolated`).
-/

namespace Schematron.Validation

open Schema
open Xml (Document NodeId)

/-- Whatever a run has recorded before, the part goes on as if it had recorded nothing, and it
leaves the stack of variables as it finds it. -/
def Isolated (part : Running Unit) : Prop :=
  ∀ p : Progress,
    part.run p =
      (part.run { bindings := p.bindings }).map fun (_, q) => ((), p.extend q.record)

theorem isolated_of_adds {part : Running Unit} {outcome : Bindings → Except RunFault Record}
    (h : ∀ b, Adds b part ((outcome b).map ((), ·))) : Isolated part := by
  intro p
  rw [h p.bindings p rfl, h p.bindings { bindings := p.bindings } rfl]
  cases outcome p.bindings with
  | error e => rfl
  | ok record =>
      show Except.ok ((), p.extend record) = Except.ok ((), p.extend (Progress.record _))
      rw [Progress.record_extend]
      rfl

variable [Regex.Engine]

/-- The records of patterns are made one after the other on the same variables. -/
theorem mapM_patternRecord_append (doc : Document) (globals : Bindings) (A B : List Pattern) :
    (A ++ B).mapM (patternRecord doc globals) =
      A.mapM (patternRecord doc globals) >>= fun as =>
        (B.mapM (patternRecord doc globals)).map (as ++ ·) := mapM_append _ A B

/-- The run of a program with the patterns `A ++ B` is the run with the patterns `A` followed by
the run with the patterns `B`: the first fault of the two is its fault, and without one the body
of its report and its messages are those of the two in a row. Neither a fired rule nor a pattern
leaves anything to what comes after it. -/
theorem run_append (program : Program) (doc : Document) (A B : List Pattern) :
    (match run { program with patterns := A } doc, run { program with patterns := B } doc with
      | .error e, _ => run { program with patterns := A ++ B } doc = .error e
      | .ok _, .error e => run { program with patterns := A ++ B } doc = .error e
      | .ok a, .ok b =>
        ∃ record, run { program with patterns := A ++ B } doc = .ok record ∧
          Svrl.body (Svrl.document { program with patterns := A ++ B } record) =
            Svrl.body (Svrl.document { program with patterns := A } a) ++
              Svrl.body (Svrl.document { program with patterns := B } b) ∧
          record.notes = a.notes ++ b.notes) ∧
      (∀ rule node, Isolated (fireRule doc rule node)) ∧
      ∀ pattern, Isolated (runPattern doc pattern) := by
  refine ⟨?_, fun rule node => isolated_of_adds fun b => fireRule_adds doc rule node b,
    fun pattern => isolated_of_adds fun b => runPattern_adds doc pattern b⟩
  have hrun (P : List Pattern) : run { program with patterns := P } doc =
      bindAll doc Document.rootNode [] program.globals >>= fun globals =>
        (P.mapM (patternRecord doc globals)).map Record.join := run_eq _ doc
  simp only [hrun, mapM_patternRecord_append]
  -- the shared variables are the same in the three runs, and so is their fault
  cases bindAll doc Document.rootNode [] program.globals with
  | error e => rfl
  | ok globals =>
      simp only [Bind.bind, Except.bind]
      cases A.mapM (patternRecord doc globals) with
      | error e => rfl
      | ok as =>
          cases B.mapM (patternRecord doc globals) with
          | error e => rfl
          | ok bs =>
              refine ⟨_, rfl, ?_, ?_⟩
              · rw [Svrl.body_document, Svrl.body_document, Svrl.body_document,
                  ← Xml.Tree.tidyAll_append, ← List.map_append, Record.join_append]
                rfl
              · rw [Record.join_append]
                rfl

end Schematron.Validation
