import GtfsStream.Archive.WriterSpec

/-!
# What a batch flush does

`flushBatch` writes the lines of a batch, flushes, and calls `CommitMessages`. In every execution
the call is made, if at all, in a world in which all lines were written and flushed without an
error; it may then fail, and the batch is written but not committed.
-/

namespace GtfsStream.Archive

open Program Syscall

/-- The calls on the writer that a batch makes. -/
def batchCalls (batch : List Message) : List Call :=
  (batch.map fun msg ↦ Call.write msg.value) ++ [.flush]

/-- `w'` is a world in which the batch was written and flushed. -/
structure World.Flushed (faulty : Prop) (w : World) (batch : List Message) (w' : World) : Prop where
  after : w.After faulty (batchCalls batch) w'
  pending : ∀ j, w'.pendingAt j = []

section

variable {faulty : Prop} {w : World}

theorem runs_writeMessages (faulty : Prop) (h : w.Ready) (batch : List Message) :
    Runs faulty w.commits (fun _ ↦ w.After faulty (batch.map fun msg ↦ .write msg.value))
      (forEach (fun msg ↦ errorf "write to archive" (write msg.value)) batch) w :=
  runs_calls (fun msg ↦ .write msg.value)
    (fun _ _ hL hr ↦ Runs.errorf (runs_call_write hL hr _)) rfl h batch

theorem runs_flushMessages {w₁ : World} {batch : List Message}
    (h : w.After faulty (batch.map fun msg ↦ .write msg.value) w₁) :
    Runs faulty w.commits (fun _ ↦ w.Flushed faulty batch) (errorf "flush archive" flush) w₁ := by
  refine Runs.errorf ((runs_flush h.commits h.ready).mono ?_)
  rintro _ w₂ ⟨hout, hready, hledger, hpending⟩
  refine ⟨h.concat ⟨hout.clock, hout.ticks, hout.commits, hready, fun _ ↦ hledger, ?_⟩, hpending⟩
  exact fun _ _ ↦ Ledger.Agrees.of_eq hledger

/-- The world after a batch flush that got as far as the call to Kafka, or did not. -/
def World.FlushEnd (faulty : Prop) (w : World) (batch : List Message) (w' : World) : Prop :=
  w'.commits = w.commits ∨ ∃ w₁ acked, w.Flushed faulty batch w₁ ∧ w' = w₁.logCommit batch acked

/-- **A batch flush**, over every failure and every crash. -/
theorem ensures_flushBatch (faulty : Prop) (h : w.Ready) (batch : List Message) :
    (flushBatch batch).Ensures (machine faulty)
      (fun _ w' ↦ ∃ w₁, w.Flushed faulty batch w₁ ∧ w' = w₁.logCommit batch true)
      (fun _ w' ↦ faulty ∧ w.FlushEnd faulty batch w') (w.FlushEnd faulty batch) w := by
  have hweaken {p : ArchiveIO Unit} {Q : Unit → World → Prop} {w' : World}
      (hp : Runs faulty w.commits Q p w') : p.Ensures (machine faulty) Q
        (fun _ w' ↦ faulty ∧ w.FlushEnd faulty batch w') (w.FlushEnd faulty batch) w' :=
    Ensures.weaken hp (fun _ _ h ↦ h) (fun _ _ h ↦ ⟨h.1, Or.inl h.2⟩) fun _ h ↦ Or.inl h
  refine Ensures.bind (hweaken (runs_writeMessages faulty h batch)) fun _ w₁ h₁ ↦ ?_
  refine Ensures.bind (hweaken (runs_flushMessages h₁)) fun _ w₂ h₂ ↦ ?_
  have hcommit : (sys (.commitMessages batch)).Ensures (machine faulty)
      (fun _ w' ↦ ∃ w₁, w.Flushed faulty batch w₁ ∧ w' = w₁.logCommit batch true)
      (fun _ w' ↦ faulty ∧ w.FlushEnd faulty batch w') (w.FlushEnd faulty batch) w₂ := by
    rw [Ensures, sys, wp_perform]
    refine ⟨⟨w₂, h₂, rfl⟩, ?_, ?_⟩
    · rintro r w' ⟨hfaulty, -, ⟨e, rfl⟩, n, rfl⟩
      exact ⟨hfaulty, Or.inr ⟨w₂, false, h₂, rfl⟩⟩
    · rintro w' ⟨-, n, rfl⟩
      exact Or.inr ⟨w₂, false, h₂, rfl⟩
  exact Ensures.tryCatch hcommit fun _ _ he ↦ he

end

end GtfsStream.Archive
