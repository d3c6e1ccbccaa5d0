import GtfsStream.Archive.BatchSpec
import GtfsStream.Archive.Recovery

/-!
# Crash, restart and redelivery

The runs of the archive consumer: batches that are fetched, flushed and committed, and crashes with
the restart that follows. `Meets` is the condition on a step under which every committed message
stays a complete line of the archive; `sound_of_allMeet` proves it over whole runs, and
`not_sound_torn_first_line` shows a run of two steps without it.

## Torn lines

A crash leaves a prefix of what was in the buffer, so the last line of the open file may be torn,
and the next process appends behind it. A line that is written right behind a torn one is lost in
the same line of the file. The condition on a crash is that there is no such rest in the file of the
restart, or that the message it takes with it is in the archive already. Between two steps nothing
is in the buffer, and every committed message is a complete line that is durable.
-/

namespace GtfsStream.Archive

open Program Syscall

/-! ## Steps -/

/-- The archive consumer with the number of messages whose offset is committed, and the number of
crashes so far. -/
structure Consumer where
  world : World
  committed : ℕ := 0
  crashes : ℕ := 0

/-- The process is gone, and of the open file's logical content the durable bytes are there, and
the first `m` bytes. -/
def World.crash (w : World) (m : ℕ) : World :=
  match w.writer.curFile with
  | none => w
  | some p => { w.modify p fun f ↦
      { f with bytes := (f.bytes ++ w.writer.buf.pending).take (max m f.synced) } with
    writer := { curKey := w.writer.curKey } }

inductive Action
  /-- Up to `n` messages are fetched and flushed. -/
  | batch (n : ℕ)
  /-- The process dies when `n` more messages are written and `m` bytes of the open file have
  reached it, and is started again. -/
  | crash (n m : ℕ)

namespace Consumer

variable (log : List Message)

/-- The next `n` messages that Kafka delivers. -/
def next (s : Consumer) (n : ℕ) : List Message := (log.drop s.committed).take n

/-- The world after the crash, before the restart. -/
def crashed (s : Consumer) (n m : ℕ) : World :=
  ((forEach (fun msg ↦ errorf "write to archive" (write msg.value)) (s.next log n)).eval
    (machine False) s.world).2.crash m

def step (s : Consumer) : Action → Consumer
  | .batch n =>
    { s with
      world := ((flushBatch (s.next log n)).eval (machine False) s.world).2
      committed := s.committed + (s.next log n).length }
  | .crash n m =>
    { s with
      world := (newArchiveWriter.eval (machine False) (s.crashed log n m)).2
      crashes := s.crashes + 1 }

/-- The consumer after the first start in an empty directory. -/
def start (clock : ℕ → ℤ) : Consumer :=
  ⟨(newArchiveWriter.eval (machine False) (World.fresh clock)).2, 0, 0⟩

def run (s : Consumer) (as : List Action) : Consumer := as.foldl (step log) s

/-- Every committed message is a complete line of an archive file, and the lines that are no
message are at most as many as the crashes. -/
structure Sound (s : Consumer) : Prop where
  committed : ∀ msg ∈ log.take s.committed, s.world.onDisk.Archived msg.value
  waste : s.world.onDisk.WasteAtMost (log.map Message.value) s.crashes

/-- No hour is finalized that has a compressed file already; and a crash that leaves a partial line
in the file of the hour of the restart has not torn the first line of the batch, so that the next
message stands in the archive. -/
def Meets (s : Consumer) : Action → Prop
  | .batch n => s.world.ledger.DropsNoneAlong
      (stamp s.world.clock s.world.ticks ((s.next log n).map fun msg ↦ .write msg.value))
  | .crash n m => s.world.ledger.DropsNoneAlong
      (stamp s.world.clock s.world.ticks ((s.next log n).map fun msg ↦ .write msg.value)) ∧
    let w := s.crashed log n m
    w.onDisk.DropsNone w.nextHour ∧ ((w.onDisk.finalize w.nextHour).Clean ∨
      ∀ msg, log[s.committed]? = some msg → w.onDisk.Archived msg.value)

/-- Every step of the run meets the condition. -/
def AllMeet (s : Consumer) : List Action → Prop
  | [] => True
  | a :: as => s.Meets log a ∧ (s.step log a).AllMeet as

variable {log}

theorem AllMeet.of_prefix {s : Consumer} {as bs : List Action} (h : s.AllMeet log bs)
    (hp : as <+: bs) : s.AllMeet log as := by
  induction as generalizing s bs with
  | nil => trivial
  | cons a as ih =>
    obtain ⟨b, rfl⟩ := hp
    exact ⟨h.1, ih h.2 ⟨b, rfl⟩⟩

/-! ## The invariant of a run -/

/-- What is so between two steps. -/
structure Resting (log : List Message) (s : Consumer) : Prop where
  ready : s.world.Ready
  pending : ∀ j, s.world.pendingAt j = []
  holding : s.world.ledger.Holding (log.map Message.value) s.committed s.committed s.crashes

theorem Resting.sound {s : Consumer} (h : s.Resting log) : s.Sound log := by
  have hcontent : s.world.onDisk.content = s.world.ledger.content := by
    funext ⟨j, e⟩
    cases e with
    | ndjson => rw [Ledger.content, Ledger.content, World.ledger_plain (h.pending j)]; rfl
    | gz => rfl
    | tmp => rfl
  constructor
  · intro msg hmsg
    have harchived := h.holding.written msg.value
      (by rw [← List.map_take]; exact List.mem_map_of_mem hmsg)
    rwa [Ledger.Archived, ← hcontent] at harchived
  · intro t
    rw [hcontent]
    exact h.holding.waste t

theorem resting_start (clock : ℕ → ℤ) : (start clock).Resting log := by
  obtain ⟨w, heval, -, -, -, hready, hledger⟩ := start_fresh clock
  have hw : (start clock).world = w := by rw [start, heval]
  have hcur : w.writer.curFile = none := by
    have := congrArg Ledger.cur hledger
    exact Option.map_eq_none_iff.mp this
  refine ⟨hw ▸ hready, fun j ↦ ?_, ?_⟩
  · rw [hw]
    exact World.pendingAt_of_curFile_eq_none hcur j
  · rw [hw, hledger]
    exact Ledger.holding_empty _

theorem next_values (s : Consumer) (n : ℕ) :
    (s.next log n).map Message.value <+: (log.map Message.value).drop s.committed := by
  rw [next, ← List.map_drop]
  exact (List.take_prefix _ _).map _

end Consumer

theorem onDisk_crash {w : World} (h : w.Ready) (m : ℕ) :
    (w.crash m).onDisk = w.ledger.crash m ∧ (w.crash m).commits = w.commits ∧
      (w.crash m).clock = w.clock ∧ (w.crash m).ticks = w.ticks := by
  rcases hcur : w.writer.curFile with _ | p
  · have hcrash : w.crash m = w := by rw [World.crash, hcur]
    rw [hcrash]
    refine ⟨?_, rfl, rfl, rfl⟩
    have hnone : w.ledger.cur = none := by rw [World.ledger, hcur]; rfl
    rw [Ledger.crash, hnone]
    ext1
    · exact hnone.symm
    · funext j
      exact (World.ledger_plain (World.pendingAt_of_curFile_eq_none hcur j)).symm
    · rfl
  · obtain ⟨hp, -, hsome⟩ := h p hcur
    obtain ⟨f, hf⟩ := Option.isSome_iff_exists.mp hsome
    generalize w.writer.curKey = k at hp
    subst hp
    have hcurk : w.ledger.cur = some k := by rw [World.ledger, hcur]; rfl
    have hpending (j : HourKey) (hj : j ≠ k) : w.pendingAt j = [] := by
      rw [World.pendingAt, hcur, if_neg]
      simpa using Ne.symm hj
    have hcrash : w.crash m = { w.setDisk (w.disk.insert ⟨k, .ndjson⟩
        { f with bytes := (f.bytes ++ w.writer.buf.pending).take (max m f.synced) }) with
          writer := { curKey := w.writer.curKey } } := by
      simp only [World.crash, hcur, modify_eq hf]
    rw [hcrash]
    refine ⟨?_, rfl, rfl, rfl⟩
    rw [Ledger.crash, hcurk]
    ext1
    · rfl
    · funext j
      by_cases hj : j = k
      · subst hj
        simp [World.onDisk, Ledger.close, World.setDisk, World.ledger, World.pendingAt, hcur, hf]
      · have hne : (⟨j, .ndjson⟩ : Path) ≠ ⟨k, .ndjson⟩ := by simpa
        simp [World.onDisk, Ledger.close, World.setDisk, AList.lookup_insert_ne hne,
          Ledger.setPlain_plain_of_ne _ _ _ hj, World.ledger, hpending j hj]
    · funext j
      exact AList.lookup_insert_ne (by simp)

namespace Consumer

variable {log : List Message}

theorem Resting.step (hnl : ∀ msg ∈ log, newline ∉ msg.value) {s : Consumer}
    (h : s.Resting log) {a : Action} (ha : s.Meets log a) : (s.step log a).Resting log := by
  have hnl' : ∀ v ∈ log.map Message.value, newline ∉ v := by
    intro v hv
    obtain ⟨msg, hmsg, rfl⟩ := List.mem_map.mp hv
    exact hnl msg hmsg
  cases a with
  -- a batch that ends is flushed, and committed in the same step
  | batch n =>
    have hx := Ensures.eval (ensures_flushBatch False h.ready (s.next log n))
    rcases hp : (flushBatch (s.next log n)).eval (machine False) s.world with ⟨e | a, w'⟩
    · rw [hp] at hx
      exact hx.1.elim
    rw [hp] at hx
    obtain ⟨w₁, hflushed, rfl⟩ := hx
    have hworld : (s.step log (.batch n)).world = w₁.logCommit (s.next log n) true := by
      rw [Consumer.step, hp]
    obtain ⟨hwrites, hcur⟩ := h.holding.writes hnl' (next_values s n) ha
    refine ⟨hworld ▸ hflushed.after.ready, hworld ▸ hflushed.pending, ?_⟩
    have hledger := hflushed.after.ledger.eq not_false
    rw [batchCalls, stamp_append, Ledger.run_append] at hledger
    have hsame : (s.step log (.batch n)).world.ledger = w₁.ledger := by rw [hworld]; rfl
    rw [hsame, hledger]
    refine hwrites.flush ?_
    by_cases hempty : s.next log n = []
    · exact Or.inl (by rw [hempty]; rfl)
    · exact Or.inr (hcur hempty)
  -- a crash keeps a prefix of what was written, and the restart finalizes it
  | crash n m =>
    obtain ⟨hwrite, hdrops, htail⟩ := ha
    obtain ⟨_, w₁, heval, hafter⟩ := (runs_writeMessages False h.ready
      (s.next log n)).eval
    have hcrashed : s.crashed log n m = w₁.crash m := by rw [crashed, heval]
    rw [hcrashed] at hdrops htail
    obtain ⟨hdisk, -, -, -⟩ := onDisk_crash hafter.ready m
    rw [hdisk] at hdrops htail
    obtain ⟨_, w₂, heval₂, -, -, -, hready, hagrees⟩ :=
      Runs.eval (runs_newArchiveWriter (w := w₁.crash m) rfl)
    have hworld : (s.step log (.crash n m)).world = w₂ := by
      rw [Consumer.step, hcrashed, heval₂]
    have hledger := hagrees.eq not_false
    rw [hdisk] at hledger
    obtain ⟨hwrites, -⟩ := h.holding.writes hnl' (next_values s n) hwrite
    rw [← hafter.ledger.eq not_false] at hwrites
    refine ⟨hworld ▸ hready, fun j ↦ ?_, ?_⟩
    · have hcur : w₂.ledger.cur = none := by rw [hledger, Ledger.finalize_cur, Ledger.crash_cur]
      rw [hworld]
      exact World.pendingAt_of_curFile_eq_none (Option.map_eq_none_iff.mp hcur) j
    · rw [hworld, hledger]
      refine hwrites.crash m hdrops (htail.imp_right fun ht v hv ↦ ?_)
      rw [List.getElem?_map, Option.map_eq_some_iff] at hv
      obtain ⟨msg, hmsg, rfl⟩ := hv
      exact ht msg hmsg

theorem Resting.run (hnl : ∀ msg ∈ log, newline ∉ msg.value) {s : Consumer}
    (h : s.Resting log) {as : List Action} (ha : s.AllMeet log as) :
    (s.run log as).Resting log := by
  induction as generalizing s with
  | nil => exact h
  | cons a as ih => exact ih (h.step hnl ha.1) ha.2

/-- **Committed messages survive crashes**, in every state of every run that starts in an empty
directory and whose steps meet the condition. -/
theorem sound_of_allMeet (log : List Message) (hnl : ∀ msg ∈ log, newline ∉ msg.value)
    (clock : ℕ → ℤ) (as : List Action) (h : (start clock).AllMeet log as) :
    ∀ past, past <+: as → ((start clock).run log past).Sound log :=
  fun _ hpast ↦ ((resting_start clock).run hnl (h.of_prefix hpast)).sound

theorem within_of_keys {w : World} {k : HourKey} (h : ∀ p ∈ w.disk.keys, p.hour = k) :
    w.ledger.Within k ∧ w.onDisk.Within k := by
  have hnone (j : HourKey) (hj : j ≠ k) : w.disk.lookup ⟨j, .ndjson⟩ = none :=
    AList.lookup_eq_none.mpr fun hmem ↦ hj (h _ hmem)
  exact ⟨fun j hj ↦ by simp [World.ledger, hnone j hj], fun j hj ↦ by
    simp [World.onDisk, hnone j hj]⟩

/-- A crash inside the second line of a batch, a restart in the same hour, and the redelivery: the
message that is glued to the partial line stands in the archive already. -/
theorem sound_torn_second_line :
    ((start fun _ ↦ 0).run [⟨0, [97]⟩, ⟨1, [98]⟩] [.crash 2 3, .batch 2]).Sound
      [⟨0, [97]⟩, ⟨1, [98]⟩] := by
  refine sound_of_allMeet [⟨0, [97]⟩, ⟨1, [98]⟩] (by decide) (fun _ ↦ 0) [.crash 2 3, .batch 2] ?_
    _ List.prefix_rfl
  have hstart := within_of_keys (w := (start fun _ ↦ 0).world) (k := 0) (by decide)
  have hcrashed := within_of_keys
    (w := (start fun _ ↦ 0).crashed [⟨0, [97]⟩, ⟨1, [98]⟩] 2 3) (k := 0) (by decide)
  have hnext := within_of_keys
    (w := ((start fun _ ↦ 0).step [⟨0, [97]⟩, ⟨1, [98]⟩] (.crash 2 3)).world) (k := 0) (by decide)
  have hzero : ∀ i : ℕ, hourKey ((fun _ : ℕ ↦ (0 : ℤ)) i) = 0 := fun _ ↦ Int.zero_ediv _
  refine ⟨⟨?_, ?_, Or.inr fun msg hmsg ↦ ⟨⟨0, .ndjson⟩, ?_⟩⟩, ?_, trivial⟩
  · exact hstart.1.dropsNoneAlong hzero [[97], [98]]
  · exact hcrashed.2.dropsNone
  · obtain rfl : ⟨0, [97]⟩ = msg := Option.some_injective _ hmsg
    decide
  · exact hnext.1.dropsNoneAlong hzero [[97], [98]]

/-- A crash when one byte of the only message has reached the file, a restart in the same hour, and
the redelivery. -/
theorem not_sound_torn_first_line :
    ¬((start fun _ ↦ 0).run [⟨0, [97, 98]⟩] [.crash 1 1, .batch 1]).Sound [⟨0, [97, 98]⟩] := by
  intro h
  generalize hs : (start fun _ ↦ 0).run [⟨0, [97, 98]⟩] [.crash 1 1, .batch 1] = s at h
  have hcommitted : s.committed = 1 := by
    rw [← hs]
    decide
  have hdisk : s.world.disk.entries = [⟨⟨0, .ndjson⟩, ⟨[97, 97, 98, 10], 4, false⟩⟩] := by
    rw [← hs]
    decide
  obtain ⟨⟨j, e⟩, hp⟩ := h.committed ⟨0, [97, 98]⟩ (by rw [hcommitted]; decide)
  by_cases hpath : (⟨0, .ndjson⟩ : Path) = ⟨j, e⟩
  · rw [← hpath] at hp
    simp only [Ledger.content, World.onDisk, AList.lookup, hdisk] at hp
    exact absurd hp (by decide)
  · have hnone : s.world.disk.lookup ⟨j, e⟩ = none := by
      rw [AList.lookup, hdisk, List.dlookup_cons_ne _ _ fun h ↦ hpath h.symm]
      rfl
    cases e <;> simp [Ledger.content, World.onDisk, hnone] at hp

end Consumer

end GtfsStream.Archive
