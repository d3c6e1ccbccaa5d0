import GtfsStream.Archive.FinalizeSpec

/-!
# What the archive writer's methods do

One specification for each method, in terms of the ledger that the world shows: `rotate`, `write`
and `flush` carry out the operations of the same names. Where nothing can fail this is an equation;
where calls may fail and a method has still ended well, it holds of the hour the method is about.

## The buffer and the file

A line that is written may be in the buffer, in the file, or in part in each. The ledger shows the
file with the pending bytes behind it, so writing is appending, whatever the buffer does, and a
flush moves nothing but what is durable. The clock is read once in each write, so a sequence of
calls is stamped with the readings in order before it is handed to the ledger.
-/

namespace GtfsStream.Archive

open Program Syscall

/-! ## The ledger of a world -/

namespace World

variable (w : World)

/-- The bytes still in the buffer of the hour file `j`. -/
def pendingAt (j : HourKey) : Bytes :=
  if w.writer.curFile = some ⟨j, .ndjson⟩ then w.writer.buf.pending else []

/-- The hours as they would be if the buffer were empty. -/
def ledger : Ledger where
  cur := w.writer.curFile.map Path.hour
  plain j := (w.disk.lookup ⟨j, .ndjson⟩).map fun f ↦ (f.bytes ++ w.pendingAt j, f.synced)
  gz j := w.disk.lookup ⟨j, .gz⟩

/-- The writer can be used: if a file is open, it is the current hour's, and its buffer has seen no
error. -/
def Ready : Prop :=
  ∀ p, w.writer.curFile = some p → p = ⟨w.writer.curKey, .ndjson⟩ ∧ w.writer.buf.err = none ∧
    (w.disk.lookup p).isSome

/-- The clock and the calls to Kafka are those of `w`. -/
structure SameOutside (w w' : World) : Prop where
  clock : w'.clock = w.clock
  ticks : w'.ticks = w.ticks
  commits : w'.commits = w.commits

end World

section Methods

variable {faulty : Prop} {L : List CommitCall} {k : HourKey} {c : Bytes} {n : ℕ} {w : World}

theorem World.SameOutside.trans {w₁ w₂ w₃ : World} (h : w₁.SameOutside w₂)
    (h' : w₂.SameOutside w₃) : w₁.SameOutside w₃ :=
  ⟨h'.clock.trans h.clock, h'.ticks.trans h.ticks, h'.commits.trans h.commits⟩

theorem World.Ready.openAt (h : w.Ready) (hk : w.ledger.cur = some k) :
    ∃ c n, w.ledger.plain k = some (c, n) ∧ w.OpenAt k c n := by
  obtain ⟨p, hp, rfl⟩ := Option.map_eq_some_iff.mp hk
  obtain ⟨hpk, herr, hsome⟩ := h p hp
  obtain ⟨f, hf⟩ := Option.isSome_iff_exists.mp hsome
  rw [hpk] at hp hf
  rw [hpk]
  refine ⟨_, f.synced, ?_, rfl, hp, herr, f, hf, rfl, rfl⟩
  rw [World.ledger]
  simp only [hf, Option.map_some, World.pendingAt, hp, if_true]

theorem World.OpenAt.ready (h : w.OpenAt k c n) : w.Ready := by
  intro p hp
  obtain ⟨f, hf, -⟩ := h.file
  obtain rfl : ⟨k, .ndjson⟩ = p := Option.some_injective _ (h.curFile.symm.trans hp)
  exact ⟨by rw [h.curKey], h.err, by rw [hf]; rfl⟩

theorem World.OpenAt.cur (h : w.OpenAt k c n) : w.ledger.cur = some k := by
  rw [World.ledger, h.curFile]
  rfl

theorem World.OpenAt.plain (h : w.OpenAt k c n) : w.ledger.plain k = some (c, n) := by
  obtain ⟨f, hf, hc, hn⟩ := h.file
  simp only [World.ledger, hf, Option.map_some, World.pendingAt, h.curFile, if_true, hc, hn]

theorem World.OpenAt.plain_of_ne (h : w.OpenAt k c n) {j : HourKey} (hj : j ≠ k) :
    w.ledger.plain j = (w.disk.lookup ⟨j, .ndjson⟩).map fun f ↦ (f.bytes, f.synced) := by
  have hne : some (⟨k, .ndjson⟩ : Path) ≠ some ⟨j, .ndjson⟩ := by
    simpa using Ne.symm hj
  simp only [World.ledger, World.pendingAt, h.curFile, if_neg hne, List.append_nil]

theorem World.SameElse.ledger_eq {w' : World} {c' : Bytes} {n' : ℕ} (h : w.SameElse k w')
    (ho : w.OpenAt k c n) (ho' : w'.OpenAt k c' n') :
    w'.ledger = w.ledger.setPlain k (some (c', n')) := by
  ext1
  · rw [ho'.cur, Ledger.setPlain_cur, ho.cur]
  · funext j
    by_cases hj : j = k
    · subst hj
      rw [ho'.plain, Ledger.setPlain_plain_self]
    · rw [Ledger.setPlain_plain_of_ne _ _ _ hj, ho'.plain_of_ne hj, ho.plain_of_ne hj,
        h.disk _ (by simpa)]
  · funext j
    exact h.disk _ (by simp)

theorem World.SameElse.ledger_append {w' : World} {b : Bytes} (h : w.SameElse k w')
    (ho : w.OpenAt k c n) (ho' : w'.OpenAt k (c ++ b) n) : w'.ledger = w.ledger.append k b := by
  rw [h.ledger_eq ho ho', Ledger.append, ho.plain]
  rfl

theorem World.SameElse.ledger_same {w' : World} (h : w.SameElse k w') (ho : w.OpenAt k c n)
    (ho' : w'.OpenAt k c n) : w'.ledger = w.ledger := by
  rw [h.ledger_eq ho ho', ← ho.plain, Ledger.setPlain_self]

theorem World.SameElse.outside {w' : World} (h : w.SameElse k w') : w.SameOutside w' :=
  ⟨h.clock, h.ticks, h.commits⟩

/-- With nothing in the buffer the ledger shows what is on the disk. -/
theorem World.ledger_plain {j : HourKey} (h : w.pendingAt j = []) :
    w.ledger.plain j = (w.disk.lookup ⟨j, .ndjson⟩).map fun f ↦ (f.bytes, f.synced) := by
  simp only [World.ledger, h, List.append_nil]

theorem World.pendingAt_of_curFile_eq_none (h : w.writer.curFile = none) (j : HourKey) :
    w.pendingAt j = [] := by
  rw [World.pendingAt, h]
  rfl

/-! ## Closing and rotating -/

theorem runs_close (hL : w.commits = L) (h : w.OpenAt k c n) :
    Runs faulty L (fun _ w' ↦ w.SameOutside w' ∧ w'.writer.curFile = none ∧
      w'.ledger = w.ledger.close) close w := by
  refine Runs.load_bind hL ?_
  rw [h.curFile]
  refine (Runs.errorf (runs_bufFlush hL h)).bind ?_
  rintro _ w₁ ⟨hsame, h₁, hpending⟩
  have hL₁ : w₁.commits = L := hsame.commits.trans hL
  refine Runs.load_bind hL₁ ?_
  have hclosed : Runs faulty L (fun _ w' ↦ w₁ = w')
      ((sys (.close ⟨k, .ndjson⟩)).tryCatch fun e ↦ do
        store { w₁.writer with curFile := none }
        raise (.wrap "close file" none e)) w₁ := by
    refine Ensures.tryCatch (Runs.sys (.close ⟨k, .ndjson⟩) nofun hL₁ rfl rfl) ?_
    rintro e w' ⟨hfaulty, hL'⟩
    have hstore : Runs faulty L (fun _ w'' ↦ w''.commits = L)
        (store { w₁.writer with curFile := none }) w' := Runs.store hL' hL'
    exact hstore.bind fun _ _ hc ↦ ⟨hfaulty, hc⟩
  refine hclosed.bind ?_
  rintro _ _ rfl
  refine Runs.store hL₁ ⟨⟨hsame.clock, hsame.ticks, hsame.commits⟩, rfl, ?_⟩
  have hempty (j : HourKey) : w₁.pendingAt j = [] := by
    rw [World.pendingAt, hpending, ite_self]
  rw [← hsame.ledger_same h h₁]
  ext1
  · rfl
  · funext j
    rw [World.ledger_plain (World.pendingAt_of_curFile_eq_none rfl j), Ledger.close,
      World.ledger_plain (hempty j)]
  · rfl

theorem openHour_spec (h : w.writer.curFile = none) {w₁ w₂ : World}
    (h₁ : w₁ = ((openAppend ⟨k, .ndjson⟩).apply w).2)
    (h₂ : w₂ = { w₁ with writer := { curKey := k, curFile := some ⟨k, .ndjson⟩ } }) :
    (∃ c n, w₂.OpenAt k c n) ∧ w₂.ledger = w.ledger.openHour k ∧ w.SameOutside w₂ := by
  have hout : w.SameOutside w₂ ∧ w₂.writer = { curKey := k, curFile := some ⟨k, .ndjson⟩ } ∧
      w₂.disk.lookup ⟨k, .ndjson⟩ =
        some ((w.disk.lookup ⟨k, .ndjson⟩).getD { bytes := [] }) ∧
      ∀ q, q ≠ ⟨k, .ndjson⟩ → w₂.disk.lookup q = w.disk.lookup q := by
    rcases hlook : w.disk.lookup ⟨k, .ndjson⟩ with _ | f
    · rw [h₂, h₁, apply, hlook]
      exact ⟨⟨rfl, rfl, rfl⟩, rfl, AList.lookup_insert _, fun q hq ↦ AList.lookup_insert_ne hq⟩
    · rw [h₂, h₁, apply, hlook]
      exact ⟨⟨rfl, rfl, rfl⟩, rfl, hlook, fun q _ ↦ rfl⟩
  obtain ⟨hsame, hwriter, hfile, hother⟩ := hout
  -- nothing is pending, so the file has the bytes that it had
  have hopen : w₂.OpenAt k ((w.disk.lookup ⟨k, .ndjson⟩).getD { bytes := [] }).bytes
      ((w.disk.lookup ⟨k, .ndjson⟩).getD { bytes := [] }).synced := by
    refine ⟨?_, ?_, ?_, _, hfile, ?_, rfl⟩
    · rw [hwriter]
    · rw [hwriter]
    · rw [hwriter]
    · rw [hwriter, List.append_nil]
  refine ⟨⟨_, _, hopen⟩, ?_, hsame⟩
  ext1
  · exact hopen.cur
  · funext j
    by_cases hj : j = k
    · subst hj
      rw [hopen.plain, Ledger.openHour_plain_self,
        World.ledger_plain (World.pendingAt_of_curFile_eq_none h j)]
      cases w.disk.lookup ⟨j, .ndjson⟩ with
      | none => rfl
      | some f => rfl
    · rw [hopen.plain_of_ne hj, Ledger.openHour_plain_of_ne _ _ hj,
        World.ledger_plain (World.pendingAt_of_curFile_eq_none h j), hother _ (by simpa)]
  · funext j
    exact hother _ (by simp)

theorem World.Finalized.agrees {w' : World} (h : w.Finalized faulty k w')
    (ho : ∀ j, j ≠ k → w.pendingAt j = []) :
    Ledger.Agrees faulty k (w.ledger.finalize k) w'.ledger := by
  have hpending (j : HourKey) : w'.pendingAt j = w.pendingAt j := by
    rw [World.pendingAt, World.pendingAt, h.memory.writer]
  have hcur : w'.ledger.cur = w.ledger.cur := by
    rw [World.ledger, World.ledger, h.memory.writer]
  have hplain : w'.ledger.plain k = w.ledger.plain k := by
    simp only [World.ledger, hpending, h.current ⟨k, .ndjson⟩ rfl]
  refine ⟨hcur, by rw [hplain, Ledger.finalize_plain_self], fun hn ↦ ?_⟩
  ext1
  · exact hcur
  · funext j
    by_cases hj : j = k
    · subst hj
      rw [hplain, Ledger.finalize_plain_self]
    · rw [Ledger.finalize_plain_of_ne _ _ hj]
      simp only [World.ledger, (h.stale hn j hj).1, Option.map_none]
  · funext j
    by_cases hj : j = k
    · subst hj
      rw [Ledger.finalize_gz_self]
      exact h.current ⟨j, .gz⟩ rfl
    · rw [Ledger.finalize_gz_of_ne _ _ hj, Ledger.finalGz]
      simp only [World.ledger, ho j hj, List.append_nil, Option.map_map]
      exact (h.stale hn j hj).2

theorem World.OpenAt.pendingAt (h : w.OpenAt k c n) {j : HourKey} (hj : j ≠ k) :
    w.pendingAt j = [] := by
  rw [World.pendingAt, h.curFile, if_neg]
  simpa using Ne.symm hj

theorem World.Finalized.openAt {w' : World} (h : w.Finalized faulty k w') (ho : w.OpenAt k c n) :
    w'.OpenAt k c n := by
  obtain ⟨f, hf, hc, hn⟩ := ho.file
  refine ⟨?_, ?_, ?_, f, ?_, ?_, hn⟩
  · rw [h.memory.writer, ho.curKey]
  · rw [h.memory.writer, ho.curFile]
  · rw [h.memory.writer, ho.err]
  · rw [h.current _ rfl, hf]
  · rw [h.memory.writer, hc]

theorem runs_rotate (hL : w.commits = L) (h : w.Ready) (hk : w.ledger.cur ≠ some k) :
    Runs faulty L (fun _ w' ↦ w.SameOutside w' ∧ (∃ c n, w'.OpenAt k c n) ∧
      Ledger.Agrees faulty k (w.ledger.rotate k) w'.ledger) (rotate k) w := by
  refine Runs.load_bind hL ?_
  have hclose : Runs faulty L (fun _ w' ↦ w.SameOutside w' ∧ w'.writer.curFile = none ∧
      w'.ledger = w.ledger.close) (runIf w.writer.curFile.isSome close) w := by
    refine Ensures.runIf (fun hsome ↦ ?_) fun hnone ↦ ?_
    · obtain ⟨p, hp⟩ := Option.isSome_iff_exists.mp hsome
      obtain ⟨c, n, -, ho⟩ := h.openAt (k := p.hour) (by rw [World.ledger, hp]; rfl)
      exact runs_close hL ho
    · rw [Option.not_isSome_iff_eq_none] at hnone
      refine ⟨⟨rfl, rfl, rfl⟩, hnone, (Ledger.close_of_cur_eq_none _ ?_).symm⟩
      rw [World.ledger, hnone]
      rfl
  refine hclose.bind ?_
  rintro _ w₁ ⟨hout₁, hnone, hledger⟩
  have hL₁ : w₁.commits = L := hout₁.commits.trans hL
  refine (Runs.errorf (Runs.sys .mkdirAll (Q := fun _ w' ↦ w₁ = w') nofun hL₁ rfl rfl)).bind ?_
  rintro _ _ rfl
  refine (Runs.errorf (Runs.sys (.openAppend ⟨k, .ndjson⟩)
    (Q := fun _ w' ↦ w' = ((openAppend ⟨k, .ndjson⟩).apply w₁).2) nofun hL₁ rfl rfl)).bind ?_
  rintro _ w₂ hw₂
  obtain ⟨⟨c, n, ho⟩, hopened, hout₂⟩ := openHour_spec hnone hw₂ rfl
  have hL₂ : w₂.commits = L := hout₂.commits.trans hL₁
  refine (Runs.store (Q := fun _ w' ↦ { w₂ with
    writer := { curKey := k, curFile := some ⟨k, .ndjson⟩ } } = w') hL₂ rfl).bind ?_
  rintro _ _ rfl
  refine Runs.mono (runs_finalizeStale ?_) ?_
  · exact hL₂
  intro _ w' hfinal
  refine ⟨?_, ⟨c, n, hfinal.openAt ho⟩, ?_⟩
  · exact (hout₁.trans hout₂).trans
      ⟨hfinal.memory.clock, hfinal.memory.ticks, hfinal.memory.commits⟩
  · have hagrees := hfinal.agrees fun j hj ↦ ho.pendingAt hj
    rwa [hopened, hledger, Ledger.openHour_close, ← Ledger.rotate_of_ne _ _ hk] at hagrees

/-! ## Writing and flushing -/

/-- The hour of the next clock reading. -/
def World.nextHour (w : World) : HourKey := hourKey (w.clock w.ticks)

/-- **`Write`** appends a line to the ledger, in the hour that the clock shows. -/
theorem runs_write (hL : w.commits = L) (h : w.Ready) (v : Bytes) :
    Runs faulty L (fun _ w' ↦ w'.clock = w.clock ∧ w'.ticks = w.ticks + 1 ∧ w'.commits = L ∧
      w'.Ready ∧ Ledger.Agrees faulty w.nextHour (w.ledger.write w.nextHour v) w'.ledger)
      (write v) w := by
  have htick : Runs faulty L (fun t w' ↦ t = w.clock w.ticks ∧ w' = { w with ticks := w.ticks + 1 })
      now w := Runs.sys .now nofun hL rfl ⟨rfl, rfl⟩
  refine htick.bind ?_
  rintro _ w₁ ⟨rfl, hw₁⟩
  have hledger₁ : w₁.ledger = w.ledger := by rw [hw₁]; rfl
  have hL₁ : w₁.commits = L := by rw [hw₁]; exact hL
  have hready₁ : w₁.Ready := by rw [hw₁]; exact h
  refine Runs.load_bind hL₁ ?_
  change Runs faulty L _ ((runIf (w.nextHour ≠ w₁.writer.curKey ∨ w₁.writer.curFile = none)
    (rotate w.nextHour)).bind fun _ ↦ _) w₁
  generalize hk : w.nextHour = k
  have hrotate : Runs faulty L (fun _ w' ↦ w₁.SameOutside w' ∧ (∃ c n, w'.OpenAt k c n) ∧
      Ledger.Agrees faulty k (w₁.ledger.rotate k) w'.ledger)
      (runIf (k ≠ w₁.writer.curKey ∨ w₁.writer.curFile = none) (rotate k)) w₁ := by
    refine Ensures.runIf (fun hcond ↦ runs_rotate hL₁ hready₁ fun hcur ↦ ?_) fun hcond ↦ ?_
    · obtain ⟨c, n, -, ho⟩ := hready₁.openAt hcur
      rw [ho.curKey, ho.curFile] at hcond
      simp at hcond
    · rw [not_or, not_not] at hcond
      obtain ⟨p, hp⟩ := Option.ne_none_iff_exists'.mp hcond.2
      have hcur : w₁.ledger.cur = some k := by
        rw [World.ledger, hp, hcond.1, (hready₁ p hp).1]
        rfl
      obtain ⟨c, n, -, ho⟩ := hready₁.openAt hcur
      exact ⟨⟨rfl, rfl, rfl⟩, ⟨c, n, ho⟩,
        Ledger.Agrees.of_eq (Ledger.rotate_of_cur _ _ hcur).symm⟩
  refine hrotate.bind ?_
  rintro _ w₂ ⟨hout₂, ⟨c, n, ho₂⟩, hagrees⟩
  have hL₂ : w₂.commits = L := hout₂.commits.trans hL₁
  refine (Runs.errorf (runs_bufWrite hL₂ ho₂ v)).bind ?_
  rintro _ w₃ ⟨hsame₃, ho₃⟩
  refine (runs_bufWriteByte (hsame₃.commits.trans hL₂) ho₃ newline).mono ?_
  rintro _ w₄ ⟨hsame₄, ho₄⟩
  have hout := hout₂.trans (hsame₃.outside.trans hsame₄.outside)
  refine ⟨?_, ?_, hout.commits.trans hL₁, ho₄.ready, ?_⟩
  · rw [hout.clock, hw₁]
  · rw [hout.ticks, hw₁]
  · rw [hsame₄.ledger_append ho₃ ho₄, hsame₃.ledger_append ho₂ ho₃, Ledger.append_append,
      ← hledger₁]
    exact hagrees.append _

/-- **`Flush`** makes the open file durable, and hands over all of its bytes. -/
theorem runs_flush (hL : w.commits = L) (h : w.Ready) :
    Runs faulty L (fun _ w' ↦ w.SameOutside w' ∧ w'.Ready ∧ w'.ledger = w.ledger.flush ∧
      ∀ j, w'.pendingAt j = []) flush w := by
  refine Runs.load_bind hL ?_
  rcases hcur : w.writer.curFile with _ | p
  · refine ⟨⟨rfl, rfl, rfl⟩, h, ?_, World.pendingAt_of_curFile_eq_none hcur⟩
    rw [Ledger.flush, World.ledger, hcur]
    rfl
  · obtain ⟨c, n, hplain, ho⟩ := h.openAt (k := p.hour) (by rw [World.ledger, hcur]; rfl)
    obtain ⟨k, hk⟩ : ∃ k, k = p.hour := ⟨_, rfl⟩
    rw [← hk] at ho hplain
    obtain rfl : ⟨k, .ndjson⟩ = p := Option.some_injective _ (ho.curFile.symm.trans hcur)
    refine (Runs.errorf (runs_bufFlush hL ho)).bind ?_
    rintro _ w₁ ⟨hsame, ho₁, hpending⟩
    obtain ⟨f, hf, hc, -⟩ := ho₁.file
    rw [hpending, List.append_nil] at hc
    refine Runs.errorf (Runs.sys (.sync ⟨k, .ndjson⟩) (by simp) (hsame.commits.trans hL) rfl ?_)
    rw [apply, modify_eq hf]
    have ho₂ : (w₁.setDisk (w₁.disk.insert ⟨k, .ndjson⟩ { f with synced := f.bytes.length })).OpenAt
        k c c.length := by
      refine ⟨ho₁.curKey, ho₁.curFile, ho₁.err, _, AList.lookup_insert _, ?_, ?_⟩
      · simpa [hpending, World.setDisk] using hc
      · rw [← hc]
    refine ⟨⟨hsame.clock, hsame.ticks, hsame.commits⟩, ho₂.ready, ?_, fun j ↦ ?_⟩
    · have hsame₂ : w₁.SameElse k
          (w₁.setDisk (w₁.disk.insert ⟨k, .ndjson⟩ { f with synced := f.bytes.length })) :=
        ⟨fun q hq ↦ AList.lookup_insert_ne hq, rfl, rfl, rfl⟩
      rw [(hsame.trans hsame₂).ledger_eq ho ho₂, Ledger.flush_of_cur _ _ ho.cur, hplain]
      rfl
    · exact (ite_congr rfl (fun _ ↦ hpending) fun _ ↦ rfl).trans (ite_self _)

/-! ## Sequences of calls -/

/-- A call made on the writer. -/
inductive Call
  | write (v : Bytes)
  | flush

def Call.run : Call → ArchiveIO Unit
  | write v => Archive.write v
  | flush => Archive.flush

/-- How many clock readings the call makes. -/
def Call.readings : Call → ℕ
  | write _ => 1
  | flush => 0

/-- The calls with the hours that the clock shows, read for the `t`-th time at the first. -/
def stamp (clock : ℕ → ℤ) : ℕ → List Call → List Ledger.Event
  | _, [] => []
  | t, .write v :: cs => .write (hourKey (clock t)) v :: stamp clock (t + 1) cs
  | t, .flush :: cs => .flush :: stamp clock t cs

theorem stamp_append (clock : ℕ → ℤ) (t : ℕ) (cs ds : List Call) :
    stamp clock t (cs ++ ds) =
      stamp clock t cs ++ stamp clock (t + (cs.map Call.readings).sum) ds := by
  induction cs generalizing t with
  | nil => rfl
  | cons c cs ih =>
    cases c with
    | write v => simp [stamp, ih, Call.readings, Nat.add_assoc]
    | flush => simp [stamp, ih, Call.readings]

/-- What holds after calls on a ready writer. -/
structure World.After (faulty : Prop) (w : World) (cs : List Call) (w' : World) : Prop where
  clock : w'.clock = w.clock
  ticks : w'.ticks = w.ticks + (cs.map Call.readings).sum
  commits : w'.commits = w.commits
  ready : w'.Ready
  ledger : Ledger.Follows faulty w.ledger (stamp w.clock w.ticks cs) w'.ledger

theorem runs_call_write (hL : w.commits = L) (h : w.Ready) (v : Bytes) :
    Runs faulty L (fun _ ↦ w.After faulty [.write v]) (write v) w := by
  refine (runs_write hL h v).mono ?_
  rintro _ w' ⟨hclock, hticks, hcommits, hready, hagrees⟩
  refine ⟨hclock, hticks, hcommits.trans hL.symm, hready, hagrees.eq, fun k hk ↦ ?_⟩
  obtain rfl : w.nextHour = k := hk _ List.mem_cons_self
  exact hagrees

theorem runs_call_flush (hL : w.commits = L) (h : w.Ready) :
    Runs faulty L (fun _ ↦ w.After faulty [.flush]) flush w := by
  refine (runs_flush hL h).mono ?_
  rintro _ w' ⟨hout, hready, hledger, -⟩
  exact ⟨hout.clock, hout.ticks, hout.commits, hready, fun _ ↦ hledger,
    fun _ _ ↦ Ledger.Agrees.of_eq hledger⟩

theorem World.After.concat {w' w'' : World} {cs : List Call} {d : Call}
    (h : w.After faulty cs w') (h' : w'.After faulty [d] w'') : w.After faulty (cs ++ [d]) w'' := by
  refine ⟨h'.clock.trans h.clock, ?_, h'.commits.trans h.commits, h'.ready, ?_⟩
  · rw [h'.ticks, h.ticks, List.map_append, List.sum_append, Nat.add_assoc]
  · rw [stamp_append]
    have hledger := h'.ledger
    rw [h.clock, h.ticks] at hledger
    cases d with
    | write v => exact h.ledger.concat hledger
    | flush => exact h.ledger.concat hledger

/-- **A loop of calls** does to the ledger what the calls do one after the other. -/
theorem runs_calls {γ : Type} {f : γ → ArchiveIO Unit} (call : γ → Call)
    (hf : ∀ x w', w'.commits = L → w'.Ready →
      Runs faulty L (fun _ ↦ w'.After faulty [call x]) (f x) w')
    (hL : w.commits = L) (h : w.Ready) (xs : List γ) :
    Runs faulty L (fun _ ↦ w.After faulty (xs.map call)) (forEach f xs) w := by
  refine (Runs.forEach (I := fun rest w' ↦ ∃ past, past ++ rest = xs ∧
    w.After faulty (past.map call) w') ⟨[], rfl, rfl, rfl, rfl, h, .nil _⟩ ?_).mono ?_
  · rintro x rest w' ⟨past, hpast, hafter⟩
    refine (hf x w' (hafter.commits.trans hL) hafter.ready).mono fun _ w'' h' ↦ ?_
    refine ⟨past ++ [x], by simpa using hpast, ?_⟩
    rw [List.map_append]
    exact hafter.concat h'
  · rintro _ w' ⟨past, hpast, hafter⟩
    rw [List.append_nil] at hpast
    exact hpast ▸ hafter

/-! ## Starting -/

/-- The ledger that a new process finds. -/
def World.onDisk (w : World) : Ledger where
  cur := none
  plain j := (w.disk.lookup ⟨j, .ndjson⟩).map fun f ↦ (f.bytes, f.synced)
  gz j := w.disk.lookup ⟨j, .gz⟩

/-- **`NewArchiveWriter`** finalizes every hour but the one that the clock shows. -/
theorem runs_newArchiveWriter (hL : w.commits = L) :
    Runs faulty L (fun _ w' ↦ w'.clock = w.clock ∧ w'.ticks = w.ticks + 1 ∧ w'.commits = L ∧
      w'.Ready ∧ Ledger.Agrees faulty w.nextHour (w.onDisk.finalize w.nextHour) w'.ledger)
      newArchiveWriter w := by
  refine (Runs.errorf (Runs.sys .mkdirAll (Q := fun _ w' ↦ w = w') nofun hL rfl rfl)).bind ?_
  rintro _ _ rfl
  refine (Runs.sys .now (Q := fun t w' ↦ t = w.clock w.ticks ∧
    w' = { w with ticks := w.ticks + 1 }) nofun hL rfl ⟨rfl, rfl⟩).bind ?_
  rintro _ w₁ ⟨rfl, rfl⟩
  refine (Runs.store (w := { w with ticks := w.ticks + 1 }) (Q := fun _ w' ↦ { w with
    ticks := w.ticks + 1, writer := { curKey := w.nextHour } } = w') hL rfl).bind ?_
  rintro _ _ rfl
  refine Runs.mono (runs_finalizeStale ?_) ?_
  · exact hL
  intro _ w' hfinal
  refine ⟨hfinal.memory.clock, hfinal.memory.ticks, hfinal.memory.commits.trans hL, ?_, ?_⟩
  · intro p hp
    rw [hfinal.memory.writer] at hp
    cases hp
  · have hagrees := hfinal.agrees fun j _ ↦ World.pendingAt_of_curFile_eq_none rfl j
    have hledger : World.ledger { w with
        ticks := w.ticks + 1, writer := { curKey := w.nextHour } } = w.onDisk := by
      ext1
      · rfl
      · funext j
        exact World.ledger_plain (World.pendingAt_of_curFile_eq_none rfl j)
      · rfl
    rwa [hledger] at hagrees

/-- An empty archive directory, and no writer yet. -/
def World.fresh (clock : ℕ → ℤ) : World := { disk := ∅, clock, writer := { curKey := 0 } }

theorem start_fresh (clock : ℕ → ℤ) : ∃ w, newArchiveWriter.eval (machine False)
    (World.fresh clock) = (.ok (), w) ∧ w.clock = clock ∧ w.ticks = 1 ∧ w.commits = [] ∧
      w.Ready ∧ w.ledger = Ledger.empty := by
  obtain ⟨_, w, heval, hclock, hticks, hcommits, hready, hagrees⟩ :=
    Runs.eval (runs_newArchiveWriter (w := World.fresh clock) rfl)
  refine ⟨w, heval, hclock, hticks, hcommits, hready, (hagrees.eq not_false).trans ?_⟩
  ext1
  · rfl
  · funext j
    exact ite_self _
  · funext j
    exact ite_self _

end Methods

end GtfsStream.Archive
