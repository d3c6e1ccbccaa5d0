import GtfsStream.Archive.Writer

/-!
# What the buffer of the archive writer does

The *logical content* of the open hour file is what is in the file followed by what is still in the
buffer. Seen so, the chunks in which `bufio.Writer` hands its data over do not show, and a write
just appends.

Everything here and in the specifications that follow is stated for a `faulty` machine and for a
reliable one at once: a method fails or crashes only where `faulty` holds, and in that case it has
made no call to Kafka.
-/

namespace GtfsStream.Archive

open Program Syscall

/-! ## The open hour file -/

/-- The hour file `k` is open, its logical content is `c`, and its first `n` bytes are durable. -/
structure World.OpenAt (k : HourKey) (c : Bytes) (n : ℕ) (w : World) : Prop where
  curKey : w.writer.curKey = k
  curFile : w.writer.curFile = some ⟨k, .ndjson⟩
  err : w.writer.buf.err = none
  file : ∃ f, w.disk.lookup ⟨k, .ndjson⟩ = some f ∧ f.bytes ++ w.writer.buf.pending = c ∧
    f.synced = n

/-- `w'` differs from `w` in the hour file `k` and in the writer's memory only. -/
structure World.SameElse (k : HourKey) (w w' : World) : Prop where
  disk : ∀ q, q ≠ ⟨k, .ndjson⟩ → w'.disk.lookup q = w.disk.lookup q
  clock : w'.clock = w.clock
  ticks : w'.ticks = w.ticks
  commits : w'.commits = w.commits

theorem World.SameElse.refl (k : HourKey) (w : World) : w.SameElse k w :=
  ⟨fun _ _ ↦ rfl, rfl, rfl, rfl⟩

theorem World.SameElse.trans {k : HourKey} {w₁ w₂ w₃ : World} (h : w₁.SameElse k w₂)
    (h' : w₂.SameElse k w₃) : w₁.SameElse k w₃ :=
  ⟨fun q hq ↦ (h'.disk q hq).trans (h.disk q hq), h'.clock.trans h.clock,
    h'.ticks.trans h.ticks, h'.commits.trans h.commits⟩

/-! ## Triples of the archive consumer -/

/-- Started in `w`, the program ends in a world with `Q`. It fails or crashes only if `faulty`
holds, and the calls made to Kafka are then still `L`. -/
def Runs (faulty : Prop) (L : List CommitCall) {α : Type} (Q : α → World → Prop) (p : ArchiveIO α)
    (w : World) : Prop :=
  p.Ensures (machine faulty) Q (fun _ w' ↦ faulty ∧ w'.commits = L) (fun w' ↦ w'.commits = L) w

section Runs

variable {faulty : Prop} {L : List CommitCall} {α β : Type}

theorem Runs.done {Q : α → World → Prop} {a : α} {w : World} (h : Q a w) :
    Runs faulty L Q (Program.done a) w := h

theorem Runs.bind {Q : α → World → Prop} {R : β → World → Prop} {p : ArchiveIO α}
    {f : α → ArchiveIO β} {w : World} (h : Runs faulty L Q p w)
    (hf : ∀ a w', Q a w' → Runs faulty L R (f a) w') : Runs faulty L R (p.bind f) w :=
  Ensures.bind h hf

theorem Runs.mono {Q Q' : α → World → Prop} {p : ArchiveIO α} {w : World}
    (h : Runs faulty L Q p w) (hQ : ∀ a w', Q a w' → Q' a w') : Runs faulty L Q' p w :=
  Ensures.mono h hQ

theorem Runs.errorf {Q : α → World → Prop} {p : ArchiveIO α} {w : World} {text : String}
    {path : Option Path} (h : Runs faulty L Q p w) : Runs faulty L Q (errorf text p path) w :=
  Ensures.tryCatch h fun _ _ he ↦ he

theorem Runs.forEach {γ : Type} {I : List γ → World → Prop} {f : γ → ArchiveIO Unit} {l : List γ}
    {w : World} (h0 : I l w)
    (hstep : ∀ x xs w, I (x :: xs) w → Runs faulty L (fun _ ↦ I xs) (f x) w) :
    Runs faulty L (fun _ ↦ I []) (forEach f l) w :=
  Ensures.forEach h0 hstep

theorem cut_commits {c : Syscall} (hc : ∀ ms, c ≠ commitMessages ms) (w : World) (n : ℕ) :
    (c.cut w n).commits = w.commits := by
  cases c with
  | commitMessages ms => exact absurd rfl (hc ms)
  | write p b => simp only [cut, World.appendTo]; split <;> rfl
  | copy src dst => simp only [cut, World.appendTo]; split <;> rfl
  | _ => rfl

theorem Runs.sys (c : Syscall) (hc : ∀ ms, c ≠ commitMessages ms) {Q : c.Ret → World → Prop}
    {w : World} {a : c.Ret} (hL : w.commits = L) (ha : (c.apply w).1 = .ok a)
    (hQ : Q a (c.apply w).2) : Runs faulty L Q (Archive.sys c) w := by
  rw [Runs, Ensures, Archive.sys, wp_perform]
  refine ⟨?_, ?_, ?_⟩
  · rw [show (machine faulty).apply c w = c.apply w from rfl, ha]
    exact hQ
  · rintro r w' ⟨hfaulty, -, ⟨e, rfl⟩, n, rfl⟩
    exact ⟨hfaulty, (cut_commits hc w n).trans hL⟩
  · rintro w' ⟨-, n, rfl⟩
    exact (cut_commits hc w n).trans hL

theorem Runs.sys_bind (c : Syscall) (hc : ∀ ms, c ≠ commitMessages ms) {R : β → World → Prop}
    {f : c.Ret → ArchiveIO β} {w : World} {a : c.Ret} (hL : w.commits = L)
    (ha : (c.apply w).1 = .ok a) (h : Runs faulty L R (f a) (c.apply w).2) :
    Runs faulty L R ((Archive.sys c).bind f) w := by
  refine (Runs.sys c hc (Q := fun a' w' ↦ a' = a ∧ w' = (c.apply w).2) hL ha ⟨rfl, rfl⟩).bind ?_
  rintro _ _ ⟨rfl, rfl⟩
  exact h

theorem Runs.load_bind {R : β → World → Prop} {f : ArchiveWriter → ArchiveIO β} {w : World}
    (hL : w.commits = L) (h : Runs faulty L R (f w.writer) w) :
    Runs faulty L R (load.bind f) w :=
  Runs.sys_bind .load nofun hL rfl h

theorem Runs.store {Q : Unit → World → Prop} {w : World} {aw : ArchiveWriter}
    (hL : w.commits = L) (hQ : Q () { w with writer := aw }) : Runs faulty L Q (store aw) w :=
  Runs.sys (.store aw) nofun hL rfl hQ

theorem Runs.eval {Q : α → World → Prop} {p : ArchiveIO α} {w : World} (h : Runs False L Q p w) :
    ∃ a w', p.eval (machine False) w = (.ok a, w') ∧ Q a w' := by
  have hx := Ensures.eval h
  rcases hp : p.eval (machine False) w with ⟨e | a, w'⟩
  · rw [hp] at hx
    exact hx.1.elim
  · rw [hp] at hx
    exact ⟨a, w', rfl, hx⟩

/-- The run in which nothing fails is one of those of a faulty machine. -/
theorem exec_of_eval {p : ArchiveIO α} {w w' : World} {a : α}
    (h : p.eval (machine False) w = (.ok a, w')) (faulty : Prop) :
    Exec (machine faulty) p w (.finished (.ok a) w') := by
  have hx := exec_eval (machine faulty) p w
  have happly : (machine faulty).apply = (machine False).apply := rfl
  rwa [eval_eq_of_apply_eq happly, h] at hx

end Runs

/-! ## The buffer -/

section Buffer

variable {faulty : Prop} {L : List CommitCall} {k : HourKey} {c : Bytes} {n : ℕ} {w : World}

/-- The chunks handed over and what is kept are together what was there and what came. -/
theorem bufioWrite_append (pending p : Bytes) :
    (bufioWrite pending p).1.flatten ++ (bufioWrite pending p).2 = pending ++ p := by
  unfold bufioWrite
  split
  · simp
  · split
    · simp_all
    · dsimp only
      split <;> simp

theorem appendTo_eq {p : Path} {f : File} (h : w.disk.lookup p = some f) (b : Bytes) :
    w.appendTo p b = w.setDisk (w.disk.insert p { f with bytes := f.bytes ++ b }) := by
  rw [World.appendTo, h]

theorem runs_writeChunk {p : Path} {chunk : Bytes} {Q : Unit → World → Prop}
    (hL : w.commits = L) (hQ : Q () (w.appendTo p chunk)) :
    Runs faulty L Q (writeChunk p chunk) w := by
  refine Ensures.tryCatch (Runs.sys (.write p chunk) nofun hL rfl hQ) ?_
  rintro e w' ⟨hfaulty, hL'⟩
  have hstore (aw : ArchiveWriter) :
      Runs faulty L (fun _ w'' ↦ w''.commits = L) (store aw) w' := Runs.store hL' hL'
  exact Runs.load_bind hL' ((hstore _).bind fun _ _ h ↦ ⟨hfaulty, h⟩)

/-- Handing over chunks moves the file and leaves the writer's memory alone. -/
theorem runs_writeChunks (hL : w.commits = L) {f : File}
    (hf : w.disk.lookup ⟨k, .ndjson⟩ = some f) (chunks : List Bytes) :
    Runs faulty L (fun _ w' ↦ w.SameElse k w' ∧ w'.writer = w.writer ∧
        w'.disk.lookup ⟨k, .ndjson⟩ = some { f with bytes := f.bytes ++ chunks.flatten })
      (forEach (writeChunk ⟨k, .ndjson⟩) chunks) w := by
  refine (Runs.forEach (I := fun xs w' ↦ w.SameElse k w' ∧ w'.writer = w.writer ∧
    ∃ b, b ++ xs.flatten = f.bytes ++ chunks.flatten ∧
      w'.disk.lookup ⟨k, .ndjson⟩ = some { f with bytes := b })
    ⟨World.SameElse.refl k w, rfl, f.bytes, rfl, hf⟩ ?_).mono ?_
  · rintro chunk xs w' ⟨hsame, hwriter, b, hb, hlook⟩
    refine runs_writeChunk (hsame.commits.trans hL) ?_
    rw [appendTo_eq hlook]
    refine ⟨⟨fun q hq ↦ ?_, hsame.clock, hsame.ticks, hsame.commits⟩, hwriter, b ++ chunk, ?_, ?_⟩
    · exact (AList.lookup_insert_ne hq).trans (hsame.disk q hq)
    · rw [← hb, List.flatten_cons, List.append_assoc]
    · exact AList.lookup_insert _
  · rintro _ w' ⟨hsame, hwriter, b, hb, hlook⟩
    rw [List.flatten_nil, List.append_nil] at hb
    exact ⟨hsame, hwriter, hb ▸ hlook⟩

theorem runs_bufWrite (hL : w.commits = L) (h : w.OpenAt k c n) (v : Bytes) :
    Runs faulty L (fun _ w' ↦ w.SameElse k w' ∧ w'.OpenAt k (c ++ v) n) (bufWrite v) w := by
  obtain ⟨f, hf, hc, hn⟩ := h.file
  refine Runs.load_bind hL ?_
  rw [h.curFile, h.err]
  refine (runs_writeChunks hL hf _).bind ?_
  rintro _ w' ⟨hsame, hwriter, hlook⟩
  refine Runs.store (hsame.commits.trans hL) ⟨⟨hsame.disk, hsame.clock, hsame.ticks, hsame.commits⟩,
    h.curKey, rfl, h.err, _, hlook, ?_, hn⟩
  dsimp only
  rw [List.append_assoc, bufioWrite_append, ← List.append_assoc, hc]

theorem runs_bufFlush (hL : w.commits = L) (h : w.OpenAt k c n) :
    Runs faulty L (fun _ w' ↦ w.SameElse k w' ∧ w'.OpenAt k c n ∧ w'.writer.buf.pending = [])
      bufFlush w := by
  obtain ⟨f, hf, hc, hn⟩ := h.file
  refine Runs.load_bind hL ?_
  rw [h.curFile, h.err]
  by_cases hp : w.writer.buf.pending = []
  · simp only [hp, if_true]
    exact ⟨World.SameElse.refl k w, h, hp⟩
  · simp only [hp, if_false]
    refine Runs.bind (runs_writeChunk (Q := fun _ w' ↦ w' = w.appendTo ⟨k, .ndjson⟩ _) hL rfl) ?_
    rintro _ _ rfl
    rw [appendTo_eq hf]
    refine Runs.store hL ⟨⟨fun q hq ↦ AList.lookup_insert_ne hq, rfl, rfl, rfl⟩,
      ⟨h.curKey, rfl, h.err, _, AList.lookup_insert _, ?_, hn⟩, rfl⟩
    rw [List.append_nil, hc]

theorem runs_bufWriteByte (hL : w.commits = L) (h : w.OpenAt k c n) (b : UInt8) :
    Runs faulty L (fun _ w' ↦ w.SameElse k w' ∧ w'.OpenAt k (c ++ [b]) n) (bufWriteByte b) w := by
  refine Runs.load_bind hL ?_
  have hflush : Runs faulty L (fun _ w' ↦ w.SameElse k w' ∧ w'.OpenAt k c n)
      (runIf (w.writer.buf.err = none ∧ bufSize ≤ w.writer.buf.pending.length) bufFlush) w :=
    Ensures.runIf (fun _ ↦ (runs_bufFlush hL h).mono fun _ _ h' ↦ ⟨h'.1, h'.2.1⟩)
      fun _ ↦ ⟨World.SameElse.refl k w, h⟩
  refine hflush.bind ?_
  rintro _ w' ⟨hsame, h'⟩
  obtain ⟨f, hf, hc, hn⟩ := h'.file
  refine Runs.load_bind (hsame.commits.trans hL) ?_
  rw [h'.err]
  refine Runs.store (hsame.commits.trans hL) ⟨⟨hsame.disk, hsame.clock, hsame.ticks,
    hsame.commits⟩, h'.curKey, h'.curFile, h'.err, f, hf, ?_, hn⟩
  rw [← hc, List.append_assoc]

end Buffer

end GtfsStream.Archive
