import GtfsStream.Archive.BatchSpec
import GtfsStream.Library.Placement

/-!
# What is durable when the offsets are committed

`Flush` syncs the file that is open at the end of the batch. If the hour changes inside the batch,
the file of the first lines was closed and compressed before, and nothing syncs it: neither the
plain file before it is removed nor the compressed one. So the lines of a batch are durable at its
commit exactly if all of them fall in one hour.

## The two directions

A batch in one hour goes to one file, and everything in that file is durable after the sync. For a
batch across an hour an invariant says what is so from the empty directory on: no file is durable in
any part before the flush, and after it only the open one is, which holds less than all of the
lines. The failures of the calls before make no difference, since a failed batch is not committed.
-/

namespace GtfsStream.Archive

open Program Syscall

/-- The bytes of a file that a crash cannot take. -/
def File.durable (f : File) : Bytes := f.bytes.take f.synced

/-- What is durable of an archive file. A compressed file without its trailer is none. -/
def durableAt (d : Disk) (p : Path) : Bytes :=
  match p.ext, d.lookup p with
  | .ndjson, some f => f.durable
  | .gz, some f => if f.complete then f.durable else []
  | _, _ => []

/-- How much of an archive file, or of the plain file it will be made from, is there already. -/
def Ledger.sizeAt (l : Ledger) (p : Path) : ℕ :=
  match p.ext with
  | .ndjson => ((l.plain p.hour).map fun f ↦ f.1.length).getD 0
  | .gz => ((l.finalGz p.hour).map fun f ↦ f.bytes.length).getD 0
  | .tmp => 0

/-- Every line of a batch that was begun in the ledger `l` is durable: it has a place of its own
behind the bytes that were there before. -/
def LinesDurable (l : Ledger) (d : Disk) (batch : List Message) : Prop :=
  Placement newline (fun p ↦ (durableAt d p).drop (l.sizeAt p)) (batch.map Message.value)

/-- The worlds of a running consumer between two batches. -/
inductive Serving : World → Prop
  | start {w w' : World} (h : Exec (machine True) newArchiveWriter w (.finished (.ok ()) w')) :
      Serving w'
  | batch {w w' : World} {batch : List Message} (hw : Serving w)
      (h : Exec (machine True) (flushBatch batch) w (.finished (.ok ()) w')) : Serving w'

theorem Serving.ready {w : World} (h : Serving w) : w.Ready := by
  induction h with
  | @start w w' h => exact (wp_iff.mp (runs_newArchiveWriter rfl) _ h).2.2.2.1
  | batch hw h ih =>
    obtain ⟨w₁, h₁, rfl⟩ := wp_iff.mp (ensures_flushBatch True ih _) _ h
    exact h₁.after.ready

/-! ## Batches in one hour -/

theorem run_writes_plain {l : Ledger} {k : HourKey} (h : l.cur = some k → (l.plain k).isSome)
    (vs : List Bytes) (hvs : vs ≠ []) :
    (l.run (vs.map (.write k))).cur = some k ∧ ∃ n, (l.run (vs.map (.write k))).plain k =
      some (((l.plain k).getD ([], 0)).1 ++ frames newline vs, n) := by
  induction vs using List.reverseRecOn with
  | nil => exact absurd rfl hvs
  | append_singleton vs v ih =>
    rw [List.map_append, List.map_singleton, Ledger.run_concat]
    refine ⟨Ledger.write_cur .., ?_⟩
    by_cases hne : vs = []
    · subst hne
      rw [List.map_nil, Ledger.run_nil, Ledger.apply, Ledger.write, Ledger.append_plain_self]
      by_cases hk : l.cur = some k
      · obtain ⟨f, hf⟩ := Option.isSome_iff_exists.mp (h hk)
        rw [Ledger.rotate_of_cur _ _ hk, hf]
        exact ⟨f.2, by simp⟩
      · rw [Ledger.rotate_of_ne _ _ hk, Ledger.finalize_plain_self, Ledger.openHour_plain_self]
        exact ⟨((l.plain k).getD ([], 0)).2, by simp⟩
    · obtain ⟨hcur, n, hplain⟩ := ih hne
      rw [Ledger.apply, Ledger.write, Ledger.append_plain_self, Ledger.rotate_of_cur _ _ hcur,
        hplain]
      exact ⟨n, by simp⟩

/-- The calls of a batch, stamped with the hour that all of its readings show. -/
theorem stamp_batchCalls {clock : ℕ → ℤ} {t : ℕ} {k : HourKey} {batch : List Message}
    (h : ∀ i < batch.length, hourKey (clock (t + i)) = k) :
    stamp clock t (batchCalls batch) =
      (batch.map Message.value).map (.write k) ++ [.flush] := by
  induction batch generalizing t with
  | nil => rfl
  | cons m ms ih =>
    have hm : hourKey (clock t) = k := h 0 (by simp)
    have hms : ∀ i < ms.length, hourKey (clock (t + 1 + i)) = k := fun i hi ↦ by
      rw [show t + 1 + i = t + (i + 1) by omega]
      exact h (i + 1) (by simpa using hi)
    have hrest := ih hms
    rw [batchCalls] at hrest ⊢
    rw [List.map_cons, List.cons_append, stamp, hrest, hm]
    rfl

theorem linesDurable_of_flushed {faulty : Prop} {w w₁ : World} {k : HourKey}
    {batch : List Message} (hw : w.Ready) (h : w.Flushed faulty batch w₁)
    (hk : ∀ i < batch.length, hourKey (w.clock (w.ticks + i)) = k) :
    LinesDurable w.ledger w₁.disk batch := by
  by_cases hempty : batch = []
  · subst hempty
    exact Placement.nil _
  have hagrees := h.after.ledger.agrees k (by
    rw [stamp_batchCalls hk]
    intro e he
    rcases List.mem_append.mp he with he | he
    · obtain ⟨v, -, rfl⟩ := List.mem_map.mp he
      rfl
    · obtain rfl := List.mem_singleton.mp he
      trivial)
  rw [stamp_batchCalls hk, Ledger.run_concat] at hagrees
  have hsome (hcur : w.ledger.cur = some k) : (w.ledger.plain k).isSome := by
    obtain ⟨c, n, hplain, -⟩ := hw.openAt hcur
    rw [hplain]
    rfl
  obtain ⟨hcur, n, hplain⟩ := run_writes_plain hsome (batch.map Message.value) (by simpa)
  have hfile := hagrees.plain
  rw [Ledger.apply, Ledger.flush_of_cur _ _ hcur, Ledger.setPlain_plain_self, hplain,
    World.ledger_plain (h.pending k)] at hfile
  obtain ⟨f, hf, hbytes⟩ := Option.map_eq_some_iff.mp hfile
  rw [Prod.mk.injEq] at hbytes
  refine Placement.of_holds (i := ⟨k, .ndjson⟩) ?_
  have hdurable : durableAt w₁.disk ⟨k, .ndjson⟩ =
      ((w.ledger.plain k).getD ([], 0)).1 ++ frames newline (batch.map Message.value) := by
    simp only [durableAt, hf, File.durable, hbytes.1, hbytes.2, List.take_length]
  have hsize : w.ledger.sizeAt ⟨k, .ndjson⟩ = ((w.ledger.plain k).getD ([], 0)).1.length := by
    rw [Ledger.sizeAt]
    cases w.ledger.plain k with
    | none => rfl
    | some f => rfl
  rw [hdurable, hsize, List.drop_left]
  exact holds_frames _

/-! ## Batches across an hour -/

/-- The bytes that an event brings. -/
def Ledger.Event.size : Ledger.Event → ℕ
  | write _ v => v.length + 1
  | flush => 0

theorem Ledger.Event.size_pos {e : Ledger.Event} {k : HourKey} (h : ¬e.On k) : 0 < e.size := by
  cases e with
  | write j v => exact Nat.succ_pos _
  | flush => exact absurd trivial h

/-- What is so as long as lines are written in a directory that was empty, and none is flushed: no
file is durable in any part, and the open one holds less than all lines if there were two hours. -/
structure Ledger.Unsynced (es : List Ledger.Event) (l : Ledger) : Prop where
  plain : ∀ j, l.cur ≠ some j → l.plain j = none
  gz : ∀ j f, l.gz j = some f → f.synced = 0
  cur : l.cur = none → es = []
  current : ∀ k, l.cur = some k → ∃ c, l.plain k = some (c, 0) ∧
    c.length ≤ (es.map Event.size).sum ∧ ((∃ e ∈ es, ¬e.On k) → c.length < (es.map Event.size).sum)

theorem Ledger.Unsynced.write {es : List Ledger.Event} {l : Ledger} (h : l.Unsynced es)
    (k : HourKey) (v : Bytes) : (l.write k v).Unsynced (es ++ [.write k v]) := by
  have hsize : ((es ++ [Event.write k v]).map Event.size).sum =
      (es.map Event.size).sum + (v.length + 1) := by simp [Event.size]
  -- the line goes to the open file, or it closes that file first and opens one of its own
  by_cases hk : l.cur = some k
  · obtain ⟨c, hplain, hle, hlt⟩ := h.current k hk
    rw [Ledger.write, Ledger.rotate_of_cur _ _ hk]
    refine ⟨fun j hj ↦ ?_, h.gz, fun hn ↦ absurd (hk.symm.trans hn) (by simp), fun i hi ↦ ?_⟩
    · have hjk : j ≠ k := by
        rintro rfl
        exact hj hk
      rw [Ledger.append_plain_of_ne _ _ _ hjk]
      exact h.plain j hj
    · obtain rfl : k = i := Option.some_injective _ (hk.symm.trans hi)
      refine ⟨c ++ (v ++ [newline]), by simp [hplain], ?_, ?_⟩
      · rw [hsize]
        simp only [List.length_append, List.length_singleton]
        omega
      · rintro ⟨e, he, hne⟩
        rcases List.mem_append.mp he with he | he
        · have := hlt ⟨e, he, hne⟩
          rw [hsize]
          simp only [List.length_append, List.length_singleton]
          omega
        · obtain rfl := List.mem_singleton.mp he
          exact absurd rfl hne
  · have hnone : l.plain k = none := h.plain k hk
    rw [Ledger.write, Ledger.rotate_of_ne _ _ hk]
    refine ⟨fun j hj ↦ ?_, fun j f hf ↦ ?_, fun hn ↦ absurd hn (by simp), fun i hi ↦ ?_⟩
    · have hjk : j ≠ k := by
        rintro rfl
        exact hj rfl
      rw [Ledger.append_plain_of_ne _ _ _ hjk, Ledger.finalize_plain_of_ne _ _ hjk]
    · by_cases hjk : j = k
      · subst hjk
        rw [Ledger.append_gz, Ledger.finalize_gz_self] at hf
        exact h.gz j f hf
      · rw [Ledger.append_gz, Ledger.finalize_gz_of_ne _ _ hjk, Ledger.finalGz,
          Option.or_eq_some_iff]
          at hf
        rcases hf with hf | ⟨-, hf⟩
        · exact h.gz j f hf
        · obtain ⟨g, -, rfl⟩ := Option.map_eq_some_iff.mp hf
          rfl
    · obtain rfl : k = i := Option.some_injective _ hi
      refine ⟨v ++ [newline], by simp [hnone], ?_, ?_⟩
      · rw [hsize]
        simp only [List.length_append, List.length_singleton]
        omega
      · rintro ⟨e, he, hne⟩
        rw [hsize]
        have he : e ∈ es := by
          refine (List.mem_append.mp he).resolve_right fun he ↦ hne ?_
          obtain rfl := List.mem_singleton.mp he
          rfl
        have hpos : 0 < (es.map Event.size).sum :=
          (Event.size_pos hne).trans_le (List.le_sum_of_mem (List.mem_map_of_mem he))
        simp only [List.length_append, List.length_singleton]
        omega

/-- The events of the messages' writes, and their hours and bytes. -/
theorem stamp_writes (clock : ℕ → ℤ) (t : ℕ) (batch : List Message) :
    let es := stamp clock t (batch.map fun msg ↦ .write msg.value)
    (∀ l : Ledger, l.Unsynced [] → (l.run es).Unsynced es) ∧
      (es.map Ledger.Event.size).sum = (frames newline (batch.map Message.value)).length ∧
      ∀ k, (∀ e ∈ es, e.On k) → ∀ i < batch.length, hourKey (clock (t + i)) = k := by
  induction batch using List.reverseRecOn with
  | nil => exact ⟨fun l h ↦ h, rfl, fun k _ i hi ↦ absurd hi (by simp)⟩
  | append_singleton ms m ih =>
    obtain ⟨hrun, hsize, hon⟩ := ih
    have hlast : stamp clock t ((ms ++ [m]).map fun msg ↦ Call.write msg.value) =
        stamp clock t (ms.map fun msg ↦ .write msg.value) ++
          [.write (hourKey (clock (t + ms.length))) m.value] := by
      rw [List.map_append, stamp_append]
      simp [Function.comp_def, Call.readings, stamp]
    dsimp only at hrun hsize hon ⊢
    rw [hlast]
    refine ⟨fun l h ↦ ?_, ?_, fun k hk i hi ↦ ?_⟩
    · rw [Ledger.run_concat]
      exact (hrun l h).write _ _
    · rw [List.map_append, List.sum_append, hsize]
      simp [Ledger.Event.size]
    · have hk' := hon k fun e he ↦ hk e (List.mem_append_left _ he)
      rw [List.length_append, List.length_singleton] at hi
      by_cases him : i < ms.length
      · exact hk' i him
      · obtain rfl : i = ms.length := by omega
        exact hk _ (List.mem_append_right _ (List.mem_singleton.mpr rfl))

theorem Ledger.unsynced_empty : Ledger.empty.Unsynced [] :=
  ⟨fun _ _ ↦ rfl, fun _ _ h ↦ absurd h nofun, fun _ ↦ rfl, fun _ h ↦ absurd h nofun⟩

/-- In a directory that was empty, a batch across an hour is not durable once it is flushed. -/
theorem not_linesDurable_of_flushed {w w₁ : World} {batch : List Message}
    (hw : w.ledger = Ledger.empty) (h : w.Flushed False batch w₁)
    (hk : ¬∃ k, ∀ i < batch.length, hourKey (w.clock (w.ticks + i)) = k) :
    ¬LinesDurable w.ledger w₁.disk batch := by
  intro hplaced
  obtain ⟨hrun, hsize, hon⟩ := stamp_writes w.clock w.ticks batch
  have hunsynced := hrun _ Ledger.unsynced_empty
  have hledger := h.after.ledger.eq not_false
  rw [hw, batchCalls, stamp_append, Ledger.run_append] at hledger
  generalize hes : stamp w.clock w.ticks (batch.map fun msg ↦ .write msg.value) = es at *
  have hcur : ∃ k, (Ledger.empty.run es).cur = some k := by
    refine Option.ne_none_iff_exists'.mp fun hnone ↦ hk ⟨0, hon 0 ?_⟩
    rw [hunsynced.cur hnone]
    exact fun e he ↦ absurd he List.not_mem_nil
  obtain ⟨k, hcur⟩ := hcur
  obtain ⟨c, hplain, -, hlt⟩ := hunsynced.current k hcur
  have hother : ∃ e ∈ es, ¬e.On k := by
    by_contra hall
    push Not at hall
    exact hk ⟨k, hon k hall⟩
  have hflush : w₁.ledger = (Ledger.empty.run es).setPlain k (some (c, c.length)) := by
    rw [hledger, stamp, stamp, Ledger.run, List.foldl_cons, List.foldl_nil, Ledger.apply,
      Ledger.flush_of_cur _ _ hcur, hplain]
    rfl
  -- only the open file has durable bytes, and they are fewer than the lines need
  have hdurable (p : Path) : (durableAt w₁.disk p).drop (w.ledger.sizeAt p) =
      if p = ⟨k, .ndjson⟩ then c else [] := by
    have hsize : w.ledger.sizeAt p = 0 := by
      rw [hw]
      obtain ⟨j, e⟩ := p
      cases e <;> rfl
    rw [hsize, List.drop_zero]
    obtain ⟨j, e⟩ := p
    cases e with
    | ndjson =>
      have hfile := World.ledger_plain (h.pending j)
      rw [hflush] at hfile
      by_cases hj : j = k
      · subst hj
        rw [Ledger.setPlain_plain_self] at hfile
        obtain ⟨f, hf, hbytes⟩ := Option.map_eq_some_iff.mp hfile.symm
        rw [Prod.mk.injEq] at hbytes
        simp only [durableAt, hf, File.durable, hbytes.1, hbytes.2, List.take_length, if_true]
      · rw [Ledger.setPlain_plain_of_ne _ _ _ hj, hunsynced.plain j] at hfile
        · rw [if_neg fun hp ↦ hj (congrArg Path.hour hp)]
          simp only [durableAt, Option.map_eq_none_iff.mp hfile.symm]
        · rw [hcur]
          exact fun h ↦ hj (Option.some_injective _ h).symm
    | gz =>
      rw [if_neg (by simp)]
      have hgz : w₁.disk.lookup ⟨j, .gz⟩ = (Ledger.empty.run es).gz j :=
        congrFun (congrArg Ledger.gz hflush) j
      rw [durableAt, hgz]
      rcases hf : (Ledger.empty.run es).gz j with _ | f
      · rfl
      · simp [File.durable, hunsynced.gz j f hf]
    | tmp =>
      rw [if_neg (by simp)]
      rfl
  -- all lines would have to lie in the open file, and they do not fit
  have hle := hplaced.length_le (s := {⟨k, .ndjson⟩}) fun p hp ↦ by
    rw [hdurable] at hp
    by_contra hne
    rw [Finset.mem_singleton] at hne
    exact hp (if_neg hne)
  rw [Finset.sum_singleton, hdurable, if_pos rfl, ← hsize] at hle
  exact absurd (hlt hother) (not_lt.mpr hle)

/-! ## The exact condition -/

/-- At every call of `CommitMessages` that a flush of `batch` makes, with these clock readings, in
whatever directory and whatever fails, every line of the batch is durable. -/
def CommitsDurable (batch : List Message) (readings : ℕ → ℤ) : Prop :=
  ∀ w, Serving w → (∀ i, w.clock (w.ticks + i) = readings i) →
    ∀ out, Exec (machine True) (flushBatch batch) w out →
      ∀ call ∈ out.state.commits.drop w.commits.length, LinesDurable w.ledger call.disk batch

/-- The hour changes inside the batch: the run in which nothing fails, in a directory that was
empty, commits lines that are not durable. -/
theorem not_commitsDurable {batch : List Message} {readings : ℕ → ℤ}
    (hk : ¬∃ k, ∀ i < batch.length, hourKey (readings i) = k) :
    ¬CommitsDurable batch readings := by
  intro h
  obtain ⟨w, heval, hclock, hticks, -, hready, hledger⟩ := start_fresh fun t ↦ readings (t - 1)
  have hreadings (i : ℕ) : w.clock (w.ticks + i) = readings i := by
    rw [hclock, hticks]
    exact congrArg readings (Nat.add_sub_cancel_left 1 i)
  have hserving : Serving w := .start (exec_of_eval heval True)
  have hx := Ensures.eval (ensures_flushBatch False hready batch)
  rcases hp : (flushBatch batch).eval (machine False) w with ⟨e | a, w'⟩
  · rw [hp] at hx
    exact hx.1
  · rw [hp] at hx
    obtain ⟨w₁, hflushed, rfl⟩ := hx
    have hcall : CommitCall.mk batch w₁.disk true ∈
        (w₁.logCommit batch true).commits.drop w.commits.length := by
      simp [World.logCommit, hflushed.after.commits]
    refine not_linesDurable_of_flushed hledger hflushed ?_
      (h w hserving hreadings _ (exec_of_eval hp True) _ hcall)
    simpa only [hreadings] using hk

/-- All lines fall in one hour: no failure and no crash leads to a commit before they are
durable. -/
theorem commitsDurable {batch : List Message} {readings : ℕ → ℤ} {k : HourKey}
    (hk : ∀ i < batch.length, hourKey (readings i) = k) : CommitsDurable batch readings := by
  intro w hserving hreadings out hout call hcall
  have hend : w.FlushEnd True batch out.state := by
    have hmeets := wp_iff.mp (ensures_flushBatch True hserving.ready batch) out hout
    cases out with
    | crashed s => exact hmeets
    | finished r s =>
      cases r with
      | error e => exact hmeets.2
      | ok a =>
        obtain ⟨w₁, hflushed, hs⟩ := hmeets
        exact Or.inr ⟨w₁, true, hflushed, hs⟩
  rcases hend with hsame | ⟨w₁, acked, hflushed, hs⟩
  · rw [hsame, List.drop_length] at hcall
    exact absurd hcall List.not_mem_nil
  · rw [hs] at hcall
    have hcommits : (w₁.logCommit batch acked).commits =
        w.commits ++ [⟨batch, w₁.disk, acked⟩] := by
      rw [World.logCommit, hflushed.after.commits]
    rw [hcommits, List.drop_left, List.mem_singleton] at hcall
    rw [hcall]
    refine linesDurable_of_flushed (k := k) hserving.ready hflushed fun i hi ↦ ?_
    rw [hreadings]
    exact hk i hi

/-- **The lines of a batch are durable at its commit**, whatever else happened before and whatever
fails, exactly if all clock readings of the batch fall in one hour. -/
theorem commitsDurable_iff (batch : List Message) (readings : ℕ → ℤ) :
    CommitsDurable batch readings ↔ ∃ k, ∀ i < batch.length, hourKey (readings i) = k :=
  ⟨fun h ↦ by_contra fun hk ↦ not_commitsDurable hk h, fun ⟨_, hk⟩ ↦ commitsDurable hk⟩

/-- Two messages, the first written in the last second of an hour and the other in the next. -/
theorem commitsDurable_across_hour :
    ¬CommitsDurable [⟨0, [97]⟩, ⟨1, [98]⟩]
      (fun i ↦ if i = 0 then 3599000000000 else 3600000000000) := by
  refine not_commitsDurable ?_
  rintro ⟨k, hk⟩
  have h₀ := hk 0 (by decide)
  have h₁ := hk 1 (by decide)
  rw [← h₁] at h₀
  exact absurd h₀ (by decide)

end GtfsStream.Archive
