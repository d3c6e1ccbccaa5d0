import GtfsStream.Archive.ConsumeLoop
import GtfsStream.Library.History

/-!
# The commits of the consume loop

Whatever the calls answer, what has been committed is the beginning of what has been fetched, batch
by batch; before a batch is committed its messages have been written, once each and in order, and
flushed; and what is fetched and not committed is the open batch.

The invariant names the open batch, which is what has been fetched after the last commit, and the
part of it that has been written. A successful call moves them on, a failed one leaves the log as it
is, and a crash can only happen between two calls.
-/

open GtfsStream.History

namespace GtfsStream.Archive.ConsumeLoop

open Program

/-! ## What a log says -/

def fetchedOf (log : List LoopEvent) : List Message :=
  log.filterMap fun e ↦ match e with
    | .fetched msg => some msg
    | _ => none

def writtenOf (log : List LoopEvent) : List Bytes :=
  log.filterMap fun e ↦ match e with
    | .wrote value => some value
    | _ => none

def commitsOf (log : List LoopEvent) : List (List Message) :=
  log.filterMap fun e ↦ match e with
    | .committed batch => some batch
    | _ => none

/-- When a batch is committed, all messages up to its end have been written, once each and in
order, and flushed since. -/
def WrittenBefore (before : List LoopEvent) (e : LoopEvent) : Prop :=
  ∀ batch, e = .committed batch →
    writtenOf before = ((commitsOf before).flatten ++ batch).map Message.value ∧
      before.getLast? = some .flushed

/-- The commits are the beginning of what was fetched, of batches that were written before, none of
which is too long, and no more than one batch is open. -/
structure CommitsPrefix (batchSize : ℤ) (log : List LoopEvent) : Prop where
  opened : ∃ opened, fetchedOf log = (commitsOf log).flatten ++ opened ∧
    (opened.length : ℤ) ≤ max batchSize 0
  written : AtEach WrittenBefore log
  size : ∀ batch ∈ commitsOf log, (batch.length : ℤ) ≤ batchSize

/-! ## The invariant -/

/-- The open batch, and the part of it that has been written. -/
structure Progress (batchSize : ℤ) (opened part : List Message) (log : List LoopEvent) : Prop where
  fetched : fetchedOf log = (commitsOf log).flatten ++ opened
  written : writtenOf log = ((commitsOf log).flatten ++ part).map Message.value
  part : part <+: opened
  length : (opened.length : ℤ) ≤ max batchSize 0
  size : ∀ batch ∈ commitsOf log, (batch.length : ℤ) ≤ batchSize
  commits : AtEach WrittenBefore log

/-- The invariant, for some open batch. -/
def Sound (batchSize : ℤ) (w : LoopWorld) : Prop :=
  ∃ opened part, Progress batchSize opened part w.log

theorem Sound.commitsPrefix {batchSize : ℤ} {w : LoopWorld} (h : Sound batchSize w) :
    CommitsPrefix batchSize w.log := by
  obtain ⟨opened, part, h⟩ := h
  exact ⟨⟨opened, h.fetched, h.length⟩, h.commits, h.size⟩

section

variable {batchSize batchWait : ℤ} {opened part : List Message} {log : List LoopEvent}
  {msg : Message} {w : LoopWorld}

theorem Progress.sound (h : Progress batchSize opened part w.log) : Sound batchSize w :=
  ⟨opened, part, h⟩

theorem progress_nil : Progress batchSize [] [] [] :=
  ⟨rfl, rfl, List.prefix_rfl, le_max_right _ _, nofun, atEach_nil⟩

theorem atEach_concat_of_ne {e : LoopEvent} (h : AtEach WrittenBefore log)
    (he : ∀ batch, e ≠ .committed batch) : AtEach WrittenBefore (log ++ [e]) :=
  atEach_concat.mpr ⟨h, fun batch heq ↦ absurd heq (he batch)⟩

theorem Progress.fetch (h : Progress batchSize opened part log)
    (hlength : (opened.length : ℤ) < batchSize) :
    Progress batchSize (opened ++ [msg]) part (log ++ [.fetched msg]) := by
  have hcommits : commitsOf (log ++ [.fetched msg]) = commitsOf log := by
    simp [commitsOf]
  refine ⟨?_, ?_, h.part.trans (List.prefix_append _ _), ?_, ?_,
    atEach_concat_of_ne h.commits nofun⟩
  · rw [hcommits, fetchedOf, List.filterMap_append, ← fetchedOf, h.fetched, List.append_assoc]
    rfl
  · rw [hcommits, ← h.written]
    simp [writtenOf]
  · rw [List.length_append, List.length_singleton]
    exact (show (opened.length + 1 : ℕ) ≤ batchSize by omega).trans (le_max_left _ _)
  · rw [hcommits]
    exact h.size

theorem Progress.write (h : Progress batchSize opened part log)
    (hpart : part ++ [msg] <+: opened) :
    Progress batchSize opened (part ++ [msg]) (log ++ [.wrote msg.value]) := by
  have hcommits : commitsOf (log ++ [.wrote msg.value]) = commitsOf log := by
    simp [commitsOf]
  refine ⟨?_, ?_, hpart, h.length, ?_, atEach_concat_of_ne h.commits nofun⟩
  · rw [hcommits, ← h.fetched]
    simp [fetchedOf]
  · have hone : writtenOf [.wrote msg.value] = [msg].map Message.value := rfl
    have hsplit : writtenOf (log ++ [.wrote msg.value]) =
        writtenOf log ++ writtenOf [.wrote msg.value] := List.filterMap_append
    rw [hcommits, hsplit, h.written, hone, ← List.append_assoc, ← List.map_append]
  · rw [hcommits]
    exact h.size

theorem Progress.other (h : Progress batchSize opened part log) {e : LoopEvent}
    (he : e = .flushed ∨ e = .closed) : Progress batchSize opened part (log ++ [e]) := by
  obtain ⟨hcommits, hfetched, hwritten, hne⟩ : commitsOf (log ++ [e]) = commitsOf log ∧
      fetchedOf (log ++ [e]) = fetchedOf log ∧ writtenOf (log ++ [e]) = writtenOf log ∧
      ∀ batch, e ≠ .committed batch := by
    rcases he with rfl | rfl <;> simp [commitsOf, fetchedOf, writtenOf]
  refine ⟨?_, ?_, h.part, h.length, ?_, atEach_concat_of_ne h.commits hne⟩
  · rw [hcommits, hfetched, h.fetched]
  · rw [hcommits, hwritten, h.written]
  · rw [hcommits]
    exact h.size

theorem Progress.commit (h : Progress batchSize opened opened log)
    (hsize : (opened.length : ℤ) ≤ batchSize) (hflushed : log.getLast? = some .flushed) :
    Progress batchSize [] [] (log ++ [.committed opened]) := by
  have hcommits : commitsOf (log ++ [.committed opened]) = commitsOf log ++ [opened] := by
    simp [commitsOf]
  refine ⟨?_, ?_, List.prefix_rfl, le_max_right _ _, ?_, ?_⟩
  · rw [hcommits, List.flatten_append, List.flatten_singleton, List.append_nil, ← h.fetched]
    simp [fetchedOf]
  · rw [hcommits, List.flatten_append, List.flatten_singleton, List.append_nil, ← h.written]
    simp [writtenOf]
  · rw [hcommits]
    intro batch hbatch
    rcases List.mem_append.mp hbatch with hbatch | hbatch
    · exact h.size batch hbatch
    · rw [List.mem_singleton.mp hbatch]
      exact hsize
  · refine atEach_concat.mpr ⟨h.commits, fun batch heq ↦ ?_⟩
    rw [← LoopEvent.committed.inj heq]
    exact ⟨h.written, hflushed⟩

/-! ## The calls -/

/-- Ends with `Q`, and keeps the invariant otherwise. -/
abbrev Keeps (batchSize : ℤ) {α : Type} (Q : α → LoopWorld → Prop) (p : LoopIO α)
    (w : LoopWorld) : Prop :=
  p.Ensures LoopCall.machine Q (fun _ ↦ Sound batchSize) (Sound batchSize) w

/-- A call other than of `ctx.Err` takes effect, or leaves the log as it was. -/
theorem keeps_invoke {c : LoopCall} (hc : c ≠ .ctxErr) {Q : c.Ret → LoopWorld → Prop}
    (h : Sound batchSize w) (happly : ∀ a, (c.apply w).1 = .ok a → Q a (c.apply w).2) :
    Keeps batchSize Q (invoke c) w := by
  rw [Keeps, Ensures, invoke, wp_perform]
  refine ⟨?_, fun r w' hfault ↦ ?_, fun w' hcrash ↦ ?_⟩
  · cases c with
    | ctxErr => exact absurd rfl hc
    | _ => exact happly _ rfl
  · cases hfault with
    | cancelled => exact absurd rfl hc
    | _ => exact h
  · rw [show w' = w from hcrash]
    exact h

theorem keeps_ctxErr (h : Sound batchSize w) :
    Keeps batchSize (fun _ w' ↦ w'.log = w.log) (invoke .ctxErr) w := by
  rw [Keeps, Ensures, invoke, wp_perform]
  refine ⟨rfl, fun r w' hfault ↦ ?_, fun w' hcrash ↦ ?_⟩
  · cases hfault with
    | cancelled => rfl
  · rw [show w' = w from hcrash]
    exact h

theorem Keeps.wrapError {Q : Unit → LoopWorld → Prop} {p : LoopIO Unit} (text : String)
    (h : Keeps batchSize Q p w) : Keeps batchSize Q (wrapError text p) w :=
  Ensures.tryCatch h fun _ _ he ↦ he

/-! ## A batch -/

theorem keeps_writes (h : Progress batchSize opened [] w.log) :
    Keeps batchSize (fun _ w' ↦ Progress batchSize opened opened w'.log)
      (forEach (fun msg : Message ↦ wrapError "write to archive" (invoke (.write msg.value)))
        opened) w := by
  -- what is left to write completes what has been written
  refine (Ensures.forEach (I := fun rest w' ↦ ∃ part, part ++ rest = opened ∧
    Progress batchSize opened part w'.log) ⟨[], rfl, h⟩ ?_).mono ?_
  · rintro msg rest w' ⟨part, rfl, hpart⟩
    refine Keeps.wrapError _ (keeps_invoke (c := .write msg.value) nofun hpart.sound fun _ _ ↦ ?_)
    refine ⟨part ++ [msg], by rw [List.append_assoc, List.singleton_append], hpart.write ?_⟩
    exact ⟨rest, by rw [List.append_assoc, List.singleton_append]⟩
  · rintro _ w' ⟨part, hpart, hprogress⟩
    rw [List.append_nil] at hpart
    rwa [hpart] at hprogress

theorem keeps_flushBatch (h : Progress batchSize opened [] w.log)
    (hsize : (opened.length : ℤ) ≤ batchSize) :
    Keeps batchSize (fun _ w' ↦ Progress batchSize [] [] w'.log) (flushBatch opened) w := by
  refine Ensures.bind (keeps_writes h) fun _ w₁ h₁ ↦ ?_
  refine Ensures.bind (Q := fun _ w₂ ↦ Progress batchSize opened opened w₂.log ∧
    w₂.log.getLast? = some .flushed) ?_ fun _ w₂ ⟨h₂, hflushed⟩ ↦ ?_
  · refine Keeps.wrapError _ (keeps_invoke (c := .flush) nofun h₁.sound fun _ _ ↦ ?_)
    exact ⟨h₁.other (Or.inl rfl), List.getLast?_concat⟩
  · refine Keeps.wrapError _ (keeps_invoke (c := .commitMessages opened) nofun h₂.sound
      fun _ _ ↦ ?_)
    exact h₂.commit hsize hflushed

/-! ## The loop -/

/-- **The turns of the loop**, from an open batch of which nothing has been written. -/
theorem keeps_loop (batchWait : ℤ) (turns : ℕ) (deadline : Option ℤ)
    (h : Progress batchSize opened [] w.log) (hsize : (opened.length : ℤ) ≤ batchSize) :
    Keeps batchSize (fun _ ↦ Sound batchSize)
      (loop batchSize batchWait turns opened deadline) w := by
  induction turns generalizing opened deadline w with
  | zero => exact Ensures.done h.sound
  | succ turns ih =>
    have hflush {w' : LoopWorld} (h' : Progress batchSize opened [] w'.log) :
        Keeps batchSize (fun _ ↦ Sound batchSize)
          ((flushBatch opened).bind fun _ ↦ loop batchSize batchWait turns [] none) w' :=
      Ensures.bind (keeps_flushBatch h' hsize) fun _ w₁ h₁ ↦
        ih none h₁ ((Int.natCast_nonneg _).trans hsize)
    rw [loop]
    by_cases hfull : batchSize ≤ opened.length
    · rw [if_pos hfull]
      exact hflush h
    rw [if_neg hfull]
    -- the turn fetches: a message, an error, or a crash in between
    have hfetched : Progress batchSize (opened ++ [w.inbox w.received]) []
        (w.log ++ [.fetched (w.inbox w.received)]) := h.fetch (not_le.mp hfull)
    have hlength : ((opened ++ [w.inbox w.received]).length : ℤ) ≤ batchSize := by
      rw [List.length_append, List.length_singleton]
      omega
    refine ⟨?_, fun r w' hfault ↦ ?_, fun w' hcrash ↦ ?_⟩
    · -- a message
      change Keeps batchSize (fun _ ↦ Sound batchSize) (if opened = [] then _ else _) _
      split_ifs with hempty
      · refine Ensures.bind (Q := fun _ w' ↦ w'.log = w.log ++ [.fetched (w.inbox w.received)])
          (keeps_invoke (c := .now) nofun hfetched.sound fun _ _ ↦ rfl) fun now w' hw' ↦ ?_
        exact ih _ (by rw [hw']; exact hfetched) hlength
      · exact ih _ hfetched hlength
    · -- an error of the fetch
      cases hfault with
      | fetchMessage _ _ err =>
      refine Ensures.bind (keeps_ctxErr h.sound) fun stopped w₁ h₁ ↦ ?_
      rw [← h₁] at h
      split_ifs
      · exact Ensures.done h.sound
      · refine Ensures.bind (keeps_ctxErr h.sound) fun stopped w₂ h₂ ↦ ?_
        rw [← h₂] at h
        split_ifs
        · exact hflush h
        · exact Ensures.raise h.sound
      · exact Ensures.raise h.sound
    · rw [show w' = w from hcrash]
      exact h.sound

theorem keeps_close (h : Sound batchSize w) :
    Keeps batchSize (fun _ ↦ Sound batchSize) ((invoke .close).tryCatch fun _ ↦ done ()) w := by
  refine Ensures.tryCatch (F := fun _ ↦ Sound batchSize) ?_ fun _ w' h' ↦ Ensures.done h'
  refine keeps_invoke (c := .close) nofun h fun _ _ ↦ ?_
  obtain ⟨opened, part, hprogress⟩ := h
  exact ⟨opened, part, hprogress.other (Or.inr rfl)⟩

theorem keeps_run (turns : ℕ) (batchSize batchWait : ℤ) (h : w.log = []) :
    Keeps batchSize (fun _ ↦ Sound batchSize) (run turns batchSize batchWait) w := by
  have hprogress : Progress batchSize [] [] w.log := by
    rw [h]
    exact progress_nil
  rw [run]
  split_ifs with hsize
  · exact Ensures.raise hprogress.sound
  · exact Ensures.raise hprogress.sound
  · refine Ensures.bind (Q := fun _ ↦ Sound batchSize) ?_ fun returned w₁ h₁ ↦ ?_
    · refine Ensures.tryCatch (F := fun _ ↦ Sound batchSize)
        (keeps_loop batchWait turns none hprogress (not_le.mp hsize).le) fun err w₁ h₁ ↦ ?_
      exact Ensures.bind (keeps_close h₁) fun _ w₂ h₂ ↦ Ensures.raise h₂
    · refine Ensures.bind (Q := fun _ ↦ Sound batchSize)
        (Ensures.runIf (fun _ ↦ keeps_close h₁) fun _ ↦ h₁) fun _ w₂ h₂ ↦ Ensures.done h₂

end

/-- **Archive commits form a prefix**, at every moment of every execution of `Run`: between any two
calls, and when it returns. -/
theorem run_commitsPrefix (turns : ℕ) (batchSize batchWait : ℤ) {w : LoopWorld} (h : w.log = [])
    {out : Outcome GoError Bool LoopWorld}
    (hrun : Exec LoopCall.machine (run turns batchSize batchWait) w out) :
    CommitsPrefix batchSize out.state.log := by
  have hsound : Sound batchSize out.state :=
    Ensures.state (keeps_run turns batchSize batchWait h) hrun
  exact hsound.commitsPrefix

/-- Two messages in each batch, for seven turns. -/
theorem run_commitsPrefix_twoBatches :
    let w : LoopWorld := { inbox := fun n ↦ ⟨n, []⟩, clock := fun _ ↦ 0 }
    CommitsPrefix 2 ((run 7 2 1).eval LoopCall.machine w).2.log := by
  intro w
  have hcommits := run_commitsPrefix 7 2 1 rfl (exec_eval LoopCall.machine (run 7 2 1) w)
  simpa only [Outcome.state] using hcommits

end GtfsStream.Archive.ConsumeLoop
