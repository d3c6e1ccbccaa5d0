import GtfsStream.Archive.WriterSpec
import GtfsStream.Library.Placement

/-!
# What finalization keeps

`gzipFile` takes a `.gz` as proof that the plain file beside it is redundant. That is so after a
crash between its rename and its removal, and it is not so when the clock has come back to an hour
that was compressed: the hour then has lines in a new plain file, and leaving it again drops them.
So all lines are kept exactly if no hour is left twice, which `timesLeft` counts.

## Counting departures

An hour is left when a line of another hour is written. The run is described by its hours in order,
and the ledger after it by how often each of them was left: an hour that was left has a compressed
file, and the hour that is open has a plain file with lines in it. So leaving an hour for the second
time finds both files, and the plain one is dropped. From then on the line is nowhere, since no call
brings bytes back.
-/

namespace GtfsStream.Archive

open Program Syscall

/-! ## Hours and lines of a run -/

/-- How often a write in the hour `k` is followed by one in another hour. -/
def timesLeft (k : HourKey) : List HourKey → ℕ
  | a :: b :: t => (if a = k ∧ b ≠ k then 1 else 0) + timesLeft k (b :: t)
  | _ => 0

theorem timesLeft_concat (k b : HourKey) (hs : List HourKey) :
    timesLeft k (hs ++ [b]) =
      timesLeft k hs + if hs.getLast? = some k ∧ b ≠ k then 1 else 0 := by
  induction hs with
  | nil => simp [timesLeft]
  | cons a t ih =>
    cases t with
    | nil => simp [timesLeft]
    | cons c t =>
      rw [List.cons_append, List.cons_append, timesLeft, ← List.cons_append, ih, timesLeft,
        List.getLast?_cons_cons, Nat.add_assoc]

theorem mem_of_timesLeft_pos {k : HourKey} {hs : List HourKey} (h : 0 < timesLeft k hs) :
    k ∈ hs := by
  induction hs using List.reverseRecOn with
  | nil => simp [timesLeft] at h
  | append_singleton hs b ih =>
    rw [timesLeft_concat] at h
    by_cases hk : hs.getLast? = some k
    · exact List.mem_append_left _ (List.mem_of_getLast? hk)
    · rw [if_neg fun hx ↦ hk hx.1] at h
      exact List.mem_append_left _ (ih h)

namespace Ledger

/-- The bytes that the hours of `s` hold. -/
def size (s : Finset HourKey) (l : Ledger) : ℕ :=
  ∑ j ∈ s, ((l.content ⟨j, .ndjson⟩).length + (l.content ⟨j, .gz⟩).length)

/-! ## Contents after a rotation -/

section

variable {l : Ledger} {k : HourKey}

/-- Only the open hour has a plain file. -/
def OnlyOpen (l : Ledger) : Prop := ∀ j, l.cur ≠ some j → l.plain j = none

/-- After a rotation the new hour is open and empty, and no compressed file has changed but that of
the hour that was left. -/
theorem rotate_spec (h : l.OnlyOpen) (hk : l.cur ≠ some k) :
    (l.rotate k).plain k = some ([], 0) ∧ (l.rotate k).OnlyOpen ∧
      ∀ j, (l.rotate k).gz j = if l.cur = some j then l.finalGz j else l.gz j := by
  rw [rotate_of_ne _ _ hk]
  refine ⟨?_, fun j hj ↦ ?_, fun j ↦ ?_⟩
  · rw [finalize_plain_self, openHour_plain_self, h k hk]
    rfl
  · refine finalize_plain_of_ne _ _ ?_
    rintro rfl
    exact hj rfl
  · by_cases hj : j = k
    · subst hj
      rw [finalize_gz_self, if_neg hk, openHour_gz]
    · rw [finalize_gz_of_ne _ _ hj, finalGz, openHour_gz, openHour_plain_of_ne _ _ hj]
      split
      · rfl
      · rw [h j ‹_›, Option.map_none, Option.or_none]

theorem content_rotate (h : l.OnlyOpen) (hk : l.cur ≠ some k) (p : Path) :
    (l.rotate k).content p = match p.ext with
      | .ndjson => []
      | .gz => if l.cur = some p.hour ∧ l.gz p.hour = none then l.content ⟨p.hour, .ndjson⟩
          else l.content p
      | .tmp => [] := by
  obtain ⟨hplain, honly, hgz⟩ := rotate_spec h hk
  obtain ⟨j, e⟩ := p
  cases e with
  | ndjson =>
    by_cases hj : j = k
    · subst hj
      simp [content, hplain]
    · have hnone : (l.rotate k).plain j = none :=
        honly j fun hcur ↦ hj (Option.some_injective _ ((l.rotate_cur k).symm.trans hcur)).symm
      simp [content, hnone]
  | gz =>
    by_cases hcur : l.cur = some j
    · cases hgzj : l.gz j with
      | none =>
        simp only [content, hgz, hcur, finalGz, hgzj, Option.none_or, if_true, and_self]
        cases l.plain j <;> rfl
      | some f => simp [content, hgz, hcur, finalGz, hgzj]
    · simp [content, hgz, hcur]
  | tmp => rfl

end

/-! ## The invariant -/

/-- What is so after any events in a directory that was empty. -/
structure Reached (es : List Event) (l : Ledger) : Prop where
  cur : l.cur = (hoursOf es).getLast?
  only : l.OnlyOpen
  gz : ∀ j, l.gz j ≠ none ↔ 0 < timesLeft j (hoursOf es)
  current : ∀ k, l.cur = some k → ∃ f, l.plain k = some f ∧ f.1 ≠ []
  seen : ∀ p, l.content p ≠ [] → p.hour ∈ hoursOf es

theorem reached_empty : empty.Reached [] :=
  ⟨rfl, fun _ _ ↦ rfl, fun _ ↦ by simp [empty, hoursOf, timesLeft], fun _ h ↦ absurd h nofun,
    fun p h ↦ absurd rfl (by obtain ⟨j, e⟩ := p; cases e <;> exact h)⟩

theorem Reached.timesLeft_write {es : List Event} {l : Ledger} (h : l.Reached es) (k j : HourKey)
    (v : Bytes) : timesLeft j (hoursOf (es ++ [.write k v])) =
      timesLeft j (hoursOf es) + if l.cur = some j ∧ k ≠ j then 1 else 0 := by
  rw [hoursOf_write, timesLeft_concat, h.cur]

theorem Reached.flush {es : List Event} {l : Ledger} (h : l.Reached es) :
    l.flush.Reached (es ++ [.flush]) := by
  refine ⟨?_, fun j hj ↦ ?_, ?_, fun k hk ↦ ?_, fun p hp ↦ ?_⟩
  · rw [flush_cur, hoursOf_flush, h.cur]
  · rw [flush_cur] at hj
    rcases hcur : l.cur with _ | i
    · rw [Ledger.flush, hcur]
      exact h.only j hj
    · have hji : j ≠ i := by
        rintro rfl
        exact hj hcur
      rw [flush_of_cur _ _ hcur, setPlain_plain_of_ne _ _ _ hji]
      exact h.only j hj
  · rw [flush_gz, hoursOf_flush]
    exact h.gz
  · rw [flush_cur] at hk
    obtain ⟨f, hf, hne⟩ := h.current k hk
    refine ⟨(f.1, f.1.length), ?_, hne⟩
    rw [flush_of_cur _ _ hk, setPlain_plain_self, hf]
    rfl
  · rw [content_flush] at hp
    rw [hoursOf_flush]
    exact h.seen p hp

theorem Reached.rotate {es : List Event} {l : Ledger} (h : l.Reached es) (k : HourKey)
    (v : Bytes) : (∃ f, (l.rotate k).plain k = some f) ∧ (l.rotate k).OnlyOpen ∧
      (∀ j, (l.rotate k).gz j ≠ none ↔ 0 < timesLeft j (hoursOf (es ++ [.write k v]))) ∧
      ∀ p, (l.rotate k).content p ≠ [] → p.hour ∈ hoursOf es := by
  by_cases hk : l.cur = some k
  · obtain ⟨f, hf, -⟩ := h.current k hk
    rw [rotate_of_cur _ _ hk]
    refine ⟨⟨f, hf⟩, h.only, fun j ↦ ?_, h.seen⟩
    rw [h.gz, h.timesLeft_write, if_neg, Nat.add_zero]
    rintro ⟨hj, hne⟩
    exact hne (Option.some_injective _ (hk.symm.trans hj))
  · obtain ⟨hplain, honly, hgz⟩ := rotate_spec h.only hk
    refine ⟨⟨_, hplain⟩, honly, fun j ↦ ?_, fun p hp ↦ ?_⟩
    · rw [hgz, h.timesLeft_write]
      by_cases hj : l.cur = some j
      · obtain ⟨f, hf, -⟩ := h.current j hj
        have hkj : k ≠ j := by
          rintro rfl
          exact hk hj
        rw [if_pos hj, if_pos ⟨hj, hkj⟩, finalGz, hf]
        simp
      · rw [if_neg hj, if_neg fun hx ↦ hj hx.1, Nat.add_zero]
        exact h.gz j
    · rw [content_rotate h.only hk] at hp
      obtain ⟨j, e⟩ := p
      cases e with
      | ndjson => exact absurd rfl hp
      | gz =>
        dsimp only at hp ⊢
        split at hp
        · exact h.seen _ hp
        · exact h.seen _ hp
      | tmp => exact absurd rfl hp

theorem Reached.write {es : List Event} {l : Ledger} (h : l.Reached es) (k : HourKey)
    (v : Bytes) : (l.write k v).Reached (es ++ [.write k v]) := by
  obtain ⟨⟨f, hf⟩, honly, hgz, hseen⟩ := h.rotate k v
  refine ⟨by simp, fun j hj ↦ ?_, hgz, fun j hj ↦ ?_, fun p hp ↦ ?_⟩
  · have hjk : j ≠ k := by
      rintro rfl
      exact hj (l.write_cur j v)
    rw [Ledger.write, append_plain_of_ne _ _ _ hjk]
    refine honly j fun hcur ↦ hjk ?_
    exact (Option.some_injective _ ((l.rotate_cur k).symm.trans hcur)).symm
  · obtain rfl : k = j := Option.some_injective _ ((l.write_cur k v).symm.trans hj)
    exact ⟨_, by rw [Ledger.write, append_plain_self, hf, Option.map_some], by simp⟩
  · rw [hoursOf_write, List.mem_append, List.mem_singleton]
    by_cases hpk : p = ⟨k, .ndjson⟩
    · exact Or.inr (congrArg Path.hour hpk)
    · rw [Ledger.write, content_append_of_ne _ _ hpk] at hp
      exact Or.inl (hseen p hp)

theorem reached_run (es : List Event) : (empty.run es).Reached es := by
  induction es using List.reverseRecOn with
  | nil => exact reached_empty
  | append_singleton es e ih =>
    rw [run_concat]
    cases e with
    | write k v => exact ih.write k v
    | flush => exact ih.flush

/-! ## No hour left twice -/

/-- **All lines are kept** as long as no hour was left twice. -/
theorem placement_run {es : List Event} (h : ∀ k, timesLeft k (hoursOf es) ≤ 1) :
    Placement newline (empty.run es).content (linesOf es) := by
  induction es using List.reverseRecOn with
  | nil => exact Placement.nil _
  | append_singleton es e ih =>
    have hreached := reached_run es
    rw [run_concat]
    generalize empty.run es = l at *
    cases e with
    | flush =>
      rw [hoursOf_flush] at h
      rw [apply, linesOf_flush, funext (content_flush l)]
      exact ih h
    | write k v =>
      have hleft (j : HourKey) : timesLeft j (hoursOf es) +
          (if l.cur = some j ∧ k ≠ j then 1 else 0) ≤ 1 := by
        rw [← hreached.timesLeft_write k j v]
        exact h j
      have hplaced := ih fun j ↦ (Nat.le_add_right _ _).trans (hleft j)
      obtain ⟨⟨f, hf⟩, -⟩ := hreached.rotate k v
      rw [apply, linesOf_write, Ledger.write]
      suffices hrotated : Placement newline (l.rotate k).content (linesOf es) from
        hrotated.append (content_append_self _ _ hf _) fun p hp ↦ content_append_of_ne _ _ hp _
      by_cases hk : l.cur = some k
      · rwa [rotate_of_cur _ _ hk]
      · -- the lines of the hour that is left move to its new compressed file
        have hfresh (j : HourKey) (hj : l.cur = some j) : l.gz j = none := by
          by_contra hgz
          have hpos := (hreached.gz j).mp hgz
          have hle := hleft j
          rw [if_pos ⟨hj, fun hkj ↦ hk (hkj ▸ hj)⟩] at hle
          omega
        have hnil (j : HourKey) (hj : l.cur = some j) : l.content ⟨j, .gz⟩ = [] := by
          simp [content, hfresh j hj]
        have hplain (p : Path) (hp : l.content p ≠ []) (he : p.ext = .ndjson) :
            l.cur = some p.hour := by
          by_contra hcur
          refine hp ?_
          rw [content, he, hreached.only _ hcur]
          rfl
        refine hplaced.mapIndex (fun p ↦ if p.ext = .ndjson then ⟨p.hour, .gz⟩ else p) ?_ ?_
        · rintro ⟨i, e⟩ ⟨j, e'⟩ hi hj hij
          by_cases he : e = .ndjson
          · by_cases he' : e' = .ndjson
            · subst he he'
              simpa using hij
            · rw [if_pos he, if_neg he'] at hij
              exact absurd (hij ▸ hnil i (hplain _ hi he)) hj
          · by_cases he' : e' = .ndjson
            · rw [if_neg he, if_pos he'] at hij
              exact absurd (hij.symm ▸ hnil j (hplain _ hj he')) hi
            · rwa [if_neg he, if_neg he'] at hij
        · intro p hp
          rw [content_rotate hreached.only hk]
          obtain ⟨j, e⟩ := p
          cases e with
          | ndjson =>
            have hcur : l.cur = some j := hplain _ hp rfl
            simp only [if_true, hcur, hfresh j hcur, and_self]
          | gz =>
            have hcur : l.cur ≠ some j := fun hcur ↦ hp (hnil j hcur)
            simp only [reduceCtorEq, if_false, hcur, false_and]
          | tmp => exact absurd rfl hp

/-! ## An hour left twice -/

/-- A rotation brings no bytes, and drops some when the hour that is left was compressed before. -/
theorem size_rotate {l : Ledger} {k : HourKey} (h : l.OnlyOpen) (hk : l.cur ≠ some k)
    (s : Finset HourKey) : (l.rotate k).size s ≤ l.size s ∧
      ∀ a ∈ s, l.cur = some a → l.gz a ≠ none → l.content ⟨a, .ndjson⟩ ≠ [] →
        (l.rotate k).size s < l.size s := by
  have hle (j : HourKey) : ((l.rotate k).content ⟨j, .ndjson⟩).length +
      ((l.rotate k).content ⟨j, .gz⟩).length ≤
        (l.content ⟨j, .ndjson⟩).length + (l.content ⟨j, .gz⟩).length := by
    rw [content_rotate h hk, content_rotate h hk]
    dsimp only
    split <;> simp
  refine ⟨Finset.sum_le_sum fun j _ ↦ hle j, fun a ha hcur hgz hne ↦ ?_⟩
  refine Finset.sum_lt_sum (fun j _ ↦ hle j) ⟨a, ha, ?_⟩
  have hpos := List.length_pos_of_ne_nil hne
  rw [content_rotate h hk, content_rotate h hk]
  simp only [hgz, and_false, if_false, List.length_nil]
  omega

theorem size_append {l : Ledger} {k : HourKey} {f : Bytes × ℕ} (h : l.plain k = some f)
    (b : Bytes) (s : Finset HourKey) : (l.append k b).size s ≤ l.size s + b.length := by
  have heq (j : HourKey) : ((l.append k b).content ⟨j, .ndjson⟩).length +
      ((l.append k b).content ⟨j, .gz⟩).length = ((l.content ⟨j, .ndjson⟩).length +
        (l.content ⟨j, .gz⟩).length) + if k = j then b.length else 0 := by
    rw [content_append_of_ne l k (p := ⟨j, .gz⟩) (by simp)]
    by_cases hj : k = j
    · subst hj
      rw [content_append_self l k h, if_pos rfl, List.length_append]
      omega
    · rw [content_append_of_ne l k (by simpa using Ne.symm hj), if_neg hj, Nat.add_zero]
  rw [size, Finset.sum_congr rfl fun j _ ↦ heq j, Finset.sum_add_distrib, Finset.sum_ite_eq]
  refine Nat.add_le_add_left ?_ _
  split <;> omega

/-- The files hold no more than what was written, and less once an hour was left twice. -/
theorem size_run (s : Finset HourKey) (es : List Event) :
    (empty.run es).size s ≤ (frames newline (linesOf es)).length ∧
      ∀ a ∈ s, 2 ≤ timesLeft a (hoursOf es) →
        (empty.run es).size s < (frames newline (linesOf es)).length := by
  induction es using List.reverseRecOn with
  | nil =>
    refine ⟨?_, fun a _ h ↦ absurd h (by simp [hoursOf, timesLeft])⟩
    exact (Finset.sum_eq_zero fun j _ ↦ rfl).le
  | append_singleton es e ih =>
    have hreached := reached_run es
    rw [run_concat]
    generalize empty.run es = l at *
    obtain ⟨hle, hlt⟩ := ih
    cases e with
    | flush =>
      rw [hoursOf_flush, linesOf_flush, apply, size, funext (content_flush l)]
      exact ⟨hle, hlt⟩
    | write k v =>
      obtain ⟨⟨f, hf⟩, -⟩ := hreached.rotate k v
      have happend := size_append hf (v ++ [newline]) s
      have htotal : (frames newline (linesOf (es ++ [.write k v]))).length =
          (frames newline (linesOf es)).length + (v ++ [newline]).length := by simp
      rw [htotal]
      change (l.write k v).size s ≤ _ at happend
      by_cases hk : l.cur = some k
      · rw [rotate_of_cur _ _ hk] at happend
        refine ⟨by rw [apply]; omega, fun a ha hleft ↦ ?_⟩
        rw [hreached.timesLeft_write, if_neg, Nat.add_zero] at hleft
        · have := hlt a ha hleft
          rw [apply]
          omega
        · rintro ⟨hcur, hne⟩
          exact hne (Option.some_injective _ (hk.symm.trans hcur))
      · obtain ⟨hrotate, hdrop⟩ := size_rotate hreached.only hk s
        refine ⟨by rw [apply]; omega, fun a ha hleft ↦ ?_⟩
        rw [hreached.timesLeft_write] at hleft
        by_cases htwice : 2 ≤ timesLeft a (hoursOf es)
        · have := hlt a ha htwice
          rw [apply]
          omega
        · -- the second time: there is a compressed file already, and lines beside it
          have hcur : l.cur = some a := by
            by_contra hcur
            rw [if_neg fun hx ↦ hcur hx.1] at hleft
            omega
          have hpos : 0 < timesLeft a (hoursOf es) := by
            split at hleft <;> omega
          obtain ⟨g, hg, hne⟩ := hreached.current a hcur
          have := hdrop a ha hcur ((hreached.gz a).mpr hpos) (by simpa [content, hg] using hne)
          rw [apply]
          omega

/-- The archive files of the hours of `s`. -/
def filesOf (s : Finset HourKey) : Finset Path :=
  (s ×ˢ {Ext.ndjson, Ext.gz}).image fun x ↦ ⟨x.1, x.2⟩

theorem sum_filesOf (s : Finset HourKey) (l : Ledger) :
    ∑ p ∈ filesOf s, (l.content p).length = l.size s := by
  rw [filesOf, Finset.sum_image, Finset.sum_product, size]
  · exact Finset.sum_congr rfl fun j _ ↦ Finset.sum_pair (by decide)
  · rintro ⟨i, e⟩ _ ⟨j, e'⟩ _ h
    simpa using h

/-- **A line is lost** once an hour was left twice. -/
theorem not_placement_run {es : List Event} {a : HourKey} (h : 2 ≤ timesLeft a (hoursOf es)) :
    ¬Placement newline (empty.run es).content (linesOf es) := by
  intro hplaced
  have ha : a ∈ (hoursOf es).toFinset :=
    List.mem_toFinset.mpr (mem_of_timesLeft_pos (by omega))
  have hfits := hplaced.length_le (s := filesOf (hoursOf es).toFinset) fun p hp ↦ by
    have hseen := (reached_run es).seen p hp
    obtain ⟨j, e⟩ := p
    refine Finset.mem_image.mpr ⟨(j, e), Finset.mem_product.mpr ⟨List.mem_toFinset.mpr hseen, ?_⟩,
      rfl⟩
    cases e with
    | ndjson => simp
    | gz => simp
    | tmp => exact absurd rfl hp
  rw [sum_filesOf] at hfits
  exact absurd ((size_run _ es).2 a ha h) (not_lt.mpr hfits)

end Ledger

/-! ## The exact condition -/

/-- Start in an empty directory and make the calls. -/
def session (calls : List Call) : ArchiveIO Unit := do
  newArchiveWriter
  forEach Call.run calls

/-- The world after the session, with these clock readings and nothing failing. -/
def sessionEnd (calls : List Call) (clock : ℕ → ℤ) : World :=
  ((session calls).eval (machine False) (World.fresh clock)).2

/-- The session ends without an error, and the ledger has followed its calls. -/
theorem session_eval (calls : List Call) (clock : ℕ → ℤ) :
    (session calls).eval (machine False) (World.fresh clock) =
      (.ok (), sessionEnd calls clock) ∧
      (sessionEnd calls clock).ledger = Ledger.empty.run (stamp clock 1 calls) := by
  obtain ⟨w, heval, hclock, hticks, -, hready, hledger⟩ := start_fresh clock
  have hcalls : Runs False w.commits (fun _ ↦ w.After False (calls.map id))
      (forEach Call.run calls) w := by
    refine runs_calls id (fun c w' hL hr ↦ ?_) rfl hready calls
    cases c with
    | write v => exact runs_call_write hL hr v
    | flush => exact runs_call_flush hL hr
  obtain ⟨_, w', heval', hafter⟩ := hcalls.eval
  have hsession : (session calls).eval (machine False) (World.fresh clock) = (.ok (), w') :=
    (eval_bind_ok _ heval _).trans heval'
  have hend : sessionEnd calls clock = w' := by rw [sessionEnd, hsession]
  rw [hend]
  refine ⟨hsession, ?_⟩
  rw [hafter.ledger.eq not_false, hledger, hclock, hticks, List.map_id]

/-- Every line written in the session is still in an archive file, in a place of its own. -/
def LinesKept (calls : List Call) (clock : ℕ → ℤ) : Prop :=
  Placement newline (sessionEnd calls clock).ledger.content
    (Ledger.linesOf (stamp clock 1 calls))

/-- **No line is dropped** in a session without failures exactly if the clock readings of the
writes leave no hour twice. -/
theorem linesKept_iff (calls : List Call) (clock : ℕ → ℤ) :
    LinesKept calls clock ↔ ∀ k, timesLeft k (Ledger.hoursOf (stamp clock 1 calls)) ≤ 1 := by
  rw [LinesKept, (session_eval calls clock).2]
  refine ⟨fun h k ↦ ?_, Ledger.placement_run⟩
  by_contra hk
  exact Ledger.not_placement_run (a := k) (by omega) h

/-- The clock passes an hour boundary, steps back over it and passes it again. -/
theorem not_linesKept_of_step_back :
    ¬LinesKept [.write [97], .write [98], .write [99], .write [100]]
      (fun t ↦ if t = 2 ∨ t = 4 then 3600000000000 else 3599000000000) := by
  rw [LinesKept, (session_eval _ _).2]
  exact Ledger.not_placement_run (a := 0) (by decide)

end GtfsStream.Archive
