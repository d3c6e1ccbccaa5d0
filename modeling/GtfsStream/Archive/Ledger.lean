import GtfsStream.Archive.System

/-!
# The archive as a ledger of hours

What the archive consumer is for, without calls, buffers and paths: for each hour it keeps a plain
file, a compressed one, or both, and one hour is open. `Ledger.write` appends a line to the file of
its hour, after a rotation if another hour was open, and `Ledger.flush` makes the open file
durable. The writer's methods are shown to carry these operations out, so that what follows about
sequences of writes can be read off the ledger.

The ledger keeps the oddity of the code that everything turns on: an hour that is left is
compressed, unless a compressed file of that hour exists, and then its plain file is just dropped.
-/

namespace GtfsStream.Archive

@[ext] structure Ledger where
  /-- The hour whose file is open. -/
  cur : Option HourKey
  /-- The plain file of an hour: its bytes, and how many of them are durable. -/
  plain : HourKey → Option (Bytes × ℕ)
  gz : HourKey → Option File

/-- What `gzip` makes of a plain file. -/
def gzipped (b : Bytes) : File := { bytes := b, complete := true }

namespace Ledger

/-- The compressed file of an hour after its finalization: the one that was there, else the plain
file's. -/
def finalGz (l : Ledger) (j : HourKey) : Option File :=
  (l.gz j).or ((l.plain j).map fun f ↦ gzipped f.1)

/-- Compress every hour but `k`. -/
def finalize (l : Ledger) (k : HourKey) : Ledger where
  cur := l.cur
  plain j := if j = k then l.plain j else none
  gz j := if j = k then l.gz j else l.finalGz j

def setPlain (l : Ledger) (k : HourKey) (f : Option (Bytes × ℕ)) : Ledger :=
  { l with plain := Function.update l.plain k f }

/-- Open the plain file of the hour `k`, a new one if there is none. -/
def openHour (l : Ledger) (k : HourKey) : Ledger :=
  { l.setPlain k (some ((l.plain k).getD ([], 0))) with cur := some k }

def rotate (l : Ledger) (k : HourKey) : Ledger :=
  if l.cur = some k then l else (l.openHour k).finalize k

def append (l : Ledger) (k : HourKey) (b : Bytes) : Ledger :=
  l.setPlain k ((l.plain k).map fun f ↦ (f.1 ++ b, f.2))

/-- Append `v` as a line to the file of the hour `k`. -/
def write (l : Ledger) (k : HourKey) (v : Bytes) : Ledger :=
  (l.rotate k).append k (v ++ [newline])

/-- Make the open file durable. -/
def flush (l : Ledger) : Ledger :=
  match l.cur with
  | none => l
  | some k => l.setPlain k ((l.plain k).map fun f ↦ (f.1, f.1.length))

/-- Close the open file. -/
def close (l : Ledger) : Ledger := { l with cur := none }

/-- The ledger of an empty directory. -/
def empty : Ledger := ⟨none, fun _ ↦ none, fun _ ↦ none⟩

/-! ## Reading the operations -/

section

variable (l : Ledger) (k : HourKey) (b : Bytes) (f : Option (Bytes × ℕ))

@[simp] theorem setPlain_cur : (l.setPlain k f).cur = l.cur := rfl

@[simp] theorem setPlain_gz : (l.setPlain k f).gz = l.gz := rfl

@[simp] theorem setPlain_plain_self : (l.setPlain k f).plain k = f := Function.update_self ..

theorem setPlain_plain_of_ne {j : HourKey} (h : j ≠ k) : (l.setPlain k f).plain j = l.plain j :=
  Function.update_of_ne h ..

@[simp] theorem setPlain_self : l.setPlain k (l.plain k) = l := by
  rw [setPlain, Function.update_eq_self]

@[simp] theorem setPlain_setPlain (g : Option (Bytes × ℕ)) :
    (l.setPlain k f).setPlain k g = l.setPlain k g := by
  rw [setPlain, setPlain, setPlain, Function.update_idem]

@[simp] theorem finalize_cur : (l.finalize k).cur = l.cur := rfl

@[simp] theorem finalize_plain_self : (l.finalize k).plain k = l.plain k := if_pos rfl

@[simp] theorem finalize_gz_self : (l.finalize k).gz k = l.gz k := if_pos rfl

theorem finalize_plain_of_ne {j : HourKey} (h : j ≠ k) : (l.finalize k).plain j = none := if_neg h

theorem finalize_gz_of_ne {j : HourKey} (h : j ≠ k) : (l.finalize k).gz j = l.finalGz j :=
  if_neg h

@[simp] theorem openHour_cur : (l.openHour k).cur = some k := rfl

@[simp] theorem openHour_gz : (l.openHour k).gz = l.gz := rfl

@[simp] theorem openHour_plain_self :
    (l.openHour k).plain k = some ((l.plain k).getD ([], 0)) := Function.update_self ..

theorem openHour_plain_of_ne {j : HourKey} (h : j ≠ k) : (l.openHour k).plain j = l.plain j :=
  Function.update_of_ne h ..

@[simp] theorem append_cur : (l.append k b).cur = l.cur := rfl

@[simp] theorem append_gz : (l.append k b).gz = l.gz := rfl

@[simp] theorem append_plain_self :
    (l.append k b).plain k = (l.plain k).map fun f ↦ (f.1 ++ b, f.2) := Function.update_self ..

theorem append_plain_of_ne {j : HourKey} (h : j ≠ k) : (l.append k b).plain j = l.plain j :=
  Function.update_of_ne h ..

theorem append_append (c : Bytes) : (l.append k b).append k c = l.append k (b ++ c) := by
  rw [append, append_plain_self, append, setPlain_setPlain, append, Option.map_map]
  congr 2
  funext f
  simp

theorem openHour_close : l.close.openHour k = l.openHour k := rfl

theorem close_of_cur_eq_none (h : l.cur = none) : l.close = l := by
  rw [close, ← h]

theorem rotate_of_cur (h : l.cur = some k) : l.rotate k = l := if_pos h

theorem rotate_of_ne (h : l.cur ≠ some k) : l.rotate k = (l.openHour k).finalize k := if_neg h

@[simp] theorem rotate_cur : (l.rotate k).cur = some k := by
  rw [rotate]
  split
  · assumption
  · rfl

@[simp] theorem write_cur (v : Bytes) : (l.write k v).cur = some k := l.rotate_cur k

theorem flush_of_cur (h : l.cur = some k) :
    l.flush = l.setPlain k ((l.plain k).map fun f ↦ (f.1, f.1.length)) := by
  rw [flush, h]

@[simp] theorem flush_cur : l.flush.cur = l.cur := by
  rw [flush]
  split <;> rfl

@[simp] theorem flush_gz : l.flush.gz = l.gz := by
  rw [flush]
  split <;> rfl

end

/-! ## Sequences of writes and flushes -/

/-- A call of `Write` in a given hour, or of `Flush`. -/
inductive Event
  | write (k : HourKey) (v : Bytes)
  | flush

/-- The event belongs to no hour but `k`. -/
def Event.On (k : HourKey) : Event → Prop
  | write j _ => j = k
  | flush => True

def apply (l : Ledger) : Event → Ledger
  | .write k v => l.write k v
  | .flush => l.flush

def run (l : Ledger) (es : List Event) : Ledger := es.foldl apply l

@[simp] theorem run_nil (l : Ledger) : l.run [] = l := rfl

theorem run_append (l : Ledger) (es fs : List Event) : l.run (es ++ fs) = (l.run es).run fs :=
  List.foldl_append

theorem run_concat (l : Ledger) (es : List Event) (e : Event) :
    l.run (es ++ [e]) = (l.run es).apply e := by
  rw [run_append]
  rfl

/-- The hour and the line of a write. -/
def Event.line? : Event → Option (HourKey × Bytes)
  | .write k v => some (k, v)
  | .flush => none

def hoursOf (es : List Event) : List HourKey := (es.filterMap Event.line?).map Prod.fst

def linesOf (es : List Event) : List Bytes := (es.filterMap Event.line?).map Prod.snd

@[simp] theorem hoursOf_write (es : List Event) (k : HourKey) (v : Bytes) :
    hoursOf (es ++ [.write k v]) = hoursOf es ++ [k] := by
  simp [hoursOf, Event.line?]

@[simp] theorem hoursOf_flush (es : List Event) : hoursOf (es ++ [.flush]) = hoursOf es := by
  simp [hoursOf, Event.line?]

@[simp] theorem linesOf_write (es : List Event) (k : HourKey) (v : Bytes) :
    linesOf (es ++ [.write k v]) = linesOf es ++ [v] := by
  simp [linesOf, Event.line?]

@[simp] theorem linesOf_flush (es : List Event) : linesOf (es ++ [.flush]) = linesOf es := by
  simp [linesOf, Event.line?]

/-! ## Contents -/

/-- What an archive file holds: a plain one with what is still in the buffer, and a compressed one
if it is complete. -/
def content (l : Ledger) (p : Path) : Bytes :=
  match p.ext with
  | .ndjson => ((l.plain p.hour).map Prod.fst).getD []
  | .gz => (((l.gz p.hour).filter File.complete).map File.bytes).getD []
  | .tmp => []

theorem content_flush (l : Ledger) (p : Path) : l.flush.content p = l.content p := by
  obtain ⟨j, e⟩ := p
  cases e with
  | ndjson =>
    rcases hcur : l.cur with _ | i
    · rw [flush, hcur]
    · rw [flush_of_cur _ _ hcur, content, content]
      by_cases hj : j = i
      · subst hj
        simp only [setPlain_plain_self, Option.map_map]
        rfl
      · simp only [setPlain_plain_of_ne _ _ _ hj]
  | gz => rw [content, content, flush_gz]
  | tmp => rfl

theorem content_append_self (l : Ledger) (k : HourKey) {f : Bytes × ℕ} (h : l.plain k = some f)
    (b : Bytes) :
    (l.append k b).content ⟨k, .ndjson⟩ = l.content ⟨k, .ndjson⟩ ++ b := by
  simp [content, h]

theorem content_append_of_ne (l : Ledger) (k : HourKey) {p : Path} (h : p ≠ ⟨k, .ndjson⟩)
    (b : Bytes) :
    (l.append k b).content p = l.content p := by
  obtain ⟨j, e⟩ := p
  cases e with
  | ndjson =>
    have hj : j ≠ k := by
      rintro rfl
      exact h rfl
    simp only [content, append_plain_of_ne _ _ _ hj]
  | gz => rfl
  | tmp => rfl

theorem content_openHour (l : Ledger) (k : HourKey) (p : Path) :
    (l.openHour k).content p = l.content p := by
  obtain ⟨j, e⟩ := p
  cases e with
  | ndjson =>
    by_cases hj : j = k
    · subst hj
      simp only [content, openHour_plain_self]
      cases l.plain j <;> rfl
    · simp only [content, openHour_plain_of_ne _ _ hj]
  | gz => rfl
  | tmp => rfl

/-! ## Agreement at one hour

Where calls may fail, a method that ended well has still done its work on the hour it is about,
but a finalization may have gone differently in the others. -/

/-- `l'` is `l`, as far as the hour `k` goes at least. -/
structure Agrees (faulty : Prop) (k : HourKey) (l l' : Ledger) : Prop where
  cur : l'.cur = l.cur
  plain : l'.plain k = l.plain k
  eq : ¬faulty → l' = l

namespace Agrees

variable {faulty : Prop} {k : HourKey} {l l' l'' : Ledger}

theorem refl (l : Ledger) : Agrees faulty k l l := ⟨rfl, rfl, fun _ ↦ rfl⟩

theorem of_eq (h : l' = l) : Agrees faulty k l l' := by
  rw [h]
  exact refl l

theorem trans (h : Agrees faulty k l l') (h' : Agrees faulty k l' l'') : Agrees faulty k l l'' :=
  ⟨h'.cur.trans h.cur, h'.plain.trans h.plain, fun hn ↦ (h'.eq hn).trans (h.eq hn)⟩

theorem append (h : Agrees faulty k l l') (b : Bytes) :
    Agrees faulty k (l.append k b) (l'.append k b) :=
  ⟨h.cur, by simp [h.plain], fun hn ↦ by rw [h.eq hn]⟩

theorem rotate (h : Agrees faulty k l l') : Agrees faulty k (l.rotate k) (l'.rotate k) := by
  refine ⟨by simp, ?_, fun hn ↦ by rw [h.eq hn]⟩
  by_cases hk : l.cur = some k
  · rw [rotate_of_cur _ _ hk, rotate_of_cur _ _ (h.cur.trans hk), h.plain]
  · rw [rotate_of_ne _ _ hk, rotate_of_ne _ _ (by rwa [h.cur])]
    simp [h.plain]

theorem write (h : Agrees faulty k l l') (v : Bytes) :
    Agrees faulty k (l.write k v) (l'.write k v) := h.rotate.append _

theorem flush (h : Agrees faulty k l l') : Agrees faulty k l.flush l'.flush := by
  refine ⟨by simp [h.cur], ?_, fun hn ↦ by rw [h.eq hn]⟩
  rcases hcur : l.cur with _ | j
  · rw [Ledger.flush, Ledger.flush, h.cur, hcur]
    exact h.plain
  · rw [flush_of_cur _ _ hcur, flush_of_cur _ _ (h.cur.trans hcur)]
    by_cases hj : k = j
    · subst hj
      simp [h.plain]
    · rw [setPlain_plain_of_ne _ _ _ hj, setPlain_plain_of_ne _ _ _ hj, h.plain]

theorem apply {e : Event} (h : Agrees faulty k l l') (he : e.On k) :
    Agrees faulty k (l.apply e) (l'.apply e) := by
  cases e with
  | write j v =>
    obtain rfl : j = k := he
    exact h.write v
  | flush => exact h.flush

end Agrees

/-- `l'` comes out of the events `es`: exactly where nothing can fail, and at their hour where the
events are all of one hour. -/
structure Follows (faulty : Prop) (l : Ledger) (es : List Event) (l' : Ledger) : Prop where
  eq : ¬faulty → l' = l.run es
  agrees : ∀ k, (∀ e ∈ es, e.On k) → Agrees faulty k (l.run es) l'

theorem Follows.nil {faulty : Prop} (l : Ledger) : Follows faulty l [] l :=
  ⟨fun _ ↦ rfl, fun _ _ ↦ Agrees.refl l⟩

theorem Follows.concat {faulty : Prop} {l l' l'' : Ledger} {es : List Event} {e : Event}
    (h : Follows faulty l es l') (h' : Follows faulty l' [e] l'') :
    Follows faulty l (es ++ [e]) l'' := by
  constructor
  · intro hn
    rw [run_append, ← h.eq hn]
    exact h'.eq hn
  · intro k hk
    rw [run_concat]
    have he : e.On k := hk e (by simp)
    exact ((h.agrees k fun x hx ↦ hk x (List.mem_append_left _ hx)).apply he).trans
      (h'.agrees k (by simpa using he))

end Ledger

end GtfsStream.Archive
