import GtfsStream.Archive.Site
import GtfsStream.Library.RelyGuarantee

/-!
# What the writer does to the hour files

Every call of the writer's programs is a move of the hour files, also where a crash cuts it and
where another process removes compressed files meanwhile, of hours that have no plain file.

The proof carries along that the writer's memory fits the files: the open file is the plain file of
the current hour, no hour from the current one on is compressed yet, and none after it has a file.
This is what keeps a compressed file from being written twice, since only an hour before the current
one is compressed, and the clock does not go back to it.
-/

namespace GtfsStream.Archive

open Program

/-! ## The others -/

/-- What may happen to the site between two calls: time passes, and compressed files of hours
without a plain file disappear. -/
structure Site.Apart (s s' : Site) : Prop where
  writer : s'.writer = s.writer
  files : ∀ p : Path, p.ext ≠ .gz → s'.disk.lookup p = s.disk.lookup p
  gz : ∀ j, s'.hours.gz j = s.hours.gz j ∨ (s.hours.plain j = none ∧ s'.hours.gz j = none)
  time : s.time ≤ s'.time

namespace Site.Apart

theorem plain {s s' : Site} (h : s.Apart s') (j : HourKey) :
    s'.hours.plain j = s.hours.plain j :=
  congrArg (Option.map File.bytes) (h.files ⟨j, .ndjson⟩ nofun)

theorem rely : Rely Site.Apart where
  refl s := ⟨rfl, fun _ _ ↦ rfl, fun _ ↦ Or.inl rfl, le_rfl⟩
  trans s s' s'' h h' := by
    refine ⟨h'.writer.trans h.writer, fun p hp ↦ (h'.files p hp).trans (h.files p hp), fun j ↦ ?_,
      h.time.trans h'.time⟩
    rcases h'.gz j with hj' | ⟨hplain, hj'⟩
    · exact (h.gz j).imp (fun hj ↦ hj'.trans hj) fun hj ↦ ⟨hj.1, hj'.trans hj.2⟩
    · exact Or.inr ⟨(h.plain j).symm.trans hplain, hj'⟩

theorem gz_of_ne_none {s s' : Site} (h : s.Apart s') {j : HourKey}
    (hj : s'.hours.gz j ≠ none) : s.hours.gz j ≠ none := by
  rcases h.gz j with hsame | ⟨-, hnone⟩
  · rwa [← hsame]
  · exact absurd hnone hj

/-- The compressed file of an hour with a plain file is left alone. -/
theorem gz_of_plain {s s' : Site} (h : s.Apart s') {j : HourKey} (hj : s.hours.plain j ≠ none) :
    s'.hours.gz j = s.hours.gz j := by
  rcases h.gz j with hsame | ⟨hnone, -⟩
  · exact hsame
  · exact absurd hnone hj

end Site.Apart

/-- A call of the writer is one move of the hour files. -/
def Site.Moves (s s' : Site) : Prop := s.hours.Move s'.hours

theorem Site.Moves.time {s s' : Site} (h : s.Moves s') : s'.time = s.time := Hours.Move.time h

/-! ## The writer's memory -/

/-- The memory of a writer fits the hour files. -/
structure Hours.Serves (h : Hours) (aw : ArchiveWriter) : Prop where
  file : ∀ p, aw.curFile = some p → p = ⟨aw.curKey, .ndjson⟩ ∧ h.plain aw.curKey ≠ none
  past : ∀ j, h.gz j ≠ none → j < aw.curKey
  known : ∀ j, h.plain j ≠ none → j ≤ aw.curKey
  time : aw.curKey ≤ hourKey h.time

namespace Site

/-- The writer at work. -/
def Tidy (s : Site) : Prop := s.hours.Serves s.writer

/-- The writer at work with the memory `aw`. -/
def At (aw : ArchiveWriter) (s : Site) : Prop := s.writer = aw ∧ s.hours.Serves aw

/-- The writer at work in the hour `k`. -/
def Holds (k : HourKey) (s : Site) : Prop := s.Tidy ∧ s.writer.curKey = k

/-- The writer at work in the hour `k`, whose plain file is there. -/
def InHour (k : HourKey) (s : Site) : Prop := s.Holds k ∧ s.hours.plain k ≠ none

theorem At.tidy {aw : ArchiveWriter} {s : Site} (h : s.At aw) : s.Tidy := by
  rw [Tidy, h.1]
  exact h.2

theorem Tidy.at {s : Site} (h : s.Tidy) : s.At s.writer := ⟨rfl, h⟩

theorem Apart.serves {s s' : Site} (h : s.Apart s') {aw : ArchiveWriter}
    (hs : s.hours.Serves aw) : s'.hours.Serves aw where
  file p hp := ⟨(hs.file p hp).1, (h.plain _).symm ▸ (hs.file p hp).2⟩
  past j hj := hs.past j (h.gz_of_ne_none hj)
  known j hj := hs.known j (h.plain j ▸ hj)
  time := hs.time.trans (hourKey_mono h.time)

theorem stable_at (aw : ArchiveWriter) : Stable Apart (At aw) :=
  fun _ _ h hs ↦ ⟨h.writer.trans hs.1, h.serves hs.2⟩

theorem stable_tidy : Stable Apart Tidy := fun _ _ h hs ↦ (stable_at _ _ _ h hs.at).tidy

theorem stable_holds (k : HourKey) : Stable Apart (Holds k) := fun s s' h hs ↦
  ⟨stable_tidy s s' h hs.1, (congrArg ArchiveWriter.curKey h.writer).trans hs.2⟩

theorem stable_inHour (k : HourKey) : Stable Apart (InHour k) := fun s s' h hs ↦
  ⟨stable_holds k s s' h hs.1, (h.plain k).symm ▸ hs.2⟩

theorem At.holds {aw : ArchiveWriter} {s : Site} (h : s.At aw) : s.Holds aw.curKey :=
  ⟨h.tidy, congrArg ArchiveWriter.curKey h.1⟩

end Site

/-! ## One call -/

/-- Started in `s`, the writer's program makes moves only, and it ends with `Q` or with an error and
the writer at work. -/
def Safe {α : Type} (Q : α → Site → Prop) (p : ArchiveIO α) (s : Site) : Prop :=
  p.Keeps siteMachine Site.Apart Site.Moves Q (fun _ ↦ Site.Tidy) s

section Safe

variable {α β : Type} {s : Site}

theorem Safe.done {Q : α → Site → Prop} {a : α} (hQ : Stable Site.Apart (Q a)) (h : Q a s) :
    Safe Q (Program.done a) s := Keeps.done hQ h

theorem Safe.raise {Q : α → Site → Prop} {e : GoError} (h : s.Tidy) :
    Safe Q (Program.raise e) s := Keeps.raise Site.stable_tidy h

theorem Safe.mono {Q Q' : α → Site → Prop} {p : ArchiveIO α} (h : Safe Q p s)
    (hQ : ∀ a s', Q a s' → Q' a s') : Safe Q' p s := Keeps.mono h hQ fun _ _ he ↦ he

theorem Safe.bind {Q : α → Site → Prop} {T : β → Site → Prop} {p : ArchiveIO α}
    {f : α → ArchiveIO β} (h : Safe Q p s) (hf : ∀ a s', Q a s' → Safe T (f a) s') :
    Safe T (p.bind f) s := Keeps.bind Site.Apart.rely h hf

theorem Safe.errorf {Q : α → Site → Prop} {p : ArchiveIO α} {text : String} {path : Option Path}
    (h : Safe Q p s) : Safe Q (errorf text p path) s :=
  Keeps.tryCatch Site.Apart.rely h fun _ _ he ↦ Safe.raise he

theorem Safe.of_done {Q : α → Site → Prop} {a : α} (h : Safe Q (Program.done a) s) : Q a s :=
  Keeps.of_done Site.Apart.rely h

theorem Safe.of_raise {Q : α → Site → Prop} {e : GoError} (h : Safe Q (Program.raise e) s) :
    s.Tidy := Keeps.of_raise (E := fun _ ↦ Site.Tidy) Site.Apart.rely h

theorem Safe.rely {Q : α → Site → Prop} {p : ArchiveIO α} {s' : Site} (h : Safe Q p s)
    (hs : s.Apart s') : Safe Q p s' := Keeps.rely Site.Apart.rely h hs

theorem Safe.call {Q : α → Site → Prop} {c : Syscall} {k : Except GoError c.Ret → ArchiveIO α}
    (h : Safe Q (Program.call c k) s) :
    s.Moves (s.apply c).2 ∧ Safe Q (k (s.apply c).1) (s.apply c).2 :=
  Keeps.step Site.Apart.rely h

theorem Safe.cut {Q : α → Site → Prop} {c : Syscall} {k : Except GoError c.Ret → ArchiveIO α}
    (h : Safe Q (Program.call c k) s) (n : ℕ) : s.Moves (s.cut c n) :=
  Keeps.crash Site.Apart.rely h ⟨n, rfl⟩

theorem Safe.sys (c : Syscall) {Q : c.Ret → Site → Prop} {I : Site → Prop}
    (hI : Stable Site.Apart I) (h : I s) (hQ : ∀ a, Stable Site.Apart (Q a))
    (happly : ∀ s, I s →
      s.Moves (s.apply c).2 ∧ Known Q (fun _ ↦ Site.Tidy) (s.apply c).1 (s.apply c).2)
    (hcrash : ∀ s n, I s → s.Moves (s.cut c n)) : Safe Q (Archive.sys c) s := by
  refine Keeps.perform hI h hQ (fun _ ↦ Site.stable_tidy) happly (fun _ _ _ _ hfault ↦ ?_) ?_
  · exact hfault.elim
  · rintro s s' hs ⟨n, rfl⟩
    exact hcrash s n hs

/-! ### Calls that leave the hour files alone -/

/-- A call that no reader of the hour files notices, whether or not a crash cuts it. -/
structure Quiet (c : Syscall) (s : Site) : Prop where
  apply : (s.apply c).2.hours = s.hours
  cut : ∀ n, (s.cut c n).hours = s.hours

theorem Site.moves_of_eq {s s' : Site} (h : s'.hours = s.hours) : s.Moves s' := by
  rw [Site.Moves, h]
  exact .stay

theorem Safe.quiet (c : Syscall) {Q : c.Ret → Site → Prop} {I : Site → Prop}
    (hI : Stable Site.Apart I) (h : I s) (hQ : ∀ a, Stable Site.Apart (Q a))
    (hc : ∀ s, I s → Quiet c s)
    (happly : ∀ s, I s → Known Q (fun _ ↦ Site.Tidy) (s.apply c).1 (s.apply c).2) :
    Safe Q (Archive.sys c) s :=
  Safe.sys c hI h hQ (fun s hs ↦ ⟨Site.moves_of_eq (hc s hs).apply, happly s hs⟩)
    fun s n hs ↦ Site.moves_of_eq ((hc s hs).cut n)

/-- A world in which every hour has the same plain bytes and the same compressed file. -/
structure World.SameHours (w w' : World) : Prop where
  plain : ∀ k, (w'.disk.lookup ⟨k, .ndjson⟩).map File.bytes
    = (w.disk.lookup ⟨k, .ndjson⟩).map File.bytes
  gz : ∀ k, w'.disk.lookup ⟨k, .gz⟩ = w.disk.lookup ⟨k, .gz⟩

theorem World.SameHours.of_lookup {w w' : World}
    (h : ∀ p : Path, p.ext ≠ .tmp → w'.disk.lookup p = w.disk.lookup p) : w.SameHours w' :=
  ⟨fun k ↦ congrArg _ (h ⟨k, .ndjson⟩ nofun), fun k ↦ h ⟨k, .gz⟩ nofun⟩

theorem Quiet.of_sameHours {c : Syscall} (happly : s.world.SameHours (c.apply s.world).2)
    (hcut : ∀ n, s.world.SameHours (c.cut s.world n)) (hopens : c.opens = [])
    (hreaches : ∀ k, c.reaches k = []) : Quiet c s := by
  refine ⟨?_, fun n ↦ ?_⟩
  · refine Hours.ext (funext happly.plain) (funext happly.gz) ?_ (funext fun k ↦ ?_) rfl
    · rw [Site.hours, Site.apply, hopens]
      rfl
    · simp only [Site.hours, Site.apply, hreaches, List.append_nil]
  · refine Hours.ext (funext (hcut n).plain) (funext (hcut n).gz) rfl (funext fun k ↦ ?_) rfl
    simp only [Site.hours, Site.cut, hreaches, List.take_nil, List.append_nil]

theorem Quiet.of_disk {c : Syscall} (hdisk : (c.apply s.world).2.disk = s.disk)
    (hcut : ∀ n, (c.cut s.world n).disk = s.disk) (hopens : c.opens = [])
    (hreaches : ∀ k, c.reaches k = []) : Quiet c s :=
  .of_sameHours (.of_lookup fun _ _ ↦ by rw [hdisk]; rfl)
    (fun n ↦ .of_lookup fun _ _ ↦ by rw [hcut]; rfl) hopens hreaches

theorem quiet_now : Quiet .now s := .of_disk rfl (fun _ ↦ rfl) rfl fun _ ↦ rfl

theorem quiet_load : Quiet .load s := .of_disk rfl (fun _ ↦ rfl) rfl fun _ ↦ rfl

theorem quiet_store (aw : ArchiveWriter) : Quiet (.store aw) s :=
  .of_disk rfl (fun _ ↦ rfl) rfl fun _ ↦ rfl

theorem quiet_mkdirAll : Quiet .mkdirAll s := .of_disk rfl (fun _ ↦ rfl) rfl fun _ ↦ rfl

theorem quiet_glob : Quiet .glob s := .of_disk rfl (fun _ ↦ rfl) rfl fun _ ↦ rfl

theorem quiet_close (p : Path) : Quiet (.close p) s := .of_disk rfl (fun _ ↦ rfl) rfl fun _ ↦ rfl

theorem onExisting_world (call : String) (p : Path) (w : World) :
    (Syscall.onExisting call p w w).2 = w := by
  rw [Syscall.onExisting]
  split <;> rfl

theorem quiet_stat (p : Path) : Quiet (.stat p) s :=
  .of_disk (congrArg World.disk (onExisting_world "stat" p s.world)) (fun _ ↦ rfl) rfl fun _ ↦ rfl

theorem quiet_openRead (p : Path) : Quiet (.openRead p) s :=
  .of_disk (congrArg World.disk (onExisting_world "open" p s.world)) (fun _ ↦ rfl) rfl fun _ ↦ rfl

theorem World.lookup_modify_of_ne (w : World) {p q : Path} (g : File → File) (h : q ≠ p) :
    (w.modify p g).disk.lookup q = w.disk.lookup q := by
  rw [World.modify]
  split
  · exact AList.lookup_insert_ne h
  · rfl

theorem World.lookup_modify_self (w : World) (p : Path) (g : File → File) :
    (w.modify p g).disk.lookup p = (w.disk.lookup p).map g := by
  rw [World.modify]
  split
  · next f hf => exact (AList.lookup_insert _).trans (by rw [hf]; rfl)
  · next hf => rw [hf]; rfl

theorem World.appendTo_eq_modify (w : World) (p : Path) (b : Bytes) :
    w.appendTo p b = w.modify p fun f ↦ { f with bytes := f.bytes ++ b } := rfl

theorem ne_of_ext {p q : Path} {e : Ext} (hq : q.ext = e) (hp : p.ext ≠ e) : p ≠ q := by
  rintro rfl
  exact hp hq

theorem World.sameHours_modify_tmp (w : World) {p : Path} (hp : p.ext = .tmp) (g : File → File) :
    w.SameHours (w.modify p g) :=
  .of_lookup fun _ hq ↦ w.lookup_modify_of_ne g (ne_of_ext hp hq)

theorem quiet_create {p : Path} (hp : p.ext = .tmp) : Quiet (.create p) s :=
  .of_sameHours (.of_lookup fun _ hq ↦ AList.lookup_insert_ne (ne_of_ext hp hq))
    (fun _ ↦ .of_lookup fun _ _ ↦ rfl) rfl fun _ ↦ rfl

theorem quiet_copy (src : Path) {p : Path} (hp : p.ext = .tmp) : Quiet (.copy src p) s :=
  .of_sameHours (s.world.sameHours_modify_tmp hp _) (fun _ ↦ s.world.sameHours_modify_tmp hp _) rfl
    fun _ ↦ rfl

theorem quiet_closeGzip {p : Path} (hp : p.ext = .tmp) : Quiet (.closeGzip p) s :=
  .of_sameHours (s.world.sameHours_modify_tmp hp _) (fun _ ↦ .of_lookup fun _ _ ↦ rfl) rfl
    fun _ ↦ rfl

theorem quiet_removeTmp {p : Path} (hp : p.ext = .tmp) : Quiet (.remove p) s := by
  refine .of_sameHours (.of_lookup fun q hq ↦ ?_) (fun _ ↦ .of_lookup fun _ _ ↦ rfl) rfl fun _ ↦ rfl
  rw [Syscall.apply, Syscall.onExisting]
  split
  · exact AList.lookup_erase_ne (ne_of_ext hp hq)
  · rfl

theorem quiet_sync {p : Path} (hp : p.ext = .ndjson) : Quiet (.sync p) s := by
  refine .of_sameHours ⟨fun k ↦ ?_, fun k ↦ ?_⟩ (fun _ ↦ .of_lookup fun _ _ ↦ rfl) rfl fun _ ↦ rfl
  · by_cases hk : (⟨k, .ndjson⟩ : Path) = p
    · subst hk
      rw [Syscall.apply, World.lookup_modify_self, Option.map_map]
      rfl
    · rw [Syscall.apply, World.lookup_modify_of_ne _ _ hk]
  · exact s.world.lookup_modify_of_ne _ (ne_of_ext hp (by simp))

/-! ### Calls that move the hour files -/

theorem Site.hours_plain (k : HourKey) :
    s.hours.plain k = (s.disk.lookup ⟨k, .ndjson⟩).map File.bytes := rfl

theorem Site.hours_gz (k : HourKey) : s.hours.gz k = s.disk.lookup ⟨k, .gz⟩ := rfl

/-- The hour files after a call, read off the directory it leaves. -/
theorem Site.hours_apply {c : Syscall} {d : Disk} {h : Hours}
    (hdisk : (c.apply s.world).2.disk = d)
    (hplain : ∀ k, (d.lookup ⟨k, .ndjson⟩).map File.bytes = h.plain k)
    (hgz : ∀ k, d.lookup ⟨k, .gz⟩ = h.gz k) (hopened : c.opens ++ s.opened = h.opened)
    (hreached : ∀ k, s.reached k ++ c.reaches k = h.reached k) (htime : s.time = h.time) :
    (s.apply c).2.hours = h := by
  subst hdisk
  exact Hours.ext (funext hplain) (funext hgz) hopened (funext hreached) htime

theorem Site.hours_cut {c : Syscall} {n : ℕ} (hdisk : (c.cut s.world n).disk = s.disk)
    (hreaches : ∀ k, c.reaches k = []) : (s.cut c n).hours = s.hours := by
  refine Hours.ext ?_ ?_ rfl (funext fun k ↦ ?_) rfl
  · rw [Site.hours, Site.cut, Site.put, hdisk]
    rfl
  · rw [Site.hours, Site.cut, Site.put, hdisk]
    rfl
  · simp only [Site.hours, Site.cut, hreaches, List.take_nil, List.append_nil]

theorem Site.disk_isSome {p : Path} (h : (s.disk.lookup p).map File.bytes ≠ none) :
    (s.disk.lookup p).isSome := by
  obtain ⟨b, hb⟩ := Option.ne_none_iff_exists'.mp h
  obtain ⟨f, hf, -⟩ := Option.map_eq_some_iff.mp hb
  rw [hf]
  rfl

theorem hours_openAppend (k : HourKey) :
    (s.apply (.openAppend ⟨k, .ndjson⟩)).2.hours = s.hours.openHour k := by
  rcases hk : s.disk.lookup ⟨k, .ndjson⟩ with _ | f
  · have hdisk : (Syscall.apply (.openAppend ⟨k, .ndjson⟩) s.world).2.disk
        = s.disk.insert ⟨k, .ndjson⟩ { bytes := [] } := by
      simp only [Syscall.apply, Site.world, hk, Option.isSome_none, Bool.false_eq_true, if_false,
        World.setDisk]
    refine Site.hours_apply hdisk (fun j ↦ ?_) (fun j ↦ AList.lookup_insert_ne (by simp)) rfl
      (fun j ↦ List.append_nil _) rfl
    rw [Hours.openHour_plain, Site.hours_plain, hk]
    by_cases hj : j = k
    · rw [if_pos hj, hj, AList.lookup_insert]
      rfl
    · rw [if_neg hj, AList.lookup_insert_ne (by simpa using hj), Site.hours_plain]
  · have hdisk : (Syscall.apply (.openAppend ⟨k, .ndjson⟩) s.world).2.disk = s.disk := by
      simp only [Syscall.apply, Site.world, hk, Option.isSome_some, if_true]
    refine Site.hours_apply hdisk (fun j ↦ ?_) (fun j ↦ rfl) rfl (fun j ↦ List.append_nil _) rfl
    rw [Hours.openHour_plain, Site.hours_plain, hk]
    by_cases hj : j = k
    · rw [if_pos hj, hj, hk]
      rfl
    · rw [if_neg hj, Site.hours_plain]

theorem lookup_appendTo (w : World) (k j : HourKey) (c : Bytes) :
    ((w.appendTo ⟨k, .ndjson⟩ c).disk.lookup ⟨j, .ndjson⟩).map File.bytes
      = if j = k then ((w.disk.lookup ⟨k, .ndjson⟩).map File.bytes).map (· ++ c)
        else (w.disk.lookup ⟨j, .ndjson⟩).map File.bytes := by
  rw [World.appendTo_eq_modify]
  by_cases hj : j = k
  · rw [if_pos hj, hj, World.lookup_modify_self, Option.map_map, Option.map_map]
    rfl
  · rw [if_neg hj, World.lookup_modify_of_ne _ _ (by simpa using hj)]

theorem reaches_write (k j : HourKey) (b : Bytes) :
    (Syscall.write ⟨k, .ndjson⟩ b).reaches j = if j = k then b else [] := by
  rw [Syscall.reaches]
  by_cases hj : j = k
  · rw [if_pos hj, if_pos (by rw [hj])]
  · rw [if_neg hj, if_neg fun h ↦ hj (congrArg Path.hour h).symm]

theorem hours_write (k : HourKey) (b : Bytes) :
    (s.apply (.write ⟨k, .ndjson⟩ b)).2.hours = s.hours.append k b := by
  refine Site.hours_apply rfl (fun j ↦ ?_) (fun j ↦ ?_) rfl (fun j ↦ ?_) rfl
  · rw [Hours.append_plain]
    exact lookup_appendTo s.world k j b
  · exact s.world.lookup_modify_of_ne _ (by simp)
  · rw [Hours.append_reached, reaches_write]
    by_cases hj : j = k
    · rw [if_pos hj, if_pos hj, hj]
      rfl
    · rw [if_neg hj, if_neg hj, List.append_nil]
      rfl

theorem hours_cut_write (k : HourKey) (b : Bytes) (n : ℕ) :
    (s.cut (.write ⟨k, .ndjson⟩ b) n).hours = s.hours.append k (b.take n) := by
  -- a write that is cut is a write of the first bytes
  have hcut : (s.cut (.write ⟨k, .ndjson⟩ b) n).hours
      = (s.apply (.write ⟨k, .ndjson⟩ (b.take n))).2.hours := by
    refine Hours.ext rfl rfl rfl (funext fun j ↦ ?_) rfl
    refine congrArg (s.reached j ++ ·) ?_
    rw [reaches_write, reaches_write]
    split
    · rfl
    · exact List.take_nil
  rw [hcut, hours_write]

theorem hours_rename {j : HourKey} {b : Bytes} (hplain : s.hours.plain j = some b)
    (htmp : s.disk.lookup ⟨j, .tmp⟩ = some (gzipped b)) :
    (s.apply (.rename ⟨j, .tmp⟩ ⟨j, .gz⟩)).2.hours = s.hours.compress j := by
  have hdisk : (Syscall.apply (.rename ⟨j, .tmp⟩ ⟨j, .gz⟩) s.world).2.disk
      = (s.disk.erase ⟨j, .tmp⟩).insert ⟨j, .gz⟩ (gzipped b) := by
    simp only [Syscall.apply, Site.world, htmp, World.setDisk]
  refine Site.hours_apply hdisk (fun i ↦ ?_) (fun i ↦ ?_) rfl (fun i ↦ List.append_nil _) rfl
  · rw [AList.lookup_insert_ne (by simp), AList.lookup_erase_ne (by simp), Hours.compress_plain,
      Site.hours_plain]
  · rw [Hours.compress_gz, hplain]
    by_cases hi : i = j
    · rw [if_pos hi, hi, AList.lookup_insert]
      rfl
    · rw [if_neg hi, AList.lookup_insert_ne (by simpa using hi), AList.lookup_erase_ne (by simp),
        Site.hours_gz]

theorem hours_remove {j : HourKey} (hplain : s.hours.plain j ≠ none) :
    (s.apply (.remove ⟨j, .ndjson⟩)).2.hours = s.hours.drop j := by
  have hdisk : (Syscall.apply (.remove ⟨j, .ndjson⟩) s.world).2.disk
      = s.disk.erase ⟨j, .ndjson⟩ := by
    simp only [Syscall.apply, Syscall.onExisting, Site.world, Site.disk_isSome hplain, if_true,
      World.setDisk]
  refine Site.hours_apply hdisk (fun i ↦ ?_) (fun i ↦ AList.lookup_erase_ne (by simp)) rfl
    (fun i ↦ List.append_nil _) rfl
  rw [Hours.drop_plain]
  by_cases hi : i = j
  · rw [if_pos hi, hi, AList.lookup_erase]
    rfl
  · rw [if_neg hi, AList.lookup_erase_ne (by simpa using hi), Site.hours_plain]

/-- The removal of a plain file that is not there changes nothing. -/
theorem hours_remove_of_none {j : HourKey} (hplain : s.hours.plain j = none) :
    (s.apply (.remove ⟨j, .ndjson⟩)).2.hours = s.hours := by
  have hnone : s.disk.lookup ⟨j, .ndjson⟩ = none := Option.map_eq_none_iff.mp hplain
  have hdisk : (Syscall.apply (.remove ⟨j, .ndjson⟩) s.world).2.disk = s.disk := by
    simp only [Syscall.apply, Syscall.onExisting, Site.world, hnone, Option.isSome_none,
      Bool.false_eq_true, if_false]
  exact Site.hours_apply hdisk (fun _ ↦ rfl) (fun _ ↦ rfl) rfl (fun _ ↦ List.append_nil _) rfl

/-! ### The calls of the programs -/

theorem writer_apply {c : Syscall} (hc : ∀ aw, c ≠ .store aw) (s : Site) :
    (s.apply c).2.writer = s.writer := by
  cases c with
  | store aw => exact absurd rfl (hc aw)
  | openAppend p => simp only [Site.apply, Site.put, Syscall.apply]; split <;> rfl
  | write p b => simp only [Site.apply, Site.put, Syscall.apply, World.appendTo]; split <;> rfl
  | sync p => simp only [Site.apply, Site.put, Syscall.apply, World.modify]; split <;> rfl
  | stat p => simp only [Site.apply, Site.put, Syscall.apply, Syscall.onExisting]; split <;> rfl
  | openRead p => simp only [Site.apply, Site.put, Syscall.apply, Syscall.onExisting]; split <;> rfl
  | copy src dst => simp only [Site.apply, Site.put, Syscall.apply, World.appendTo]; split <;> rfl
  | closeGzip p => simp only [Site.apply, Site.put, Syscall.apply, World.modify]; split <;> rfl
  | rename src dst => simp only [Site.apply, Site.put, Syscall.apply]; split <;> rfl
  | remove p => simp only [Site.apply, Site.put, Syscall.apply, Syscall.onExisting]; split <;> rfl
  | _ => rfl

/-- A quiet call other than `store` keeps what is known of the hour files and of the memory. -/
theorem Safe.keep {c : Syscall} {P : ArchiveWriter → Hours → Prop} (hc : ∀ aw, c ≠ .store aw)
    (hq : ∀ s, Quiet c s) (hP : Stable Site.Apart fun s ↦ P s.writer s.hours)
    (hserves : ∀ aw h, P aw h → h.Serves aw) (h : P s.writer s.hours) :
    Safe (fun _ s ↦ P s.writer s.hours) (Archive.sys c) s := by
  refine Safe.quiet c hP h (fun _ ↦ hP) (fun s _ ↦ hq s) fun s hs ↦ ?_
  have hkept : P (s.apply c).2.writer (s.apply c).2.hours := by
    rw [writer_apply hc, (hq s).apply]
    exact hs
  rcases (s.apply c).1 with e | a
  · exact hserves _ _ hkept
  · exact hkept

theorem Site.At.apply {aw : ArchiveWriter} {c : Syscall} (h : s.At aw) (hq : Quiet c s)
    (hc : ∀ aw, c ≠ .store aw) : (s.apply c).2.At aw :=
  ⟨(writer_apply hc s).trans h.1, hq.apply ▸ h.2⟩

theorem Safe.quiet_at {c : Syscall} {aw : ArchiveWriter} (hc : ∀ aw, c ≠ .store aw)
    (hq : ∀ s, Quiet c s) (h : s.At aw) : Safe (fun _ ↦ Site.At aw) (Archive.sys c) s := by
  refine Safe.keep (P := fun w h ↦ w = aw ∧ h.Serves aw) hc hq (Site.stable_at aw) ?_ h
  rintro _ h ⟨rfl, hs⟩
  exact hs

theorem Safe.load {aw : ArchiveWriter} (h : s.At aw) :
    Safe (fun a s ↦ a = aw ∧ s.At aw) load s := by
  refine Safe.quiet .load (Site.stable_at aw) h
    (fun a s s' hs ha ↦ ⟨ha.1, Site.stable_at aw s s' hs ha.2⟩) (fun _ _ ↦ quiet_load) fun s hs ↦ ?_
  exact ⟨hs.1, hs.apply quiet_load nofun⟩

theorem Safe.store {aw : ArchiveWriter} {I : Site → Prop} (hI : Stable Site.Apart I) (h : I s)
    (haw : ∀ s, I s → s.hours.Serves aw) : Safe (fun _ ↦ Site.At aw) (store aw) s :=
  Safe.quiet (.store aw) hI h (fun _ ↦ Site.stable_at aw) (fun _ _ ↦ quiet_store aw)
    fun s hs ↦ ⟨rfl, by rw [(quiet_store aw).apply]; exact haw s hs⟩

end Safe

end GtfsStream.Archive
