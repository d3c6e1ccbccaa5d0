import GtfsStream.Archive.WriterSpec
import GtfsStream.Library.Placement

/-!
# The ledger through crashes

A crash leaves a prefix of the buffered bytes in the plain file, and after a restart in the same
hour the file is opened for appending. If the prefix ends inside a line, the first redelivered
message is glued to that partial line. This does no harm if the message stands in the archive
already, which is so unless the crash tore the very first line of the batch.

`Ledger.Holding` puts together what is followed here: the committed messages stand in the durable
part of the files, the lines that are no message are at most as many as the crashes, and a partial
line is there only if the next message is archived. It is kept by a rotation that drops no file, by
a write, by a flush, and by a crash and restart that meet the condition.
-/

namespace GtfsStream.Archive

/-! ## Lines of a file that is cut or appended to -/

/-- How many lines of a file are no complete message, the partial line at its end included. -/
def badLines (msgs : List Bytes) (s : Bytes) : ℕ :=
  ((lines newline s).filter (· ∉ msgs)).length + if partialLine newline s = [] then 0 else 1

theorem lines_prefix_append (s t : Bytes) : lines newline s <+: lines newline (s ++ t) := by
  rw [lines_append]
  split
  · exact List.prefix_rfl
  · exact List.prefix_append _ _

theorem badLines_append_frame {msgs : List Bytes} {v : Bytes} (hv : v ∈ msgs)
    (hnl : newline ∉ v) (s : Bytes) :
    badLines msgs (s ++ (v ++ [newline])) ≤ badLines msgs s := by
  rw [badLines, badLines, lines_append_frame hnl, partialLine_append_frame, if_pos rfl,
    List.filter_append, List.length_append]
  split
  · rename_i htail
    rw [htail, List.nil_append, List.filter_singleton]
    simp [hv]
  · have := List.length_filter_le (fun x ↦ decide (x ∉ msgs)) [partialLine newline s ++ v]
    rw [List.length_singleton] at this
    omega

theorem badLines_take_le (msgs : List Bytes) (s : Bytes) (m : ℕ) :
    badLines msgs (s.take m) ≤ badLines msgs s + 1 := by
  have hpre : lines newline (s.take m) <+: lines newline s := by
    have := lines_prefix_append (s.take m) (s.drop m)
    rwa [List.take_append_drop] at this
  have hle := (hpre.sublist.filter (fun x ↦ decide (x ∉ msgs))).length_le
  rw [badLines, badLines]
  split <;> omega

namespace Ledger

/-! ## What is archived -/

/-- The message stands in an archive file as a complete line. -/
def Archived (l : Ledger) (v : Bytes) : Prop := ∃ p, v ∈ lines newline (l.content p)

/-- The ledger with only the durable bytes of its plain files. -/
def durable (l : Ledger) : Ledger :=
  { l with plain := fun j ↦ (l.plain j).map fun f ↦ (f.1.take f.2, f.2) }

/-- The lines that are no complete message, counted over all files, are at most `c`. -/
def WasteAtMost (msgs : List Bytes) (c : ℕ) (l : Ledger) : Prop :=
  ∀ s : Finset Path, ∑ p ∈ s, badLines msgs (l.content p) ≤ c

/-- No plain file ends inside a line. -/
def Clean (l : Ledger) : Prop := ∀ j f, l.plain j = some f → partialLine newline f.1 = []

/-- Finalizing every hour but `k` drops no plain file in favour of a compressed one. -/
def DropsNone (l : Ledger) (k : HourKey) : Prop :=
  ∀ j, j ≠ k → l.plain j ≠ none → l.gz j = none

/-- The open hour has a plain file, and no other hour has one. -/
def Sole (l : Ledger) : Prop :=
  ∀ k, l.cur = some k → l.plain k ≠ none ∧ ∀ j, j ≠ k → l.plain j = none

/-! ## Finalization that drops nothing -/

def swapExt : Ext → Ext
  | .ndjson => .gz
  | .gz => .ndjson
  | .tmp => .tmp

/-- Where the content of a path comes from: a compressed file takes it from the plain one. -/
def source (l : Ledger) (k : HourKey) (p : Path) : Path :=
  if p.hour ≠ k ∧ (l.plain p.hour).isSome then ⟨p.hour, swapExt p.ext⟩ else p

theorem source_involutive (l : Ledger) (k : HourKey) : Function.Involutive (l.source k) := by
  rintro ⟨j, e⟩
  by_cases h : j ≠ k ∧ (l.plain j).isSome
  · simp only [source, h, if_true, ne_eq, not_false_eq_true, and_self]
    cases e <;> rfl
  · simp only [source, h, if_false]

theorem content_finalize {l : Ledger} {k : HourKey} (h : l.DropsNone k) (p : Path) :
    (l.finalize k).content p = l.content (l.source k p) := by
  obtain ⟨j, e⟩ := p
  by_cases hj : j = k
  · subst hj
    rw [source, if_neg fun hx ↦ hx.1 rfl]
    cases e <;> simp [content]
  · rcases hplain : l.plain j with _ | f
    · rw [source, if_neg fun hx ↦ by simp [hplain] at hx]
      cases e with
      | ndjson => simp [content, finalize_plain_of_ne _ _ hj, hplain]
      | gz => simp [content, finalize_gz_of_ne _ _ hj, finalGz, hplain]
      | tmp => rfl
    · have hgz : l.gz j = none := h j hj (by simp [hplain])
      rw [source, if_pos ⟨hj, by simp [hplain]⟩]
      cases e with
      | ndjson => simp [content, finalize_plain_of_ne _ _ hj, hgz, swapExt]
      | gz =>
        simp [content, finalize_gz_of_ne _ _ hj, finalGz, hplain, hgz, swapExt, gzipped,
          Option.filter]
      | tmp => rfl

/-- The ledger that a crash leaves behind: of the open file the durable bytes are there, and the
first `m` bytes. -/
def crash (l : Ledger) (m : ℕ) : Ledger :=
  match l.cur with
  | none => l
  | some k => (l.setPlain k ((l.plain k).map fun f ↦ (f.1.take (max m f.2), f.2))).close

@[simp] theorem crash_cur (l : Ledger) (m : ℕ) : (l.crash m).cur = none := by
  rw [crash]
  split
  · assumption
  · rfl

/-! ## Files that grow -/

/-- Every file is still there, perhaps under another name and with more bytes at its end. -/
def Grows (l l' : Ledger) : Prop := ∀ p, ∃ q, l.content p <+: l'.content q

theorem Grows.refl (l : Ledger) : l.Grows l := fun p ↦ ⟨p, List.prefix_rfl⟩

theorem Grows.trans {l l' l'' : Ledger} (h : l.Grows l') (h' : l'.Grows l'') : l.Grows l'' := by
  intro p
  obtain ⟨q, hq⟩ := h p
  obtain ⟨r, hr⟩ := h' q
  exact ⟨r, hq.trans hr⟩

theorem Archived.grows {l l' : Ledger} {v : Bytes} (h : l.Archived v) (hg : l.Grows l') :
    l'.Archived v := by
  obtain ⟨p, hp⟩ := h
  obtain ⟨q, t, ht⟩ := hg p
  exact ⟨q, ht ▸ (lines_prefix_append _ t).subset hp⟩

section

variable {l : Ledger} {k : HourKey}

theorem durable_content_plain (j : HourKey) :
    l.durable.content ⟨j, .ndjson⟩ = ((l.plain j).map fun f ↦ f.1.take f.2).getD [] := by
  simp only [content, durable, Option.map_map]
  rfl

theorem grows_durable : l.durable.Grows l := by
  rintro ⟨j, e⟩
  refine ⟨⟨j, e⟩, ?_⟩
  cases e with
  | ndjson =>
    rw [durable_content_plain, content]
    cases l.plain j with
    | none => exact List.prefix_rfl
    | some f => exact List.take_prefix _ _
  | gz => exact List.prefix_rfl
  | tmp => exact List.prefix_rfl

/-- A ledger in which every hour has the same compressed file, and a plain one with as many durable
bytes. -/
theorem grows_durable_of {l' : Ledger} (hgz : l'.gz = l.gz)
    (hplain : ∀ j f, l.plain j = some f → ∃ f', l'.plain j = some f' ∧
      f.1.take f.2 <+: f'.1.take f'.2) : l.durable.Grows l'.durable := by
  rintro ⟨j, e⟩
  refine ⟨⟨j, e⟩, ?_⟩
  cases e with
  | ndjson =>
    rw [durable_content_plain, durable_content_plain]
    rcases h : l.plain j with _ | f
    · exact List.nil_prefix
    · obtain ⟨f', hf', hpre⟩ := hplain j f h
      rw [hf']
      exact hpre
  | gz =>
    rw [content, content, durable, durable, hgz]
  | tmp => exact List.prefix_rfl

theorem grows_durable_openHour : l.durable.Grows (l.openHour k).durable := by
  refine grows_durable_of rfl fun j f hf ↦ ?_
  by_cases hj : j = k
  · subst hj
    exact ⟨f, by simp [hf], List.prefix_rfl⟩
  · exact ⟨f, by rw [openHour_plain_of_ne _ _ hj, hf], List.prefix_rfl⟩

theorem grows_durable_finalize (h : l.DropsNone k) :
    l.durable.Grows (l.finalize k).durable := by
  rintro ⟨j, e⟩
  by_cases hj : j = k
  · subst hj
    refine ⟨⟨j, e⟩, ?_⟩
    cases e <;> simp [content, durable]
  · cases e with
    | ndjson =>
      refine ⟨⟨j, .gz⟩, ?_⟩
      have hsame : (l.finalize k).durable.content ⟨j, .gz⟩ = (l.finalize k).content ⟨j, .gz⟩ := rfl
      rw [hsame, content_finalize h, durable_content_plain]
      rcases hplain : l.plain j with _ | f
      · exact List.nil_prefix
      · rw [source, if_pos ⟨hj, by simp [hplain]⟩]
        simpa [swapExt, content, hplain] using List.take_prefix f.2 f.1
    | gz =>
      refine ⟨⟨j, .gz⟩, ?_⟩
      simp only [content, durable, finalize_gz_of_ne _ _ hj, finalGz]
      cases l.gz j with
      | none => exact List.nil_prefix
      | some f => exact List.prefix_rfl
    | tmp => exact ⟨⟨j, .tmp⟩, List.prefix_rfl⟩

theorem grows_durable_append (b : Bytes) : l.durable.Grows (l.append k b).durable := by
  refine grows_durable_of rfl fun j f hf ↦ ?_
  by_cases hj : j = k
  · subst hj
    exact ⟨(f.1 ++ b, f.2), by simp [hf], (List.prefix_append _ _).take _⟩
  · exact ⟨f, by rw [append_plain_of_ne _ _ _ hj, hf], List.prefix_rfl⟩

theorem grows_append (b : Bytes) : l.Grows (l.append k b) := by
  intro p
  refine ⟨p, ?_⟩
  by_cases hp : p = ⟨k, .ndjson⟩
  · subst hp
    rcases hf : l.plain k with _ | f
    · simp [content, hf]
    · rw [content_append_self l k hf]
      exact List.prefix_append _ _
  · rw [content_append_of_ne l k hp]

theorem grows_openHour : l.Grows (l.openHour k) := fun p ↦
  ⟨p, by rw [content_openHour]⟩

theorem grows_finalize (h : l.DropsNone k) : l.Grows (l.finalize k) := by
  intro p
  refine ⟨l.source k p, ?_⟩
  rw [content_finalize h, source_involutive]

theorem grows_durable_crash (m : ℕ) : l.durable.Grows (l.crash m).durable := by
  rw [crash]
  rcases l.cur with _ | k
  · exact Grows.refl _
  · refine grows_durable_of rfl fun j f hf ↦ ?_
    by_cases hj : j = k
    · subst hj
      refine ⟨(f.1.take (max m f.2), f.2), by simp [close, hf], ?_⟩
      rw [List.take_take, min_eq_left (le_max_right _ _)]
    · exact ⟨f, by simp [close, setPlain_plain_of_ne _ _ _ hj, hf], List.prefix_rfl⟩

theorem grows_durable_flush : l.durable.Grows l.flush.durable := by
  refine grows_durable_of (flush_gz l) fun j f hf ↦ ?_
  rcases hcur : l.cur with _ | k
  · exact ⟨f, by rw [flush, hcur, hf], List.prefix_rfl⟩
  · rw [flush_of_cur _ _ hcur]
    by_cases hj : j = k
    · subst hj
      refine ⟨(f.1, f.1.length), by simp [hf], ?_⟩
      rw [List.take_length]
      exact List.take_prefix _ _
    · exact ⟨f, by rw [setPlain_plain_of_ne _ _ _ hj, hf], List.prefix_rfl⟩

theorem grows_flush_durable (hk : l.cur = some k) (h : l.Sole) : l.Grows l.flush.durable := by
  rintro ⟨j, e⟩
  refine ⟨⟨j, e⟩, ?_⟩
  cases e with
  | ndjson =>
    rw [durable_content_plain, flush_of_cur _ _ hk, content]
    by_cases hj : j = k
    · subst hj
      rw [setPlain_plain_self]
      cases l.plain j with
      | none => exact List.prefix_rfl
      | some f => simp
    · rw [(h k hk).2 j hj]
      exact List.nil_prefix
  | gz => simp [content, durable]
  | tmp => exact List.prefix_rfl

end

/-! ## Lines that are no message -/

section

variable {msgs : List Bytes} {c : ℕ} {l l' : Ledger} {k : HourKey}

theorem WasteAtMost.of_le (h : l.WasteAtMost msgs c)
    (hle : ∀ p, badLines msgs (l'.content p) ≤ badLines msgs (l.content p)) :
    l'.WasteAtMost msgs c :=
  fun s ↦ (Finset.sum_le_sum fun p _ ↦ hle p).trans (h s)

theorem WasteAtMost.finalize (h : l.WasteAtMost msgs c) (hk : l.DropsNone k) :
    (l.finalize k).WasteAtMost msgs c := by
  intro s
  rw [Finset.sum_congr rfl fun p _ ↦ congrArg (badLines msgs) (content_finalize hk p),
    ← Finset.sum_image (f := fun q ↦ badLines msgs (l.content q))
      fun p _ q _ hpq ↦ (source_involutive l k).injective hpq]
  exact h _

theorem WasteAtMost.append (h : l.WasteAtMost msgs c) {v : Bytes} (hv : v ∈ msgs)
    (hnl : newline ∉ v) : (l.append k (v ++ [newline])).WasteAtMost msgs c := by
  refine h.of_le fun p ↦ ?_
  by_cases hp : p = ⟨k, .ndjson⟩
  · subst hp
    rcases hf : l.plain k with _ | f
    · simp [content, hf]
    · rw [content_append_self l k hf]
      exact badLines_append_frame hv hnl _
  · rw [content_append_of_ne l k hp]

theorem WasteAtMost.crash (h : l.WasteAtMost msgs c) (m : ℕ) :
    (l.crash m).WasteAtMost msgs (c + 1) := by
  intro s
  rw [Ledger.crash]
  rcases hcur : l.cur with _ | k
  · exact (h s).trans (Nat.le_succ c)
  · have hle (p : Path) : badLines msgs (((l.setPlain k ((l.plain k).map fun f ↦
        (f.1.take (max m f.2), f.2))).close).content p) ≤
          badLines msgs (l.content p) + if ⟨k, .ndjson⟩ = p then 1 else 0 := by
      obtain ⟨j, e⟩ := p
      cases e with
      | ndjson =>
        by_cases hj : j = k
        · subst hj
          rw [if_pos rfl]
          rcases hf : l.plain j with _ | f
          · simp [content, close, hf]
          · simpa [content, close, hf] using badLines_take_le msgs f.1 (max m f.2)
        · simp [content, close, setPlain_plain_of_ne _ _ _ hj]
      | gz => simp [content, close]
      | tmp => exact Nat.le_add_right _ _
    refine (Finset.sum_le_sum fun p _ ↦ hle p).trans ?_
    rw [Finset.sum_add_distrib, Finset.sum_ite_eq]
    refine Nat.add_le_add (h s) ?_
    split <;> omega

end

/-! ## The invariant -/

/-- Of the messages `msgs` the first `n` are committed and the first `p` written, and there were at
most `c` crashes. -/
structure Holding (msgs : List Bytes) (n p c : ℕ) (l : Ledger) : Prop where
  committed : ∀ v ∈ msgs.take n, l.durable.Archived v
  written : ∀ v ∈ msgs.take p, l.Archived v
  waste : l.WasteAtMost msgs c
  sole : l.Sole
  tail : l.Clean ∨ ∀ v, msgs[p]? = some v → l.Archived v

section

variable {msgs : List Bytes} {n p c : ℕ} {l : Ledger} {k : HourKey}

theorem DropsNone.openHour (h : l.DropsNone k) : (l.openHour k).DropsNone k := by
  intro j hj hne
  rw [openHour_plain_of_ne _ _ hj] at hne
  exact h j hj hne

theorem rotate_grows (msgs : List Bytes) (c : ℕ) (hs : l.Sole) (hk : l.DropsNone k) :
    l.Grows (l.rotate k) ∧ l.durable.Grows (l.rotate k).durable ∧ (l.rotate k).Sole ∧
      (l.rotate k).content ⟨k, .ndjson⟩ = l.content ⟨k, .ndjson⟩ ∧
      (l.WasteAtMost msgs c → (l.rotate k).WasteAtMost msgs c) := by
  by_cases hcur : l.cur = some k
  · rw [rotate_of_cur _ _ hcur]
    exact ⟨Grows.refl l, Grows.refl _, hs, rfl, id⟩
  · rw [rotate_of_ne _ _ hcur]
    refine ⟨grows_openHour.trans (grows_finalize hk.openHour),
      grows_durable_openHour.trans (grows_durable_finalize hk.openHour), fun j hj ↦ ?_, ?_,
      fun h ↦ WasteAtMost.finalize (h.of_le fun p ↦ (content_openHour l k p ▸ le_rfl)) hk.openHour⟩
    · obtain rfl : k = j := Option.some_injective _ hj
      exact ⟨by simp, fun i hi ↦ finalize_plain_of_ne _ _ hi⟩
    · rw [← content_openHour l k]
      simp [content]

/-- **A write keeps the invariant.** The line is a line of its own unless the file ended in a
partial one, and then the message was archived before. -/
theorem Holding.write {v : Bytes} (h : l.Holding msgs n p c) (hv : msgs[p]? = some v)
    (hnl : newline ∉ v) (hk : l.DropsNone k) : (l.write k v).Holding msgs n (p + 1) c := by
  obtain ⟨hgrows, hdurable, hsole, hcontent, hwaste⟩ := rotate_grows msgs c h.sole hk
  have hmem : v ∈ msgs := List.mem_of_getElem? hv
  obtain ⟨f, hf⟩ := Option.ne_none_iff_exists'.mp (hsole k (l.rotate_cur k)).1
  have hself : (l.write k v).content ⟨k, .ndjson⟩ =
      (l.rotate k).content ⟨k, .ndjson⟩ ++ (v ++ [newline]) := content_append_self _ _ hf _
  have hgrows' : l.Grows (l.write k v) := hgrows.trans (grows_append _)
  have hclean : (l.write k v).Clean := by
    intro j g hg
    by_cases hj : j = k
    · subst hj
      rw [Ledger.write, append_plain_self, hf, Option.map_some, Option.some.injEq] at hg
      rw [← hg]
      exact partialLine_append_frame _ _
    · rw [Ledger.write, append_plain_of_ne _ _ _ hj, (hsole k (l.rotate_cur k)).2 j hj] at hg
      cases hg
  -- a torn file spoils the line, but then its message is on the disk already
  have harchived : (l.write k v).Archived v := by
    rcases h.tail with htail | htail
    · refine ⟨⟨k, .ndjson⟩, ?_⟩
      have hnil : partialLine newline (l.content ⟨k, .ndjson⟩) = [] := by
        rw [content]
        rcases hplain : l.plain k with _ | g
        · rfl
        · exact htail k g hplain
      rw [hself, lines_append_frame hnl, hcontent, hnil, List.nil_append]
      exact List.mem_append_right _ (List.mem_singleton.mpr rfl)
    · exact (htail v hv).grows hgrows'
  refine ⟨fun u hu ↦ (h.committed u hu).grows (hdurable.trans (grows_durable_append _)),
    fun u hu ↦ ?_, (hwaste h.waste).append hmem hnl, fun j hj ↦ ?_, Or.inl hclean⟩
  · rw [List.take_add_one, hv, Option.toList_some, List.mem_append, List.mem_singleton] at hu
    rcases hu with hu | rfl
    · exact (h.written u hu).grows hgrows'
    · exact harchived
  · obtain ⟨hne, hother⟩ := hsole j hj
    obtain rfl : k = j := Option.some_injective _ ((l.rotate_cur k).symm.trans hj)
    refine ⟨by simp [Ledger.write, hf], fun i hi ↦ ?_⟩
    rw [Ledger.write, append_plain_of_ne _ _ _ hi]
    exact hother i hi

/-- A flush after writes makes them durable, and without writes it has nothing to do. -/
theorem Holding.flush (h : l.Holding msgs n p c) (hp : p = n ∨ l.cur ≠ none) :
    l.flush.Holding msgs p p c := by
  have hcommitted : ∀ v ∈ msgs.take p, l.flush.durable.Archived v := by
    intro v hv
    rcases hp with rfl | hcur
    · exact (h.committed v hv).grows grows_durable_flush
    · obtain ⟨k, hk⟩ := Option.ne_none_iff_exists'.mp hcur
      exact (h.written v hv).grows (grows_flush_durable hk h.sole)
  have hsame : l.Grows l.flush := fun q ↦ ⟨q, by rw [content_flush]⟩
  refine ⟨hcommitted, fun v hv ↦ (hcommitted v hv).grows grows_durable,
    h.waste.of_le fun q ↦ (content_flush l q ▸ le_rfl), fun k hk ↦ ?_, ?_⟩
  · rw [flush_cur] at hk
    obtain ⟨hne, hother⟩ := h.sole k hk
    rw [flush_of_cur _ _ hk]
    refine ⟨by simpa using hne, fun j hj ↦ ?_⟩
    rw [setPlain_plain_of_ne _ _ _ hj]
    exact hother j hj
  · refine h.tail.imp (fun hclean j f hf ↦ ?_) fun htail v hv ↦ (htail v hv).grows hsame
    have hbytes := content_flush l ⟨j, .ndjson⟩
    simp only [content, hf, Option.map_some, Option.getD_some] at hbytes
    rcases hplain : l.plain j with _ | g
    · rw [hplain] at hbytes
      rw [hbytes]
      rfl
    · rw [hplain] at hbytes
      rw [hbytes]
      exact hclean j g hplain

theorem Holding.crash (h : l.Holding msgs n p c) (m : ℕ) (hk : (l.crash m).DropsNone k)
    (htail : ((l.crash m).finalize k).Clean ∨
      ∀ v, msgs[n]? = some v → (l.crash m).Archived v) :
    ((l.crash m).finalize k).Holding msgs n n (c + 1) := by
  have hcommitted : ∀ v ∈ msgs.take n, ((l.crash m).finalize k).durable.Archived v := fun v hv ↦
    (h.committed v hv).grows ((grows_durable_crash m).trans (grows_durable_finalize hk))
  refine ⟨hcommitted, fun v hv ↦ (hcommitted v hv).grows grows_durable,
    (h.waste.crash m).finalize hk, fun j hj ↦ ?_,
    htail.imp_right fun ht v hv ↦ (ht v hv).grows (grows_finalize hk)⟩
  rw [finalize_cur, crash_cur] at hj
  cases hj

/-- The writes finalize no hour that has a compressed file already. -/
def DropsNoneAlong (l : Ledger) : List Event → Prop
  | [] => True
  | .write k v :: es => l.DropsNone k ∧ (l.write k v).DropsNoneAlong es
  | .flush :: es => l.flush.DropsNoneAlong es

/-- No hour but `k` has a plain file. -/
def Within (k : HourKey) (l : Ledger) : Prop := ∀ j, j ≠ k → l.plain j = none

theorem Within.dropsNone (h : l.Within k) : l.DropsNone k := fun j hj hne ↦ absurd (h j hj) hne

theorem Within.write (h : l.Within k) (v : Bytes) : (l.write k v).Within k := by
  intro j hj
  rw [Ledger.write, append_plain_of_ne _ _ _ hj, rotate]
  split
  · exact h j hj
  · exact finalize_plain_of_ne _ _ hj

theorem Within.dropsNoneAlong (h : l.Within k) {clock : ℕ → ℤ} {t : ℕ}
    (hclock : ∀ i, hourKey (clock i) = k) (vs : List Bytes) :
    l.DropsNoneAlong (stamp clock t (vs.map .write)) := by
  induction vs generalizing l t with
  | nil => trivial
  | cons v vs ih =>
    rw [List.map_cons, stamp, hclock]
    exact ⟨h.dropsNone, ih (h.write v)⟩

theorem holding_empty (msgs : List Bytes) : empty.Holding msgs 0 0 0 := by
  refine ⟨by simp, by simp, fun s ↦ ?_, fun k hk ↦ absurd hk nofun, Or.inl fun j f hf ↦ ?_⟩
  · refine (Finset.sum_eq_zero fun p _ ↦ ?_).le
    obtain ⟨j, e⟩ := p
    cases e <;> rfl
  · cases hf

theorem Holding.writes (hnl : ∀ v ∈ msgs, newline ∉ v) {clock : ℕ → ℤ} {t : ℕ}
    {batch : List Message} (h : l.Holding msgs n p c)
    (hnext : batch.map Message.value <+: msgs.drop p)
    (hk : l.DropsNoneAlong (stamp clock t (batch.map fun msg ↦ .write msg.value))) :
    (l.run (stamp clock t (batch.map fun msg ↦ .write msg.value))).Holding msgs n
        (p + batch.length) c ∧
      (batch ≠ [] → (l.run (stamp clock t (batch.map fun msg ↦ .write msg.value))).cur ≠ none) := by
  induction batch generalizing l p t with
  | nil => exact ⟨h, fun hne ↦ absurd rfl hne⟩
  | cons m ms ih =>
    obtain ⟨rest, hrest⟩ := hnext
    have hv : msgs[p]? = some m.value := by
      rw [← List.head?_drop, ← hrest]
      rfl
    have hms : ms.map Message.value <+: msgs.drop (p + 1) := by
      refine ⟨rest, ?_⟩
      rw [← List.drop_drop, ← hrest]
      rfl
    have hwrite := h.write hv (hnl _ (List.mem_of_getElem? hv)) hk.1
    obtain ⟨hall, hcur⟩ := ih hwrite hms hk.2
    have hlen : p + (m :: ms).length = p + 1 + ms.length := by
      rw [List.length_cons]
      omega
    refine ⟨hlen ▸ hall, fun _ ↦ ?_⟩
    by_cases hempty : ms = []
    · subst hempty
      exact fun hn ↦ absurd ((write_cur ..).symm.trans hn) nofun
    · exact hcur hempty

end

end Ledger

end GtfsStream.Archive
