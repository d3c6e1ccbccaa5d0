import GtfsStream.GtfsStatic.Gate

/-!
# The conditional refresh

A call asks for the validators in one request and for the bundle in another, and stores both in the
target. Between the two requests a later version may be published, so the validators of one version
are stored beside the files of a later one. They match nothing that is served from then on: what a
call takes for current is what the remote side serves, provided that the validators stay apart when
they are stored and read back.

They need not stay apart. `_fetch_validators` removes the quotes of an ETag and nothing else, but
`_read_validator` removes white space, which the part between the quotes may end with.
-/

namespace GtfsStream.GtfsStatic

open Program Op

/-! ## Why a call returns -/

/-- The reasons why a call returns. -/
inductive Verdict
  | upToDate
  | updated
  | incomplete
  | failed
  deriving DecidableEq

/-- What `download_and_extract_gtfs` returns. -/
def Verdict.returned (v : Verdict) : Bool := v = .updated

/-- The body of the `try` statement, with the reason. -/
def judgeBundle : RefreshIO Verdict := do
  let (remoteEtag, remoteLastModified) ← fetchValidators
  let current ← bundleIsCurrent remoteEtag remoteLastModified
  if current then done .upToDate
  else do
    let updated ← withStaging (stageAndSwap remoteEtag remoteLastModified)
    done (if updated then .updated else .incomplete)

/-- `download_and_extract_gtfs`, with the reason. -/
def judgedDownload : RefreshIO Verdict := do
  sys (.mkdir .target)
  recoverParked
  judgeBundle.tryCatch fun _ ↦ done .failed

theorem judgeBundle_returned :
    judgeBundle.bind (fun v ↦ done v.returned) = refreshBundle := by
  rw [judgeBundle, refreshBundle, bind_eq, bind_eq, bind_assoc]
  congr 1
  funext v
  refine (bind_assoc (bundleIsCurrent v.1 v.2) _ _).trans ?_
  congr 1
  funext current
  cases current with
  | true => rfl
  | false =>
    refine (bind_assoc (withStaging (stageAndSwap v.1 v.2)) _ _).trans ?_
    refine (congrArg _ (funext fun updated ↦ ?_)).trans (bind_done _)
    cases updated <;> rfl

/-- **The reasons are those of the code.** -/
theorem judgedDownload_returned :
    judgedDownload.bind (fun v ↦ done v.returned) = downloadAndExtractGtfs := by
  rw [judgedDownload, downloadAndExtractGtfs, bind_eq, bind_eq, bind_assoc]
  congr 1
  funext _
  refine (bind_assoc recoverParked _ _).trans ?_
  congr 1
  funext _
  rw [bind_tryCatch_done, judgeBundle_returned]
  rfl

section

variable {w : World} {e : Dir}

/-- The target held a bundle that the response to the `HEAD` request takes for current, and holds it
still. -/
def Matched (w w' : World) : Prop :=
  ∃ h d, w.remote.head = some h ∧ w.dir .target = some d ∧ w'.dir .target = some d ∧
    IsCurrent d (validators h)

theorem not_isCurrent_empty (v : Option String × Option String) : ¬IsCurrent ∅ v := by
  rcases v with ⟨_ | etag, _ | modified⟩ <;> exact nofun

theorem legible_empty (v : Option String × Option String) : Legible ∅ v := by
  rcases v with ⟨_ | etag, _ | modified⟩
  · trivial
  · exact nofun
  · exact nofun
  · exact nofun

theorem survives_true (r : Remote) : Survives (fun _ ↦ True) r where
  same _ _ := trivial
  create _ _ := trivial
  park _ _ := trivial
  swapIn _ _ _ := trivial

theorem guards_mkdir_true : Guards (fun _ ↦ True) (fun _ w' ↦ w'.remote = w.remote ∧
    ∃ d, w'.dir .target = some d ∧ (d = ∅ ∨ w.dir .target = some d)) (sys (.mkdir .target)) w := by
  refine guards_sys (.mkdir .target) (fun _ _ ↦ ?_) (fun _ _ ↦ trivial) fun _ _ ↦ trivial
  rw [Op.apply]
  rcases htarget : w.dir .target with _ | d
  · exact ⟨rfl, ∅, World.setDir_self .., Or.inl rfl⟩
  · exact ⟨rfl, d, htarget, Or.inr rfl⟩

/-- **A call that finds its bundle up to date has matched it**, whatever fails elsewhere. -/
theorem guards_judgedDownload : Guards (fun _ ↦ True)
    (fun v w' ↦ v = .upToDate → Matched w w') judgedDownload w := by
  refine guards_mkdir_true.bind ?_
  rintro - w₁ ⟨hremote, d, htarget₁, hd⟩
  refine (guards_recoverParked trivial (by rw [htarget₁]; rfl)).bind ?_
  rintro - _ rfl
  refine Ensures.tryCatch (F := fun _ _ ↦ True) ?_ fun _ _ _ ↦ Ensures.done nofun
  refine ((spares_fetchValidators (World.Same.refl w₁)).guards (survives_true w.remote)
    trivial).bind ?_
  rintro ⟨etag, modified⟩ w₂ ⟨h₂, h, hhead, hv⟩
  refine ((spares_bundleIsCurrent_eq h₂ (h₂.target.trans htarget₁)).guards
    (survives_true w.remote) trivial).bind ?_
  rintro _ w₃ ⟨rfl, -, h₃⟩
  by_cases hcurrent : IsCurrent d (etag, modified)
  · rw [decide_eq_true hcurrent, if_pos rfl]
    refine Ensures.done fun _ ↦
      ⟨h, d, hremote ▸ hhead, ?_, h₃.target.trans htarget₁, hv ▸ hcurrent⟩
    exact hd.resolve_left fun hempty ↦ not_isCurrent_empty _ (hempty ▸ hcurrent)
  · rw [decide_eq_false hcurrent, if_neg Bool.false_ne_true]
    refine Guards.bind (Q := fun _ _ ↦ True) (guards_withStaging (survives_true w.remote) trivial
      fun w₄ h₄ ↦ ?_) fun updated _ _ ↦ Ensures.done ?_
    · refine guards_stageAndSwap (h := h) (survives_true _) trivial ?_ hv.symm
      rw [(h₃.trans h₄).remote, hhead]
    · cases updated <;> exact nofun

theorem matched_of_exec {w' : World}
    (h : Exec machine judgedDownload w (.finished (.ok .upToDate) w')) : Matched w w' :=
  wp_iff.mp guards_judgedDownload _ h rfl

/-- A current bundle is found up to date by the run without failures. -/
theorem returns_judgedDownload {h : Headers} (htarget : w.dir .target = some e)
    (hhead : w.remote.head = some h) (hcurrent : IsCurrent e (validators h)) :
    judgedDownload.Returns machine (fun v w' ↦ v = .upToDate ∧ w' = w) w := by
  refine (returns_mkdirTarget htarget).bind ?_
  rintro - _ rfl
  refine (returns_recoverParked htarget).bind ?_
  rintro - _ rfl
  refine Returns.tryCatch ?_
  refine (returns_fetchValidators hhead).bind ?_
  rintro _ _ ⟨rfl, rfl⟩
  rcases hv : validators h with ⟨etag, modified⟩
  rw [hv] at hcurrent
  refine (returns_bundleIsCurrent htarget hcurrent.legible).bind ?_
  rintro _ _ ⟨rfl, rfl⟩
  rw [decide_eq_true hcurrent]
  exact Returns.done ⟨rfl, rfl⟩

end

/-! ## Publications and calls -/

/-- A published version: the validators that the server sends with it, and the entries of its ZIP.
A body may be no ZIP. -/
structure Version where
  etag : String
  lastModified : String
  body : Option (List (String × String))

def Version.headers (v : Version) : Headers := ⟨some v.etag, some v.lastModified⟩

/-- The directory holds the extracted files of the version, besides the stored validators. -/
def Version.Content (v : Version) (d : Dir) : Prop :=
  ∃ entries extracted, v.body = some entries ∧ extract entries = some extracted ∧
    ∀ name, name ≠ ".etag" → name ≠ ".last_modified" → d.lookup name = extracted.lookup name

/-- Every publication has a fresh ETag and a fresh modification time. -/
structure Fresh (versions : ℕ → Version) : Prop where
  etag : Function.Injective fun n ↦ (versions n).etag
  lastModified : Function.Injective fun n ↦ (versions n).lastModified

/-- No validator is stored. -/
def Unmarked (d : Dir) : Prop := ".etag" ∉ d ∧ ".last_modified" ∉ d

section

variable (versions : ℕ → Version)

/-- The remote side of a call whose `HEAD` request is answered after `i` publications, and its `GET`
request after `j`. -/
def servedAt (i j : ℕ) : Remote := ⟨some (versions i).headers, some (versions j).body⟩

/-- The worlds that successive calls may leave, the last of which was answered after `n`
publications. The requests are answered in order, and no earlier version comes back. Every call may
fail or die in every step. -/
inductive History : ℕ → World → Prop
  | start (n : ℕ) (w : World) (h : ∀ d, w.dir .target = some d → Unmarked d) : History n w
  | call {n i j : ℕ} {w : World} {out : Outcome RefreshError Bool World} (h : History n w)
      (hi : n ≤ i) (hj : i ≤ j) (hc : Calls w (servedAt versions i j) out) : History j out.state

/-- Whenever a call finds its bundle up to date, the target holds the files of the version that
answered its `HEAD` request. -/
def NeverStale : Prop :=
  ∀ n i j w w', History versions n w → n ≤ i → i ≤ j →
    Exec machine judgedDownload { w with remote := servedAt versions i j }
      (.finished (.ok .upToDate) w') →
    ∃ d, w'.dir .target = some d ∧ (versions i).Content d

/-- The bundle that a call leaves with the validators of `a` and the files of `b` is taken for the
one of `c`, and does not hold its files. -/
def Mistaken (a b c : Version) : Prop :=
  ∃ d, Remote.bundle ⟨some a.headers, some b.body⟩ = some d ∧ Complete d ∧
    IsCurrent d (validators c.headers) ∧ ¬c.Content d

/-- The target holds no validators, or it holds those of a version with the files of this version or
a later one. -/
def Stored (n : ℕ) (w : World) : Prop :=
  ∀ d, w.dir .target = some d → Unmarked d ∨
    ∃ i j, i ≤ j ∧ j ≤ n ∧ (servedAt versions i j).bundle = some d ∧ Complete d

variable {versions}

theorem Stored.mono {n m : ℕ} {w : World} (h : Stored versions n w) (hn : n ≤ m) :
    Stored versions m w := by
  intro d hd
  refine (h d hd).imp_right ?_
  rintro ⟨i, j, hij, hj, hbundle⟩
  exact ⟨i, j, hij, hj.trans hn, hbundle⟩

theorem survives_stored {i j : ℕ} (hij : i ≤ j) :
    Survives (Stored versions j) (servedAt versions i j) where
  same hw hs d hd := hw d (hs.target ▸ hd)
  create {w} _ _ d hd := by
    obtain rfl : ∅ = d := Option.some.inj ((w.setDir_self .target (some ∅)).symm.trans hd)
    exact Or.inl ⟨AList.notMem_empty _, AList.notMem_empty _⟩
  park {w} _ d e he := by
    rw [w.moved_dir_source (by decide)] at he
    cases he
  swapIn {w d} _ hcomplete hbundle e he := by
    obtain rfl : d = e := Option.some.inj ((w.moved_dir_self ..).symm.trans he)
    exact Or.inr ⟨i, j, hij, le_rfl, hbundle, hcomplete⟩

/-- **The invariant of the histories**: the files in the target are not older than the validators
beside them. -/
theorem History.stored {n : ℕ} {w : World} (h : History versions n w) : Stored versions n w := by
  induction h with
  | start n w h => exact fun d hd ↦ Or.inl (h d hd)
  | @call n i j w out _ hi hj hc ih =>
    have hw : Stored versions j { w with remote := servedAt versions i j } :=
      ih.mono (hi.trans hj)
    exact Ensures.state (guards_download (survives_stored hj) hw) hc

theorem not_isCurrent_of_unmarked {d : Dir} (h : Unmarked d) (v : Option String × Option String) :
    ¬IsCurrent d v := by
  rcases v with ⟨_ | etag, _ | modified⟩
  · exact nofun
  · rw [IsCurrent, Dir.text_of_not_mem h.2]
    exact nofun
  · rw [IsCurrent, Dir.text_of_not_mem h.1]
    exact nofun
  · rw [IsCurrent, Dir.text_of_not_mem h.1]
    exact nofun

theorem lookup_withValidator_of_ne {name name' : String} {text : Option String} {d d' : Dir}
    (hname : name' ≠ name) (h : withValidator name text d = some d') :
    d'.lookup name' = d.lookup name' := by
  cases text with
  | none => rw [Option.some.inj h]
  | some text =>
    rw [Dir.write_eq_some h]
    exact AList.lookup_insert_ne hname

/-- What a call leaves beside the validators are the files that it downloads. -/
theorem content_of_bundle {a b : Version} {d : Dir}
    (h : Remote.bundle ⟨some a.headers, some b.body⟩ = some d) : b.Content d := by
  obtain ⟨entries, extracted, tagged, hget, hextracted, htagged, hmarked⟩ := eq_of_bundle rfl h
  refine ⟨entries, extracted, Option.some.inj hget, hextracted, fun name hetag hmodified ↦ ?_⟩
  rw [lookup_withValidator_of_ne hmodified hmarked, lookup_withValidator_of_ne hetag htagged]

theorem legible_of_bundle {a b : Version} {d : Dir}
    (h : Remote.bundle ⟨some a.headers, some b.body⟩ = some d) :
    Legible d (validators a.headers) := by
  obtain ⟨-, extracted, tagged, -, -, htagged, hmarked⟩ := eq_of_bundle rfl h
  rcases hv : validators a.headers with ⟨_ | etag, _ | modified⟩
  · trivial
  · rw [hv] at hmarked
    exact not_directory_of_text (Dir.text_write_self hmarked)
  all_goals
    rw [hv] at htagged
    rw [Legible, lookup_withValidator_of_ne (by decide) hmarked]
    exact not_directory_of_text (Dir.text_write_self htagged)

/-- A bundle that two calls could mistake is mistaken by two calls without a failure. -/
theorem not_neverStale_of_mistaken {i j k : ℕ} (hij : i ≤ j) (hjk : j ≤ k)
    (h : Mistaken (versions i) (versions j) (versions k)) : ¬NeverStale versions := by
  obtain ⟨d, hbundle, hcomplete, hcurrent, hnot⟩ := h
  intro hnever
  let w₀ : World := { dir := fun p ↦ if p = .target then some ∅ else none, remote := ⟨none, none⟩ }
  have hstart : History versions i w₀ := by
    refine .start i w₀ fun e he ↦ ?_
    obtain rfl : ∅ = e := Option.some.inj he
    exact ⟨AList.notMem_empty _, AList.notMem_empty _⟩
  obtain ⟨out, hout, -, htarget⟩ := exists_exec_of_replaces
    (w := { w₀ with remote := servedAt versions i j }) (e := ∅) (d := d) rfl
    ⟨(versions i).headers, rfl, hbundle, legible_empty _, not_isCurrent_empty _, hcomplete⟩
  have hstored : History versions j out.state := hstart.call le_rfl hij hout
  obtain ⟨v, w', heval, rfl, rfl⟩ := returns_judgedDownload
    (w := { out.state with remote := servedAt versions k k }) htarget rfl hcurrent
  have hexec := exec_eval machine judgedDownload
    { out.state with remote := servedAt versions k k }
  rw [heval] at hexec
  obtain ⟨e, he, hcontent⟩ := hnever j k k out.state _ hstored hjk le_rfl hexec
  obtain rfl : d = e := Option.some.inj (htarget.symm.trans he)
  exact hnot hcontent

theorem neverStale_of_not_mistaken (h : ∀ i j k, i ≤ j → j < k →
    ¬Mistaken (versions i) (versions j) (versions k)) : NeverStale versions := by
  intro n i j w w' hw hi hj hexec
  obtain ⟨headers, d, hhead, htarget, htarget', hcurrent⟩ := matched_of_exec hexec
  obtain rfl : (versions i).headers = headers := Option.some.inj hhead
  refine ⟨d, htarget', ?_⟩
  obtain hunmarked | ⟨a, b, hab, hb, hbundle, hcomplete⟩ := hw.stored d htarget
  · exact absurd hcurrent (not_isCurrent_of_unmarked hunmarked _)
  · rcases (hb.trans hi).eq_or_lt with rfl | hlt
    · exact content_of_bundle hbundle
    · by_contra hnot
      exact h a b i hab hlt ⟨d, hbundle, hcomplete, hcurrent, hnot⟩

/-- **No call pins a stale bundle exactly if no stored bundle passes for a later version**: none
that a call leaves, with the validators of one version and the files of this version or a later
one. -/
theorem neverStale_iff : NeverStale versions ↔
    ∀ i j k, i ≤ j → j < k → ¬Mistaken (versions i) (versions j) (versions k) :=
  ⟨fun h _ _ _ hij hjk hmistaken ↦ not_neverStale_of_mistaken hij hjk.le hmistaken h,
    neverStale_of_not_mistaken⟩

end

/-! ## Ordinary entity tags -/

/-- What `strip` leaves of a text whose middle begins and ends with other characters. -/
theorem strip_of_ends {chars : List ℕ} {pre mid post : List Char}
    (hpre : ∀ c ∈ pre, c.toNat ∈ chars) (hpost : ∀ c ∈ post, c.toNat ∈ chars) (hmid : mid ≠ [])
    (hhead : ∀ c, mid.head? = some c → c.toNat ∉ chars)
    (hlast : ∀ c, mid.getLast? = some c → c.toNat ∉ chars) :
    strip chars (String.ofList (pre ++ mid ++ post)) = String.ofList mid := by
  have hdrop {l m : List Char} (hl : ∀ c ∈ l, c.toNat ∈ chars)
      (hm : ∀ c, m.head? = some c → c.toNat ∉ chars) :
      (l ++ m).dropWhile (fun c ↦ c.toNat ∈ chars) = m := by
    rw [List.dropWhile_append_of_pos fun c hc ↦ decide_eq_true (hl c hc)]
    cases m with
    | nil => rfl
    | cons c m => exact List.dropWhile_cons_of_neg fun h ↦ hm c rfl (of_decide_eq_true h)
  have hmid' : (mid ++ post).head? = mid.head? := by
    rw [List.head?_append_of_ne_nil _ hmid]
  rw [strip, String.toList_ofList, List.append_assoc]
  simp only [hdrop hpre (fun c hc ↦ hhead c (hmid' ▸ hc)), List.reverse_append,
    hdrop (fun c hc ↦ hpost c (List.mem_reverse.mp hc))
      (fun c hc ↦ hlast c (List.head?_reverse ▸ hc)), List.reverse_reverse]

/-- An entity tag. A weak one has a prefix before the quotes. -/
def entityTag (weak : Bool) (t : String) : String :=
  (if weak then "W/" else "") ++ "\"" ++ t ++ "\""

/-- What stands between the quotes is not empty, and has neither quotes nor white space. -/
def Visible (t : String) : Prop := t ≠ "" ∧ ∀ c ∈ t.toList, c.toNat ≠ 34 ∧ c.toNat ∉ spaces

/-- An entity tag without its quotes. The quote after the prefix of a weak one stays. -/
def unquoted (weak : Bool) (t : String) : String := (if weak then "W/\"" else "") ++ t

section

variable {weak weak' : Bool} {t t' : String}

theorem Visible.unquoted_ends (h : Visible t) (weak : Bool) : (unquoted weak t).toList ≠ [] ∧
    (∀ c, (unquoted weak t).toList.head? = some c → c.toNat ≠ 34 ∧ c.toNat ∉ spaces) ∧
    ∀ c, (unquoted weak t).toList.getLast? = some c → c.toNat ≠ 34 ∧ c.toNat ∉ spaces := by
  have hne : t.toList ≠ [] := fun hnil ↦ h.1 (String.toList_inj.mp hnil)
  rw [unquoted, String.toList_append]
  refine ⟨List.append_ne_nil_of_right_ne_nil _ hne, fun c hc ↦ ?_, fun c hc ↦ ?_⟩
  · cases weak with
    | false => exact h.2 c (List.mem_of_mem_head? hc)
    | true =>
      obtain rfl : Char.ofNat 87 = c := Option.some.inj hc
      decide
  · rw [List.getLast?_append_of_ne_nil _ hne] at hc
    exact h.2 c (List.mem_of_getLast? hc)

theorem Visible.strip_entityTag (h : Visible t) :
    strip [34] (entityTag weak t) = unquoted weak t := by
  obtain ⟨hne, hhead, hlast⟩ := h.unquoted_ends weak
  have hmark : ∀ c ∈ "\"".toList, c.toNat ∈ [34] := by simp
  have hpre : ∀ c ∈ (if weak then [] else "\"".toList), c.toNat ∈ [34] := by
    cases weak
    · exact hmark
    · exact fun c hc ↦ absurd hc List.not_mem_nil
  have hsplit : entityTag weak t = String.ofList ((if weak then [] else "\"".toList) ++
      (unquoted weak t).toList ++ "\"".toList) := by
    rw [← String.toList_inj]
    cases weak <;> simp [entityTag, unquoted]
  rw [hsplit, strip_of_ends hpre hmark hne (fun c hc ↦ ?_) fun c hc ↦ ?_,
    String.ofList_toList]
  · exact List.mem_singleton.not.mpr (hhead c hc).1
  · exact List.mem_singleton.not.mpr (hlast c hc).1

theorem Visible.strip_unquoted (h : Visible t) :
    strip spaces (unquoted weak t) = unquoted weak t := by
  obtain ⟨hne, hhead, hlast⟩ := h.unquoted_ends weak
  have hnil : ∀ c ∈ ([] : List Char), c.toNat ∈ spaces := fun c hc ↦ absurd hc List.not_mem_nil
  have h := strip_of_ends hnil hnil hne (fun c hc ↦ (hhead c hc).2) fun c hc ↦ (hlast c hc).2
  rwa [List.nil_append, List.append_nil, String.ofList_toList] at h

theorem Visible.unquoted_inj (h : Visible t) (h' : Visible t')
    (heq : unquoted weak t = unquoted weak' t') : entityTag weak t = entityTag weak' t' := by
  -- only a weak tag keeps a quote, the one after its `W/`
  have hquote {s : String} (hs : Visible s) (u : String) : s ≠ "W/\"" ++ u := by
    rintro rfl
    exact (hs.2 (Char.ofNat 34) (by simp)).1 rfl
  rw [unquoted, unquoted] at heq
  cases weak with
  | false =>
    cases weak' with
    | false =>
      obtain rfl : t = t' := by simpa using heq
      rfl
    | true => exact absurd (by simpa using heq) (hquote h t')
  | true =>
    cases weak' with
    | false => exact absurd (by simpa using heq.symm) (hquote h' t)
    | true =>
      obtain rfl : t = t' := by simpa using heq
      rfl

theorem validators_of_entityTag {v : Version} (h : Visible t) (hv : v.etag = entityTag weak t) :
    (validators v.headers).1 = some (unquoted weak t) := by
  have hne : unquoted weak t ≠ "" := fun hempty ↦
    (h.unquoted_ends weak).1 (congrArg String.toList hempty)
  have hetag : strip [34] (v.headers.etag.getD "") = unquoted weak t := by
    rw [Version.headers, hv]
    exact h.strip_entityTag
  rw [validators, hetag, orNone, if_neg hne]

theorem text_etag_of_bundle {a b : Version} {d : Dir} {text : String}
    (h : Remote.bundle ⟨some a.headers, some b.body⟩ = some d)
    (htext : (validators a.headers).1 = some text) : d.text ".etag" = some text := by
  obtain ⟨-, extracted, tagged, -, -, htagged, hmarked⟩ := eq_of_bundle rfl h
  rw [htext] at htagged
  rw [Dir.text, lookup_withValidator_of_ne (by decide) hmarked]
  exact Dir.text_write_self htagged

/-- **Ordinary entity tags pin nothing**: fresh ones stay apart when they are stored and read
back. -/
theorem neverStale_of_entityTags {versions : ℕ → Version}
    (h : ∀ n, ∃ weak t, Visible t ∧ (versions n).etag = entityTag weak t)
    (hfresh : Fresh versions) : NeverStale versions := by
  refine neverStale_of_not_mistaken fun i j k hij hjk ↦ ?_
  rintro ⟨d, hbundle, -, hcurrent, -⟩
  obtain ⟨weak, t, ht, htag⟩ := h i
  obtain ⟨weak', t', ht', htag'⟩ := h k
  rcases hv : validators (versions k).headers with ⟨etag, modified⟩
  obtain rfl : etag = some (unquoted weak' t') := by
    rw [← validators_of_entityTag ht' htag', hv]
  rw [hv, IsCurrent, text_etag_of_bundle hbundle (validators_of_entityTag ht htag),
    Option.map_some, ht.strip_unquoted] at hcurrent
  have hsame : (versions i).etag = (versions k).etag := by
    rw [htag, htag']
    exact ht.unquoted_inj ht' (Option.some.inj hcurrent)
  exact absurd (hfresh.etag hsame) (by omega)

end

/-! ## An ETag that ends with white space -/

/-- The first ETag ends with a no-break space before its quote, and the second is the same without
it. -/
def spacedVersions : ℕ → Version
  | 0 => ⟨entityTag false "v\u00a0", "m", some (bundleWith "old")⟩
  | n + 1 => ⟨entityTag false (String.ofList (List.replicate (n + 1) (Char.ofNat 118))),
      String.ofList (List.replicate (n + 2) (Char.ofNat 109)), some (bundleWith "new")⟩

theorem fresh_spacedVersions : Fresh spacedVersions := by
  have hspaced (n : ℕ) : entityTag false "v\u00a0" ≠
      entityTag false (String.ofList (List.replicate (n + 1) (Char.ofNat 118))) := by
    intro h
    have hmem : Char.ofNat 160 ∈ (entityTag false "v\u00a0").toList := by decide
    rw [h] at hmem
    simp [entityTag, List.mem_replicate] at hmem
  constructor
  · rintro (_ | n) (_ | m) h
    · rfl
    · exact absurd h (hspaced m)
    · exact absurd h.symm (hspaced n)
    · have hlength := congrArg String.length h
      simpa [spacedVersions, entityTag, String.length_append] using hlength
  · intro n m h
    have hlength (k : ℕ) : (spacedVersions k).lastModified.length = k + 1 := by
      cases k with
      | zero => rfl
      | succ k => rw [spacedVersions, String.length_ofList, List.length_replicate]
    exact Nat.succ.inj ((hlength n).symm.trans ((congrArg String.length h).trans (hlength m)))

/-- The bundle of the first call. -/
def spacedBundle : Dir :=
  ((unpacked "old").insert ".etag" (.file "v\u00a0")).insert ".last_modified" (.file "m")

/-- After the second publication the first call's bundle is taken for current. -/
theorem not_neverStale_spaced : Fresh spacedVersions ∧ ¬NeverStale spacedVersions := by
  refine ⟨fresh_spacedVersions, not_neverStale_of_mistaken (i := 0) (j := 0) (k := 1) le_rfl
    (by decide) ?_⟩
  refine ⟨spacedBundle, ?_, by decide, by decide, ?_⟩
  · have hvalidators : validators (spacedVersions 0).headers = (some "v\u00a0", some "m") := by
      decide
    have hnames : (bundleWith "old").map Prod.fst = requiredFiles := rfl
    exact bundle_of_requiredFiles rfl rfl hnames hvalidators
  · rintro ⟨entries, extracted, hbody, hextracted, hcontent⟩
    obtain rfl : bundleWith "new" = entries := Option.some.inj hbody
    have hplain : ∀ e ∈ bundleWith "new", Plain e.1 := by decide
    obtain ⟨hnew, -⟩ := extract_of_plain hplain
    obtain rfl := Option.some.inj (hnew.symm.trans hextracted)
    exact absurd (hcontent "stops.txt" (by decide) (by decide)) (by decide)

end GtfsStream.GtfsStatic
