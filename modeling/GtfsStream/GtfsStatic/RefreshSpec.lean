import GtfsStream.GtfsStatic.Refresh

/-!
# What a refresh keeps

Most calls on the directories leave the target and the renames alone (`Spares`), so an invariant of
a refresh has to survive only the creation of a missing target at the beginning and the two renames
of the swap (`Survives`), and `guards_download` says so once for every such invariant.

The first one is `Held`: as long as the last rename made was not the first one of a swap, the target
holds a complete bundle, and otherwise the target is missing or empty.

## Dead or alive

A call may fail or be the last of the process. The invariant is kept at every step, so it holds
wherever the process dies, and the next process starts from there. Between the two renames of a swap
the target is missing; the first thing that the next call does is to create it, empty, before it
looks whether there is something to recover. So the recovery finds a target and does nothing, and
the parked bundle is not put back.
-/

namespace GtfsStream.GtfsStatic

open Program Op

/-- A bundle with a validator written to it, if there is one. -/
def withValidator (name : String) (text : Option String) (d : Dir) : Option Dir :=
  text.elim (some d) fun t ↦ d.write name t

/-- The bundle that a call extracts, with the validators it writes to it. -/
def Remote.bundle (r : Remote) : Option Dir :=
  match r.head, r.get with
  | some h, some (some entries) => do
    let d ← extract entries
    let d ← withValidator ".etag" (validators h).1 d
    withValidator ".last_modified" (validators h).2 d
  | _, _ => none

/-- The target holds a complete bundle: the one it started with, or one that a call extracted. -/
def Kept (d₀ : Dir) (rs : List Remote) (w : World) : Prop :=
  ∃ d, w.dir .target = some d ∧ Complete d ∧ (d = d₀ ∨ ∃ r ∈ rs, r.bundle = some d)

/-- The last rename made is the first one of a swap. -/
def Parked (w : World) : Prop := w.renames.getLast? = some (.target, .old)

/-- The invariant of all calls. While the bundle is parked the target is missing or empty. -/
structure Held (d₀ : Dir) (rs : List Remote) (w : World) : Prop where
  kept : ¬Parked w → Kept d₀ rs w
  parked : Parked w → ∀ d, w.dir .target = some d → d = ∅

/-- `w'` differs from `w` in the parked bundle and the staging directory only. -/
structure World.Same (w w' : World) : Prop where
  target : w'.dir .target = w.dir .target
  renames : w'.renames = w.renames
  remote : w'.remote = w.remote

theorem World.Same.refl (w : World) : w.Same w := ⟨rfl, rfl, rfl⟩

theorem World.Same.trans {w₁ w₂ w₃ : World} (h : w₁.Same w₂) (h' : w₂.Same w₃) : w₁.Same w₃ :=
  ⟨h'.target.trans h.target, h'.renames.trans h.renames, h'.remote.trans h.remote⟩

theorem Held.congr {d₀ : Dir} {rs : List Remote} {w w' : World} (h : Held d₀ rs w)
    (ht : w'.dir .target = w.dir .target) (hr : w'.renames = w.renames) : Held d₀ rs w' := by
  have hp : Parked w' ↔ Parked w := by rw [Parked, Parked, hr]
  refine ⟨fun hn ↦ ?_, fun hpark d hd ↦ h.parked (hp.mp hpark) d (ht.symm.trans hd)⟩
  obtain ⟨d, hd, hk⟩ := h.kept (mt hp.mpr hn)
  exact ⟨d, ht.trans hd, hk⟩

theorem Held.same {d₀ : Dir} {rs : List Remote} {w w' : World} (h : Held d₀ rs w)
    (hs : w.Same w') : Held d₀ rs w' := h.congr hs.target hs.renames

/-- **Exactness of the invariant.** An empty directory is no complete bundle. -/
theorem Held.kept_iff_not_parked {d₀ : Dir} {rs : List Remote} {w : World} (h : Held d₀ rs w) :
    Kept d₀ rs w ↔ ¬Parked w := by
  refine ⟨fun ⟨d, hd, hcomplete, _⟩ hpark ↦ ?_, h.kept⟩
  rw [h.parked hpark d hd] at hcomplete
  exact absurd (hcomplete "stops.txt" (by decide)) (by decide)

/-! ## Triples that keep the target -/

/-- Started in `w`, the program ends with `Q`, and if it fails or dies the target, the renames and
the remote side are still those of `w₀`. -/
def Spares {α : Type} (w₀ : World) (Q : α → World → Prop) (p : RefreshIO α) (w : World) : Prop :=
  p.Ensures machine Q (fun _ w' ↦ w₀.Same w') (w₀.Same ·) w

section

variable {w₀ w : World} {α β : Type}

theorem Spares.bind {Q : α → World → Prop} {R : β → World → Prop} {p : RefreshIO α}
    {f : α → RefreshIO β} (h : Spares w₀ Q p w) (hf : ∀ a w', Q a w' → Spares w₀ R (f a) w') :
    Spares w₀ R (p.bind f) w := Ensures.bind h hf

/-- The calls that leave the target and the renames alone. -/
def Op.Harmless : Op → Prop
  | .mkdir p => p ≠ .target
  | .rmtree p => p ≠ .target
  | .writeText p _ _ => p = .contents
  | .rename _ _ => False
  | _ => True

theorem same_setDir {p : Place} (hp : p ≠ .target) (hs : w₀.Same w) (d : Option Dir) :
    w₀.Same (w.setDir p d) :=
  ⟨(w.setDir_of_ne hp.symm d).trans hs.target, hs.renames, hs.remote⟩

theorem same_cut {o : Op} (ho : o.Harmless) (hs : w₀.Same w) {w' : World} (h : o.Cut w w') :
    w₀.Same w' := by
  have hcontents (c : Option Dir) (z : Option (Option (List (String × String)))) :
      w₀.Same { w.setDir .contents c with zip := z } :=
    have h := same_setDir (p := .contents) nofun hs c
    ⟨h.target, h.renames, h.remote⟩
  cases o with
  | rmtree p =>
    rcases h with rfl | ⟨d, d', -, -, rfl⟩
    · exact hs
    · exact same_setDir ho hs _
  | writeText p name text =>
    obtain rfl : p = .contents := ho
    obtain ⟨c, z, rfl⟩ := h
    exact hcontents c z
  | mkdtemp | cleanup | get | extractall =>
    obtain ⟨c, z, rfl⟩ := h
    exact hcontents c z
  | rename p q => exact ho.elim
  | _ =>
    obtain rfl : w' = w := h
    exact hs

theorem same_apply {o : Op} (ho : o.Harmless) (hs : w₀.Same w) : w₀.Same (o.apply w).2 := by
  have hstaging (d : Option Dir) : w₀.Same { w.setDir .contents d with zip := none } :=
    have h := same_setDir (p := .contents) nofun hs d
    ⟨h.target, h.renames, h.remote⟩
  cases o with
  | mkdir p =>
    rw [Op.apply]
    cases w.dir p with
    | none => exact same_setDir ho hs _
    | some d => exact hs
  | rmtree p =>
    rw [Op.apply]
    cases w.dir p with
    | none => exact hs
    | some d => exact same_setDir ho hs _
  | writeText p name text =>
    obtain rfl : p = .contents := ho
    rw [Op.apply]
    split
    · exact same_setDir (p := .contents) nofun hs _
    · exact hs
  | rename p q => exact ho.elim
  | mkdtemp => exact hstaging none
  | cleanup => exact hstaging none
  | readText p name => rw [Op.apply]; split <;> exact hs
  | head => rw [Op.apply]; split <;> exact hs
  | get => rw [Op.apply]; split <;> exact ⟨hs.target, hs.renames, hs.remote⟩
  | extractall =>
    rw [Op.apply]
    split
    · split
      · exact same_setDir (p := .contents) nofun hs _
      · exact hs
    · exact hs
    · exact hs
  | «exists» p => exact hs
  | fileExists p name => exact hs

theorem spares_sys (o : Op) (ho : o.Harmless) (hs : w₀.Same w) {Q : o.Ret → World → Prop}
    (hQ : ∀ a, (o.apply w).1 = .ok a → w₀.Same (o.apply w).2 → Q a (o.apply w).2) :
    Spares w₀ Q (sys o) w := by
  rw [Spares, Ensures, sys, wp_perform]
  refine ⟨?_, ?_, fun w' h ↦ same_cut ho hs h⟩
  · rw [show machine.apply o w = o.apply w from rfl]
    have hsame := same_apply ho hs
    cases h : (o.apply w).1 with
    | error e => exact hsame
    | ok a => exact hQ a h hsame
  · rintro r w' ⟨⟨e, rfl⟩, h⟩
    exact same_cut ho hs h

theorem spares_sys' (o : Op) (ho : o.Harmless) (hs : w₀.Same w) :
    Spares w₀ (fun _ w' ↦ w₀.Same w') (sys o) w :=
  spares_sys o ho hs fun _ _ h ↦ h

end

/-! ## The parts of a call -/

section

variable {w₀ w : World}

theorem spares_fetchValidators (hs : w₀.Same w) :
    Spares w₀ (fun v w' ↦ w₀.Same w' ∧ ∃ h, w₀.remote.head = some h ∧ v = validators h)
      fetchValidators w := by
  refine (spares_sys .head trivial hs (Q := fun h w' ↦ w₀.Same w' ∧ w₀.remote.head = some h)
    fun h hok hsame ↦ ⟨hsame, ?_⟩).bind fun h w' hw' ↦ Ensures.done ⟨hw'.1, h, hw'.2, rfl⟩
  rw [← hs.remote]
  rw [Op.apply] at hok
  cases hhead : w.remote.head with
  | none => rw [hhead] at hok; cases hok
  | some g => rw [hhead] at hok; cases hok; rfl

theorem spares_readValidator (hs : w₀.Same w) (name : String) :
    Spares w₀ (fun _ w' ↦ w₀.Same w') (readValidator name) w := by
  refine (spares_sys' (.fileExists .target name) trivial hs).bind fun there w' hs' ↦ ?_
  cases there with
  | true => exact (spares_sys' (.readText .target name) trivial hs').bind fun _ _ h ↦ h
  | false => exact Ensures.done hs'

theorem spares_bundleIsCurrent (hs : w₀.Same w) (etag modified : Option String) :
    Spares w₀ (fun _ w' ↦ w₀.Same w') (bundleIsCurrent etag modified) w := by
  rcases etag with _ | etag
  · rcases modified with _ | modified
    · exact Ensures.done hs
    · exact (spares_readValidator hs _).bind fun _ _ h ↦ h
  · exact (spares_readValidator hs _).bind fun _ _ h ↦ h

/-- The staged bundle is `d`. -/
def Staged (w₀ : World) (d : Dir) (w : World) : Prop := w₀.Same w ∧ w.dir .contents = some d

theorem spares_missingFiles {d : Dir} (fns : List String) (h : Staged w₀ d w) :
    Spares w₀ (fun missing w' ↦ Staged w₀ d w' ∧ (missing = [] → ∀ fn ∈ fns, fn ∈ d))
      (missingFiles fns) w := by
  induction fns generalizing w with
  | nil => exact Ensures.done ⟨h, fun _ _ hfn ↦ absurd hfn List.not_mem_nil⟩
  | cons fn fns ih =>
    refine (spares_sys (.fileExists .contents fn) trivial h.1 (Q := fun there w' ↦
      Staged w₀ d w' ∧ there = decide (fn ∈ d)) fun there hok _ ↦ ⟨h, ?_⟩).bind ?_
    · rw [Op.apply, h.2] at hok
      exact (Except.ok.inj hok).symm
    · rintro there w' ⟨hw', hthere⟩
      refine (ih hw').bind ?_
      rintro missing w'' ⟨hw'', hmissing⟩
      refine Ensures.done ⟨hw'', fun hnil ↦ ?_⟩
      cases there with
      | false => cases hnil
      | true =>
        intro f hf
        rcases List.mem_cons.mp hf with rfl | hf
        · exact of_decide_eq_true hthere.symm
        · exact hmissing hnil f hf

theorem spares_writeValidator {d : Dir} (name : String) (text : Option String)
    (h : Staged w₀ d w) :
    Spares w₀ (fun _ w' ↦ ∃ d', withValidator name text d = some d' ∧ Staged w₀ d' w')
      (writeValidator name text) w := by
  rcases text with _ | text
  · exact Ensures.done ⟨d, rfl, h⟩
  · refine spares_sys (.writeText .contents name text) rfl h.1 fun _ hok hsame ↦ ?_
    rw [Op.apply, h.2, Option.bind_some] at hok hsame ⊢
    cases hwrite : d.write name text with
    | none =>
      rw [hwrite] at hok
      cases hok
    | some d' =>
      rw [hwrite] at hsame
      exact ⟨d', hwrite, hsame, World.setDir_self ..⟩

end

/-! ## The swap -/

section

variable {I : World → Prop} {r : Remote} {w : World}

/-- What an invariant of a call has to survive: the calls that leave the target alone, the creation
of a missing target, and the two renames of the swap. -/
structure Survives (I : World → Prop) (r : Remote) : Prop where
  same {w w' : World} : I w → w.Same w' → I w'
  create {w : World} : I w → w.dir .target = none → I (w.setDir .target (some ∅))
  park {w : World} : I w → ∀ d, I (w.moved .target .old d)
  swapIn {w : World} {d : Dir} : I w → Complete d → r.bundle = some d →
    I (w.moved .contents .target d)

/-- Started in `w`, the program ends with `Q`, and wherever it fails or dies `I` holds. -/
def Guards {α : Type} (I : World → Prop) (Q : α → World → Prop) (p : RefreshIO α) (w : World) :
    Prop := p.Ensures machine Q (fun _ ↦ I) I w

theorem Guards.bind {α β : Type} {Q : α → World → Prop} {R : β → World → Prop} {p : RefreshIO α}
    {f : α → RefreshIO β} (h : Guards I Q p w) (hf : ∀ a w', Q a w' → Guards I R (f a) w') :
    Guards I R (p.bind f) w := Ensures.bind h hf

theorem Spares.guards {α : Type} {Q : α → World → Prop} {p : RefreshIO α} {w₀ : World}
    (h : Spares w₀ Q p w) (hI : Survives I r) (hw₀ : I w₀) : Guards I Q p w :=
  Ensures.weaken h (fun _ _ hq ↦ hq) (fun _ _ hs ↦ hI.same hw₀ hs) fun _ hs ↦ hI.same hw₀ hs

theorem guards_sys (o : Op) {Q : o.Ret → World → Prop}
    (hok : ∀ a, (o.apply w).1 = .ok a → Q a (o.apply w).2)
    (herror : ∀ e, (o.apply w).1 = .error e → I (o.apply w).2)
    (hcut : ∀ w', o.Cut w w' → I w') : Guards I Q (sys o) w := by
  rw [Guards, Ensures, sys, wp_perform]
  refine ⟨?_, ?_, hcut⟩
  · rw [show machine.apply o w = o.apply w from rfl]
    cases h : (o.apply w).1 with
    | error e => exact herror e h
    | ok a => exact hok a h
  · rintro r w' ⟨⟨e, rfl⟩, h⟩
    exact hcut w' h

theorem guards_rename (p q : Place) (hw : I w) {Q : Unit → World → Prop}
    (hQ : ∀ d, w.dir p = some d → Q () (w.moved p q d)) :
    Guards I Q (sys (.rename p q)) w := by
  have hcases : (∃ d, w.dir p = some d ∧ (Op.rename p q).apply w = (.ok (), w.moved p q d)) ∨
      ∃ e, (Op.rename p q).apply w = (.error e, w) := by
    rw [Op.apply]
    rcases hd : w.dir p with _ | d
    · exact Or.inr ⟨_, rfl⟩
    · dsimp only
      by_cases hq : (w.dir q).all fun e ↦ e.entries.isEmpty
      · rw [if_pos hq]
        exact Or.inl ⟨d, rfl, rfl⟩
      · rw [if_neg hq]
        exact Or.inr ⟨_, rfl⟩
  refine guards_sys (.rename p q) (fun a ha ↦ ?_) (fun e he ↦ ?_) fun w' h ↦ ?_
  · rcases hcases with ⟨d, hd, happly⟩ | ⟨e, happly⟩
    · rw [happly]
      exact hQ d hd
    · rw [happly] at ha
      cases ha
  · rcases hcases with ⟨d, -, happly⟩ | ⟨e', happly⟩
    · rw [happly] at he
      cases he
    · rw [happly]
      exact hw
  · obtain rfl : w' = w := h
    exact hw

theorem guards_exists (p : Place) (hw : I w) {Q : Bool → World → Prop}
    (hQ : Q (w.dir p).isSome w) : Guards I Q (sys (.exists p)) w := by
  refine guards_sys (.exists p) (fun a ha ↦ ?_) (fun e he ↦ nomatch he) fun w' h ↦ ?_
  · obtain rfl : (w.dir p).isSome = a := Except.ok.inj ha
    exact hQ
  · obtain rfl : w' = w := h
    exact hw

theorem guards_rmtreeOld (hI : Survives I r) (hw : I w) : Guards I (fun _ w' ↦ w.Same w' ∧
    w'.dir .contents = w.dir .contents) rmtreeOld w := by
  refine (guards_exists .old hw (Q := fun _ w' ↦ w = w') rfl).bind ?_
  rintro old _ rfl
  refine Ensures.runIf (fun _ ↦ ?_) fun _ ↦ ⟨World.Same.refl _, rfl⟩
  refine (spares_sys (.rmtree .old) nofun (World.Same.refl _)
    fun _ _ hsame ↦ ⟨hsame, ?_⟩).guards hI hw
  rw [Op.apply]
  split
  · exact World.setDir_of_ne (p := .old) (q := .contents) _ nofun _
  · rfl

/-- **The swap keeps the invariant.** -/
theorem guards_swapIntoPlace {d : Dir} (hI : Survives I r) (hw : I w)
    (hd : w.dir .contents = some d) (hcomplete : Complete d) (hbundle : r.bundle = some d) :
    Guards I (fun _ ↦ I) swapIntoPlace w := by
  refine (guards_rmtreeOld hI hw).bind ?_
  rintro _ w₁ ⟨hsame₁, hcontents₁⟩
  have hw₁ := hI.same hw hsame₁
  refine (guards_exists .target hw₁ (Q := fun _ w' ↦ w₁ = w') rfl).bind ?_
  rintro target _ rfl
  have hpark : Guards I (fun _ w' ↦ I w' ∧ w'.dir .contents = some d)
      (runIf target (sys (.rename .target .old))) w₁ := by
    refine Ensures.runIf (fun _ ↦ ?_) fun _ ↦ ⟨hw₁, hcontents₁.trans hd⟩
    refine guards_rename .target .old hw₁ fun e _ ↦ ⟨hI.park hw₁ e, ?_⟩
    rw [World.moved_dir_of_ne (p := .target) (q := .old) (r := .contents) w₁ nofun nofun,
      hcontents₁,
      hd]
  refine hpark.bind ?_
  rintro _ w₂ ⟨hw₂, hcontents₂⟩
  refine (guards_rename .contents .target hw₂ (Q := fun _ ↦ I) fun e he ↦ ?_).bind ?_
  · obtain rfl : d = e := Option.some.inj (hcontents₂.symm.trans he)
    exact hI.swapIn hw₂ hcomplete hbundle
  · intro _ w₃ hw₃
    exact Ensures.mono (guards_rmtreeOld hI hw₃) fun _ _ h ↦ hI.same hw₃ h.1

/-! ## A call -/

theorem complete_withValidator {d d' : Dir} {name : String} {text : Option String}
    (h : Complete d) (hd' : withValidator name text d = some d') : Complete d' := by
  intro fn hfn
  rcases text with _ | text
  · exact Option.some.inj hd' ▸ h fn hfn
  · rw [Dir.write_eq_some hd']
    exact (AList.mem_insert _).mpr (Or.inr (h fn hfn))

/-- The staged bundle is the one of the call, and it is swapped in only if it is complete. -/
theorem guards_stageAndSwap {h : Headers} {etag modified : Option String} (hI : Survives I w.remote)
    (hw : I w) (hhead : w.remote.head = some h)
    (hv : validators h = (etag, modified)) :
    Guards I (fun _ ↦ I) (stageAndSwap etag modified) w := by
  have hmkdir := spares_sys' (.mkdir .contents) nofun (World.Same.refl w)
  refine (hmkdir.guards hI hw).bind fun _ w₁ h₁ ↦ ?_
  have hget : Spares w (fun _ w' ↦ w.Same w' ∧ ∃ z, w.remote.get = some z ∧ w'.zip = some z)
      (sys .get) w₁ := by
    refine spares_sys .get trivial h₁ fun _ hok hsame ↦ ⟨hsame, ?_⟩
    rw [← h₁.remote]
    rw [Op.apply] at hok ⊢
    cases hz : w₁.remote.get with
    | none => rw [hz] at hok; cases hok
    | some z => exact ⟨z, rfl, rfl⟩
  refine (hget.guards hI hw).bind ?_
  rintro _ w₂ ⟨h₂, z, hz, hzip⟩
  have hextract : Spares w (fun _ w' ↦ ∃ entries d, z = some entries ∧ extract entries = some d ∧
      Staged w d w') (sys .extractall) w₂ := by
    refine spares_sys .extractall trivial h₂ fun _ hok hsame ↦ ?_
    rw [Op.apply, hzip] at hok hsame ⊢
    cases z with
    | none => cases hok
    | some entries =>
      dsimp only at hok hsame ⊢
      cases hd : extract entries with
      | none =>
        rw [hd] at hok
        cases hok
      | some d =>
        rw [hd] at hsame
        exact ⟨entries, d, rfl, hd, hsame, World.setDir_self ..⟩
  refine (hextract.guards hI hw).bind ?_
  rintro _ w₃ ⟨entries, d, rfl, hd, h₃⟩
  refine ((spares_missingFiles requiredFiles h₃).guards hI hw).bind ?_
  rintro missing w₄ ⟨h₄, hmissing⟩
  -- up to here only the temporary directory was touched
  by_cases hnil : missing = []
  · rw [if_neg (not_not.mpr hnil)]
    refine ((spares_writeValidator ".etag" etag h₄).guards hI hw).bind ?_
    rintro _ w₅ ⟨tagged, htagged, h₅⟩
    refine ((spares_writeValidator ".last_modified" modified h₅).guards hI hw).bind ?_
    rintro _ w₆ ⟨marked, hmarked, h₆⟩
    have hcomplete :=
      complete_withValidator (complete_withValidator (hmissing hnil) htagged) hmarked
    refine (guards_swapIntoPlace hI (hI.same hw h₆.1) h₆.2 hcomplete ?_).bind fun _ _ h ↦ h
    rw [Remote.bundle, hhead, hz]
    simp only [hv, hd, Option.bind_eq_bind, Option.bind_some, htagged, hmarked]
  · rw [if_pos hnil]
    exact Ensures.done (hI.same hw h₄.1)

theorem guards_withStaging {body : RefreshIO Bool} (hI : Survives I r) (hw : I w)
    (hbody : ∀ w', w.Same w' → Guards I (fun _ ↦ I) body w') :
    Guards I (fun _ ↦ I) (withStaging body) w := by
  have hcleanup {w' : World} (h : I w') :
      Guards I (fun _ ↦ I) (sys .cleanup) w' :=
    Ensures.mono ((spares_sys' .cleanup trivial (World.Same.refl w')).guards hI h)
      fun _ _ hs ↦ hI.same h hs
  refine ((spares_sys' .mkdtemp trivial (World.Same.refl w)).guards hI hw).bind fun _ w₁ h₁ ↦ ?_
  have hcaught : Guards I (fun _ ↦ I) (body.tryCatch fun e ↦ do
      sys .cleanup
      raise e) w₁ :=
    Ensures.tryCatch (hbody w₁ h₁) fun e w' h ↦ (hcleanup h).bind fun _ _ h ↦ h
  exact hcaught.bind fun _ w₂ h₂ ↦ (hcleanup h₂).bind fun _ _ h ↦ h

theorem guards_refreshBundle (hI : Survives I w.remote) (hw : I w) :
    Guards I (fun _ ↦ I) refreshBundle w := by
  refine ((spares_fetchValidators (World.Same.refl w)).guards hI hw).bind ?_
  rintro ⟨etag, modified⟩ w₁ ⟨h₁, h, hhead, hv⟩
  refine ((spares_bundleIsCurrent h₁ etag modified).guards hI hw).bind fun current w₂ h₂ ↦ ?_
  cases current with
  | true => exact Ensures.done (hI.same hw h₂)
  | false =>
    refine guards_withStaging hI (hI.same hw h₂) fun w₃ h₃ ↦ ?_
    have h₂₃ := h₂.trans h₃
    refine guards_stageAndSwap (h₂₃.remote ▸ hI) (hI.same hw h₂₃) ?_ hv.symm
    rw [h₂₃.remote, hhead]

theorem guards_mkdirTarget (hI : Survives I r) (hw : I w) : Guards I
    (fun _ w' ↦ I w' ∧ w'.remote = w.remote ∧ (w'.dir .target).isSome)
    (sys (.mkdir .target)) w := by
  refine guards_sys (.mkdir .target) (fun _ _ ↦ ?_) (fun e he ↦ nomatch he) fun w' h ↦ ?_
  · rw [Op.apply]
    rcases htarget : w.dir .target with _ | d
    · exact ⟨hI.create hw htarget, rfl, by rw [World.setDir_self]; rfl⟩
    · exact ⟨hw, rfl, by rw [htarget]; rfl⟩
  · obtain rfl : w' = w := h
    exact hw

/-- **The recovery is dead code**: it runs when the target has just been created. -/
theorem guards_recoverParked (hw : I w) (htarget : (w.dir .target).isSome) :
    Guards I (fun _ w' ↦ w = w') recoverParked w := by
  refine (guards_exists .target hw (Q := fun b w' ↦ b = true ∧ w = w') ⟨htarget, rfl⟩).bind ?_
  rintro _ _ ⟨rfl, rfl⟩
  exact Ensures.runIf (fun h ↦ absurd h nofun) fun _ ↦ rfl

/-- **A call keeps every such invariant**, in whatever step it fails or dies. -/
theorem guards_download (hI : Survives I w.remote) (hw : I w) :
    Guards I (fun _ ↦ I) downloadAndExtractGtfs w := by
  refine (guards_mkdirTarget hI hw).bind ?_
  rintro _ w₁ ⟨hw₁, hremote, htarget⟩
  refine (guards_recoverParked hw₁ htarget).bind ?_
  rintro _ _ rfl
  exact Ensures.tryCatch (guards_refreshBundle (hremote ▸ hI) hw₁) fun _ _ h ↦ Ensures.done h

end

/-! ## The working bundle -/

section

variable {d₀ : Dir} {rs : List Remote} {w : World}

theorem survives_held {r : Remote} (hr : r ∈ rs) : Survives (Held d₀ rs) r where
  same hw hs := hw.same hs
  create {w} hw htarget := by
    constructor
    · intro hn
      obtain ⟨d, hd, -⟩ := hw.kept hn
      exact absurd (htarget.symm.trans hd) nofun
    · intro _ d hd
      rw [World.setDir_self] at hd
      exact (Option.some.inj hd).symm
  park {w} _ d := by
    refine ⟨fun hn ↦ absurd (List.getLast?_concat ..) hn, fun _ e he ↦ ?_⟩
    rw [World.moved_dir_source (p := .target) (q := .old) w nofun] at he
    cases he
  swapIn {w d} _ hcomplete hbundle := by
    refine ⟨fun _ ↦ ⟨d, w.moved_dir_self .., hcomplete, Or.inr ⟨r, hr, hbundle⟩⟩, fun hpark ↦ ?_⟩
    rw [Parked, World.moved_renames, List.getLast?_concat] at hpark
    exact absurd hpark (by decide)

/-- Started in `w`, the program ends with `Q`, and wherever it fails or dies the invariant
holds. -/
def Keeps {α : Type} (d₀ : Dir) (rs : List Remote) (Q : α → World → Prop) (p : RefreshIO α)
    (w : World) : Prop :=
  p.Ensures machine Q (fun _ ↦ Held d₀ rs) (Held d₀ rs) w

/-- **A call keeps the invariant**, in whatever step it fails or dies. -/
theorem keeps_download (hw : Held d₀ rs w) (hr : w.remote ∈ rs) :
    Keeps d₀ rs (fun _ ↦ Held d₀ rs) downloadAndExtractGtfs w :=
  guards_download (survives_held hr) hw

end

end GtfsStream.GtfsStatic
