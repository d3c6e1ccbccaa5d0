import GtfsStream.GtfsStatic.Snapshot
import GtfsStream.GtfsStatic.Swap

/-!
# The download gate

`download_and_extract_gtfs` looks for the names of the required files, and `load` at what is in
them. Whatever the failures and crashes of a call are, the target holds a bundle that `load` accepts
exactly if the call swaps nothing in, or the bundle of the remote side is acceptable. The run
without failures swaps in every complete bundle that is not the current one.

## From the calls to the loader

The regular run is followed to its end; every other run is known by what it keeps. Either way the
target is the one before or the bundle of the remote side, the latter only if all required names are
in it and the current bundle is not known to be the same. What the loader makes of a bundle does not
concern the calls: a reading turns the files of a directory into tables, and the gate is as strict
as the loader if what would be swapped in can be loaded. An empty file passes the gate and not the
loader.
-/

namespace GtfsStream.GtfsStatic

open Program Op
open Loader

/-! ## The regular run -/

section

variable {w : World} {d d' e : Dir} {name : String}

theorem returns_sys (o : Op) {a : o.Ret} {v : World} (h : o.apply w = (.ok a, v)) :
    (sys o).Returns machine (fun b w' ↦ a = b ∧ v = w') w := Returns.perform h ⟨rfl, rfl⟩

theorem returns_apply (o : Op) {a : o.Ret} {v : World} {Q : o.Ret → World → Prop}
    (h : o.apply w = (.ok a, v)) (hQ : Q a v) : (sys o).Returns machine Q w :=
  Returns.perform h hQ

theorem returns_exists (p : Place) {b : Bool} (h : (w.dir p).isSome = b) :
    (sys (.exists p)).Returns machine (fun there w' ↦ b = there ∧ w = w') w :=
  returns_sys (.exists p) (congrArg (fun there ↦ (Except.ok there, w)) h)

theorem returns_rename {p q : Place} (hd : w.dir p = some d) (hq : w.dir q = none) :
    (sys (.rename p q)).Returns machine (fun _ w' ↦ w.moved p q d = w') w := by
  refine returns_apply (.rename p q) (a := ()) (v := w.moved p q d) ?_ rfl
  rw [Op.apply, hd, hq]
  rfl

theorem returns_rmtreeOld : rmtreeOld.Returns machine (fun _ w' ↦ w'.dir .old = none ∧
    (∀ p ≠ .old, w'.dir p = w.dir p) ∧ w'.renames = w.renames) w := by
  refine (returns_exists .old rfl).bind ?_
  rintro _ _ ⟨rfl, rfl⟩
  refine Returns.runIf (fun hold ↦ ?_) fun hold ↦ ⟨?_, fun _ _ ↦ rfl, rfl⟩
  · obtain ⟨parked, hparked⟩ := Option.isSome_iff_exists.mp hold
    refine returns_apply (.rmtree .old) (a := ()) (v := w.setDir .old none) ?_
      ⟨World.setDir_self .., fun p hp ↦ World.setDir_of_ne w hp none, rfl⟩
    rw [Op.apply, hparked]
  · exact Option.not_isSome_iff_eq_none.mp hold

theorem returns_swapIntoPlace (htarget : w.dir .target = some e) (hd : w.dir .contents = some d) :
    swapIntoPlace.Returns machine (fun _ w' ↦ w'.dir .target = some d ∧ ¬Parked w') w := by
  refine returns_rmtreeOld.bind ?_
  rintro - w₁ ⟨hold, hdirs, -⟩
  have htarget₁ := (hdirs .target (by decide)).trans htarget
  have hcontents₁ := (hdirs .contents (by decide)).trans hd
  refine (returns_exists .target (b := true) (by rw [htarget₁]; rfl)).bind ?_
  rintro _ _ ⟨rfl, rfl⟩
  refine (Returns.runIf (fun _ ↦ returns_rename htarget₁ hold) fun h ↦ absurd rfl h).bind ?_
  rintro - _ rfl
  have hcontents₂ : (w₁.moved .target .old e).dir .contents = some d :=
    (World.moved_dir_of_ne w₁ (by decide) (by decide) e).trans hcontents₁
  refine (returns_rename hcontents₂ (w₁.moved_dir_source (by decide) e)).bind ?_
  rintro - _ rfl
  obtain ⟨u, w', heval, -, hdirs', hrenames⟩ := returns_rmtreeOld
    (w := (w₁.moved .target .old e).moved .contents .target d)
  refine ⟨u, w', heval, (hdirs' .target (by decide)).trans (World.moved_dir_self ..), ?_⟩
  rw [Parked, hrenames, World.moved_renames, List.getLast?_concat]
  decide

theorem returns_missingFiles {fns : List String} (hd : w.dir .contents = some d)
    (h : ∀ fn ∈ fns, fn ∈ d) :
    (missingFiles fns).Returns machine (fun missing w' ↦ [] = missing ∧ w = w') w := by
  induction fns with
  | nil => exact Returns.done ⟨rfl, rfl⟩
  | cons fn fns ih =>
    obtain ⟨hfn, hfns⟩ := List.forall_mem_cons.mp h
    refine (returns_sys (.fileExists .contents fn) (a := true) (v := w) ?_).bind ?_
    · rw [Op.apply, hd]
      exact congrArg (fun b ↦ (Except.ok b, w)) (decide_eq_true hfn)
    rintro _ _ ⟨rfl, rfl⟩
    refine (ih hfns).bind ?_
    rintro _ _ ⟨rfl, rfl⟩
    exact Returns.done ⟨rfl, rfl⟩

theorem returns_writeValidator {name : String} {text : Option String}
    (htarget : w.dir .target = some e) (hd : w.dir .contents = some d)
    (hd' : withValidator name text d = some d') :
    (writeValidator name text).Returns machine (fun _ w' ↦ w'.dir .target = some e ∧
      w'.dir .contents = some d') w := by
  cases text with
  | none => exact Returns.done ⟨htarget, hd.trans hd'⟩
  | some text =>
    refine returns_apply (.writeText .contents name text) (a := ())
      (v := w.setDir .contents (some d')) ?_
      ⟨(World.setDir_of_ne w (by decide) _).trans htarget, World.setDir_self ..⟩
    rw [Op.apply, hd, Option.bind_some, show d.write name text = some d' from hd']

theorem returns_download {entries : List (String × String)} {β : Type}
    {Q : β → World → Prop} {p : RefreshIO β} (htarget : w.dir .target = some e)
    (hnew : w.dir .contents = none) (hget : w.remote.get = some (some entries))
    (hd : extract entries = some d)
    (hp : ∀ w', w'.dir .target = some e → w'.dir .contents = some d →
      p.Returns machine Q w') :
    Program.Returns machine Q (do
      sys (.mkdir .contents)
      sys .get
      sys .extractall
      p) w := by
  have hstaged : (w.setDir .contents (some ∅)).dir .target = some e :=
    (World.setDir_of_ne w (by decide) _).trans htarget
  refine (returns_sys (.mkdir .contents) (a := ()) (v := w.setDir .contents (some ∅)) ?_).bind ?_
  · rw [Op.apply, hnew]
  rintro - _ ⟨-, rfl⟩
  refine (returns_sys .get (a := ()) (v := { w.setDir .contents (some ∅) with
    zip := some (some entries) }) ?_).bind ?_
  · rw [Op.apply, show (w.setDir .contents (some ∅)).remote.get = some (some entries) from hget]
  rintro - _ ⟨-, rfl⟩
  have hextract : Op.extractall.apply { w.setDir .contents (some ∅) with
      zip := some (some entries) } = (.ok (), World.setDir { w.setDir .contents (some ∅) with
        zip := some (some entries) } .contents (some d)) := by
    simp only [Op.apply, hd]
  refine (returns_sys .extractall (a := ()) hextract).bind ?_
  rintro - _ ⟨-, rfl⟩
  exact hp _ ((World.setDir_of_ne _ (by decide) _).trans hstaged) (World.setDir_self ..)

theorem returns_stageAndSwap {etag modified : Option String} {entries : List (String × String)}
    {tagged : Dir} (htarget : w.dir .target = some e) (hnew : w.dir .contents = none)
    (hget : w.remote.get = some (some entries)) (hd : extract entries = some d)
    (hcomplete : Complete d) (htagged : withValidator ".etag" etag d = some tagged)
    (hmarked : withValidator ".last_modified" modified tagged = some d') :
    (stageAndSwap etag modified).Returns machine (fun _ w' ↦
      w'.dir .target = some d' ∧ ¬Parked w') w := by
  refine returns_download htarget hnew hget hd fun w₃ htarget₃ hcontents₃ ↦ ?_
  refine (returns_missingFiles hcontents₃ hcomplete).bind ?_
  rintro _ _ ⟨rfl, rfl⟩
  refine (returns_writeValidator htarget₃ hcontents₃ htagged).bind ?_
  rintro - w₅ ⟨htarget₅, hcontents₅⟩
  refine (returns_writeValidator htarget₅ hcontents₅ hmarked).bind ?_
  rintro - w₆ ⟨htarget₆, hcontents₆⟩
  exact (returns_swapIntoPlace htarget₆ hcontents₆).bind fun _ w' h ↦ Returns.done h

/-! ## The validators -/

/-- The bundle has the validator of the remote side: the ETag if there is one, and otherwise the
modification time. -/
def IsCurrent (d : Dir) : Option String × Option String → Prop
  | (some etag, _) => (d.text ".etag").map (strip spaces) = some etag
  | (none, some modified) => (d.text ".last_modified").map (strip spaces) = some modified
  | (none, none) => False

instance (d : Dir) : DecidablePred (IsCurrent d)
  | (some etag, _) =>
    inferInstanceAs (Decidable ((d.text ".etag").map (strip spaces) = some etag))
  | (none, some modified) =>
    inferInstanceAs (Decidable ((d.text ".last_modified").map (strip spaces) = some modified))
  | (none, none) => inferInstanceAs (Decidable False)

/-- The validator that is compared is no directory, which could not be read. -/
def Legible (d : Dir) : Option String × Option String → Prop
  | (some _, _) => d.lookup ".etag" ≠ some .directory
  | (none, some _) => d.lookup ".last_modified" ≠ some .directory
  | (none, none) => True

instance (d : Dir) : DecidablePred (Legible d)
  | (some _, _) => inferInstanceAs (Decidable (_ ≠ _))
  | (none, some _) => inferInstanceAs (Decidable (_ ≠ _))
  | (none, none) => inferInstanceAs (Decidable True)

theorem Dir.text_of_file {text : String} (h : d.lookup name = some (.file text)) :
    d.text name = some text := by rw [Dir.text, h]

theorem Dir.text_of_not_mem (h : name ∉ d) : d.text name = none := by
  rw [Dir.text, AList.lookup_eq_none.mpr h]

theorem exists_text (hname : name ∈ d) (hfile : d.lookup name ≠ some .directory) :
    ∃ text, d.text name = some text := by
  obtain ⟨node, hnode⟩ := Option.isSome_iff_exists.mp (AList.lookup_isSome.mpr hname)
  cases node with
  | file text => exact ⟨text, Dir.text_of_file hnode⟩
  | directory => exact absurd hnode hfile

theorem not_directory_of_text {text : String} (h : d.text name = some text) :
    d.lookup name ≠ some .directory := by
  intro hnode
  rw [Dir.text, hnode] at h
  cases h

theorem IsCurrent.legible {v : Option String × Option String} (h : IsCurrent d v) :
    Legible d v := by
  rcases v with ⟨_ | etag, _ | modified⟩
  · trivial
  · obtain ⟨text, htext, -⟩ := Option.map_eq_some_iff.mp h
    exact not_directory_of_text htext
  · obtain ⟨text, htext, -⟩ := Option.map_eq_some_iff.mp h
    exact not_directory_of_text htext
  · obtain ⟨text, htext, -⟩ := Option.map_eq_some_iff.mp h
    exact not_directory_of_text htext

theorem returns_readValidator (htarget : w.dir .target = some e)
    (hfile : e.lookup name ≠ some .directory) :
    (readValidator name).Returns machine
      (fun text w' ↦ (e.text name).map (strip spaces) = text ∧ w = w') w := by
  refine (returns_sys (.fileExists .target name) (a := decide (name ∈ e)) (v := w) ?_).bind ?_
  · rw [Op.apply, htarget]
    rfl
  rintro _ _ ⟨rfl, rfl⟩
  by_cases hname : name ∈ e
  · rw [decide_eq_true hname]
    obtain ⟨text, htext⟩ := exists_text hname hfile
    refine (returns_sys (.readText .target name) (a := text) (v := w) ?_).bind ?_
    · rw [Op.apply, htarget, Option.bind_some, htext]
    rintro _ _ ⟨rfl, rfl⟩
    exact Returns.done ⟨congrArg (Option.map (strip spaces)) htext, rfl⟩
  · rw [decide_eq_false hname]
    exact Returns.done ⟨congrArg (Option.map (strip spaces)) (Dir.text_of_not_mem hname), rfl⟩

theorem returns_bundleIsCurrent {etag modified : Option String} (htarget : w.dir .target = some e)
    (hlegible : Legible e (etag, modified)) :
    (bundleIsCurrent etag modified).Returns machine
      (fun current w' ↦ decide (IsCurrent e (etag, modified)) = current ∧ w = w') w := by
  rcases etag with _ | etag
  · rcases modified with _ | modified
    · exact Returns.done ⟨rfl, rfl⟩
    · refine (returns_readValidator htarget hlegible).bind ?_
      rintro _ _ ⟨rfl, rfl⟩
      exact Returns.done ⟨rfl, rfl⟩
  · have hfile : e.lookup ".etag" ≠ some .directory := by
      cases modified <;> exact hlegible
    refine (returns_readValidator htarget hfile).bind ?_
    rintro _ _ ⟨rfl, rfl⟩
    exact Returns.done ⟨rfl, rfl⟩

/-! ## A call -/

theorem complete_withValidator_iff {name : String} {text : Option String}
    (hname : name ∉ requiredFiles) (hd' : withValidator name text d = some d') :
    Complete d' ↔ Complete d := by
  refine ⟨fun h fn hfn ↦ ?_, fun h ↦ complete_withValidator h hd'⟩
  rcases text with _ | text
  · exact Option.some.inj hd' ▸ h fn hfn
  · rw [Dir.write_eq_some hd'] at h
    exact ((AList.mem_insert d).mp (h fn hfn)).resolve_left fun heq ↦ hname (heq ▸ hfn)

theorem eq_of_bundle {r : Remote} {h : Headers} (hhead : r.head = some h)
    (hbundle : r.bundle = some d) : ∃ entries extracted tagged, r.get = some (some entries) ∧
      extract entries = some extracted ∧
      withValidator ".etag" (validators h).1 extracted = some tagged ∧
      withValidator ".last_modified" (validators h).2 tagged = some d := by
  rw [Remote.bundle, hhead] at hbundle
  rcases hget : r.get with _ | _ | entries
  · rw [hget] at hbundle
    cases hbundle
  · rw [hget] at hbundle
    cases hbundle
  · rw [hget] at hbundle
    obtain ⟨extracted, hextracted, hbundle⟩ := Option.bind_eq_some_iff.mp hbundle
    obtain ⟨tagged, htagged, hmarked⟩ := Option.bind_eq_some_iff.mp hbundle
    exact ⟨entries, extracted, tagged, rfl, hextracted, htagged, hmarked⟩

/-- A body that returns is staged, and the temporary directory is removed. -/
theorem returns_withStaging {body : RefreshIO Bool} {Q : World → Prop}
    (hbody : ∀ w', w'.dir .target = w.dir .target → w'.dir .contents = none →
      w'.remote = w.remote → body.Returns machine (fun _ ↦ Q) w')
    (hQ : ∀ w', Q w' → Q { w'.setDir .contents none with zip := none }) :
    (withStaging body).Returns machine (fun _ ↦ Q) w := by
  refine (returns_sys .mkdtemp (a := ()) rfl).bind ?_
  rintro - _ ⟨-, rfl⟩
  have hstaged := hbody { w.setDir .contents none with zip := none }
    (World.setDir_of_ne w (show Place.target ≠ .contents by decide) none)
    (w.setDir_self .contents none) rfl
  refine hstaged.tryCatch.bind ?_
  intro _ w' hw'
  refine (returns_sys .cleanup (a := ()) rfl).bind ?_
  rintro - _ ⟨-, rfl⟩
  exact Returns.done (hQ w' hw')

theorem returns_mkdirTarget (htarget : w.dir .target = some e) :
    (sys (.mkdir .target)).Returns machine (fun _ w' ↦ w = w') w := by
  refine returns_apply (.mkdir .target) (a := ()) (v := w) ?_ rfl
  rw [Op.apply, htarget]

theorem returns_recoverParked (htarget : w.dir .target = some e) :
    recoverParked.Returns machine (fun _ w' ↦ w = w') w := by
  refine (returns_exists .target (b := true) (by rw [htarget]; rfl)).bind ?_
  rintro _ _ ⟨rfl, rfl⟩
  exact Returns.runIf (fun h ↦ absurd h (by decide)) fun _ ↦ rfl

theorem returns_fetchValidators {h : Headers} (hhead : w.remote.head = some h) :
    fetchValidators.Returns machine (fun v w' ↦ validators h = v ∧ w = w') w := by
  refine (returns_sys .head (a := h) (v := w) ?_).bind ?_
  · rw [Op.apply, hhead]
  rintro _ _ ⟨rfl, rfl⟩
  exact Returns.done ⟨rfl, rfl⟩

/-- **The run without failures swaps in every complete bundle** that is not the current one. -/
theorem returns_download_gtfs {h : Headers} (htarget : w.dir .target = some e)
    (hhead : w.remote.head = some h) (hbundle : w.remote.bundle = some d)
    (hlegible : Legible e (validators h)) (hcurrent : ¬IsCurrent e (validators h))
    (hcomplete : Complete d) :
    downloadAndExtractGtfs.Returns machine (fun _ w' ↦ w'.dir .target = some d ∧
      ¬Parked w') w := by
  obtain ⟨entries, extracted, tagged, hget, hextracted, htagged, hmarked⟩ :=
    eq_of_bundle hhead hbundle
  have hextract : Complete extracted :=
    (complete_withValidator_iff (by decide) htagged).mp
      ((complete_withValidator_iff (by decide) hmarked).mp hcomplete)
  refine (returns_mkdirTarget htarget).bind ?_
  rintro - _ rfl
  refine (returns_recoverParked htarget).bind ?_
  rintro - _ rfl
  refine Returns.tryCatch ?_
  refine (returns_fetchValidators hhead).bind ?_
  rintro _ _ ⟨rfl, rfl⟩
  rcases hv : validators h with ⟨etag, modified⟩
  rw [hv] at hcurrent hlegible htagged hmarked
  refine (returns_bundleIsCurrent htarget hlegible).bind ?_
  rintro _ _ ⟨rfl, rfl⟩
  rw [decide_eq_false hcurrent]
  refine returns_withStaging (Q := fun w' ↦ w'.dir .target = some d ∧ ¬Parked w')
    (fun w₁ htarget₁ hnew hremote ↦ ?_) fun w' hw' ↦ ?_
  · exact returns_stageAndSwap (htarget₁.trans htarget) hnew (hremote ▸ hget) hextracted hextract
      htagged hmarked
  · exact ⟨(World.setDir_of_ne w' (show Place.target ≠ .contents by decide) none).trans hw'.1,
      hw'.2⟩

/-! ## Every run -/

/-- Where the validator is the one on disk, it is read or the call fails. -/
theorem spares_readValidator_eq {w₀ : World} (hs : w₀.Same w) (name : String)
    (htarget : w.dir .target = some e) :
    Spares w₀ (fun text w' ↦ (e.text name).map (strip spaces) = text ∧
      e.lookup name ≠ some .directory ∧ w₀.Same w') (readValidator name) w := by
  refine (spares_sys (.fileExists .target name) trivial hs
    (Q := fun there w' ↦ decide (name ∈ e) = there ∧ w = w') fun there hok _ ↦ ?_).bind ?_
  · rw [Op.apply, htarget] at hok
    exact ⟨Except.ok.inj hok, rfl⟩
  rintro _ _ ⟨rfl, rfl⟩
  by_cases hname : name ∈ e
  · rw [decide_eq_true hname]
    refine (spares_sys (.readText .target name) trivial hs
      (Q := fun t w' ↦ e.text name = some t ∧ w₀.Same w') fun t hok hsame ↦ ⟨?_, hsame⟩).bind ?_
    · rw [Op.apply, htarget, Option.bind_some] at hok
      cases htext : e.text name with
      | none =>
        rw [htext] at hok
        cases hok
      | some text =>
        rw [htext] at hok
        exact congrArg some (Except.ok.inj hok)
    rintro text w' ⟨htext, hs'⟩
    exact Ensures.done ⟨congrArg (Option.map (strip spaces)) htext, not_directory_of_text htext,
      hs'⟩
  · rw [decide_eq_false hname]
    refine Ensures.done ⟨congrArg (Option.map (strip spaces)) (Dir.text_of_not_mem hname), ?_, hs⟩
    rw [AList.lookup_eq_none.mpr hname]
    exact (Option.some_ne_none _).symm

/-- The bundle is taken for current exactly if it is, unless a call fails, as it does on a
directory. -/
theorem spares_bundleIsCurrent_eq {w₀ : World} {etag modified : Option String} (hs : w₀.Same w)
    (htarget : w.dir .target = some e) :
    Spares w₀ (fun current w' ↦ decide (IsCurrent e (etag, modified)) = current ∧
      Legible e (etag, modified) ∧ w₀.Same w') (bundleIsCurrent etag modified) w := by
  rcases etag with _ | etag
  · rcases modified with _ | modified
    · exact Ensures.done ⟨rfl, trivial, hs⟩
    · refine (spares_readValidator_eq hs ".last_modified" htarget).bind ?_
      rintro _ w' ⟨rfl, hfile, hs'⟩
      exact Ensures.done ⟨rfl, hfile, hs'⟩
  · refine (spares_readValidator_eq hs ".etag" htarget).bind ?_
    rintro _ w' ⟨rfl, hfile, hs'⟩
    refine Ensures.done ⟨rfl, ?_, hs'⟩
    cases modified <;> exact hfile

/-- **A current bundle stays where it is**, in every run, and so does one whose validator cannot be
read. -/
theorem spares_download_of_isCurrent {h : Headers} (htarget : w.dir .target = some e)
    (hhead : w.remote.head = some h)
    (hcurrent : Legible e (validators h) → IsCurrent e (validators h)) :
    Spares w (fun _ w' ↦ w.Same w') downloadAndExtractGtfs w := by
  have hmkdir : Spares w (fun _ w' ↦ w = w') (sys (.mkdir .target)) w := by
    have happly : machine.apply (.mkdir .target) w = (.ok (), w) := by
      rw [show machine.apply = Op.apply from rfl, Op.apply, htarget]
    rw [Spares, Ensures, sys, wp_perform, happly]
    refine ⟨rfl, ?_, fun w' h ↦ ?_⟩
    · rintro r w' ⟨⟨e, rfl⟩, h⟩
      obtain rfl : w' = w := h
      exact World.Same.refl _
    · obtain rfl : w' = w := h
      exact World.Same.refl _
  refine hmkdir.bind ?_
  rintro - _ rfl
  -- the target is there, so nothing is parked that would have to come back
  have hrecover : Spares w (fun _ w' ↦ w = w') recoverParked w := by
    refine (spares_sys (.exists .target) trivial (World.Same.refl w)
      (Q := fun there w' ↦ there = true ∧ w = w') fun there hok _ ↦ ?_).bind ?_
    · rw [Op.apply, htarget] at hok
      exact ⟨(Except.ok.inj hok).symm, rfl⟩
    rintro _ _ ⟨rfl, rfl⟩
    exact Ensures.runIf (fun h ↦ absurd h (by decide)) fun _ ↦ rfl
  refine hrecover.bind ?_
  rintro - _ rfl
  refine Ensures.tryCatch (F := fun _ w' ↦ w.Same w') ?_ fun _ _ hs ↦ Ensures.done hs
  refine (spares_fetchValidators (World.Same.refl w)).bind ?_
  rintro _ w₁ ⟨hs₁, h', hhead', rfl⟩
  obtain rfl : h = h' := Option.some.inj (hhead.symm.trans hhead')
  refine (spares_bundleIsCurrent_eq hs₁ (hs₁.target.trans htarget)).bind ?_
  rintro _ w₂ ⟨rfl, hlegible, hs₂⟩
  change Spares w _ (if decide (IsCurrent e (validators h)) = true then _ else _) w₂
  rw [decide_eq_true (hcurrent hlegible), if_pos rfl]
  exact Ensures.done hs₂

/-- What a call puts in place: the bundle of the remote side, which is complete and not the current
one. -/
def Replaces (w : World) (e d : Dir) : Prop :=
  ∃ h, w.remote.head = some h ∧ w.remote.bundle = some d ∧ Legible e (validators h) ∧
    ¬IsCurrent e (validators h) ∧ Complete d

/-- **Every run keeps the bundle or replaces it.** -/
theorem kept_or_replaces (htarget : w.dir .target = some e) (hrenames : w.renames = [])
    (he : Complete e) {out : Outcome RefreshError Bool World}
    (hout : Exec machine downloadAndExtractGtfs w out) (hpark : ¬Parked out.state)
    (hd : out.state.dir .target = some d) : d = e ∨ Replaces w e d := by
  by_cases hcurrent : ∃ h, w.remote.head = some h ∧
      (Legible e (validators h) → IsCurrent e (validators h))
  · obtain ⟨h, hhead, hcurrent⟩ := hcurrent
    have hsame : w.Same out.state :=
      (spares_download_of_isCurrent htarget hhead hcurrent).state hout
    exact Or.inl (Option.some.inj (hd.symm.trans (hsame.target.trans htarget)))
  have hheld : Held e [w.remote] w := by
    refine ⟨fun _ ↦ ⟨e, htarget, he, Or.inl rfl⟩, fun hparked ↦ ?_⟩
    rw [Parked, hrenames] at hparked
    cases hparked
  have hheld' : Held e [w.remote] out.state :=
    (keeps_download hheld List.mem_cons_self).state hout
  obtain ⟨d', hd', hcomplete, hfrom⟩ := hheld'.kept hpark
  obtain rfl : d = d' := Option.some.inj (hd.symm.trans hd')
  refine hfrom.imp_right ?_
  rintro ⟨r, hr, hbundle⟩
  obtain rfl := List.mem_singleton.mp hr
  cases hhead : w.remote.head with
  | none =>
    rw [Remote.bundle, hhead] at hbundle
    cases hbundle
  | some h =>
    have hreplaced : ¬(Legible e (validators h) → IsCurrent e (validators h)) :=
      fun hc ↦ hcurrent ⟨h, hhead, hc⟩
    rw [Classical.not_imp] at hreplaced
    exact ⟨h, hhead, hbundle, hreplaced.1, hreplaced.2, hcomplete⟩

/-- **What can be put in place is put in place**, by the run without failures. -/
theorem exists_exec_of_replaces (htarget : w.dir .target = some e) (h : Replaces w e d) :
    ∃ out, Exec machine downloadAndExtractGtfs w out ∧ ¬Parked out.state ∧
      out.state.dir .target = some d := by
  obtain ⟨h, hhead, hbundle, hlegible, hcurrent, hcomplete⟩ := h
  obtain ⟨b, w', heval, htarget', hpark⟩ :=
    returns_download_gtfs htarget hhead hbundle hlegible hcurrent hcomplete
  have hexec := exec_eval machine downloadAndExtractGtfs w
  rw [heval] at hexec
  exact ⟨_, hexec, hpark, htarget'⟩

end

/-! ## The gate and the loader -/

/-- How pandas reads the texts of the files, and what the file system says of the files: the same
of the same files, although every extraction dates them anew. -/
structure Reading where
  stops : String → Except ReadError (Frame StopRow)
  trips : String → Except ReadError (Frame TripRow)
  stopTimes : String → Except ReadError (Frame StopTimeRow)
  routes : String → Except ReadError (Frame RouteRow)
  calendar : String → Except ReadError (Frame Loader.CalendarRow)
  calendarDates : String → Except ReadError (Frame Loader.CalendarDateRow)
  feedInfo : String → Except ReadError (Frame FeedInfoRow)
  stat : Dir → String → ℕ × ℤ

/-- A file that `parse` reads. A directory is there and cannot be read. -/
def csv {ρ : Type} (parse : String → Except ReadError (Frame ρ)) : Option Node → Csv ρ
  | none => .absent
  | some .directory => .unreadable .value
  | some (.file text) =>
    match parse text with
    | .error e => .unreadable e
    | .ok df => .table df

/-- The directory as the loader reads it. -/
def Reading.directory (reading : Reading) (d : Dir) : Directory where
  stops := csv reading.stops (d.lookup "stops.txt")
  trips := csv reading.trips (d.lookup "trips.txt")
  stopTimes := csv reading.stopTimes (d.lookup "stop_times.txt")
  routes := csv reading.routes (d.lookup "routes.txt")
  calendar := csv reading.calendar (d.lookup "calendar.txt")
  calendarDates := csv reading.calendarDates (d.lookup "calendar_dates.txt")
  feedInfo := csv reading.feedInfo (d.lookup "feed_info.txt")
  stat := reading.stat d

/-- `load` accepts the bundle on the day, whatever the snapshot before it. -/
def Accepts (py : Python) (reading : Reading) (today : ℤ) (d : Dir) : Prop :=
  ∀ now s, (outcome (load py (reading.directory d) today now) s).1 = .ok ()

/-- Wherever a call returns, fails or dies, `load` accepts what is in place. While the old bundle is
parked nothing is. -/
def GateHolds (py : Python) (reading : Reading) (today : ℤ) (w : World) : Prop :=
  ∀ out, Exec machine downloadAndExtractGtfs w out → ¬Parked out.state →
    ∀ d, out.state.dir .target = some d → Accepts py reading today d

section

variable {py : Python} {reading : Reading} {today : ℤ} {w : World} {d d₀ : Dir}

theorem accepts_iff : Accepts py reading today d ↔
    ∃ tables selection, Acceptable py (reading.directory d) today tables selection := by
  rw [← succeeds_rebuild]
  constructor
  · intro h
    cases hbuilt : rebuild py (reading.directory d) today with
    | ok built => exact ⟨built, rfl⟩
    | error e =>
      exact nomatch (h 0 {}).symm.trans (congrArg Prod.fst (outcome_load_of_error hbuilt))
  · rintro ⟨built, hbuilt⟩ now s
    rw [outcome_load_of_ok hbuilt]

theorem mem_of_csv_eq_table {ρ : Type} {parse : String → Except ReadError (Frame ρ)} {fn : String}
    {df : Frame ρ} (h : csv parse (d.lookup fn) = .table df) : fn ∈ d := by
  by_contra hnot
  rw [AList.lookup_eq_none.mpr hnot] at h
  cases h

/-- What the loader accepts has the files that the gate looks for. -/
theorem Accepts.complete (h : Accepts py reading today d) : Complete d := by
  obtain ⟨tables, selection, hacceptable⟩ := accepts_iff.mp h
  intro fn hfn
  rw [requiredFiles] at hfn
  simp only [List.mem_cons, List.not_mem_nil, or_false] at hfn
  obtain rfl | rfl | rfl | rfl := hfn
  · exact mem_of_csv_eq_table hacceptable.opens.stops
  · exact mem_of_csv_eq_table hacceptable.opens.trips
  · exact mem_of_csv_eq_table hacceptable.opens.stopTimes
  · exact mem_of_csv_eq_table hacceptable.opens.routes

theorem GateHolds.accepts (h : GateHolds py reading today w) (htarget : w.dir .target = some d₀)
    (hd : Replaces w d₀ d) : Accepts py reading today d := by
  obtain ⟨out, hout, hpark, hd⟩ := exists_exec_of_replaces htarget hd
  exact h out hout hpark d hd

/-- **The gate is as strict as the loader exactly if what would be put in place is acceptable**: its
files can be read, and have the columns, rows and values that the loader asks for. -/
theorem gateHolds_iff (htarget : w.dir .target = some d₀) (hrenames : w.renames = [])
    (hd₀ : Accepts py reading today d₀) :
    GateHolds py reading today w ↔ ∀ d, Replaces w d₀ d →
      ∃ tables selection, Acceptable py (reading.directory d) today tables selection := by
  constructor
  · intro h d hd
    exact accepts_iff.mp (h.accepts htarget hd)
  · intro h out hout hpark d hd
    rcases kept_or_replaces htarget hrenames hd₀.complete hout hpark hd with rfl | hreplaces
    · exact hd₀
    · exact accepts_iff.mpr (h d hreplaces)

end

/-! ## A bundle with an empty file -/

/-- A file whose only line is the header. -/
def headerOnly {ρ : Type} (header : String) (columns : List String) (text : String) :
    Except ReadError (Frame ρ) :=
  if text = header then .ok ⟨columns, []⟩ else .error .emptyData

/-- Files without rows, and empty files. -/
def withoutRows : Reading where
  stops := headerOnly "stop_id" ["stop_id"]
  trips := headerOnly "trip_id,direction_id,route_id" ["trip_id", "direction_id", "route_id"]
  stopTimes := headerOnly "trip_id,stop_sequence,arrival_time,departure_time"
    ["trip_id", "stop_sequence", "arrival_time", "departure_time"]
  routes := headerOnly "route_id,route_long_name" ["route_id", "route_long_name"]
  calendar _ := .error .emptyData
  calendarDates _ := .error .emptyData
  feedInfo _ := .error .emptyData
  stat _ _ := (0, 0)

/-- The four files, with a text for `stops.txt`. -/
def bundleWith (stops : String) : List (String × String) :=
  [("stops.txt", stops), ("trips.txt", "trip_id,direction_id,route_id"),
    ("stop_times.txt", "trip_id,stop_sequence,arrival_time,departure_time"),
    ("routes.txt", "route_id,route_long_name")]

def unpacked (stops : String) : Dir := filesOf (bundleWith stops)

theorem bundle_of_requiredFiles {r : Remote} {h : Headers} {entries : List (String × String)}
    {etag : Option String} {text : String} (hhead : r.head = some h)
    (hget : r.get = some (some entries)) (hnames : entries.map Prod.fst = requiredFiles)
    (hv : validators h = (some text, etag)) :
    r.bundle = withValidator ".last_modified" etag
      ((filesOf entries).insert ".etag" (.file text)) := by
  have hrequired : ∀ fn ∈ requiredFiles, Plain fn := by decide
  have hplain : ∀ e ∈ entries, Plain e.1 := fun e he ↦
    hrequired e.1 (hnames ▸ List.mem_map_of_mem he)
  obtain ⟨hextract, hfiles⟩ := extract_of_plain hplain
  have hwrite : (filesOf entries).write ".etag" text =
      some ((filesOf entries).insert ".etag" (.file text)) := by
    rw [Dir.write]
    split
    · next hnode => exact absurd hnode (hfiles ".etag")
    · rfl
  rw [Remote.bundle, hhead, hget]
  simp only [hextract, hv, Option.bind_eq_bind, Option.bind_some]
  rw [withValidator, Option.elim_some, hwrite, Option.bind_some]

/-- A target that is accepted, and a bundle with an ETag on the remote side. -/
def publishing (stops : String) : World where
  dir p := if p = .target then some (unpacked "stop_id") else none
  remote := ⟨some { etag := some "v2" }, some (some (bundleWith stops))⟩

theorem accepts_withoutRows : Accepts plainPython withoutRows 20513 (unpacked "stop_id") := by
  refine accepts_iff.mpr (succeeds_rebuild.mp ?_)
  decide

/-- The bundle of the remote side, with its ETag. -/
def tagged (stops : String) : Dir := (unpacked stops).insert ".etag" (.file "v2")

theorem bundle_publishing (stops : String) :
    (publishing stops).remote.bundle = some (tagged stops) := by
  have hnames : (bundleWith stops).map Prod.fst = requiredFiles := rfl
  have hvalidators : validators { etag := some "v2" } = (some "v2", none) := by decide
  exact bundle_of_requiredFiles rfl rfl hnames hvalidators

theorem replaces_iff_publishing {stops : String} {d : Dir} :
    Replaces (publishing stops) (unpacked "stop_id") d ↔ tagged stops = d ∧ Complete d := by
  have hlegible : Legible (unpacked "stop_id") (validators { etag := some "v2" }) := by decide
  have hnot : ¬IsCurrent (unpacked "stop_id") (validators { etag := some "v2" }) := by decide
  constructor
  · rintro ⟨h, hhead, hbundle, -, -, hcomplete⟩
    exact ⟨Option.some.inj ((bundle_publishing stops).symm.trans hbundle), hcomplete⟩
  · rintro ⟨rfl, hcomplete⟩
    exact ⟨_, rfl, bundle_publishing stops, hlegible, hnot, hcomplete⟩

/-- The same bundle with an ETag is published again. -/
theorem gateHolds_publishing : GateHolds plainPython withoutRows 20513 (publishing "stop_id") := by
  refine (gateHolds_iff rfl rfl accepts_withoutRows).mpr fun d hd ↦ ?_
  obtain ⟨rfl, -⟩ := replaces_iff_publishing.mp hd
  exact succeeds_rebuild.mp (by decide)

/-- A bundle whose `stops.txt` is empty is put in place, with an ETag that makes it the current one,
and `load` rejects it. -/
theorem not_gateHolds_emptyStops :
    Accepts plainPython withoutRows 20513 (unpacked "stop_id") ∧
      ¬GateHolds plainPython withoutRows 20513 (publishing "") ∧
      IsCurrent (tagged "") (validators { etag := some "v2" }) := by
  refine ⟨accepts_withoutRows, fun h ↦ ?_, by decide⟩
  have haccepts := h.accepts rfl (replaces_iff_publishing.mpr ⟨rfl, by decide⟩)
  have hrejects : ¬Dictionary.Succeeds (rebuild plainPython (withoutRows.directory (tagged ""))
      20513) := by
    decide
  exact hrejects (succeeds_rebuild.mpr (accepts_iff.mp haccepts))

end GtfsStream.GtfsStatic
