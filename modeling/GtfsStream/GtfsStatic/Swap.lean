import GtfsStream.GtfsStatic.RefreshSpec

/-!
# What the swap keeps

Between the two renames of a swap the target does not exist, and the bundle is parked at `*.old`.
The next call is meant to move it back, but it creates the target first, so the recovery test never
succeeds. The target stays an empty directory until a later call swaps in a bundle of its own,
which destroys the parked one. So over any sequence of calls that return, fail or die the target
holds a complete bundle exactly if the last rename made was not the first one of a swap.
-/

namespace GtfsStream.GtfsStatic

open Program Op

/-! ## Sequences of calls -/

/-- A call that is made in `w` with the remote side `r`, and returns, fails or dies. -/
def Calls (w : World) (r : Remote) (out : Outcome RefreshError Bool World) : Prop :=
  Exec machine downloadAndExtractGtfs { w with remote := r } out

/-- The worlds that a sequence of calls may leave, when the target held the bundle `d₀` before. -/
inductive Reached (d₀ : Dir) : List Remote → World → Prop
  | start (w : World) (hd : w.dir .target = some d₀) (hr : w.renames = []) : Reached d₀ [] w
  | call {rs : List Remote} {w : World} {r : Remote} {out : Outcome RefreshError Bool World}
      (h : Reached d₀ rs w) (hc : Calls w r out) : Reached d₀ (rs ++ [r]) out.state

theorem Held.weaken {d₀ : Dir} {rs : List Remote} {w : World} (h : Held d₀ rs w)
    (rs' : List Remote) : Held d₀ (rs ++ rs') w := by
  refine ⟨fun hn ↦ ?_, h.parked⟩
  obtain ⟨d, hd, hcomplete, hfrom⟩ := h.kept hn
  refine ⟨d, hd, hcomplete, hfrom.imp_right ?_⟩
  rintro ⟨r, hr, hb⟩
  exact ⟨r, List.mem_append_left _ hr, hb⟩

theorem Reached.held {d₀ : Dir} (hd₀ : Complete d₀) {rs : List Remote} {w : World}
    (h : Reached d₀ rs w) : Held d₀ rs w := by
  induction h with
  | start w hd hr =>
    refine ⟨fun _ ↦ ⟨d₀, hd, hd₀, Or.inl rfl⟩, fun hpark ↦ ?_⟩
    rw [Parked, hr] at hpark
    cases hpark
  | @call rs w r out h hc ih =>
    have hw : Held d₀ (rs ++ [r]) { w with remote := r } :=
      (ih.weaken [r]).congr rfl rfl
    exact (keeps_download hw (List.mem_append_right _ List.mem_cons_self)).state hc

/-- **The working bundle is kept**, in every state that any sequence of calls may leave, exactly if
the last rename made is not the first one of a swap. -/
theorem kept_iff {d₀ : Dir} (hd₀ : Complete d₀) {rs : List Remote} {w : World}
    (h : Reached d₀ rs w) : Kept d₀ rs w ↔ ¬Parked w := (h.held hd₀).kept_iff_not_parked

/-! ## A crash between the two renames -/

/-- A complete bundle with nothing in its files. -/
def emptyBundle : Dir := requiredFiles.foldl (fun d fn ↦ d.insert fn (.file "")) ∅

/-- A target that holds a complete bundle, and a remote side without validators. -/
def seeded : World where
  dir p := if p = .target then some emptyBundle else none
  remote := ⟨some {}, some (some (requiredFiles.map fun fn ↦ (fn, "new")))⟩

theorem reached_seeded : Reached emptyBundle [] seeded := .start seeded rfl rfl

theorem kept_iff_seeded : Kept emptyBundle [seeded.remote] (downloadAndExtractGtfs.eval machine
      seeded).2 ↔ ¬Parked (downloadAndExtractGtfs.eval machine seeded).2 :=
  kept_iff (by decide) (reached_seeded.call (exec_eval machine downloadAndExtractGtfs seeded))

/-- The world when the process has died between the two renames. -/
def interrupted : World := (evalCalls machine 14 downloadAndExtractGtfs seeded).getD seeded

/-- The process dies between the two renames, and the next call has a network error. -/
theorem not_kept_after_crash : Complete emptyBundle ∧ Reached emptyBundle [] seeded ∧
    ∃ w, Calls seeded seeded.remote (.crashed interrupted) ∧
      Calls interrupted ⟨none, none⟩ (.finished (.ok false) w) ∧
      ¬Kept emptyBundle [seeded.remote, ⟨none, none⟩] w := by
  have hcut (o : Op) (w : World) : machine.crash o w w := by
    cases o with
    | rmtree p => exact Or.inl rfl
    | mkdtemp | cleanup | get | extractall =>
      exact ⟨w.dir .contents, w.zip, by simp [World.setDir]⟩
    | writeText p name text =>
      cases p with
      | contents => exact ⟨w.dir .contents, w.zip, by simp [World.setDir]⟩
      | _ => exact rfl
    | _ => exact rfl
  have hcalls : evalCalls machine 14 downloadAndExtractGtfs seeded = some interrupted := by
    have hsome : (evalCalls machine 14 downloadAndExtractGtfs seeded).isSome := by decide
    obtain ⟨w, hw⟩ := Option.isSome_iff_exists.mp hsome
    rw [interrupted, hw, Option.getD_some]
  have hnext := exec_eval machine downloadAndExtractGtfs { interrupted with remote := ⟨none, none⟩ }
  have hfalse : (match (downloadAndExtractGtfs.eval machine
      { interrupted with remote := ⟨none, none⟩ }).1 with | .ok b => some b | .error _ => none) =
        some false := by decide
  have htarget : ((downloadAndExtractGtfs.eval machine
      { interrupted with remote := ⟨none, none⟩ }).2.dir .target) = some ∅ := rfl
  rcases hres : downloadAndExtractGtfs.eval machine
    { interrupted with remote := ⟨none, none⟩ } with ⟨_ | b, w⟩
  · rw [hres] at hfalse
    cases hfalse
  · rw [hres] at hfalse htarget hnext
    obtain rfl : b = false := Option.some.inj hfalse
    refine ⟨by decide, reached_seeded, w, exec_crash_of_evalCalls machine hcut hcalls, hnext, ?_⟩
    rintro ⟨d, hd, hcomplete, -⟩
    obtain rfl : ∅ = d := Option.some.inj (htarget.symm.trans hd)
    exact absurd (hcomplete "stops.txt" (by decide)) (by decide)

end GtfsStream.GtfsStatic
