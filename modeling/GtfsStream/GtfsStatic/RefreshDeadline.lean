import GtfsStream.GtfsStatic.Lifecycle

/-!
# When the consumer serves a version

From some moment on the remote side serves one version and the calls that return are not disturbed.
One refresh interval later the target holds the files of the version, however the calls before ended
and however often the process dies in between. So the snapshot follows within the interval, unless
the loader rejects the version.
-/

namespace GtfsStream.GtfsStatic

open Program Op Loader

/-! ## Undisturbed runs -/

/-- The runs whose last network check up to `T` may have ended in any way, and in which all later
ones that return ask for the version and have no failure. Processes still die at any moment. -/
inductive Calm (py : Python) (reading : Reading) (interval : ℚ) (d₀ : Dir) (v : Version) (T : ℚ) :
    List Remote → Engine → Prop
  | run {asked : List Remote} {e : Engine} (h : Run py reading interval d₀ asked e)
      (hlast : ∀ c, e.consumer = some c → c.lastGtfsRefreshCheck ≤ T) :
      Calm py reading interval d₀ v T asked e
  | start {asked : List Remote} {e e' : Engine} (h : Calm py reading interval d₀ v T asked e)
      (hstart : Start py reading SmoothCalls e v.remote e') :
      Calm py reading interval d₀ v T (asked ++ [v.remote]) e'
  | turn {asked : List Remote} {e e' : Engine} {r : Readings} {remote : Option Remote}
      (h : Calm py reading interval d₀ v T asked e)
      (hturn : Turn py reading interval SmoothCalls e r remote e')
      (hremote : ∀ asked ∈ remote, asked = v.remote) :
      Calm py reading interval d₀ v T (asked ++ remote.toList) e'
  | ended {asked : List Remote} {e : Engine} {remote : Remote}
      {out : Outcome RefreshError Bool World} (h : Calm py reading interval d₀ v T asked e)
      (hcall : Calls e.world remote out) :
      Calm py reading interval d₀ v T (asked ++ [remote]) { world := out.state, today := e.today }
  | killed {asked : List Remote} {e : Engine} (h : Calm py reading interval d₀ v T asked e) :
      Calm py reading interval d₀ v T asked { e with consumer := none }

/-- The version has a complete bundle, and no bundle with other files passes for it. Nor does one
have a directory where the validator is read. -/
structure Distinct (v : Version) (d₀ : Dir) (asked : List Remote) : Prop where
  complete : ∃ bundle, v.remote.bundle = some bundle ∧ Complete bundle
  legible : ∀ d, Offered d₀ asked d → Legible d (validators v.headers)
  content : ∀ d, Offered d₀ asked d → IsCurrent d (validators v.headers) → v.Content d

section

variable {py : Python} {reading : Reading} {interval T : ℚ} {d₀ : Dir} {v : Version}
  {asked : List Remote} {e e' : Engine} {c : Consumer} {r : Readings} {remote : Option Remote}
  {w : World}

theorem Calm.isRun (h : Calm py reading interval d₀ v T asked e) :
    Run py reading interval d₀ asked e := by
  induction h with
  | run h hlast => exact h
  | start h hstart ih => exact ih.start (hstart.mono fun _ _ _ ↦ SmoothCalls.calls)
  | turn h hturn hremote ih => exact ih.turn (hturn.mono fun _ _ _ ↦ SmoothCalls.calls)
  | ended h hcall ih => exact ih.ended hcall
  | killed h ih => exact ih.killed

theorem Distinct.of_append {more : List Remote} (h : Distinct v d₀ (asked ++ more)) :
    Distinct v d₀ asked :=
  ⟨h.complete, fun d hd ↦ h.legible d (hd.weaken more), fun d hd ↦ h.content d (hd.weaken more)⟩

/-- What the version adds to the bundles passes for it and has its files. -/
theorem Distinct.served (h : Distinct v d₀ asked) : Distinct v d₀ (asked ++ [v.remote]) := by
  have hcases {d : Dir} (hd : Offered d₀ (asked ++ [v.remote]) d) :
      Offered d₀ asked d ∨ v.remote.bundle = some d := by
    rcases hd with hfirst | ⟨remote, hremote, hbundle⟩
    · exact Or.inl (Or.inl hfirst)
    · rcases List.mem_append.mp hremote with hbefore | hnew
      · exact Or.inl (Or.inr ⟨remote, hbefore, hbundle⟩)
      · obtain rfl := List.mem_singleton.mp hnew
        exact Or.inr hbundle.1
  refine ⟨h.complete, fun d hd ↦ ?_, fun d hd hcurrent ↦ ?_⟩
  · exact (hcases hd).elim (h.legible d) legible_of_bundle
  · exact (hcases hd).elim (fun hd ↦ h.content d hd hcurrent) content_of_bundle

/-- **A call without a failure leaves the files of the version.** -/
theorem Distinct.content_of_call (h : Distinct v d₀ asked) (hw : HoldsOffered d₀ asked w)
    {result : Except RefreshError Bool} {w' : World}
    (hcall : SmoothCalls w v.remote (.finished result w')) : v.Content w'.held := by
  obtain ⟨bundle, hbundle, hcomplete⟩ := h.complete
  have hlegible : Legible w.held (validators v.headers) := by
    rcases hw with hempty | hoffered
    · exact hempty ▸ legible_empty _
    · exact h.legible w.held hoffered
  obtain ⟨updated, w'', heval, hsettles⟩ :=
    returns_settles (w := { w with remote := v.remote }) rfl hlegible hbundle hcomplete
  rw [SmoothCalls, heval] at hcall
  obtain ⟨-, rfl⟩ := Outcome.finished.inj hcall
  rcases hsettles with ⟨hcurrent, hheld⟩ | hbundle
  · have hcurrent' : IsCurrent w.held (validators v.headers) := hcurrent
    have hoffered := hw.resolve_left fun hempty ↦ not_isCurrent_empty _ (hempty ▸ hcurrent')
    rw [hheld]
    exact h.content w.held hoffered hcurrent'
  · exact content_of_bundle hbundle

/-- A network check without a failure leaves the files of the version, and a turn without one leaves
the target and the time of the last check. -/
theorem Turn.content (hturn : Turn py reading interval SmoothCalls e r remote e')
    (hremote : ∀ asked ∈ remote, asked = v.remote) (hw : HoldsOffered d₀ asked e.world)
    (h : Distinct v d₀ asked) : v.Content e'.world.held ∨
      ∃ c c', e.consumer = some c ∧ e'.consumer = some c' ∧ e'.world = e.world ∧
        c'.lastGtfsRefreshCheck = c.lastGtfsRefreshCheck ∧
        r.time - c.lastGtfsRefreshCheck < interval := by
  cases hturn with
  | @quiet c c' _ download hconsumer hdays hquiet hreturns =>
    obtain rfl := object_of_quiet hquiet hreturns
    exact Or.inr ⟨c, _, hconsumer, rfl, rfl, rfl, hquiet⟩
  | @checking c c' _ remote result w download hconsumer hdays hdue hcall hhands hreturns =>
    obtain rfl := hremote remote rfl
    exact Or.inl (h.content_of_call hw hcall)

/-- **A check after `T` has settled the target**, and the later ones leave it so. -/
theorem Calm.content (h : Calm py reading interval d₀ v T asked e) (hserved : Distinct v d₀ asked) :
    ∀ c, e.consumer = some c → T < c.lastGtfsRefreshCheck → v.Content e.world.held := by
  induction h with
  | run h hlast => exact fun c hc hafter ↦ absurd hafter (hlast c hc).not_gt
  | start h hstart ih =>
    intro c hc hafter
    cases hstart with
    | start hnone hcall hday hload =>
      exact hserved.of_append.content_of_call h.isRun.serving.target hcall
  | turn h hturn hremote ih =>
    intro c hc hafter
    rcases hturn.content hremote h.isRun.serving.target hserved.of_append with
      hcontent | ⟨c₀, c₁, hc₀, hc₁, hworld, hlast, -⟩
    · exact hcontent
    · obtain rfl := Option.some.inj (hc.symm.trans hc₁)
      rw [hworld]
      exact ih hserved.of_append c₀ hc₀ (hlast ▸ hafter)
  | ended h hcall ih => exact fun c hc ↦ nomatch hc
  | killed h ih => exact fun c hc ↦ nomatch hc

/-- **One refresh interval after `T` the version is served.** A process that has started or made a
check since works on the files of the version, and every process has from its first turn on that
ends the interval. The snapshot after such a turn within one day is the load of a bundle with the
version of these files, unless the loader rejects them. -/
theorem refresh_deadline (h : Calm py reading interval d₀ v T asked e)
    (hserved : Distinct v d₀ asked) (hc : e.consumer = some c) :
    (T < c.lastGtfsRefreshCheck → v.Content e.world.held) ∧
      ∀ r remote e', Turn py reading interval SmoothCalls e r remote e' →
        (∀ asked ∈ remote, asked = v.remote) → T + interval ≤ r.time →
        v.Content e'.world.held ∧ (r.firstCheck = r.secondLoad → ∃ c', e'.consumer = some c' ∧
          UpToDate py reading (Offered d₀ (asked ++ remote.toList)) e'.world.held e'.today
            c'.staticData) := by
  refine ⟨h.content hserved c hc, fun r remote e' hturn hremote hdue ↦ ?_⟩
  have hserving := h.isRun.serving
  have hcalls := hturn.mono fun _ _ _ ↦ SmoothCalls.calls
  constructor
  · rcases hturn.content hremote hserving.target hserved with
      hcontent | ⟨c₀, c', hc₀, -, hworld, -, hquiet⟩
    · exact hcontent
    · -- no check is due, so there was one after `T`
      rw [hworld]
      exact h.content hserved c₀ hc₀ (by linarith)
  · intro hday
    obtain ⟨c', hc'⟩ : ∃ c', e'.consumer = some c' := by
      cases hturn with
      | quiet hconsumer hdays hquiet hreturns => exact ⟨_, rfl⟩
      | checking hconsumer hdays hdue hcall hhands hreturns => exact ⟨_, rfl⟩
    exact ⟨c', hc', (hserving.turn hcalls).2 c' hc' hday⟩

end

/-- A day after its start the process makes a check, and serves the version on the new day. -/
theorem refresh_deadline_nextDay : ∃ (w : World) (c : Consumer), taggedVersion.Content w.held ∧
    UpToDate plainPython withoutRows
      (Offered ∅ [taggedVersion.remote, taggedVersion.remote]) w.held 20514 c.staticData := by
  obtain ⟨w, s, w', c, -, hstart, hturn⟩ := exists_firstDays
  have hrun : Run plainPython withoutRows 86400 ∅ [taggedVersion.remote] ⟨w, some ⟨s, 0⟩, 20513⟩ :=
    (Run.deployed emptyTarget 20513 rfl).start (hstart.mono fun _ _ _ ↦ SmoothCalls.calls)
  have hcalm : Calm plainPython withoutRows 86400 ∅ taggedVersion 0 [taggedVersion.remote]
      ⟨w, some ⟨s, 0⟩, 20513⟩ := by
    refine .run hrun fun c hc ↦ ?_
    obtain rfl := Option.some.inj hc
    exact le_rfl
  have hserved : Distinct taggedVersion ∅ [taggedVersion.remote] := by
    suffices Distinct taggedVersion ∅ [] from this.served
    refine ⟨⟨_, bundle_taggedVersion, by decide⟩, ?_, ?_⟩
    · rintro d (rfl | ⟨_, hremote, -⟩)
      · exact legible_empty _
      · exact absurd hremote List.not_mem_nil
    · rintro d (rfl | ⟨_, hremote, -⟩) hcurrent
      · exact absurd hcurrent (not_isCurrent_empty _)
      · exact absurd hremote List.not_mem_nil
  obtain ⟨hcontent, hday⟩ := (refresh_deadline hcalm hserved rfl).2 _ _ _ hturn
    (fun remote hremote ↦ (Option.some.inj hremote).symm) (by norm_num [nextDay])
  obtain ⟨c, -, huptodate⟩ := hday rfl
  exact ⟨w', c, hcontent, huptodate⟩

end GtfsStream.GtfsStatic
