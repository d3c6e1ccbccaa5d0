import GtfsStream.Api.Live
import GtfsStream.Library.History

/-!
# What the live endpoint serves

Over every run, with any number of handlers that wait at the same time: where a response comes from,
how old it is, and how often the collections are read. The collections at a moment are those of the
last change before it, so a query is pinned to a moment by the events that precede it.

## What waits

Several handlers can wait for their two queries at the same time, and each will overwrite the cache
when it is answered. For a waiting handler the log determines all that is needed: when it started,
and that each of its answers was true of the collections at some moment since. The response is made
of the two answers, which need not be of one moment. The cache holds the last response that was
generated, so the bound on its age is the bound of the one test that a request makes.
-/

namespace GtfsStream.Api

open Analytics History

variable {docs : Documents} {log : List Event} {s s' : Server} {e : Event}

/-! ## What the events determine -/

/-- The collections after the events. -/
def docsAfter (docs : Documents) (log : List Event) : Documents :=
  log.foldl (fun docs e ↦ match e with
    | .change docs' => docs'
    | _ => docs) docs

/-- The payload that the events leave in the cache, and when it was stored. -/
def stored (log : List Event) : Option (LiveResponse × Time) :=
  log.foldl (fun cached e ↦ match e with
    | .response _ _ cachedAt response => some (response, cachedAt)
    | _ => cached) none

theorem docsAfter_concat : docsAfter docs (log ++ [e]) = match e with
    | .change docs' => docs'
    | _ => docsAfter docs log := by
  rw [docsAfter, List.foldl_append]
  rfl

theorem stored_concat : stored (log ++ [e]) = match e with
    | .response _ _ cachedAt response => some (response, cachedAt)
    | _ => stored log := by
  rw [stored, List.foldl_append]
  rfl

theorem Run.docs_eq (hrun : Run docs log s) : s.docs = docsAfter docs log := by
  induction hrun with
  | start => rfl
  | step _ hstep ih =>
    rw [docsAfter_concat]
    cases hstep <;> first | rfl | exact ih

theorem Run.cached_eq (hrun : Run docs log s) : s.cached = stored log := by
  induction hrun with
  | start => rfl
  | step _ hstep ih =>
    rw [stored_concat]
    cases hstep <;> first | rfl | exact ih

/-- What is in the cache was stored with the last response that was generated. -/
theorem mem_of_stored {response : LiveResponse} {cachedAt : Time}
    (h : stored log = some (response, cachedAt)) :
    ∃ handler generatedAt, Event.response handler generatedAt cachedAt response ∈ log := by
  induction log using List.reverseRecOn with
  | nil => exact absurd h (by simp [stored])
  | append_singleton log e ih =>
    rw [stored_concat] at h
    have hlog (h : stored log = some (response, cachedAt)) :
        ∃ handler generatedAt,
          Event.response handler generatedAt cachedAt response ∈ log ++ [e] := by
      obtain ⟨handler, generatedAt, hmem⟩ := ih h
      exact ⟨handler, generatedAt, List.mem_append_left _ hmem⟩
    cases e with
    | response handler generatedAt stamp payload =>
      rw [Option.some.injEq, Prod.mk.injEq] at h
      obtain ⟨rfl, rfl⟩ := h
      exact ⟨handler, generatedAt, List.mem_append_right _ (List.mem_singleton_self _)⟩
    | change docs' => exact hlog h
    | hit now payload => exact hlog h
    | miss handler checkedAt now => exact hlog h
    | foundDeviations handler => exact hlog h
    | foundBunching handler => exact hlog h
    | error handler => exact hlog h

/-! ## Where a response comes from -/

/-- At some moment after `before` and within `after`, the collections had the property. -/
def SeenSince (docs : Documents) (before after : List Event) (P : Documents → Prop) : Prop :=
  ∃ since, since <+: after ∧ P (docsAfter docs (before ++ since))

theorem SeenSince.concat {before after : List Event} {P : Documents → Prop}
    (h : SeenSince docs before after P) (e : Event) : SeenSince docs before (after ++ [e]) P := by
  obtain ⟨since, hsince, hP⟩ := h
  exact ⟨since, hsince.trans (List.prefix_append after [e]), hP⟩

/-- What a waiting handler has been answered, each answer given by the collections at some moment
since the handler has started its queries. -/
def Waits (docs : Documents) (log : List Event) (handler : ℕ) (p : Pending) : Prop :=
  ∃ before checkedAt now after, log = before ++ [.miss handler checkedAt now] ++ after ∧
    p.cutoff = now - liveWindow ∧
    (∀ answer, p.deviationDocs = some answer →
      SeenSince docs (before ++ [.miss handler checkedAt now]) after
        fun docs ↦ FindsDeviations docs p.cutoff answer) ∧
    ∀ answer, p.bunchingDocs = some answer →
      SeenSince docs (before ++ [.miss handler checkedAt now]) after
        fun docs ↦ FindsBunching docs p.cutoff answer

/-- The response consists of what the handler has found in the collections, at some moments since it
has started its queries: the deviations and the bunching events of the live window. -/
def Generated (docs : Documents) (log : List Event) (handler : ℕ) (generatedAt : Time)
    (response : LiveResponse) : Prop :=
  ∃ before checkedAt now after deviationDocs bunchingDocs,
    log = before ++ [.miss handler checkedAt now] ++ after ∧
    SeenSince docs (before ++ [.miss handler checkedAt now]) after
      (fun docs ↦ FindsDeviations docs (now - liveWindow) deviationDocs) ∧
    SeenSince docs (before ++ [.miss handler checkedAt now]) after
      (fun docs ↦ FindsBunching docs (now - liveWindow) bunchingDocs) ∧
    response = liveResponse deviationDocs bunchingDocs generatedAt

theorem Waits.concat {handler : ℕ} {p : Pending} (h : Waits docs log handler p) (e : Event) :
    Waits docs (log ++ [e]) handler p := by
  obtain ⟨before, checkedAt, now, after, rfl, hcutoff, hdeviations, hbunching⟩ := h
  exact ⟨before, checkedAt, now, after ++ [e], List.append_assoc _ _ _, hcutoff,
    fun answer ha ↦ (hdeviations answer ha).concat e,
    fun answer ha ↦ (hbunching answer ha).concat e⟩

theorem update_eq_some (pending : ℕ → Option Pending) (i : ℕ) (v : Option Pending) {handler : ℕ}
    {p : Pending} (h : Function.update pending i v handler = some p) :
    pending handler = some p ∨ i = handler ∧ v = some p := by
  rcases eq_or_ne handler i with rfl | hne
  · rw [Function.update_self] at h
    exact Or.inr ⟨rfl, h⟩
  · rw [Function.update_of_ne hne] at h
    exact Or.inl h

/-- A handler that waits after a step has waited before it, or has started its queries in it, or has
been answered one of them. -/
theorem Step.pending {handler : ℕ} {p : Pending} (hstep : Step s e s')
    (hp : s'.pending handler = some p) :
    s.pending handler = some p ∨
    (∃ checkedAt now, e = .miss handler checkedAt now ∧ p = { cutoff := now - liveWindow }) ∨
    (∃ q answer, s.pending handler = some q ∧ FindsDeviations s.docs q.cutoff answer ∧
      p = { q with deviationDocs := some answer }) ∨
    ∃ q answer, s.pending handler = some q ∧ FindsBunching s.docs q.cutoff answer ∧
      p = { q with bunchingDocs := some answer } := by
  cases hstep with
  | change docs' => exact Or.inl hp
  | hit now payload hfresh => exact Or.inl hp
  | miss i checkedAt now hstale hfree =>
    rcases update_eq_some _ _ _ hp with hp | ⟨rfl, hv⟩
    · exact Or.inl hp
    · exact Or.inr (Or.inl ⟨checkedAt, now, rfl, (Option.some.inj hv).symm⟩)
  | foundDeviations i q answer hq hanswer =>
    rcases update_eq_some _ _ _ hp with hp | ⟨rfl, hv⟩
    · exact Or.inl hp
    · exact Or.inr (Or.inr (Or.inl ⟨q, answer, hq, hanswer, (Option.some.inj hv).symm⟩))
  | foundBunching i q answer hq hanswer =>
    rcases update_eq_some _ _ _ hp with hp | ⟨rfl, hv⟩
    · exact Or.inl hp
    · exact Or.inr (Or.inr (Or.inr ⟨q, answer, hq, hanswer, (Option.some.inj hv).symm⟩))
  | response i q deviationDocs bunchingDocs generatedAt cachedAt hq hdeviations hbunching =>
    rcases update_eq_some _ _ _ hp with hp | ⟨-, hnone⟩
    · exact Or.inl hp
    · exact absurd hnone (by simp)
  | error i =>
    rcases update_eq_some _ _ _ hp with hp | ⟨-, hnone⟩
    · exact Or.inl hp
    · exact absurd hnone (by simp)

theorem Run.waits (hrun : Run docs log s) {handler : ℕ} {p : Pending}
    (hp : s.pending handler = some p) : Waits docs log handler p := by
  induction hrun generalizing handler p with
  | start => exact absurd hp (by simp)
  | @step log s s' e hrun hstep ih =>
    rcases hstep.pending hp with hp | ⟨checkedAt, now, rfl, rfl⟩ | ⟨q, answer, hq, hanswer, rfl⟩ |
      ⟨q, answer, hq, hanswer, rfl⟩
    · exact (ih hp).concat e
    · exact ⟨log, checkedAt, now, [], (List.append_nil _).symm, rfl, nofun, nofun⟩
    · rw [hrun.docs_eq] at hanswer
      obtain ⟨before, checkedAt, now, after, rfl, hcutoff, -, hbunching⟩ := ih hq
      refine ⟨before, checkedAt, now, after ++ [e], List.append_assoc _ _ _, hcutoff,
        fun found hfound ↦ ?_, fun found hfound ↦ (hbunching found hfound).concat e⟩
      rw [← Option.some.inj hfound]
      exact ⟨after, List.prefix_append _ _, hanswer⟩
    · rw [hrun.docs_eq] at hanswer
      obtain ⟨before, checkedAt, now, after, rfl, hcutoff, hdeviations, -⟩ := ih hq
      refine ⟨before, checkedAt, now, after ++ [e], List.append_assoc _ _ _, hcutoff,
        fun found hfound ↦ (hdeviations found hfound).concat e, fun found hfound ↦ ?_⟩
      rw [← Option.some.inj hfound]
      exact ⟨after, List.prefix_append _ _, hanswer⟩

theorem Run.generated (hrun : Run docs log s) {handler : ℕ} {generatedAt cachedAt : Time}
    {response : LiveResponse}
    (hstep : Step s (.response handler generatedAt cachedAt response) s') :
    Generated docs log handler generatedAt response := by
  cases hstep with
  | response handler p deviationDocs bunchingDocs generatedAt cachedAt hp hdeviations hbunching =>
    obtain ⟨before, checkedAt, now, after, rfl, hcutoff, hd, hb⟩ := hrun.waits hp
    have hd := hd deviationDocs hdeviations
    have hb := hb bunchingDocs hbunching
    rw [hcutoff] at hd hb
    exact ⟨before, checkedAt, now, after, deviationDocs, bunchingDocs, rfl, hd, hb, rfl⟩

theorem Generated.append {handler : ℕ} {generatedAt : Time} {response : LiveResponse}
    (h : Generated docs log handler generatedAt response) (more : List Event) :
    Generated docs (log ++ more) handler generatedAt response := by
  obtain ⟨before, checkedAt, now, after, deviationDocs, bunchingDocs, rfl, ⟨since, hs, hfound⟩,
    ⟨since', hs', hfound'⟩, hresponse⟩ := h
  exact ⟨before, checkedAt, now, after ++ more, deviationDocs, bunchingDocs,
    List.append_assoc _ _ _, ⟨since, hs.trans (List.prefix_append _ _), hfound⟩,
    ⟨since', hs'.trans (List.prefix_append _ _), hfound'⟩, hresponse⟩

theorem Run.generated_of_mem (hrun : Run docs log s) {handler : ℕ} {generatedAt cachedAt : Time}
    {response : LiveResponse} (h : .response handler generatedAt cachedAt response ∈ log) :
    Generated docs log handler generatedAt response := by
  induction hrun with
  | start => exact absurd h List.not_mem_nil
  | @step log s s' e hrun hstep ih =>
    rcases List.mem_append.mp h with h | h
    · exact (ih h).append [e]
    · rw [List.mem_singleton] at h
      subst h
      exact (hrun.generated hstep).append _

/-- The event sends a response to a client. -/
def Event.Sends (response : LiveResponse) : Event → Prop
  | .hit _ payload => payload = response
  | .response _ _ _ payload => payload = response
  | _ => False

theorem fresh_eq_some {now : Time} {payload : LiveResponse} (h : s.fresh now = some payload) :
    ∃ cachedAt, s.cached = some (payload, cachedAt) ∧ now - cachedAt < cacheTtl := by
  rw [Server.fresh] at h
  split at h
  · next found cachedAt hcached =>
    split_ifs at h with hage
    rw [Option.some.injEq] at h
    exact ⟨cachedAt, h ▸ hcached, hage⟩
  · exact absurd h (by simp)

theorem fresh_eq_none {now cachedAt : Time} {payload : LiveResponse} (h : s.fresh now = none)
    (hcached : s.cached = some (payload, cachedAt)) : cachedAt + cacheTtl ≤ now := by
  simp only [Server.fresh, hcached] at h
  split_ifs at h with hage
  exact le_sub_iff_add_le'.mp (not_lt.mp hage)

/-- What a step sends: a payload that is fresh, or one that it generates. -/
theorem Run.sends (hrun : Run docs log s) (hstep : Step s e s') {response : LiveResponse}
    (hsends : e.Sends response) :
    (∃ handler generatedAt, Generated docs log handler generatedAt response) ∧
      ∀ now, e = .hit now response → ∃ handler generatedAt cachedAt,
        .response handler generatedAt cachedAt response ∈ log ∧ now - cachedAt < cacheTtl := by
  cases hstep with
  | hit now payload hfresh =>
    subst hsends
    obtain ⟨cachedAt, hcached, hage⟩ := fresh_eq_some hfresh
    rw [hrun.cached_eq] at hcached
    obtain ⟨handler, generatedAt, hmem⟩ := mem_of_stored hcached
    refine ⟨⟨handler, generatedAt, hrun.generated_of_mem hmem⟩, fun at' hat ↦ ?_⟩
    rw [Event.hit.injEq] at hat
    exact ⟨handler, generatedAt, cachedAt, hmem, hat.1 ▸ hage⟩
  | response handler p deviationDocs bunchingDocs generatedAt cachedAt hp hdeviations hbunching =>
    subst hsends
    exact ⟨⟨handler, generatedAt, hrun.generated
      (.response s handler p _ _ generatedAt cachedAt hp hdeviations hbunching)⟩, nofun⟩
  | change docs' => exact hsends.elim
  | miss handler checkedAt now hstale hfree => exact hsends.elim
  | foundDeviations handler p answer hp hanswer => exact hsends.elim
  | foundBunching handler p answer hp hanswer => exact hsends.elim
  | error handler => exact hsends.elim

/-- Every response of the run was generated from what a handler had found. -/
theorem Run.atEach_generated (hrun : Run docs log s) :
    AtEach (fun before e ↦ ∀ response, e.Sends response →
      ∃ handler generatedAt, Generated docs before handler generatedAt response) log := by
  induction hrun with
  | start => exact atEach_nil
  | step hrun hstep ih =>
    exact atEach_concat.mpr ⟨ih, fun _ hsends ↦ (hrun.sends hstep hsends).1⟩

/-- **Every response shows the collections as they were found a short time before.** It was
generated by a handler from what the collections were since that handler had started its queries,
and where it is sent from the cache, it was stored there less than five seconds ago. -/
theorem live_run (hrun : Run docs log s) :
    AtEach (fun before e ↦ ∀ response, e.Sends response →
      (∃ handler generatedAt, Generated docs before handler generatedAt response) ∧
      ∀ now, e = .hit now response → ∃ handler generatedAt cachedAt,
        .response handler generatedAt cachedAt response ∈ before ∧ now - cachedAt < cacheTtl)
      log := by
  induction hrun with
  | start => exact atEach_nil
  | step hrun hstep ih => exact atEach_concat.mpr ⟨ih, fun _ hsends ↦ hrun.sends hstep hsends⟩

theorem finds_nil {κ δ : Type*} (filter : κ → δ → Prop) : Finds (fun _ ↦ none) filter [] where
  nodup := List.nodup_nil
  mem_iff _ _ := iff_of_false List.not_mem_nil fun h ↦ absurd h.1 (by simp)

theorem finds_single {κ δ : Type*} [DecidableEq κ] {docs : κ → Option δ} {filter : κ → δ → Prop}
    {k : κ} {d : δ} (hdocs : docs = Function.update (fun _ ↦ none) k (some d))
    (hfilter : filter k d) : Finds docs filter [(k, d)] where
  nodup := List.nodup_singleton _
  mem_iff k' d' := by
    rw [hdocs, List.mem_singleton, Prod.mk.injEq]
    rcases eq_or_ne k' k with rfl | hne
    · rw [Function.update_self, Option.some.injEq, eq_comm (a := d), and_iff_right rfl]
      refine ⟨fun h ↦ ⟨h, ?_⟩, fun h ↦ h.1⟩
      rw [h]
      exact hfilter
    · rw [Function.update_of_ne hne]
      exact iff_of_false (fun h ↦ hne h.1) fun h ↦ absurd h.1 (by simp)

/-- The document of a bus that is a minute late. -/
def lateDoc : DeviationDoc :=
  (("y1", "t1", 1, .arrival), ⟨0, seconds 60, seconds 60, none, none, none⟩)

/-- The collections with this document. -/
def lateDocs : Documents :=
  { scheduleDeviations := Function.update (fun _ ↦ none) lateDoc.1 (some lateDoc.2) }

/-- A request that finds the late bus, and another one a second after its response. -/
def twoRequests : List Event :=
  [.miss 0 (seconds 90) (seconds 90), .foundDeviations 0, .foundBunching 0,
    .response 0 (seconds 91) (seconds 91) (liveResponse [lateDoc] [] (seconds 91)),
    .hit (seconds 92) (liveResponse [lateDoc] [] (seconds 91))]

theorem run_twoRequests : ∃ s : Server, Run lateDocs twoRequests s ∧
    s.cached = some (liveResponse [lateDoc] [] (seconds 91), seconds 91) ∧
      s.pending = fun _ ↦ none := by
  have hlate : FindsDeviations lateDocs (seconds 90 - liveWindow) [lateDoc] :=
    finds_single (k := lateDoc.1) (d := lateDoc.2) rfl (by decide)
  have h₁ := (Run.start : Run lateDocs [] _).step (.miss _ 0 (seconds 90) (seconds 90) rfl rfl)
  have h₂ := h₁.step (.foundDeviations _ 0 _ [lateDoc] rfl hlate)
  have h₃ := h₂.step (.foundBunching _ 0 _ [] rfl (finds_nil _))
  have h₄ := h₃.step (.response _ 0 _ [lateDoc] [] (seconds 91) (seconds 91) rfl rfl rfl)
  have h₅ := h₄.step (.hit _ (seconds 92) _ rfl)
  exact ⟨_, h₅, rfl, by simp⟩

/-- The second response is the one that the first request has generated. -/
theorem live_twoRequests : ∃ handler generatedAt cachedAt,
    Event.response handler generatedAt cachedAt (liveResponse [lateDoc] [] (seconds 91)) ∈
        twoRequests.take 4 ∧
      seconds 92 - cachedAt < cacheTtl := by
  obtain ⟨s, hrun, -, -⟩ := run_twoRequests
  let response : LiveResponse := liveResponse [lateDoc] [] (seconds 91)
  exact (live_run hrun (twoRequests.take 4) (.hit (seconds 92) response) [] rfl response rfl).2
    (seconds 92) rfl

/-! ## How often the collections are read -/

theorem ClockForward.of_append {more : List Event} (h : ClockForward (log ++ more)) :
    ClockForward log := by
  rw [ClockForward, List.flatMap_append, List.pairwise_append] at h
  exact h.1

/-- Where the clock does not go back, the payload in the cache was stored last. -/
theorem le_stored {other : ℕ} {generatedAt cachedAt : Time} {response : LiveResponse}
    (hclock : ClockForward log) (h : .response other generatedAt cachedAt response ∈ log) :
    ∃ payload last, stored log = some (payload, last) ∧ cachedAt ≤ last := by
  induction log using List.reverseRecOn with
  | nil => exact absurd h List.not_mem_nil
  | append_singleton log e ih =>
    rw [stored_concat]
    rcases List.mem_append.mp h with hmem | hlast
    · cases e with
      | response handler generated last payload =>
        refine ⟨payload, last, rfl, ?_⟩
        rw [ClockForward, List.flatMap_append, List.pairwise_append] at hclock
        refine hclock.2.2 cachedAt (List.mem_flatMap.mpr ⟨_, hmem, ?_⟩) last ?_
        · exact List.mem_cons_of_mem _ (List.mem_singleton_self _)
        · exact List.mem_cons_of_mem _ (List.mem_singleton_self _)
      | change docs' => exact ih hclock.of_append hmem
      | hit now payload => exact ih hclock.of_append hmem
      | miss handler checkedAt now => exact ih hclock.of_append hmem
      | foundDeviations handler => exact ih hclock.of_append hmem
      | foundBunching handler => exact ih hclock.of_append hmem
      | error handler => exact ih hclock.of_append hmem
    · rw [List.mem_singleton] at hlast
      subst hlast
      exact ⟨response, cachedAt, rfl, le_refl _⟩

/-- **The collections are read at most once in five seconds, apart from requests that wait at the
same time.** Where the clock does not go back, a request starts queries only five seconds after
every response that has been generated before it. -/
theorem scans_run (hrun : Run docs log s) (hclock : ClockForward log) :
    AtEach (fun before e ↦ ∀ handler checkedAt now, e = .miss handler checkedAt now →
      ∀ other generatedAt cachedAt response,
        .response other generatedAt cachedAt response ∈ before →
          cachedAt + cacheTtl ≤ checkedAt)
      log := by
  induction hrun with
  | start => exact atEach_nil
  | @step log s s' e hrun hstep ih =>
    refine atEach_concat.mpr ⟨ih hclock.of_append, ?_⟩
    rintro handler checkedAt now rfl other generatedAt cachedAt response hmem
    obtain ⟨payload, last, hstored, hle⟩ := le_stored hclock.of_append hmem
    rw [← hrun.cached_eq] at hstored
    cases hstep with
    | miss _ _ _ hstale hfree =>
      exact (add_le_add_left hle _).trans (fresh_eq_none hstale hstored)

/-- Six seconds later the collections are read again, which is late enough. -/
theorem scans_twoRequests : seconds 91 + cacheTtl ≤ seconds 97 := by
  obtain ⟨s, hrun, hcached, hpending⟩ := run_twoRequests
  have hstale : s.fresh (seconds 97) = none := by
    rw [Server.fresh, hcached]
    exact if_neg (by decide)
  have hnext := hrun.step (.miss s 0 (seconds 97) (seconds 97) hstale (by rw [hpending]))
  have hclock : ClockForward (twoRequests ++ [.miss 0 (seconds 97) (seconds 97)]) := by
    rw [ClockForward]
    decide
  exact scans_run hnext hclock twoRequests _ [] rfl 0 (seconds 97) (seconds 97) rfl 0 (seconds 91)
    (seconds 91) (liveResponse [lateDoc] [] (seconds 91)) (by simp [twoRequests])

end GtfsStream.Api
