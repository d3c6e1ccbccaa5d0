import GtfsStream.Analytics.DeviationVolume
import GtfsStream.Api.LiveSpec

/-!
# From the windows to the map

Where the collections change by nothing but persisted windows, what the live endpoint serves can be
told from the windows alone: of every key, the deviation that was carried last is shown, and only if
it lies in the live window; and likewise of every bunching event.

## The last record of a key

An upsert replaces what it sets, so after any windows the document of a key tells what the last
record of that key told. A part of a window, or one of its two writes, is a window that carries no
more. A query finds the documents that pass its filter, and the filter can be read off the record:
it finds the last records that pass. What is shown of them are the entries, one for each key. Over a
run these facts are taken at the moments that the response is pinned to.
-/

namespace GtfsStream.Api

open Analytics History

variable {log : List Event} {results : List WindowResult} {s : Server}

/-! ## What the windows leave -/

/-- The documents after the windows. -/
def persisted (results : List WindowResult) : Documents :=
  results.foldl Documents.persistWindow {}

/-- The last deviation that the windows carry under a key. -/
def lastDeviation (results : List WindowResult) (key : DeviationKey) : Option DeviationResult :=
  ((results.flatMap WindowResult.newDeviations).filter (·.key = key)).getLast?

/-- The last state of a bunching event that the windows carry under a key. -/
def lastBunching (results : List WindowResult) (key : BunchingKey) : Option BunchingEvent :=
  (((results.flatMap WindowResult.bunchingActions).map Prod.snd).filter fun event ↦
    (event.key, event.startTime) = key).getLast?

/-- What a document and a result both tell of a deviation. -/
def documentTimes (d : DeviationDocument) : Time × Time × Time :=
  (d.scheduledAt, d.actualAt, d.deviationSeconds)

def resultTimes (r : DeviationResult) : Time × Time × Time :=
  (r.scheduledAt, r.actualAt, r.deviationSeconds)

/-- What a document and an event both tell of a bunching. -/
def documentRecord (d : BunchingDocument) : Time × ℕ × ℚ :=
  (d.endTime, d.observationCount, d.minDistanceMeters)

def eventRecord (e : BunchingEvent) : Time × ℕ × ℚ :=
  (e.endTime, e.observationCount, e.minDistanceMeters)

theorem persisted_concat (results : List WindowResult) (result : WindowResult) :
    persisted (results ++ [result]) = (persisted results).persistWindow result := by
  rw [persisted, List.foldl_append]
  rfl

theorem getLast?_filter_append {α : Type*} (p : α → Bool) (l l' : List α) :
    ((l ++ l').filter p).getLast? = ((l'.filter p).getLast?).or (l.filter p).getLast? := by
  rw [List.filter_append, List.getLast?_append]

/-- The document of a key tells of the last deviation of that key. -/
theorem persisted_deviation (key : DeviationKey) :
    ((persisted results).scheduleDeviations key).map documentTimes =
      (lastDeviation results key).map resultTimes := by
  induction results using List.reverseRecOn with
  | nil => rfl
  | append_singleton results result ih =>
    have hset (found : Option DeviationDocument) (document : DeviationDocument) :
        documentTimes (setDeviation found document) = documentTimes document := rfl
    rw [persisted_concat, lastDeviation, List.flatMap_append, List.flatMap_singleton,
      getLast?_filter_append, Option.map_or]
    change ((bulkWrite setDeviation (persisted results).scheduleDeviations _ key).map _) = _
    rw [bulkWrite_map hset, ih, buildDeviationOperations, List.filter_map, List.getLast?_map,
      Option.map_map]
    rfl

/-- The document of a key tells of the last state of that bunching event. -/
theorem persisted_bunching (key : BunchingKey) :
    ((persisted results).bunchingEvents key).map documentRecord =
      (lastBunching results key).map eventRecord := by
  induction results using List.reverseRecOn with
  | nil => rfl
  | append_singleton results result ih =>
    rw [persisted_concat, lastBunching, List.flatMap_append, List.flatMap_singleton,
      List.map_append, getLast?_filter_append, Option.map_or]
    change ((bulkWrite (fun _ document ↦ document) (persisted results).bunchingEvents _ key).map
      _) = _
    rw [bulkWrite_map (fun _ _ ↦ rfl), ih, buildBunchingOperations, List.filter_map,
      List.filter_map, List.getLast?_map, List.getLast?_map, Option.map_map, Option.map_map]
    rfl

theorem key_of_lastDeviation {key : DeviationKey} {r : DeviationResult}
    (h : lastDeviation results key = some r) : r.key = key :=
  of_decide_eq_true (List.mem_filter.mp (List.mem_of_getLast? h)).2

theorem key_of_lastBunching {key : BunchingKey} {event : BunchingEvent}
    (h : lastBunching results key = some event) : (event.key, event.startTime) = key :=
  of_decide_eq_true (List.mem_filter.mp (List.mem_of_getLast? h)).2

/-! ## What a query finds of them -/

/-- The documents that a query finds, where the document of a key tells what the last record of that
key tells, and the filter can be read off the record: they are those of the last records that pass
the filter. -/
theorem Finds.records {κ δ ρ τ : Type*} {docs : κ → Option δ} {last : κ → Option ρ} {f : δ → τ}
    {g : ρ → τ} {filter : κ → δ → Prop} (keyOf : ρ → κ) (passes : ρ → Prop)
    (hlast : ∀ k, (docs k).map f = (last k).map g) (hkey : ∀ k r, last k = some r → keyOf r = k)
    (hfilter : ∀ k d r, f d = g r → (filter k d ↔ passes r)) {answer : List (κ × δ)}
    (h : Finds docs filter answer) :
    ∃ records : List ρ, List.Forall₂ (fun doc r ↦ doc.1 = keyOf r ∧ f doc.2 = g r) answer records ∧
      (records.map keyOf).Nodup ∧ ∀ r, r ∈ records ↔ last (keyOf r) = some r ∧ passes r := by
  -- every document that is found has the last record of its key
  have hrecord : ∀ doc ∈ answer, ∃ r, last doc.1 = some r ∧ f doc.2 = g r := by
    rintro ⟨k, d⟩ hmem
    have hk := hlast k
    rw [((h.mem_iff k d).mp hmem).1, Option.map_some] at hk
    obtain ⟨r, hr, hg⟩ := Option.map_eq_some_iff.mp hk.symm
    exact ⟨r, hr, hg.symm⟩
  have hall : ∀ l : List (κ × δ), (∀ doc ∈ l, doc ∈ answer) →
      List.Forall₂ (fun doc r ↦ doc.1 = keyOf r ∧ f doc.2 = g r) l
        (l.filterMap fun doc ↦ last doc.1) ∧
      (l.filterMap fun doc ↦ last doc.1).map keyOf = l.map Prod.fst := by
    intro l hl
    induction l with
    | nil => exact ⟨List.Forall₂.nil, rfl⟩
    | cons doc l ih =>
      obtain ⟨r, hr, hg⟩ := hrecord doc (hl doc List.mem_cons_self)
      obtain ⟨hforall, hkeys⟩ := ih fun doc hmem ↦ hl doc (List.mem_cons_of_mem _ hmem)
      have hcons : (doc :: l).filterMap (fun doc ↦ last doc.1) =
          r :: l.filterMap fun doc ↦ last doc.1 := List.filterMap_cons_some hr
      rw [hcons, List.map_cons, List.map_cons, hkeys, hkey _ _ hr]
      exact ⟨List.Forall₂.cons ⟨(hkey _ _ hr).symm, hg⟩ hforall, rfl⟩
  obtain ⟨hforall, hkeys⟩ := hall answer fun _ hmem ↦ hmem
  refine ⟨_, hforall, hkeys ▸ h.nodup, fun r ↦ ?_⟩
  rw [List.mem_filterMap]
  constructor
  · rintro ⟨⟨k, d⟩, hmem, hr⟩
    obtain ⟨r', hr', hg⟩ := hrecord _ hmem
    rw [hr, Option.some.injEq] at hr'
    subst hr'
    rw [hkey _ _ hr]
    exact ⟨hr, (hfilter k d r hg).mp ((h.mem_iff k d).mp hmem).2⟩
  · rintro ⟨hr, hpass⟩
    have hk := hlast (keyOf r)
    rw [hr, Option.map_some] at hk
    obtain ⟨d, hd, hg⟩ := Option.map_eq_some_iff.mp hk
    exact ⟨(keyOf r, d), (h.mem_iff _ d).mpr ⟨hd, (hfilter _ d r hg).mpr hpass⟩, hr⟩

/-- The entry shows the deviation. -/
structure DelayEntry.Shows (entry : DelayEntry) (r : DeviationResult) : Prop where
  vehicleId : entry.vehicleId = r.vehicleId
  tripId : entry.tripId = r.tripId
  kind : entry.kind = r.kind
  deviationSeconds : entry.deviationSeconds = r.deviationSeconds
  scheduledAt : entry.scheduledAt = isoString r.scheduledAt
  actualAt : entry.actualAt = isoString r.actualAt

/-- The entry of a bunching event. -/
def entryOf (e : BunchingEvent) : BunchingEntry where
  routeId := e.routeId
  directionId := e.directionId
  vehicleA := e.vehicleA
  vehicleB := e.vehicleB
  startTime := isoString e.startTime
  endTime := isoString e.endTime
  observationCount := e.observationCount
  minDistanceMeters := e.minDistanceMeters

theorem shows_delayEntry {doc : DeviationDoc} {r : DeviationResult} (hkey : doc.1 = r.key)
    (htimes : documentTimes doc.2 = resultTimes r) : (delayEntry doc).Shows r := by
  obtain ⟨k, d⟩ := doc
  subst hkey
  rw [documentTimes, resultTimes, Prod.mk.injEq, Prod.mk.injEq] at htimes
  obtain ⟨hscheduled, hactual, hdeviation⟩ := htimes
  exact ⟨rfl, rfl, rfl, hdeviation, congrArg isoString hscheduled, congrArg isoString hactual⟩

theorem bunchingEntry_eq {doc : BunchingDoc} {e : BunchingEvent}
    (hkey : doc.1 = (e.key, e.startTime)) (hrecord : documentRecord doc.2 = eventRecord e) :
    bunchingEntry doc = entryOf e := by
  obtain ⟨k, d⟩ := doc
  subst hkey
  rw [documentRecord, eventRecord, Prod.mk.injEq, Prod.mk.injEq] at hrecord
  obtain ⟨hending, hcount, hdistance⟩ := hrecord
  rw [bunchingEntry, entryOf, hending, hcount, hdistance]
  rfl

/-- The delays show, of every key, the deviation that the windows carried last, if it is not older
than the cutoff. -/
def ShowsDelays (results : List WindowResult) (cutoff : Time) (delays : List DelayEntry) : Prop :=
  ∃ shown : List DeviationResult, List.Forall₂ DelayEntry.Shows delays shown ∧
    (shown.map DeviationResult.key).Nodup ∧
    ∀ r, r ∈ shown ↔ lastDeviation results r.key = some r ∧ cutoff ≤ r.actualAt

def ShowsBunching (results : List WindowResult) (cutoff : Time) (entries : List BunchingEntry) :
    Prop :=
  ∃ shown : List BunchingEvent, entries = shown.map entryOf ∧
    (shown.map fun e ↦ (e.key, e.startTime)).Nodup ∧
    ∀ e, e ∈ shown ↔ lastBunching results (e.key, e.startTime) = some e ∧ cutoff ≤ e.endTime

theorem showsDelays {cutoff : Time} {answer : List DeviationDoc}
    (h : FindsDeviations (persisted results) cutoff answer) :
    ShowsDelays results cutoff (answer.map delayEntry) := by
  have hfilter (_ : DeviationKey) (d : DeviationDocument) (r : DeviationResult)
      (htimes : documentTimes d = resultTimes r) : cutoff ≤ d.actualAt ↔ cutoff ≤ r.actualAt := by
    have hactual : d.actualAt = r.actualAt := congrArg (fun t ↦ t.2.1) htimes
    rw [hactual]
  obtain ⟨shown, hforall, hnodup, hmem⟩ := Finds.records DeviationResult.key
    (fun r ↦ cutoff ≤ r.actualAt) persisted_deviation (fun _ _ hr ↦ key_of_lastDeviation hr)
    hfilter h
  refine ⟨shown, ?_, hnodup, hmem⟩
  rw [List.forall₂_map_left_iff]
  exact hforall.imp fun doc r hdoc ↦ shows_delayEntry hdoc.1 hdoc.2

theorem showsBunching {cutoff : Time} {answer : List BunchingDoc}
    (h : FindsBunching (persisted results) cutoff answer) :
    ShowsBunching results cutoff (answer.map bunchingEntry) := by
  have hfilter (_ : BunchingKey) (d : BunchingDocument) (e : BunchingEvent)
      (hrecord : documentRecord d = eventRecord e) : cutoff ≤ d.endTime ↔ cutoff ≤ e.endTime := by
    have hending : d.endTime = e.endTime := congrArg Prod.fst hrecord
    rw [hending]
  obtain ⟨shown, hforall, hnodup, hmem⟩ := Finds.records (fun e ↦ (e.key, e.startTime))
    (fun e ↦ cutoff ≤ e.endTime) persisted_bunching (fun _ _ hr ↦ key_of_lastBunching hr)
    hfilter h
  refine ⟨shown, ?_, hnodup, hmem⟩
  rw [← List.forall₂_eq_eq_eq, List.forall₂_map_left_iff, List.forall₂_map_right_iff]
  exact hforall.imp fun doc e hdoc ↦ bunchingEntry_eq hdoc.1 hdoc.2

/-! ## The windows of a run -/

/-- The changes of the collections in the log are the windows, one after the other. A bulk write by
itself, or the part of it that was done when a query came, is a window that carries no more. -/
inductive Fed : List Event → List WindowResult → Prop
  | start : Fed [] []
  | window {log : List Event} {results : List WindowResult} (h : Fed log results)
      (result : WindowResult) :
      Fed (log ++ [.change ((persisted results).persistWindow result)]) (results ++ [result])
  | other {log : List Event} {results : List WindowResult} (h : Fed log results) (e : Event)
      (he : ∀ docs, e ≠ .change docs) : Fed (log ++ [e]) results

theorem Fed.docsAfter_eq (h : Fed log results) : docsAfter {} log = persisted results := by
  induction h with
  | start => rfl
  | window h result ih => rw [docsAfter_concat, persisted_concat]
  | other h e he ih =>
    rw [docsAfter_concat]
    cases e with
    | change docs => exact absurd rfl (he docs)
    | _ => exact ih

/-- How many windows have been persisted. -/
def windows (log : List Event) : ℕ := log.countP fun e ↦ e matches .change _

theorem windows_mono {log log' : List Event} (h : log' <+: log) : windows log' ≤ windows log :=
  h.sublist.countP_le

theorem Fed.length_eq (h : Fed log results) : results.length = windows log := by
  induction h with
  | start => rfl
  | window h result ih =>
    rw [windows, List.countP_append, List.length_append, ih]
    rfl
  | @other log results h e he ih =>
    rw [windows, List.countP_append, ih]
    cases e with
    | change docs => exact absurd rfl (he docs)
    | _ => rfl

theorem Fed.of_prefix (h : Fed log results) {log' : List Event} (hlog : log' <+: log) :
    Fed log' (results.take (windows log')) := by
  induction h with
  | start =>
    rw [List.prefix_nil.mp hlog]
    exact .start
  | @window log results h result ih =>
    rcases List.prefix_concat_iff.mp hlog with rfl | hlog
    · rw [← (h.window result).length_eq, List.take_length]
      exact h.window result
    · rw [List.take_append_of_le_length (h.length_eq ▸ windows_mono hlog)]
      exact ih hlog
  | @other log results h e he ih =>
    rcases List.prefix_concat_iff.mp hlog with rfl | hlog
    · rw [← (h.other e he).length_eq, List.take_length]
      exact h.other e he
    · exact ih hlog

/-- **The map shows what the windows carried.** Where the collections change by persisted windows
only, every response shows, of every stop visit and of every bunching event, the record that was
carried last by the windows of some moment, if it lies in the live window. That moment is not before
the request that generated the response, so every window that was persisted by then is shown. -/
theorem live_windows (hrun : Run {} log s) (hfed : Fed log results) :
    AtEach (fun before e ↦ ∀ response, e.Sends response →
      ∃ started handler checkedAt now after delayed bunched,
        before = started ++ [.miss handler checkedAt now] ++ after ∧
        windows started ≤ delayed ∧ delayed ≤ windows before ∧
        windows started ≤ bunched ∧ bunched ≤ windows before ∧
        ShowsDelays (results.take delayed) (now - liveWindow) response.delays ∧
        ShowsBunching (results.take bunched) (now - liveWindow) response.bunching)
      log := by
  intro before e rest hlog response hsends
  obtain ⟨handler, generatedAt, started, checkedAt, now, after, deviationDocs, bunchingDocs,
    hbefore, ⟨since, hsince, hd⟩, ⟨since', hsince', hb⟩, rfl⟩ :=
    hrun.atEach_generated before e rest hlog response hsends
  -- what the collections were at a moment since the handler has started
  have hmoment {since : List Event} (h : since <+: after) :
      windows started ≤ windows (started ++ [.miss handler checkedAt now] ++ since) ∧
      windows (started ++ [.miss handler checkedAt now] ++ since) ≤ windows before ∧
      docsAfter {} (started ++ [.miss handler checkedAt now] ++ since) =
        persisted (results.take (windows (started ++ [.miss handler checkedAt now] ++ since))) := by
    have hprefix : started ++ [.miss handler checkedAt now] ++ since <+: before := by
      rw [hbefore]
      exact (List.prefix_append_right_inj _).mpr h
    refine ⟨windows_mono ?_, windows_mono hprefix, (hfed.of_prefix ?_).docsAfter_eq⟩
    · rw [List.append_assoc]
      exact List.prefix_append _ _
    · exact hprefix.trans ⟨e :: rest, hlog.symm⟩
  obtain ⟨hge, hle, hdocs⟩ := hmoment hsince
  obtain ⟨hge', hle', hdocs'⟩ := hmoment hsince'
  rw [hdocs] at hd
  rw [hdocs'] at hb
  exact ⟨started, handler, checkedAt, now, after, _, _, hbefore, hge, hle, hge', hle',
    showsDelays hd, showsBunching hb⟩

/-- A bus that is a minute late, in a window of its own. -/
def lateWindow : WindowResult where
  bunchingActions := []
  newDeviations := [⟨"y1", "t1", 1, .arrival, 0, seconds 60, seconds 60, none, none, none⟩]
  totalRecords := 1
  matching := none

theorem finds_lateDoc : FindsDeviations (persisted [lateWindow]) (seconds 90 - liveWindow)
    [lateDoc] :=
  finds_single (k := lateDoc.1) (d := lateDoc.2) rfl (by decide)

/-- Half a minute later the map shows the late bus. -/
theorem live_lateWindow : ∃ m, m ≤ 1 ∧ ShowsDelays ([lateWindow].take m) (seconds 90 - liveWindow)
    [delayEntry lateDoc] := by
  have h₁ := (Run.start : Run {} [] _).step (.change _ (persisted [lateWindow]))
  have h₂ := h₁.step (.miss _ 0 (seconds 90) (seconds 90) rfl rfl)
  have h₃ := h₂.step (.foundDeviations _ 0 _ [lateDoc] rfl finds_lateDoc)
  have h₄ := h₃.step (.foundBunching _ 0 _ [] rfl (finds_nil _))
  have h₅ := h₄.step (.response _ 0 _ [lateDoc] [] (seconds 91) (seconds 91) rfl rfl rfl)
  have hfed := ((((Fed.start.window lateWindow).other (.miss 0 (seconds 90) (seconds 90))
    nofun).other (.foundDeviations 0) nofun).other (.foundBunching 0) nofun).other
    (.response 0 (seconds 91) (seconds 91) (liveResponse [lateDoc] [] (seconds 91))) nofun
  obtain ⟨started, handler, checkedAt, now, after, m, -, hbefore, -, hle, -, -, hshows, -⟩ :=
    live_windows h₅ hfed _ _ [] rfl (liveResponse [lateDoc] [] (seconds 91)) rfl
  have hnow : now = seconds 90 := by
    have hmem : Event.miss handler checkedAt now ∈ started ++ [.miss handler checkedAt now] ++
        after := by simp
    rw [← hbefore] at hmem
    simp only [List.nil_append, List.cons_append, List.mem_cons, Event.miss.injEq,
      reduceCtorEq, List.not_mem_nil, or_false, false_or] at hmem
    exact hmem.2.2
  rw [hnow] at hshows
  exact ⟨m, hle, hshows⟩

end GtfsStream.Api
