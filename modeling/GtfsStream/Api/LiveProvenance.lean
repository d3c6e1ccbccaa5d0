import GtfsStream.Analytics.Provenance
import GtfsStream.Api.LiveWindows

/-!
# From the topic to the map

The consumer and the live endpoint as one system. The consumer takes turns and is restarted, parts
of its windows are written, documents expire and requests are answered, in any order. Whatever is
shown on the map was said by messages that the consumer had received.

## What is carried along

Three things are kept by every step: what is in the buffer and in the trackers of the consumer was
received, the results in its log lead back to messages, and so does every document. A restart
empties the buffer and the trackers, and the messages received before it still count. A write takes
a document from a result in the log; an expiry takes one away. A response then shows documents that
were there at some moment since its handler started, and so what it shows was received before it.
-/

namespace GtfsStream.Api

open Analytics History

/-! ## The system -/

/-- How the log of the endpoint comes about while a consumer runs. The pings are those that were
received by the processes that have ended.

A bulk write that fails may have done any part of its operations, so any part of a window that was
handed to the sink may be written. A sink that raises counts as one that fails before a restart. -/
inductive Supplied (cfg : Settings) (statics : Set GtfsStaticData) :
    List Event → List Ping → Consumer → Prop
  | start (t : Time) : Supplied cfg statics [] [] { lastWindowFlush := t }
  | turn {log : List Event} {earlier : List Ping} {c c' : Consumer}
      (h : Supplied cfg statics log earlier c) (turn : Turn) (hstatic : turn.static ∈ statics)
      (hstep : c.step cfg turn = some c') : Supplied cfg statics log earlier c'
  | write {log : List Event} {earlier : List Ping} {c : Consumer} {pings : List Ping}
      {result : WindowResult} {success : Bool} (h : Supplied cfg statics log earlier c)
      (hhanded : Analytics.Event.handed pings result success ∈ c.log)
      (actions : List (Action × BunchingEvent)) (deviations : List DeviationResult)
      (hactions : ∀ a ∈ actions, a ∈ result.bunchingActions)
      (hdeviations : ∀ r ∈ deviations, r ∈ result.newDeviations) :
      Supplied cfg statics
        (log ++ [.change
          (((docsAfter {} log).writeBunchingActions actions).writeDeviationResults deviations)])
        earlier c
  | expire {log : List Event} {earlier : List Ping} {c : Consumer}
      (h : Supplied cfg statics log earlier c) (docs : Documents)
      (hbunching : ∀ k d, docs.bunchingEvents k = some d →
        (docsAfter {} log).bunchingEvents k = some d)
      (hdeviations : ∀ k d, docs.scheduleDeviations k = some d →
        (docsAfter {} log).scheduleDeviations k = some d) :
      Supplied cfg statics (log ++ [.change docs]) earlier c
  | request {log : List Event} {earlier : List Ping} {c : Consumer}
      (h : Supplied cfg statics log earlier c) (e : Event) (he : ∀ docs, e ≠ .change docs) :
      Supplied cfg statics (log ++ [e]) earlier c
  | restart {log : List Event} {earlier : List Ping} {c : Consumer}
      (h : Supplied cfg statics log earlier c) (t : Time) :
      Supplied cfg statics log (earlier ++ messages c.log) { lastWindowFlush := t }

variable {cfg : Settings} {statics : Set GtfsStaticData} {frames : Frames} {zone : Zone}
  {log : List Event} {earlier received more : List Ping} {c : Consumer} {l l' : Ledger}
  {docs : Documents} {s : Server} {e : Event}

/-! ## The consumer -/

/-- What a window result says was said by the messages. -/
def ResultSourced (frames : Frames) (zone : Zone) (statics : Set GtfsStaticData)
    (received : List Ping) (result : WindowResult) : Prop :=
  (∀ r ∈ result.newDeviations, Arrived zone statics received r) ∧
    ∀ a ∈ result.bunchingActions, Backed frames statics received a.2

/-- What a process remembers and what it has handed over were said by the messages it received, or
by earlier ones. -/
structure Sourced (frames : Frames) (zone : Zone) (statics : Set GtfsStaticData)
    (received : List Ping) (l : Ledger) : Prop where
  rows : ∀ p ∈ l.memory.rows, p ∈ received
  tracks : TracksBacked frames statics received l.memory.bunchingTracker
  handed : ∀ pings result success, .handed pings result success ∈ l.log →
    ResultSourced frames zone statics received result

theorem ResultSourced.mono {result : WindowResult}
    (h : ResultSourced frames zone statics received result) (hmore : ∀ p ∈ received, p ∈ more) :
    ResultSourced frames zone statics more result :=
  ⟨fun r hr ↦ (h.1 r hr).mono hmore, fun a ha ↦ (h.2 a ha).mono hmore⟩

theorem sourced_start (t : Time) :
    Sourced frames zone statics received ({ lastWindowFlush := t } : Consumer).ledger where
  rows _ hp := absurd hp List.not_mem_nil
  tracks _ _ hf := nomatch hf
  handed _ _ _ hmem := absurd hmem List.not_mem_nil

theorem Sourced.handOver (h : Sourced frames zone statics received l) {static : GtfsStaticData}
    (hstatic : static ∈ statics) :
    ResultSourced frames zone statics received (l.memory.handOver frames zone static).1 ∧
      (∀ p ∈ (l.memory.handOver frames zone static).2.rows, p ∈ received) ∧
      TracksBacked frames statics received
        (l.memory.handOver frames zone static).2.bunchingTracker := by
  obtain ⟨hactions, htracks⟩ := backed_of_window zone l.memory.flushed hstatic h.rows h.tracks
  refine ⟨⟨fun r hr ↦ arrived_of_newDeviation hstatic h.rows hr, hactions⟩, fun p hp ↦ ?_, htracks⟩
  rw [Memory.handOver, processWindow_rows] at hp
  exact h.rows p (List.mem_filter.mp hp).1

theorem messages_append (log more : List Analytics.Event) :
    messages (log ++ more) = messages log ++ messages more :=
  List.filterMap_append

theorem Sourced.grow {event : List Analytics.Event} {memory : Memory}
    (h : Sourced frames zone statics (earlier ++ messages l.log) l)
    (hrows : ∀ p ∈ memory.rows, p ∈ earlier ++ messages l.log ∨ p ∈ messages event)
    (htracks : TracksBacked frames statics (earlier ++ messages l.log) memory.bunchingTracker)
    (hhanded : ∀ pings result success, .handed pings result success ∈ event →
      ResultSourced frames zone statics (earlier ++ messages l.log) result) :
    Sourced frames zone statics (earlier ++ messages (l.log ++ event))
      ⟨memory, l.log ++ event⟩ := by
  have hmono : ∀ p ∈ earlier ++ messages l.log, p ∈ earlier ++ messages (l.log ++ event) := by
    intro p hp
    rw [messages_append, ← List.append_assoc]
    exact List.mem_append_left _ hp
  constructor
  · intro p hp
    rcases hrows p hp with hp | hp
    · exact hmono p hp
    · rw [messages_append, ← List.append_assoc]
      exact List.mem_append_right _ hp
  · exact htracks.mono hmono
  · intro pings result success hmem
    rcases List.mem_append.mp hmem with hmem | hmem
    · exact (h.handed pings result success hmem).mono hmono
    · exact (hhanded pings result success hmem).mono hmono

theorem Sourced.advance (h : Sourced frames zone statics (earlier ++ messages l.log) l)
    (hadvance : Advance frames zone statics l l') :
    Sourced frames zone statics (earlier ++ messages l'.log) l' := by
  cases hadvance with
  | skip => exact h.grow (fun p hp ↦ Or.inl (h.rows p hp)) h.tracks (by simp)
  | receive p hoffset =>
    refine h.grow (fun q hq ↦ ?_) h.tracks (by simp)
    rcases List.mem_append.mp hq with hq | hq
    · exact Or.inl (h.rows q hq)
    · exact Or.inr hq
  | drop =>
    exact h.grow (fun p hp ↦ Or.inl (h.rows p (List.mem_filter.mp hp).1)) h.tracks (by simp)
  | fail static hstatic hne =>
    obtain ⟨hresult, hrows, htracks⟩ := h.handOver hstatic
    refine h.grow (fun p hp ↦ Or.inl (hrows p hp)) htracks fun pings result success hmem ↦ ?_
    obtain ⟨-, rfl, -⟩ := Analytics.Event.handed.inj (List.mem_singleton.mp hmem)
    exact hresult
  | persist static hstatic hne =>
    obtain ⟨hresult, hrows, htracks⟩ := h.handOver hstatic
    rw [List.append_assoc]
    refine h.grow (fun p hp ↦ Or.inl (hrows p hp)) htracks fun pings result success hmem ↦ ?_
    rcases List.mem_cons.mp hmem with heq | hmem
    · obtain ⟨-, rfl, -⟩ := Analytics.Event.handed.inj heq
      exact hresult
    · exact absurd (List.mem_singleton.mp hmem) (by simp)

theorem Sourced.advances (h : Sourced frames zone statics (earlier ++ messages l.log) l)
    (hadvances : Relation.ReflTransGen (Advance frames zone statics) l l') :
    Sourced frames zone statics (earlier ++ messages l'.log) l' ∧ l.log <+: l'.log := by
  induction hadvances with
  | refl => exact ⟨h, List.prefix_rfl⟩
  | tail _ hadvance ih => exact ⟨ih.1.advance hadvance, ih.2.trans hadvance.log_prefix⟩

/-- One turn of the consumer, which has received what it had received before. -/
theorem Sourced.turn {turn : Turn} {c' : Consumer}
    (h : Sourced cfg.frames cfg.zone statics (earlier ++ messages c.log) c.ledger)
    (hstatic : turn.static ∈ statics) (hstep : c.step cfg turn = some c') :
    Sourced cfg.frames cfg.zone statics (earlier ++ messages c'.log) c'.ledger ∧
      ∀ p ∈ earlier ++ messages c.log, p ∈ earlier ++ messages c'.log := by
  obtain ⟨hsourced, more, hmore⟩ := h.advances (Consumer.step_advances hstatic hstep)
  refine ⟨hsourced, fun p hp ↦ ?_⟩
  change p ∈ earlier ++ messages c'.ledger.log
  rw [← hmore, messages_append, ← List.append_assoc]
  exact List.mem_append_left _ hp

/-! ## The collections -/

/-- What the documents say was said by the messages. -/
structure DocsSourced (frames : Frames) (zone : Zone) (statics : Set GtfsStaticData)
    (received : List Ping) (docs : Documents) : Prop where
  deviations : ∀ k d, docs.scheduleDeviations k = some d → ∃ r : DeviationResult,
    (∃ static ∈ statics, ∃ p ∈ received, ArrivalOf zone static p r) ∧ r.key = k ∧
      documentTimes d = resultTimes r ∧
      Enriched statics r.tripId r.stopSequence d.routeId d.routeLongName d.location
  bunching : ∀ k d, docs.bunchingEvents k = some d → ∃ event : BunchingEvent,
    Backed frames statics received event ∧ (event.key, event.startTime) = k ∧
      documentRecord d = eventRecord event

/-- A property of every document is kept by a bulk write whose operations leave it. -/
theorem bulkWrite_forall {κ δ : Type*} [DecidableEq κ] {set : Option δ → δ → δ} {Q : κ → δ → Prop}
    {docs : κ → Option δ} {operations : List (κ × δ)} (hdocs : ∀ k d, docs k = some d → Q k d)
    (hset : ∀ operation ∈ operations, ∀ found, (∀ d, found = some d → Q operation.1 d) →
      Q operation.1 (set found operation.2)) :
    ∀ k d, bulkWrite set docs operations k = some d → Q k d := by
  induction operations generalizing docs with
  | nil => exact hdocs
  | cons operation operations ih =>
    obtain ⟨hfirst, hrest⟩ := List.forall_mem_cons.mp hset
    rw [bulkWrite_cons]
    refine ih (fun k d hkd ↦ ?_) hrest
    rcases eq_or_ne k operation.1 with rfl | hne
    · rw [Function.update_self, Option.some.injEq] at hkd
      exact hkd ▸ hfirst _ fun d hd ↦ hdocs _ d hd
    · rw [Function.update_of_ne hne] at hkd
      exact hdocs k d hkd

theorem docsSourced_empty : DocsSourced frames zone statics received {} where
  deviations _ _ h := nomatch h
  bunching _ _ h := nomatch h

theorem DocsSourced.mono (h : DocsSourced frames zone statics received docs)
    (hmore : ∀ p ∈ received, p ∈ more) : DocsSourced frames zone statics more docs := by
  constructor
  · intro k d hd
    obtain ⟨r, ⟨static, hstatic, p, hp, harrival⟩, hrest⟩ := h.deviations k d hd
    exact ⟨r, ⟨static, hstatic, p, hmore p hp, harrival⟩, hrest⟩
  · intro k d hd
    obtain ⟨event, hbacked, hrest⟩ := h.bunching k d hd
    exact ⟨event, hbacked.mono hmore, hrest⟩

theorem DocsSourced.write (h : DocsSourced frames zone statics received docs)
    {result : WindowResult} (hresult : ResultSourced frames zone statics received result)
    {actions : List (Action × BunchingEvent)} {deviations : List DeviationResult}
    (hactions : ∀ a ∈ actions, a ∈ result.bunchingActions)
    (hdeviations : ∀ r ∈ deviations, r ∈ result.newDeviations) :
    DocsSourced frames zone statics received
      ((docs.writeBunchingActions actions).writeDeviationResults deviations) := by
  constructor
  · refine bulkWrite_forall h.deviations fun operation hoperation found hfound ↦ ?_
    obtain ⟨r, hr, rfl⟩ := List.mem_map.mp hoperation
    obtain ⟨harrival, henriched⟩ := hresult.1 r (hdeviations r hr)
    refine ⟨r, harrival, rfl, rfl, henriched.or ?_⟩
    cases found with
    | none => exact ⟨nofun, nofun, nofun⟩
    | some d =>
      obtain ⟨r', -, hkey, -, henriched'⟩ := hfound d rfl
      have hkey : r'.tripId = r.tripId ∧ r'.stopSequence = r.stopSequence := by
        rw [DeviationResult.key, Prod.mk.injEq, Prod.mk.injEq, Prod.mk.injEq] at hkey
        exact ⟨hkey.2.1, hkey.2.2.1⟩
      rw [hkey.1, hkey.2] at henriched'
      exact henriched'
  · change ∀ k d, bulkWrite (fun _ document ↦ document) docs.bunchingEvents
      (buildBunchingOperations actions) k = some d → _
    refine bulkWrite_forall h.bunching fun operation hoperation found _ ↦ ?_
    obtain ⟨⟨act, event⟩, ha, rfl⟩ := List.mem_map.mp hoperation
    exact ⟨event, hresult.2 _ (hactions _ ha), rfl, rfl⟩

/-! ## Runs -/

theorem Supplied.run {turns : List Turn} {c' : Consumer} (h : Supplied cfg statics log earlier c)
    (hstatics : ∀ turn ∈ turns, turn.static ∈ statics) (hrun : c.run cfg turns = some c') :
    Supplied cfg statics log earlier c' := by
  refine Consumer.run_induction hrun h ?_
  intro turn hmem c c' hc hstep
  exact hc.turn turn (hstatics turn hmem) hstep

/-- Along a run, the memory of the consumer, what it handed over, and the collections at every
moment say what messages said. -/
theorem Supplied.sourced (h : Supplied cfg statics log earlier c) :
    Sourced cfg.frames cfg.zone statics (earlier ++ messages c.log) c.ledger ∧
      ∀ log', log' <+: log → DocsSourced cfg.frames cfg.zone statics (earlier ++ messages c.log)
        (docsAfter {} log') := by
  induction h with
  | start t =>
    refine ⟨sourced_start t, fun log' hlog ↦ ?_⟩
    rw [List.prefix_nil.mp hlog]
    exact docsSourced_empty
  | turn h turn hstatic hstep ih =>
    obtain ⟨hsourced, hkept⟩ := ih.1.turn hstatic hstep
    exact ⟨hsourced, fun log' hlog ↦ (ih.2 log' hlog).mono hkept⟩
  | write h hhanded actions deviations hactions hdeviations ih =>
    refine ⟨ih.1, fun log' hlog ↦ ?_⟩
    rcases List.prefix_concat_iff.mp hlog with rfl | hlog
    · rw [docsAfter_concat]
      exact (ih.2 _ List.prefix_rfl).write (ih.1.handed _ _ _ hhanded) hactions hdeviations
    · exact ih.2 log' hlog
  | expire h docs hbunching hdeviations ih =>
    refine ⟨ih.1, fun log' hlog ↦ ?_⟩
    rcases List.prefix_concat_iff.mp hlog with rfl | hlog
    · rw [docsAfter_concat]
      have hdocs := ih.2 _ List.prefix_rfl
      exact ⟨fun k d hd ↦ hdocs.deviations k d (hdeviations k d hd),
        fun k d hd ↦ hdocs.bunching k d (hbunching k d hd)⟩
    · exact ih.2 log' hlog
  | request h e he ih =>
    refine ⟨ih.1, fun log' hlog ↦ ?_⟩
    rcases List.prefix_concat_iff.mp hlog with rfl | hlog
    · rw [docsAfter_concat]
      cases e with
      | change docs => exact absurd rfl (he docs)
      | _ => exact ih.2 _ List.prefix_rfl
    · exact ih.2 log' hlog
  | restart h t ih =>
    refine ⟨sourced_start t, fun log' hlog ↦ ?_⟩
    exact (ih.2 log' hlog).mono fun p hp ↦ List.mem_append_left _ hp

/-- A delay of an answer is a document that the collection held when the request looked. -/
theorem Supplied.exists_deviationDoc (hsupplied : Supplied cfg statics log earlier c)
    (hrun : Run {} (log ++ [e]) s) {response : LiveResponse} (hsends : e.Sends response)
    {entry : DelayEntry} (hentry : entry ∈ response.delays) :
    ∃ docs k d, DocsSourced cfg.frames cfg.zone statics (earlier ++ messages c.log) docs ∧
      docs.scheduleDeviations k = some d ∧ entry = delayEntry (k, d) ∧
      ∃ handler checkedAt now, .miss handler checkedAt now ∈ log ∧
        now - liveWindow ≤ d.actualAt := by
  obtain ⟨handler, generatedAt, started, checkedAt, now, after, deviationDocs, bunchingDocs,
    rfl, ⟨since, hsince, hfound⟩, -, rfl⟩ := hrun.atEach_generated log e [] rfl response hsends
  obtain ⟨⟨k, d⟩, hdoc, rfl⟩ := List.mem_map.mp hentry
  obtain ⟨hd, hcutoff⟩ := (hfound.mem_iff k d).mp hdoc
  exact ⟨_, k, d, hsupplied.sourced.2 _ ((List.prefix_append_right_inj _).mpr hsince), hd, rfl,
    handler, checkedAt, now, by simp, hcutoff⟩

theorem Supplied.exists_bunchingDoc (hsupplied : Supplied cfg statics log earlier c)
    (hrun : Run {} (log ++ [e]) s) {response : LiveResponse} (hsends : e.Sends response)
    {entry : BunchingEntry} (hentry : entry ∈ response.bunching) :
    ∃ docs k d, DocsSourced cfg.frames cfg.zone statics (earlier ++ messages c.log) docs ∧
      docs.bunchingEvents k = some d ∧ entry = bunchingEntry (k, d) ∧
      ∃ handler checkedAt now, .miss handler checkedAt now ∈ log ∧
        now - liveWindow ≤ d.endTime := by
  obtain ⟨handler, generatedAt, started, checkedAt, now, after, deviationDocs, bunchingDocs,
    rfl, -, ⟨since, hsince, hfound⟩, rfl⟩ := hrun.atEach_generated log e [] rfl response hsends
  obtain ⟨⟨k, d⟩, hdoc, rfl⟩ := List.mem_map.mp hentry
  obtain ⟨hd, hcutoff⟩ := (hfound.mem_iff k d).mp hdoc
  exact ⟨_, k, d, hsupplied.sourced.2 _ ((List.prefix_append_right_inj _).mpr hsince), hd, rfl,
    handler, checkedAt, now, by simp, hcutoff⟩

/-- **A delay on the map was said by a message.** It is how late a vehicle was that stood at a stop,
in a message that the consumer had received, by the schedule of a bundle it had loaded; it is no
more than half an hour off, and no older than three minutes at the request that found it. -/
theorem delays_provenance (hsupplied : Supplied cfg statics log earlier c)
    (hrun : Run {} (log ++ [e]) s) {response : LiveResponse} (hsends : e.Sends response) :
    ∀ entry ∈ response.delays, ∃ static ∈ statics, ∃ p ∈ earlier ++ messages c.log,
      ∃ r : DeviationResult, ArrivalOf cfg.zone static p r ∧ entry.Shows r ∧
        Enriched statics r.tripId r.stopSequence entry.routeId entry.routeLongName
          entry.location ∧
        ∃ handler checkedAt now, .miss handler checkedAt now ∈ log ∧
          now - liveWindow ≤ r.actualAt := by
  intro entry hentry
  obtain ⟨docs, k, d, hdocs, hd, rfl, handler, checkedAt, now, hmiss, hcutoff⟩ :=
    hsupplied.exists_deviationDoc hrun hsends hentry
  obtain ⟨r, ⟨static, hstatic, p, hp, harrival⟩, hkey, htimes, henriched⟩ := hdocs.deviations k d hd
  have hactual : d.actualAt = r.actualAt := congrArg (fun t ↦ t.2.1) htimes
  exact ⟨static, hstatic, p, hp, r, harrival, shows_delayEntry hkey.symm htimes, henriched,
    handler, checkedAt, now, hmiss, hactual ▸ hcutoff⟩

theorem exists_handed {turns : List Turn} {P : WindowResult → Bool}
    (h : (runFromStart turns).any fun c ↦ c.log.any fun event ↦ match event with
      | .handed _ result _ => P result
      | _ => false) :
    ∃ c pings result success, runFromStart turns = some c ∧
      .handed pings result success ∈ c.log ∧ P result = true := by
  obtain ⟨c, hc, hany⟩ := (Option.any_eq_true _ _).mp h
  obtain ⟨event, hmem, hevent⟩ := List.any_eq_true.mp hany
  cases event with
  | handed pings result success => exact ⟨c, pings, result, success, hc, hmem, hevent⟩
  | received p => cases hevent
  | dropped pings => cases hevent
  | commit => cases hevent

/-- An arrival that is written alone is in the response to the next request. -/
theorem exists_shown {static : GtfsStaticData} {r : DeviationResult} {doc : DeviationDoc}
    (hhanded : (runFromStart [.receiving (stoppedAt 60) static 60 .success]).any fun c ↦
      c.log.any fun event ↦ match event with
        | .handed _ result _ => decide (r ∈ result.newDeviations)
        | _ => false)
    (hfinds : FindsDeviations
      (((docsAfter {} []).writeBunchingActions []).writeDeviationResults [r])
      (seconds 90 - liveWindow) [doc]) :
    ∃ c log e s response, Supplied { frames := meridian, zone := easternStandardTime } {static}
      log [] c ∧ Run {} (log ++ [e]) s ∧ e.Sends response ∧ delayEntry doc ∈ response.delays := by
  obtain ⟨c, pings, result, success, hturns, hmem, hlate⟩ :=
    @exists_handed _ (fun result ↦ r ∈ result.newDeviations) hhanded
  have hstart : Supplied { frames := meridian, zone := easternStandardTime } {static} [] []
      { lastWindowFlush := 0 } := .start 0
  have hwritten := (hstart.run (by simp [Turn.receiving]) hturns).write hmem [] [r]
    (fun a ha ↦ absurd ha List.not_mem_nil) (by simpa using hlate)
  have hsupplied := ((hwritten.request (.miss 0 (seconds 90) (seconds 90)) (by simp)).request
    (.foundDeviations 0) (by simp)).request (.foundBunching 0) (by simp)
  have h₁ := (Run.start : Run {} [] _).step (.change _
    (((docsAfter {} []).writeBunchingActions []).writeDeviationResults [r]))
  have h₂ := h₁.step (.miss _ 0 (seconds 90) (seconds 90) rfl rfl)
  have h₃ := h₂.step (.foundDeviations _ 0 _ [doc] rfl hfinds)
  have h₄ := h₃.step (.foundBunching _ 0 _ [] rfl (finds_nil _))
  have h₅ := h₄.step (.response _ 0 _ [doc] [] (seconds 91) (seconds 91) rfl rfl rfl)
  exact ⟨c, _, _, _, _, hsupplied, h₅, rfl, List.mem_cons_self⟩

/-- The lookups of a bus that is due at its stop at seven in the evening. -/
def dueAtSeven : GtfsStaticData := .arrivingAt (19 * 3600)

/-- It stops there a minute later. -/
def eveningArrival : DeviationResult :=
  arrivalAt easternStandardTime (19 * 3600) ("y1", "t1", 1) (seconds 60)

def eveningDoc : DeviationDoc :=
  (eveningArrival.key, ⟨0, seconds 60, seconds 60, none, none, none⟩)

/-- The map shows the bus half a minute later, since it was seen at its stop. -/
theorem delays_provenance_lateBus : ∃ p : Ping, p.currentStatus = some "STOPPED_AT" ∧
    p.vehicleId = (delayEntry eveningDoc).vehicleId := by
  have hfinds : FindsDeviations
      (((docsAfter {} []).writeBunchingActions []).writeDeviationResults [eveningArrival])
      (seconds 90 - liveWindow) [eveningDoc] :=
    finds_single (k := eveningDoc.1) (d := eveningDoc.2) rfl (by decide)
  obtain ⟨c, log, e, s, response, hsupplied, hrun, hsends, hentry⟩ :=
    @exists_shown dueAtSeven _ _ (by decide +kernel) hfinds
  obtain ⟨static, -, p, -, r, harrival, hshows, -⟩ := delays_provenance hsupplied hrun hsends
    (delayEntry eveningDoc) hentry
  exact ⟨p, harrival.stopped, harrival.vehicleId.trans hshows.vehicleId.symm⟩

/-- **A bunching event on the map was said by messages.** Two pings of one poll interval show the
pair close at its start, two at its end, and two at its smallest distance, which lies in between. -/
theorem bunching_provenance (hsupplied : Supplied cfg statics log earlier c)
    (hrun : Run {} (log ++ [e]) s) {response : LiveResponse} (hsends : e.Sends response) :
    ∀ entry ∈ response.bunching, ∃ event : BunchingEvent, entry = entryOf event ∧
      Backed cfg.frames statics (earlier ++ messages c.log) event ∧
      ∃ handler checkedAt now, .miss handler checkedAt now ∈ log ∧
        now - liveWindow ≤ event.endTime := by
  intro entry hentry
  obtain ⟨docs, k, d, hdocs, hd, rfl, handler, checkedAt, now, hmiss, hcutoff⟩ :=
    hsupplied.exists_bunchingDoc hrun hsends hentry
  obtain ⟨event, hbacked, hkey, hrecord⟩ := hdocs.bunching k d hd
  have hending : d.endTime = event.endTime := congrArg Prod.fst hrecord
  exact ⟨event, bunchingEntry_eq hkey.symm hrecord, hbacked, handler, checkedAt, now, hmiss,
    hending ▸ hcutoff⟩

/-- Two vehicles that go together, seen at the beginnings of two poll intervals. -/
def goingTogether : List Turn :=
  [.receiving (passing "y1" 0) .oneWay 0 .success, .receiving (passing "y2" 0) .oneWay 0 .success,
    .receiving (passing "y1" 15) .oneWay 15 .success,
    .receiving (passing "y2" 15) .oneWay 60 .success]

def togetherEvent : BunchingEvent := ⟨"r1", 0, "y1", "y2", 0, seconds 15, 2, 0⟩

def togetherDoc : BunchingDoc := ((togetherEvent.key, 0), ⟨seconds 15, 2, 0, .new⟩)

/-- An incident that is written alone is in the response to the next request. -/
theorem exists_met {turns : List Turn} {event : BunchingEvent} {doc : BunchingDoc}
    (hstatics : ∀ turn ∈ turns, turn.static ∈ statics)
    (hhanded : (runFromStart turns).any fun c ↦ c.log.any fun logged ↦ match logged with
      | .handed _ result _ => decide ((.new, event) ∈ result.bunchingActions)
      | _ => false)
    (hfinds : FindsBunching
      (((docsAfter {} []).writeBunchingActions [(.new, event)]).writeDeviationResults [])
      (seconds 90 - liveWindow) [doc]) :
    ∃ c log e s response, Supplied { frames := meridian, zone := easternStandardTime } statics
      log [] c ∧ Run {} (log ++ [e]) s ∧ e.Sends response ∧
        bunchingEntry doc ∈ response.bunching := by
  obtain ⟨c, pings, result, success, hturns, hmem, hnew⟩ :=
    @exists_handed _ (fun result ↦ (.new, event) ∈ result.bunchingActions) hhanded
  have hstart : Supplied { frames := meridian, zone := easternStandardTime } statics [] []
      { lastWindowFlush := 0 } := .start 0
  have hwritten := (hstart.run hstatics hturns).write hmem [(.new, event)] []
    (by simpa using hnew) fun r hr ↦ absurd hr List.not_mem_nil
  have hsupplied := ((hwritten.request (.miss 0 (seconds 90) (seconds 90)) (by simp)).request
    (.foundDeviations 0) (by simp)).request (.foundBunching 0) (by simp)
  have h₁ := (Run.start : Run {} [] _).step (.change _
    (((docsAfter {} []).writeBunchingActions [(.new, event)]).writeDeviationResults []))
  have h₂ := h₁.step (.miss _ 0 (seconds 90) (seconds 90) rfl rfl)
  have h₃ := h₂.step (.foundDeviations _ 0 _ [] rfl (finds_nil _))
  have h₄ := h₃.step (.foundBunching _ 0 _ [doc] rfl hfinds)
  have h₅ := h₄.step (.response _ 0 _ [] [doc] (seconds 91) (seconds 91) rfl rfl rfl)
  exact ⟨c, _, _, _, _, hsupplied, h₅, rfl, List.mem_cons_self⟩

theorem finds_togetherDoc : FindsBunching
    (((docsAfter {} []).writeBunchingActions [(.new, togetherEvent)]).writeDeviationResults [])
    (seconds 90 - liveWindow) [togetherDoc] :=
  finds_single (k := togetherDoc.1) (d := togetherDoc.2) rfl (by decide)

/-- The map shows them half a minute after the window, since both were seen at the start. -/
theorem bunching_provenance_together : ∃ event : BunchingEvent,
    bunchingEntry togetherDoc = entryOf event ∧
      ∃ received distance, SeenClose meridian {.oneWay} received event.key event.startTime
        distance := by
  obtain ⟨c, log, e, s, response, hsupplied, hrun, hsends, hentry⟩ :=
    @exists_met {.oneWay} goingTogether _ _ (by simp [goingTogether, Turn.receiving])
      (by decide +kernel) finds_togetherDoc
  obtain ⟨event, hshows, hbacked, -⟩ := bunching_provenance hsupplied hrun hsends
    (bunchingEntry togetherDoc) hentry
  obtain ⟨distance, hseen⟩ := hbacked.first
  exact ⟨event, hshows, _, distance, hseen⟩

end GtfsStream.Api
