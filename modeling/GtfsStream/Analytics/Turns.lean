import GtfsStream.Analytics.Consumer
import Mathlib.Logic.Relation

/-!
# What a turn does

A turn of the loop receives at most one message and closes at most one window. Here this is a step
relation on the memory of the process and the log; the clock, the polls and the backoff only decide
which steps are made. What holds along every sequence of these steps holds in every run.

## Steps

There are five: a message that does not decode, a message that does, a window that is dropped in
backoff, one whose write fails, and one that is persisted and committed. Each of them says what
becomes of the memory and what it adds to the log. A run makes a sequence of such steps, and the
converse is not needed: an invariant of the steps is an invariant of the runs. Where a property is
kept only while the log promises something, the promise is one that a shorter log makes too.
-/

namespace GtfsStream.Analytics

/-! ## The log -/

/-- The decodable message that was received. -/
def Event.message : Event → Option Ping
  | .received p => p
  | _ => none

/-- The frame of a window that was handed to the sink, which reported success. -/
def Event.persisted : Event → Option (List Ping)
  | .handed pings _ true => some pings
  | _ => none

/-- The frame of a flush that was not persisted: the sink reported failure, or the window fell into
the backoff. -/
def Event.unpersisted : Event → Option (List Ping)
  | .handed pings _ false => some pings
  | .dropped pings => some pings
  | _ => none

/-- The decodable messages received so far. -/
def messages (log : List Event) : List Ping := log.filterMap Event.message

/-- The frames persisted so far. -/
def persistedFrames (log : List Event) : List (List Ping) := log.filterMap Event.persisted

/-! ## The flush -/

section

variable {zone : Zone} {rows pings carry : List Ping}

/-- A flush does not raise if all timestamps and the cutoff are in the calendar. -/
theorem flush_isSome : (flush zone rows).isSome ↔
    (∀ p ∈ rows, (zone.toEastern p.timestamp).isSome) ∧
      ∀ last ∈ newest rows, zone.HasTime (last - seconds overlapSeconds) := by
  rw [flush]
  split_ifs with htimes hcutoff
  · exact iff_of_true rfl ⟨htimes, hcutoff⟩
  · exact iff_of_false Bool.false_ne_true fun h ↦ hcutoff h.2
  · exact iff_of_false Bool.false_ne_true fun h ↦ htimes h.1

theorem flush_eq_some (h : flush zone rows = some (pings, carry)) :
    pings = rows ∧ carry = rows.filter (carried rows) := by
  unfold flush at h
  split_ifs at h
  obtain ⟨rfl, rfl⟩ := Prod.mk.inj (Option.some.inj h)
  exact ⟨rfl, rfl⟩

theorem flush_of_isSome (h : (flush zone rows).isSome) :
    flush zone rows = some (rows, rows.filter (carried rows)) := by
  obtain ⟨⟨pings, carry⟩, hflush⟩ := Option.isSome_iff_exists.mp h
  obtain ⟨rfl, rfl⟩ := flush_eq_some hflush
  exact hflush

end

/-! ## The steps -/

/-- The memory of the process and what the consumer did so far. -/
structure Ledger where
  memory : Memory := {}
  log : List Event := []

/-- The memory after the flush of a window. -/
def Memory.flushed (m : Memory) : Memory := { m with rows := m.rows.filter (carried m.rows) }

theorem processWindow_rows (frames : Frames) (zone : Zone) (static : GtfsStaticData)
    (memory : Memory) (pings : List Ping) :
    (processWindow frames zone static memory pings).2.rows = memory.rows := by
  unfold processWindow
  dsimp only
  split <;> rfl

section

variable (frames : Frames) (zone : Zone) (statics : Set GtfsStaticData)

/-- What a window is handed to the sink with, at the flush of these rows. -/
def Memory.handOver (static : GtfsStaticData) (m : Memory) : WindowResult × Memory :=
  processWindow frames zone static m.flushed m.rows

/-- What a turn can do, with lookups from `statics`: receive a message, drop a window in backoff,
hand a window to the sink and be told of a failure, or of a success and commit. -/
inductive Advance : Ledger → Ledger → Prop
  | skip (l : Ledger) : Advance l ⟨l.memory, l.log ++ [.received none]⟩
  | receive (l : Ledger) (p : Ping) (hoffset : p.offset = position l.log) :
    Advance l
      ⟨{ l.memory with rows := l.memory.rows ++ [p] }, l.log ++ [.received (some p)]⟩
  | drop (l : Ledger) : Advance l ⟨l.memory.flushed, l.log ++ [.dropped l.memory.rows]⟩
  | fail (l : Ledger) (static : GtfsStaticData) (hstatic : static ∈ statics)
      (hrows : l.memory.rows ≠ []) :
    Advance l
      ⟨(l.memory.handOver frames zone static).2,
        l.log ++ [.handed l.memory.rows (l.memory.handOver frames zone static).1 false]⟩
  | persist (l : Ledger) (static : GtfsStaticData) (hstatic : static ∈ statics)
      (hrows : l.memory.rows ≠ []) :
    Advance l
      ⟨(l.memory.handOver frames zone static).2,
        l.log ++ [.handed l.memory.rows (l.memory.handOver frames zone static).1 true] ++
          [.commit]⟩

variable {frames zone statics} {l l' : Ledger}

theorem Advance.log_prefix (hadvance : Advance frames zone statics l l') : l.log <+: l'.log := by
  cases hadvance with
  | skip => exact List.prefix_append _ _
  | receive => exact List.prefix_append _ _
  | drop => exact List.prefix_append _ _
  | fail => exact List.prefix_append _ _
  | persist => exact (List.prefix_append _ _).trans (List.prefix_append _ _)

theorem advances_log_prefix (h : Relation.ReflTransGen (Advance frames zone statics) l l') :
    l.log <+: l'.log := by
  induction h with
  | refl => exact List.prefix_rfl
  | tail _ hadvance ih => exact ih.trans hadvance.log_prefix

/-- What holds at the start and is kept by every step holds after a run, where a log that promises
`Q` promises it of each of its beginnings. -/
theorem advances_induction {P : Ledger → Prop} {Q : List Event → Prop}
    (hshorter : ∀ log more, Q (log ++ more) → Q log) (hstart : P {})
    (hstep : ∀ l l', P l → Advance frames zone statics l l' → Q l'.log → P l')
    (hadvances : Relation.ReflTransGen (Advance frames zone statics) {} l) (hlog : Q l.log) :
    P l := by
  induction hadvances with
  | refl => exact hstart
  | tail _ hadvance ih =>
    obtain ⟨more, hmore⟩ := hadvance.log_prefix
    exact hstep _ _ (ih (hshorter _ more (hmore ▸ hlog))) hadvance hlog

/-- How a turn ends: no window is over, or one is dropped in backoff, or handed to the sink, which
reports a failure or a success. -/
inductive Ending
  | idle
  | drop
  | fail
  | persist
  deriving DecidableEq

variable (frames zone)

/-- What the end of a turn does. -/
def Ledger.close (static : GtfsStaticData) (l : Ledger) : Ending → Ledger
  | .idle => l
  | .drop => ⟨l.memory.flushed, l.log ++ [.dropped l.memory.rows]⟩
  | .fail =>
    ⟨(l.memory.handOver frames zone static).2,
      l.log ++ [.handed l.memory.rows (l.memory.handOver frames zone static).1 false]⟩
  | .persist =>
    ⟨(l.memory.handOver frames zone static).2,
      l.log ++ [.handed l.memory.rows (l.memory.handOver frames zone static).1 true] ++ [.commit]⟩

end

namespace Consumer

variable {cfg : Settings} {statics : Set GtfsStaticData} {s s' : Consumer} {turn : Turn}

def ledger (s : Consumer) : Ledger := ⟨s.memory, s.log⟩

/-- How the turn ends, if it does not raise. An empty frame is not handed to the sink. -/
def ending (cfg : Settings) (s : Consumer) (turn : Turn) : Ending :=
  if turn.windowCheckedAt - s.lastWindowFlush < seconds cfg.windowSeconds then .idle
  else if s.inBackoff turn.backoffCheckedAt then .drop
  else if s.memory.rows = [] then .idle
  else match turn.persist with
    | .success => .persist
    | .failure | .raises => .fail

theorem enterBackoff_ledger (h : s.enterBackoff cfg turn = some s') : s'.ledger = s.ledger := by
  unfold enterBackoff at h
  split_ifs at h
  rw [← Option.some.inj h]
  rfl

theorem persistWindow_ledger (hrows : s.memory.rows ≠ [])
    (h : ({ s with memory := s.memory.flushed } : Consumer).persistWindow cfg turn s.memory.rows =
      some s') :
    s'.ledger = s.ledger.close cfg.frames cfg.zone turn.static
      (match turn.persist with | .success => .persist | .failure | .raises => .fail) := by
  unfold persistWindow at h
  split at h
  · next hnil => exact absurd hnil hrows
  · cases hpersist : turn.persist with
    | raises =>
      rw [hpersist] at h
      exact absurd h (Option.some_ne_none s').symm
    | success =>
      rw [hpersist] at h
      rw [← Option.some.inj h]
      rfl
    | failure =>
      rw [hpersist] at h
      rw [enterBackoff_ledger h]
      rfl

theorem closeWindow_ledger (h : s.closeWindow cfg turn = some s') :
    s'.ledger = s.ledger.close cfg.frames cfg.zone turn.static (s.ending cfg turn) := by
  unfold closeWindow at h
  unfold ending
  split_ifs at h with hopen
  · rw [if_pos hopen, Option.some.inj h]
    rfl
  · rw [if_neg hopen]
    obtain ⟨⟨pings, carry⟩, hflush, hclosed⟩ := Option.bind_eq_some_iff.mp h
    obtain ⟨rfl, rfl⟩ := flush_eq_some hflush
    obtain ⟨closed, hwindow, rfl⟩ := Option.map_eq_some_iff.mp hclosed
    change closed.ledger = _
    dsimp only at hwindow
    split_ifs at hwindow with hbackoff
    · have hdrop : s.inBackoff turn.backoffCheckedAt = true := hbackoff
      rw [if_pos hdrop, ← Option.some.inj hwindow]
      rfl
    · have hhand : ¬s.inBackoff turn.backoffCheckedAt = true := hbackoff
      rw [if_neg hhand]
      split_ifs with hempty
      · -- an empty frame carries nothing forward
        rw [hempty] at hwindow
        rw [← Option.some.inj hwindow, ledger, Ledger.close, ledger]
        congr 1
        exact congrArg (fun rows ↦ { s.memory with rows := rows }) hempty.symm
      · exact persistWindow_ledger hempty hwindow

theorem close_advances (hstatic : turn.static ∈ statics) :
    Relation.ReflTransGen (Advance cfg.frames cfg.zone statics) s.ledger
      (s.ledger.close cfg.frames cfg.zone turn.static (s.ending cfg turn)) := by
  unfold ending
  split_ifs with hopen hbackoff hempty
  · rfl
  · exact Relation.ReflTransGen.single (.drop s.ledger)
  · rfl
  · cases turn.persist with
    | success => exact Relation.ReflTransGen.single (.persist s.ledger turn.static hstatic hempty)
    | failure => exact Relation.ReflTransGen.single (.fail s.ledger turn.static hstatic hempty)
    | raises => exact Relation.ReflTransGen.single (.fail s.ledger turn.static hstatic hempty)

theorem receive_advances {received : Consumer} {skip : Bool}
    (h : s.receive turn = some (received, skip)) :
    Relation.ReflTransGen (Advance cfg.frames cfg.zone statics) s.ledger received.ledger := by
  unfold receive at h
  split at h
  · obtain ⟨rfl, -⟩ := Prod.mk.inj (Option.some.inj h)
    rfl
  · exact absurd h nofun
  · obtain ⟨rfl, -⟩ := Prod.mk.inj (Option.some.inj h)
    exact Relation.ReflTransGen.single (.skip s.ledger)
  · obtain ⟨rfl, -⟩ := Prod.mk.inj (Option.some.inj h)
    exact Relation.ReflTransGen.single (.skip s.ledger)
  · obtain ⟨rfl, -⟩ := Prod.mk.inj (Option.some.inj h)
    exact Relation.ReflTransGen.single (.receive s.ledger _ rfl)

theorem step_eq_some (h : s.step cfg turn = some s') :
    ∃ received skip, s.receive turn = some (received, skip) ∧
      s'.ledger = if skip then received.ledger
        else received.ledger.close cfg.frames cfg.zone turn.static (received.ending cfg turn) := by
  obtain ⟨⟨received, skip⟩, hreceive, hrest⟩ := Option.bind_eq_some_iff.mp h
  refine ⟨received, skip, hreceive, ?_⟩
  dsimp only at hrest
  split_ifs at hrest ⊢ with hskip
  · rw [Option.some.inj hrest]
  · exact closeWindow_ledger hrest

/-- A turn receives at most one message and flushes at most one window. -/
theorem step_advances (hstatic : turn.static ∈ statics) (h : s.step cfg turn = some s') :
    Relation.ReflTransGen (Advance cfg.frames cfg.zone statics) s.ledger s'.ledger := by
  obtain ⟨received, skip, hreceive, hledger⟩ := step_eq_some h
  rw [hledger]
  split_ifs
  · exact receive_advances hreceive
  · exact (receive_advances hreceive).trans (close_advances hstatic)

/-- The lookups and the frame that the turn hands to the sink, if it does. -/
def handing (cfg : Settings) (s : Consumer) (turn : Turn) :
    Option (GtfsStaticData × List Ping) :=
  match s.receive turn with
  | some (received, false) =>
    match received.ending cfg turn with
    | .fail | .persist => some (turn.static, received.memory.rows)
    | .idle | .drop => none
  | _ => none

theorem handing_of_receive {received : Consumer}
    (h : s.receive turn = some (received, false)) : s.handing cfg turn =
      match received.ending cfg turn with
      | .fail | .persist => some (turn.static, received.memory.rows)
      | .idle | .drop => none := by
  rw [handing, h]

theorem handing_of_skip {received : Consumer} (h : s.receive turn = some (received, true)) :
    s.handing cfg turn = none := by
  rw [handing, h]

theorem run_induction {P : Consumer → Prop} {turns : List Turn} (h : s.run cfg turns = some s')
    (hs : P s) (hturn : ∀ turn ∈ turns, ∀ c c', P c → c.step cfg turn = some c' → P c') : P s' := by
  induction turns generalizing s with
  | nil => exact Option.some.inj h ▸ hs
  | cons turn turns ih =>
    obtain ⟨next, hstep, hrun⟩ := Option.bind_eq_some_iff.mp h
    obtain ⟨hfirst, hrest⟩ := List.forall_mem_cons.mp hturn
    exact ih hrun (hfirst s next hs hstep) hrest

theorem log_prefix_of_step (h : s.step cfg turn = some s') : s.log <+: s'.log := by
  have hstatic : turn.static ∈ ({turn.static} : Set GtfsStaticData) := rfl
  exact advances_log_prefix (step_advances hstatic h)

theorem log_prefix_of_run {turns : List Turn} (h : s.run cfg turns = some s') :
    s.log <+: s'.log := by
  refine run_induction (P := fun c ↦ s.log <+: c.log) h List.prefix_rfl ?_
  intro turn _ c c' hc hstep
  exact hc.trans (log_prefix_of_step hstep)

theorem run_advances {turns : List Turn} (hstatics : ∀ turn ∈ turns, turn.static ∈ statics)
    (h : s.run cfg turns = some s') :
    Relation.ReflTransGen (Advance cfg.frames cfg.zone statics) s.ledger s'.ledger := by
  refine run_induction (P := fun c ↦ Relation.ReflTransGen _ s.ledger c.ledger) h .refl ?_
  intro turn hmem c c' hc hstep
  exact hc.trans (step_advances (hstatics turn hmem) hstep)

theorem run_concat (turns : List Turn) :
    s.run cfg (turns ++ [turn]) = (s.run cfg turns).bind fun s ↦ s.step cfg turn := by
  induction turns generalizing s with
  | nil =>
    change (s.step cfg turn).bind some = s.step cfg turn
    exact Option.bind_fun_some _
  | cons first turns ih =>
    change (s.step cfg first).bind (fun s ↦ s.run cfg (turns ++ [turn])) =
      ((s.step cfg first).bind fun s ↦ s.run cfg turns).bind fun s ↦ s.step cfg turn
    rw [Option.bind_assoc]
    exact congrArg _ (funext fun s ↦ ih)

end Consumer

/-! ## Runs from the start -/

/-- Lookups that know nothing. -/
def GtfsStaticData.empty : GtfsStaticData :=
  ⟨fun _ ↦ none, fun _ ↦ none, fun _ ↦ none, fun _ ↦ none, fun _ ↦ none, fun _ ↦ none⟩

/-- A turn that receives a message and reads the clock at one moment. -/
def Turn.receiving (p : Ping) (static : GtfsStaticData) (now : ℕ) (persist : Persist) : Turn :=
  { poll := .message p
    static := static
    persist := persist
    jitter := 0
    windowCheckedAt := seconds now
    backoffCheckedAt := seconds now
    failedAt := seconds now
    flushedAt := seconds now }

/-- Lookups in which every stop has one scheduled arrival. -/
def GtfsStaticData.arrivingAt (scheduled : ℕ) : GtfsStaticData :=
  { GtfsStaticData.empty with
    stopTimesLookup := fun (trip, seq) ↦ some ⟨trip, seq, some scheduled, none, none⟩ }

/-- A vehicle that stands at its first stop. -/
def stoppedAt (t : ℕ) : Ping :=
  { vehicleId := "y1"
    tripId := some "t1"
    timestamp := .instant (seconds t)
    currentStopSequence := some 1
    stopId := some "s1"
    currentStatus := some "STOPPED_AT" }

/-- The run of these turns from the start, with the settings as they come. -/
def runFromStart (turns : List Turn) : Option Consumer :=
  ({ lastWindowFlush := 0 } : Consumer).run
    { frames := meridian, zone := easternStandardTime } turns

end GtfsStream.Analytics
