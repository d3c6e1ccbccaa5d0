import GtfsStream.Analytics.Turns
import GtfsStream.Ingestion.Validator

/-!
# What the producer sends and the consumer reads

The validator accepts every finite timestamp. A date beyond the range of JavaScript is sent as null,
which the window buffer reads as an unknown time; a date of a year without four digits is sent in
the expanded form, and `flush` raises on it, outside of any `try`. It also raises on the year 0 and
on the first hours of the year 1, which the calendar of the agency's zone does not have. So the
topic carries no message that ends the consumer exactly if every accepted timestamp is in the
calendar with the cutoff of its window, or beyond the dates altogether.

`pandas.Timestamp` is a parameter. What is used of it is that it reads a date of four digits as the
moment that was written and raises on the expanded form.
-/

namespace GtfsStream.Ingestion

open Analytics (Ping Timestamp Zone carried flush flush_isSome flush_of_isSome newest
  overlapSeconds)
open Calendar (HasFourDigitYear toISOString)

/-- What the parser does with the dates that are sent. -/
structure ReadsIsoDates (pdTimestamp : String → Option Time) : Prop where
  fourDigits : ∀ ms, HasFourDigitYear ms → pdTimestamp (toISOString ms) = some (ms * 1000)
  expanded : ∀ ms, ms.natAbs ≤ maxDateMillis → ¬HasFourDigitYear ms →
    pdTimestamp (toISOString ms) = none

/-- A parser of this kind. -/
def readTimestamp (s : String) : Option Time := (Calendar.readIso s).map (· * 1000)

theorem readTimestamp_readsIsoDates : ReadsIsoDates readTimestamp where
  fourDigits ms h := by rw [readTimestamp, Calendar.readIso_toISOString h, Option.map_some]
  expanded ms _ h := by rw [readTimestamp, Calendar.readIso_toISOString_eq_none h, Option.map_none]

/-! ## The consumer's side -/

section

variable (pdTimestamp : String → Option Time) (zone : Zone)

def readDate : Option String → Timestamp
  | none => .null
  | some s => match pdTimestamp s with
    | some t => .instant t
    | none => .unparseable

/-- The ping of a message, after `json.loads`. -/
def received (offset : ℕ) (m : Message) : Ping where
  offset := offset
  vehicleId := m.vehicleId
  tripId := m.tripId
  routeId := m.routeId
  timestamp := readDate pdTimestamp m.timestamp
  location := some m.coordinates
  currentStopSequence := m.currentStopSequence.map fun n ↦ (n : ℚ)
  stopId := m.stopId
  currentStatus := m.currentStatus

/-- What happens to the window buffer. -/
inductive BufferCall
  | add (p : Ping)
  | flush

def BufferCall.run (rows : List Ping) : BufferCall → Option (List Ping)
  | .add p => some (rows ++ [p])
  | .flush => (Analytics.flush zone rows).map Prod.snd

/-- The rows of the buffer after some calls, or none if one of them raised. -/
def runBuffer (calls : List BufferCall) : Option (List Ping) :=
  calls.foldlM (BufferCall.run zone) []

/-- No sequence of calls raises, whatever is added from the messages of the feed, in any order and
as often as one likes. -/
def Consumable (entities : List DecodedVehiclePosition) (ingestedAt : String) : Prop :=
  ∀ calls : List BufferCall,
    (∀ p, BufferCall.add p ∈ calls → ∃ m ∈ publishTelemetries
      (vehiclesWithValidTelemetries entities).1 ingestedAt, ∃ offset,
        p = received pdTimestamp offset m.2) →
    (runBuffer zone calls).isSome

end

variable {pdTimestamp : String → Option Time} {zone : Zone} {rows : List Ping}

/-- The timestamp can be converted, and so can the cutoff where it is the newest. -/
def Converts (zone : Zone) (timestamp : Timestamp) : Prop :=
  ∃ time, zone.toEastern timestamp = some time ∧
    ∀ t ∈ time, zone.HasTime (t - seconds overlapSeconds)

/-- The time of a row that can be converted is that of its timestamp. -/
theorem timestampEastern_of_toEastern {p : Ping} {time : Option Time}
    (h : zone.toEastern p.timestamp = some time) : p.timestampEastern = time := by
  rw [Ping.timestampEastern]
  cases hp : p.timestamp with
  | null =>
    rw [hp] at h
    exact Option.some.inj h
  | unparseable =>
    rw [hp] at h
    exact absurd h.symm (Option.some_ne_none time)
  | instant t =>
    rw [hp] at h
    obtain ⟨u, hu, rfl⟩ := Option.map_eq_some_iff.mp h
    rw [(zone.timestamp_eq_some.mp hu).2]

/-- Rows that can be converted one by one are flushed together: the newest is one of them. -/
theorem flush_isSome_of_converts (h : ∀ p ∈ rows, Converts zone p.timestamp) :
    (flush zone rows).isSome := by
  rw [flush_isSome]
  constructor
  · intro p hp
    obtain ⟨time, htime, -⟩ := h p hp
    exact Option.isSome_of_eq_some htime
  · intro last hlast
    obtain ⟨p, hp, hpt⟩ := List.mem_filterMap.mp (List.max?_mem hlast)
    obtain ⟨time, htime, hcutoff⟩ := h p hp
    exact hcutoff last ((timestampEastern_of_toEastern htime).symm.trans hpt)

theorem converts_of_flush {p : Ping} (h : (flush zone [p]).isSome) :
    Converts zone p.timestamp := by
  obtain ⟨htimes, hcutoff⟩ := flush_isSome.mp h
  obtain ⟨time, htime⟩ := Option.isSome_iff_exists.mp (htimes p (List.mem_singleton_self p))
  refine ⟨time, htime, fun t ht ↦ hcutoff t ?_⟩
  have hpt : p.timestampEastern = some t := (timestampEastern_of_toEastern htime).trans ht
  rw [newest, List.filterMap_cons_some hpt]
  rfl

theorem foldlM_run_isSome {calls : List BufferCall} (hrows : ∀ p ∈ rows, Converts zone p.timestamp)
    (hcalls : ∀ p, BufferCall.add p ∈ calls → Converts zone p.timestamp) :
    (calls.foldlM (BufferCall.run zone) rows).isSome := by
  induction calls generalizing rows with
  | nil => rfl
  | cons call calls ih =>
    have hrest (p : Ping) (hp : BufferCall.add p ∈ calls) : Converts zone p.timestamp :=
      hcalls p (List.mem_cons_of_mem _ hp)
    rw [List.foldlM_cons]
    cases call with
    | add q =>
      refine ih (fun p hp ↦ ?_) hrest
      rcases List.mem_append.mp hp with hp | hp
      · exact hrows p hp
      · rw [List.mem_singleton.mp hp]
        exact hcalls q List.mem_cons_self
    | flush =>
      rw [BufferCall.run, flush_of_isSome (flush_isSome_of_converts hrows)]
      exact @ih (rows.filter (carried rows)) (fun p hp ↦ hrows p (List.mem_of_mem_filter hp)) hrest

/-- Whether the messages can be consumed depends on each of them alone. -/
theorem consumable_iff_timestamps {entities : List DecodedVehiclePosition} {ingestedAt : String} :
    Consumable pdTimestamp zone entities ingestedAt ↔
      ∀ entity ∈ entities, ∀ t, validTelemetry entity = some t →
        Converts zone (readDate pdTimestamp (t.timestamp.map toISOString)) := by
  have hpublished {m : String × Message} : m ∈ publishTelemetries
      (vehiclesWithValidTelemetries entities).1 ingestedAt →
      ∃ entity ∈ entities, ∃ t, validTelemetry entity = some t ∧
        m.2.timestamp = t.timestamp.map toISOString := by
    intro hm
    obtain ⟨t, ht, rfl⟩ := List.mem_map.mp hm
    obtain ⟨entity, hentity, hvalid⟩ := List.mem_filterMap.mp ht
    exact ⟨entity, hentity, t, hvalid, rfl⟩
  constructor
  · intro h entity hentity t ht
    obtain ⟨m, hm, htimestamp⟩ : ∃ m ∈ publishTelemetries
        (vehiclesWithValidTelemetries entities).1 ingestedAt,
        m.2.timestamp = t.timestamp.map toISOString :=
      ⟨_, List.mem_map_of_mem (List.mem_filterMap.mpr ⟨entity, hentity, ht⟩), rfl⟩
    -- the message alone, in a window of its own
    have hrun := h [.add (received pdTimestamp 0 m.2), .flush] fun p hp ↦ by
      rcases List.mem_cons.mp hp with hp | hp
      · exact ⟨m, hm, 0, BufferCall.add.inj hp⟩
      · exact absurd (List.mem_singleton.mp hp) nofun
    have hflush : (flush zone [received pdTimestamp 0 m.2]).isSome := by
      cases hf : flush zone [received pdTimestamp 0 m.2] with
      | some result => rfl
      | none =>
        have hnone : runBuffer zone [.add (received pdTimestamp 0 m.2), .flush] =
            ((flush zone [received pdTimestamp 0 m.2]).map Prod.snd).bind some := rfl
        rw [hnone, hf] at hrun
        exact hrun
    have hone := converts_of_flush hflush
    rwa [received, htimestamp] at hone
  · intro h calls hcalls
    refine foldlM_run_isSome (fun p hp ↦ absurd hp List.not_mem_nil) fun p hp ↦ ?_
    obtain ⟨m, hm, offset, rfl⟩ := hcalls p hp
    obtain ⟨entity, hentity, t, ht, htimestamp⟩ := hpublished hm
    rw [received, htimestamp]
    exact h entity hentity t ht

/-! ## The timestamps that can be read -/

theorem hasFourDigitYear_iff {n : ℤ} :
    HasFourDigitYear (n * 1000) ↔ -62167219200 ≤ n ∧ n ≤ 253402300799 := by
  have hbegin : Calendar.dayFromYear 0 = -719528 := by decide
  have hend : Calendar.dayFromYear 10000 = 2932897 := by decide
  have hlow := Calendar.dayFromYear_le_iff (y := 0) (d := n * 1000 / Calendar.millisPerDay)
  have hhigh := Calendar.dayFromYear_le_iff (y := 10000) (d := n * 1000 / Calendar.millisPerDay)
  rw [HasFourDigitYear, Calendar.yearOf]
  rw [hbegin] at hlow
  rw [hend] at hhigh
  rw [Calendar.millisPerDay] at *
  omega

/-- The moment of a Unix time. -/
def ofUnix (n : ℤ) : Time := n * 1000000

/-- An accepted timestamp can be read where it is no date, and in the years of four digits that the
calendar of the zone has, with the cutoff. -/
def Readable (zone : Zone) (n : ℤ) : Prop :=
  maxDateSeconds < n.natAbs ∨ (-62167219200 ≤ n ∧ n ≤ 253402300799) ∧ zone.HasTime (ofUnix n) ∧
    zone.HasTime (ofUnix n - seconds overlapSeconds)

instance (n : ℤ) : Decidable (Readable zone n) := inferInstanceAs (Decidable (_ ∨ _))

theorem converts_instant {t : Time} : Converts zone (.instant t) ↔
    zone.HasTime t ∧ zone.HasTime (t - seconds overlapSeconds) := by
  rw [Converts, Zone.toEastern]
  constructor
  · rintro ⟨time, htime, hcutoff⟩
    obtain ⟨u, hu, rfl⟩ := Option.map_eq_some_iff.mp htime
    obtain ⟨ht, rfl⟩ := zone.timestamp_eq_some.mp hu
    exact ⟨ht, hcutoff t rfl⟩
  · rintro ⟨ht, hcutoff⟩
    refine ⟨some t, ?_, fun u hu ↦ Option.some.inj hu ▸ hcutoff⟩
    rw [zone.timestamp_eq_some.mpr ⟨ht, rfl⟩]
    rfl

theorem converts_null : Converts zone .null :=
  ⟨none, rfl, fun _ ht ↦ absurd ht.symm (Option.some_ne_none _)⟩

theorem not_converts_unparseable : ¬Converts zone .unparseable := by
  rintro ⟨time, htime, -⟩
  exact absurd htime.symm (Option.some_ne_none time)

theorem converts_iff (h : ReadsIsoDates pdTimestamp) {n m : ℤ} (hm : toNumber n = some m) :
    Converts zone
        (readDate pdTimestamp ((newDate (Binary64.round (m * 1000))).map toISOString)) ↔
      Readable zone n := by
  rw [newDate_eq hm, Readable, ← hasFourDigitYear_iff]
  by_cases hle : n.natAbs ≤ maxDateSeconds
  · rw [if_pos hle, or_iff_right (not_lt.mpr hle), Option.map_some, readDate]
    by_cases hyear : HasFourDigitYear (n * 1000)
    · have hmicros : n * 1000 * 1000 = ofUnix n := mul_assoc n 1000 1000
      rw [h.fourDigits _ hyear, hmicros, and_iff_right hyear]
      exact converts_instant
    · have hrange : (n * 1000).natAbs ≤ maxDateMillis := by
        rw [maxDateMillis]
        rw [maxDateSeconds] at hle
        omega
      rw [h.expanded _ hrange hyear]
      exact iff_of_false not_converts_unparseable fun hread ↦ hyear hread.1
  · rw [if_neg hle, Option.map_none, readDate]
    exact iff_of_true converts_null (Or.inl (not_le.mp hle))

theorem validTelemetry_eq_some {entity : DecodedVehiclePosition} {t : VehicleTelemetry}
    (h : validTelemetry entity = some t) :
    ∃ vehicle n m, entity.vehicle = some vehicle ∧ hasValidPosition vehicle = true ∧
      (∃ vehicleId, vehicle.vehicleId = some vehicleId ∧ vehicleId ≠ "") ∧
      vehicle.timestamp = some n ∧ toNumber n = some m ∧
      t.timestamp = newDate (Binary64.round (m * 1000)) := by
  unfold validTelemetry at h
  simp only [bind, pure, Option.bind_eq_some_iff, Option.filter_eq_some_iff, Option.some.injEq,
    decide_eq_true_eq] at h
  obtain ⟨vehicle, hvehicle, position, hposition, coordinates, hcoordinates, vehicleId,
    ⟨hid, hne⟩, m, ⟨n, htimestamp, hm⟩, rfl⟩ := h
  refine ⟨vehicle, n, m, hvehicle, ?_, ⟨vehicleId, hid, hne⟩, htimestamp, hm, rfl⟩
  rw [hasValidPosition, hposition, Option.bind_some, hcoordinates, Option.isSome_some]

theorem validTelemetry_isSome {entity : DecodedVehiclePosition} {vehicle : Vehicle} {n m : ℤ}
    {vehicleId : String} (hvehicle : entity.vehicle = some vehicle)
    (hposition : hasValidPosition vehicle = true) (hid : vehicle.vehicleId = some vehicleId)
    (hne : vehicleId ≠ "") (hn : vehicle.timestamp = some n) (hm : toNumber n = some m) :
    ∃ t, validTelemetry entity = some t ∧
      t.timestamp = newDate (Binary64.round (m * 1000)) := by
  obtain ⟨coordinates, hcoordinates⟩ := Option.isSome_iff_exists.mp hposition
  obtain ⟨position, hp, hc⟩ := Option.bind_eq_some_iff.mp hcoordinates
  have hfilter : vehicle.vehicleId.filter (· ≠ "") = some vehicleId := by
    rw [hid]
    exact if_pos (decide_eq_true hne)
  unfold validTelemetry
  simp only [hvehicle, hp, hc, hfilter, hn, hm, bind, pure, Option.bind_some]
  exact ⟨_, rfl, rfl⟩

/-- **The messages of a feed can be consumed** exactly if the timestamp of every accepted vehicle
lies in a year of four digits and, with the cutoff, in the calendar of the zone, or beyond the range
of the dates. -/
theorem consumable_iff (h : ReadsIsoDates pdTimestamp) (entities : List DecodedVehiclePosition)
    (ingestedAt : String) :
    Consumable pdTimestamp zone entities ingestedAt ↔
      ∀ entity ∈ entities, ∀ vehicle vehicleId n, entity.vehicle = some vehicle →
        hasValidPosition vehicle = true → vehicle.vehicleId = some vehicleId → vehicleId ≠ "" →
        vehicle.timestamp = some n → Readable zone n := by
  rw [consumable_iff_timestamps]
  refine forall₂_congr fun entity hentity ↦ ?_
  constructor
  · intro hread vehicle vehicleId n hvehicle hposition hid hne hn
    rcases hnumber : toNumber n with _ | m
    · refine Or.inl (not_le.mp fun hle ↦ ?_)
      rw [toNumber_of_le hle] at hnumber
      exact nomatch hnumber
    · obtain ⟨t, ht, htimestamp⟩ :=
        validTelemetry_isSome hvehicle hposition hid hne hn hnumber
      have hone := hread t ht
      rw [htimestamp] at hone
      exact (converts_iff h hnumber).mp hone
  · intro hall t ht
    obtain ⟨vehicle, n, m, hvehicle, hposition, ⟨vehicleId, hid, hne⟩, hn, hnumber, htimestamp⟩ :=
      validTelemetry_eq_some ht
    rw [htimestamp]
    exact (converts_iff h hnumber).mpr (hall vehicle vehicleId n hvehicle hposition hid hne hn)

/-- A vehicle in Boston whose timestamp is `n`. -/
def stamped (n : ℤ) : DecodedVehiclePosition where
  id := "1"
  vehicle := some {
    vehicleId := some "y1"
    position := some { latitude := some 42, longitude := some (-71) }
    timestamp := some n }

/-- A timestamp of 2023, and one that is beyond the dates. -/
theorem consumable_stamped :
    Consumable readTimestamp Analytics.easternStandardTime
      [stamped 1700000000, stamped 1700000000000000] "2026-01-01T00:00:00.000Z" := by
  refine (consumable_iff readTimestamp_readsIsoDates _ _).mpr ?_
  intro entity hentity vehicle vehicleId n hvehicle _ _ _ hn
  rcases List.mem_cons.mp hentity with rfl | hentity
  · obtain rfl := Option.some.inj hvehicle
    obtain rfl := Option.some.inj hn
    exact Or.inr (by decide +kernel)
  · obtain rfl := List.mem_singleton.mp hentity
    obtain rfl := Option.some.inj hvehicle
    obtain rfl := Option.some.inj hn
    exact Or.inl (by decide)

/-- A timestamp in milliseconds is a date of the year 55840. -/
theorem not_consumable_milliseconds :
    ReadsIsoDates readTimestamp ∧
      ¬Consumable readTimestamp Analytics.easternStandardTime [stamped 1700000000000]
        "2026-01-01T00:00:00.000Z" := by
  refine ⟨readTimestamp_readsIsoDates, fun h ↦ ?_⟩
  have hnumber : toNumber 1700000000000 = some 1700000000000 := toNumber_of_le (by decide)
  obtain ⟨t, ht, htimestamp⟩ := validTelemetry_isSome (m := 1700000000000) (n := 1700000000000)
    (show (stamped 1700000000000).vehicle = some _ from rfl)
    (by decide +kernel) rfl (by decide) rfl hnumber
  have hread := consumable_iff_timestamps.mp h _ (List.mem_singleton_self _) t ht
  rw [htimestamp, converts_iff readTimestamp_readsIsoDates hnumber] at hread
  exact absurd hread (by decide +kernel)

end GtfsStream.Ingestion
