import GtfsStream.GtfsStatic.LoaderSpec
import Mathlib.Data.List.GetD

/-!
# The services of the loader

The loader reads the calendars cell by cell, and `GtfsStream.GtfsStatic.ServiceDays` says which
services their typed rows make active. Where the loader computes a set, the typed rows give the same
one, so what is proved about the service days holds of the trips that the loader keeps.

## What typing loses

A flag may be any cell and is only compared with 1, and a date is compared as a text. So a row has a
typed form whatever its cells are, and the two sets agree as soon as the loader gets to compute one.
Where a cell cannot be read at all the loader raises, and nothing is said.
-/

namespace GtfsStream.Loader

open Dictionary
open GtfsStatic (targetDates targetStrs applyException calendarServices Scheduled lastException)
open Calendar (dateString weekday)

variable {py : Python} {dir : Directory} {today : ℤ} {columns : List String}

/-! ## Typed rows -/

/-- A flag is only compared with 1. -/
def typedFlag (columns : List String) (name : String) (cell : Cell) : Option ℤ :=
  if flag columns name cell then some 1 else none

def CalendarRow.typed (columns : List String) (row : CalendarRow) : GtfsStatic.CalendarRow where
  serviceId := str row.serviceId
  monday := typedFlag columns "monday" row.monday
  tuesday := typedFlag columns "tuesday" row.tuesday
  wednesday := typedFlag columns "wednesday" row.wednesday
  thursday := typedFlag columns "thursday" row.thursday
  friday := typedFlag columns "friday" row.friday
  saturday := typedFlag columns "saturday" row.saturday
  sunday := typedFlag columns "sunday" row.sunday
  startDate := str row.startDate
  endDate := str row.endDate

def CalendarDateRow.typed (py : Python) (row : CalendarDateRow) : GtfsStatic.CalendarDate where
  serviceId := str row.serviceId
  date := str row.date
  exceptionType := (row.exceptionType.toInt py).toOption

/-- An optional file with typed rows. -/
def Csv.typed {ρ τ : Type} (f : List String → ρ → τ) : Csv ρ → GtfsStatic.Table τ
  | absent => .missing
  | unreadable _ => .malformed
  | table df => .rows (df.rows.map (f df.columns))

theorem read_typed {ρ τ : Type} {f : List String → ρ → τ} {file : Csv ρ} :
    (file.typed f).read = file.frame.rows.map (f file.frame.columns) := by
  cases file <;> rfl

theorem isPresent_of_typed {ρ τ : Type} {f : List String → ρ → τ} {file : Csv ρ}
    (h : file.typed f = .missing) : file.isPresent = false := by
  cases file with
  | absent => rfl
  | unreadable e => cases h
  | table df => cases h

theorem activeOn_typed (row : CalendarRow) (d : ℤ) :
    (row.typed columns).activeOn d = row.activeOn columns d := by
  have hday : (row.typed columns).dayCols.getD (weekday d) none = some 1 ↔
      (row.dayFlags columns).getD (weekday d) false = true := by
    have hmap : (row.typed columns).dayCols.getD (weekday d) none =
        if (row.dayFlags columns).getD (weekday d) false then some 1 else none :=
      List.getD_map (row.dayFlags columns) false fun b ↦ if b then some (1 : ℤ) else none
    rw [hmap]
    split_ifs with h
    · exact iff_of_true rfl h
    · exact iff_of_false nofun h
  rw [GtfsStatic.CalendarRow.activeOn, CalendarRow.activeOn]
  exact decide_eq_decide.mpr (and_congr_right fun _ ↦ and_congr_right fun _ ↦ hday)

/-! ## The set of services -/

/-- A row of `calendar.txt` that raises nothing does what its typed row does. -/
theorem calendarRow_eq_ok {row : CalendarRow} {update : Finset String → Finset String}
    (h : calendarRow today columns row = .ok update) (active : Finset String) :
    update active = if (targetDates today).any (row.typed columns).activeOn then
      insert (row.typed columns).serviceId active else active := by
  simp only [calendarRow, bind_eq_ok, getAttribute_eq_ok_iff] at h
  obtain ⟨-, -, -, -, h⟩ := h
  rw [show (row.typed columns).activeOn = row.activeOn columns from funext (activeOn_typed row)]
  split_ifs at h ⊢
  · obtain ⟨serviceId, hserviceId, hupdate⟩ := bind_eq_ok.mp h
    rw [← Except.ok.inj hupdate, ← (getAttribute_eq_ok_iff.mp hserviceId).2]
    rfl
  · rw [← Except.ok.inj h]
    rfl

theorem calendarDateRow_eq_ok {row : CalendarDateRow} {update : Finset String → Finset String}
    (h : calendarDateRow py today columns row = .ok update) (active : Finset String) :
    applyException today active (row.typed py) = some (update active) := by
  simp only [calendarDateRow, bind_eq_ok, getAttribute_eq_ok_iff] at h
  obtain ⟨date, ⟨-, rfl⟩, h⟩ := h
  unfold applyException
  rw [show (row.typed py).date = str row.date from rfl]
  by_cases hdate : str row.date ∈ targetStrs today
  · rw [if_neg (not_not_intro hdate)] at h ⊢
    simp only [bind_eq_ok, getAttribute_eq_ok_iff] at h
    obtain ⟨serviceId, ⟨-, rfl⟩, exceptionType, ⟨-, rfl⟩, n, hn, h⟩ := h
    have htype : (row.typed py).exceptionType = some n := congrArg Except.toOption hn
    rw [htype]
    by_cases hadd : n = 1
    · rw [if_pos hadd] at h
      rw [hadd, ← Except.ok.inj h]
      rfl
    · rw [if_neg hadd] at h
      by_cases hremove : n = 2
      · rw [if_pos hremove] at h
        rw [hremove, ← Except.ok.inj h]
        rfl
      · rw [if_neg hremove] at h
        rw [← Except.ok.inj h]
        split
        · next hnone => cases hnone
        · next hone => exact absurd (Option.some.inj hone) hadd
        · next htwo => exact absurd (Option.some.inj htwo) hremove
        · rfl
  · rw [if_pos hdate] at h ⊢
    rw [← Except.ok.inj h]
    rfl

theorem calendarServices_typed {rows : List CalendarRow} {active : Finset String}
    (h : applyAll (calendarRow today columns) rows ∅ = .ok active) :
    calendarServices today (rows.map (CalendarRow.typed columns)) = active := by
  refine applyAll_induction (P := fun before active ↦
    calendarServices today (before.map (CalendarRow.typed columns)) = active) rfl ?_ h
  rintro before row update active rfl hupdate
  rw [List.map_append, calendarServices, List.foldl_append, calendarRow_eq_ok hupdate]
  rfl

theorem applyExceptions_typed {rows : List CalendarDateRow} {active result : Finset String}
    (h : applyAll (calendarDateRow py today columns) rows active = .ok result) :
    (rows.map (CalendarDateRow.typed py)).foldlM (applyException today) active = some result := by
  refine applyAll_induction (P := fun before s ↦
    (before.map (CalendarDateRow.typed py)).foldlM (applyException today) active = some s) rfl ?_ h
  intro before row update s hs hupdate
  rw [List.map_append, List.foldlM_append, hs, List.map_singleton]
  change (applyException today s (row.typed py)).bind some = _
  rw [calendarDateRow_eq_ok hupdate, Option.bind_some]

/-- **The loader computes the active services of the typed rows**, where it raises nothing. -/
theorem buildActiveServiceIds_typed {result : Option (Finset String)}
    (h : buildActiveServiceIds py dir today = .ok result) :
    GtfsStatic.buildActiveServiceIds (dir.calendar.typed CalendarRow.typed)
      (dir.calendarDates.typed fun _ ↦ CalendarDateRow.typed py) today = some result := by
  rw [buildActiveServiceIds] at h
  by_cases habsent : (!dir.calendar.isPresent) = true ∧ (!dir.calendarDates.isPresent) = true
  · rw [if_pos habsent] at h
    simp only [Bool.not_eq_true'] at habsent
    rw [Csv.absent_of_not_present habsent.1, Csv.absent_of_not_present habsent.2,
      ← Except.ok.inj h]
    rfl
  · rw [if_neg habsent] at h
    simp only [bind_eq_ok, readOptional_eq_ok_iff] at h
    obtain ⟨cal, ⟨-, rfl⟩, active, hactive, calDates, ⟨-, rfl⟩, active', hactive', h⟩ := h
    rw [GtfsStatic.buildActiveServiceIds]
    · rw [read_typed, read_typed, calendarServices_typed hactive, applyExceptions_typed hactive',
        ← Except.ok.inj h]
      rfl
    · intro hcalendar hdates
      exact habsent ⟨congrArg not (isPresent_of_typed hcalendar),
        congrArg not (isPresent_of_typed hdates)⟩

/-! ## The trips that the loader keeps -/

/-- The service is active by the calendars: its last exception of one of the three days adds it, or
there is none and it is scheduled on one of them. -/
def ServiceActive (py : Python) (dir : Directory) (today : ℤ) (s : String) : Prop :=
  match lastException (dir.calendarDates.typed fun _ ↦ CalendarDateRow.typed py).read s today with
  | none => ∃ d ∈ targetDates today, Scheduled (dir.calendar.typed CalendarRow.typed).read s d
  | some row => row.exceptionType = some 1

variable {tables : Tables} {selection : Selection}

theorem mem_activeServiceIds {active : Finset String}
    (h : buildActiveServiceIds py dir today = .ok (some active)) {s : String} :
    s ∈ active ↔ ServiceActive py dir today s := by
  obtain ⟨-, -, hfold⟩ :=
    GtfsStatic.buildActiveServiceIds_eq_some_iff.mp (buildActiveServiceIds_typed h)
  rw [GtfsStatic.mem_applyExceptions hfold, ServiceActive]
  cases lastException (dir.calendarDates.typed fun _ ↦ CalendarDateRow.typed py).read s today with
  | none => exact GtfsStatic.mem_calendarServices
  | some row => exact Iff.rfl

theorem isIn_iff {active : Finset String} {cell : Cell} :
    cell.isIn active = true ↔ ∃ s, cell = .text s ∧ s ∈ active := by
  cases cell with
  | text s =>
    rw [Cell.isIn, decide_eq_true_iff]
    constructor
    · exact fun h ↦ ⟨s, rfl, h⟩
    · rintro ⟨_, heq, h⟩
      exact Cell.text.inj heq ▸ h
  | _ =>
    refine iff_of_false Bool.false_ne_true ?_
    rintro ⟨_, h, -⟩
    cases h

/-- **The filter keeps the trips of the active services.** -/
theorem mem_trips_of_filtered (h : selectRows py dir today tables = .ok selection)
    (hfiltered : selection.filtered = true) {row : TripRow} :
    row ∈ selection.trips.rows ↔ row ∈ tables.trips.rows ∧
      ∃ s, row.serviceId = .text s ∧ ServiceActive py dir today s := by
  rcases selectRows_eq_ok_iff.mp h with ⟨active, hfilter, rfl⟩ | ⟨-, -, rfl⟩
  · rw [filterServices] at hfilter
    split_ifs at hfilter
    · rw [keepActive, Frame.select, List.mem_filter]
      refine and_congr_right fun _ ↦ isIn_iff.trans (exists_congr fun s ↦ ?_)
      rw [mem_activeServiceIds hfilter]
    · cases hfilter
  · cases hfiltered

end GtfsStream.Loader
