import GtfsStream.Library.Calendar
import Mathlib.Data.Finset.Erase
import Mathlib.Data.Finset.Insert

/-!
# The active services

`_build_active_service_ids`: the services that run yesterday, today or tomorrow, from `calendar.txt`
and `calendar_dates.txt`. One set serves for the three days, and an exception of any of them changes
it, so a service that is removed on one day is gone although it runs on another.

## The order of the rows

`calendar_dates.txt` is read row by row, and each row of one of the three days adds its service or
takes it away. So of several such rows of a service the last one decides, and a result that does not
depend on the order is one in which the rows of a service all do the same, or in which what they do
makes no difference to whether the service runs on one of the days. The theorem says this for all
orders of the rows at once.
-/

open GtfsStream.Calendar

namespace GtfsStream.GtfsStatic

/-! ## The files -/

/-- One row of `calendar.txt`. A flag is none where its column or its value is missing. -/
structure CalendarRow where
  serviceId : String
  monday : Option ℤ := none
  tuesday : Option ℤ := none
  wednesday : Option ℤ := none
  thursday : Option ℤ := none
  friday : Option ℤ := none
  saturday : Option ℤ := none
  sunday : Option ℤ := none
  startDate : String
  endDate : String

/-- One row of `calendar_dates.txt`. The type is none where its value is missing. -/
structure CalendarDate where
  serviceId : String
  date : String
  exceptionType : Option ℤ
  deriving DecidableEq

/-- A file that may not be there, or be empty or malformed. -/
inductive Table (ρ : Type)
  | missing
  | malformed
  | rows (rows : List ρ)

/-- The rows that can be read. -/
def Table.read {ρ : Type} : Table ρ → List ρ
  | rows rs => rs
  | _ => []

/-- The same table with its rows in another order. -/
def Table.Reordered {ρ : Type} : Table ρ → Table ρ → Prop
  | rows rs, rows rs' => rs.Perm rs'
  | missing, missing => True
  | malformed, malformed => True
  | _, _ => False

def CalendarRow.dayCols (row : CalendarRow) : List (Option ℤ) :=
  [row.monday, row.tuesday, row.wednesday, row.thursday, row.friday, row.saturday, row.sunday]

/-- The row makes its service active on the day. The dates are compared as strings. -/
def CalendarRow.activeOn (row : CalendarRow) (d : ℤ) : Bool :=
  row.startDate ≤ dateString d ∧ dateString d ≤ row.endDate ∧
    row.dayCols.getD (weekday d) none = some 1

/-! ## The set -/

/-- The days that a trip of the live feed may belong to. -/
def targetDates (today : ℤ) : List ℤ := [today - 1, today, today + 1]

def targetStrs (today : ℤ) : List String := (targetDates today).map dateString

/-- The services that the calendar makes active on one of the days. -/
def calendarServices (today : ℤ) (rows : List CalendarRow) : Finset String :=
  rows.foldl
    (fun active row ↦
      if (targetDates today).any row.activeOn then insert row.serviceId active else active) ∅

/-- One exception: 1 adds, 2 removes. A missing type raises. -/
def applyException (today : ℤ) (active : Finset String) (row : CalendarDate) :
    Option (Finset String) :=
  if row.date ∉ targetStrs today then some active
  else match row.exceptionType with
    | none => none
    | some 1 => some (insert row.serviceId active)
    | some 2 => some (active.erase row.serviceId)
    | some _ => some active

/-- The active services, or none where all trips are kept; none at all where a row raises. -/
def buildActiveServiceIds (calendar : Table CalendarRow) (calendarDates : Table CalendarDate)
    (today : ℤ) : Option (Option (Finset String)) :=
  match calendar, calendarDates with
  | .missing, .missing => some none
  | _, _ =>
    (calendarDates.read.foldlM (applyException today) (calendarServices today calendar.read)).map
      fun active ↦ if active = ∅ then none else some active

/-! ## What a service day is -/

section

variable (calendar : List CalendarRow) (calendarDates : List CalendarDate) (s : String) (d : ℤ)

def Scheduled : Prop := ∃ row ∈ calendar, row.serviceId = s ∧ row.activeOn d = true

/-- There is an exception of this type for the service on the day. -/
def Excepted (type : ℤ) : Prop :=
  ∃ row ∈ calendarDates, row.serviceId = s ∧ row.date = dateString d ∧
    row.exceptionType = some type

/-- The service runs on the day. -/
def RunsOn : Prop :=
  Excepted calendarDates s d 1 ∨ Scheduled calendar s d ∧ ¬Excepted calendarDates s d 2

/-- The row adds or removes the service on one of the days. -/
def Concerns (today : ℤ) (row : CalendarDate) : Prop :=
  row.serviceId = s ∧ row.date ∈ targetStrs today ∧
    (row.exceptionType = some 1 ∨ row.exceptionType = some 2)

instance (today : ℤ) (row : CalendarDate) : Decidable (Concerns s today row) :=
  inferInstanceAs (Decidable (_ ∧ _ ∧ _))

/-- The last exception of the service on one of the days, in the order of the file. -/
def lastException (today : ℤ) : Option CalendarDate :=
  (calendarDates.filter (Concerns s today)).getLast?

/-- No day is left to the service: none adds it, and each on which it is scheduled removes it. -/
def RemovedThroughout (today : ℤ) : Prop :=
  ∀ d ∈ targetDates today, ¬Excepted calendarDates s d 1 ∧
    (Scheduled calendar s d → Excepted calendarDates s d 2)

instance : Decidable (Scheduled calendar s d) :=
  inferInstanceAs (Decidable (∃ row ∈ calendar, _ ∧ _))

instance (type : ℤ) : Decidable (Excepted calendarDates s d type) :=
  inferInstanceAs (Decidable (∃ row ∈ calendarDates, _ ∧ _ ∧ _))

instance : Decidable (RunsOn calendar calendarDates s d) := inferInstanceAs (Decidable (_ ∨ _))

instance (today : ℤ) : Decidable (RemovedThroughout calendar calendarDates s today) :=
  inferInstanceAs (Decidable (∀ d ∈ targetDates today, _ ∧ (_ → _)))

end

variable {calendar : Table CalendarRow} {calendarDates : Table CalendarDate} {today d : ℤ}
  {active result : Finset String} {s : String} {row : CalendarRow}

/-- Where the dates of a row are dates, it is active on the days in between that it flags. -/
theorem activeOn_iff {first last : ℤ} (hstart : row.startDate = dateString first)
    (hend : row.endDate = dateString last) (hfirst : FourDigits first) (hlast : FourDigits last)
    (hd : FourDigits d) :
    row.activeOn d = true ↔
      first ≤ d ∧ d ≤ last ∧ row.dayCols.getD (weekday d) none = some 1 := by
  rw [CalendarRow.activeOn, decide_eq_true_iff, hstart, hend, dateString_le_iff hfirst hd,
    dateString_le_iff hd hlast]

/-! ## The calendar -/

theorem mem_calendarServices {rows : List CalendarRow} :
    s ∈ calendarServices today rows ↔ ∃ d ∈ targetDates today, Scheduled rows s d := by
  have hfold (active : Finset String) : s ∈ rows.foldl
      (fun active row ↦
        if (targetDates today).any row.activeOn then insert row.serviceId active else active)
      active ↔ s ∈ active ∨ ∃ d ∈ targetDates today, Scheduled rows s d := by
    induction rows generalizing active with
    | nil => exact (or_iff_left fun ⟨_, _, _, hmem, _⟩ ↦ absurd hmem List.not_mem_nil).symm
    | cons row rows ih =>
      have hcons : (∃ d ∈ targetDates today, Scheduled (row :: rows) s d) ↔
          (s = row.serviceId ∧ (targetDates today).any row.activeOn = true) ∨
            ∃ d ∈ targetDates today, Scheduled rows s d := by
        simp only [Scheduled, List.exists_mem_cons_iff, List.any_eq_true, and_or_left, exists_or]
        refine or_congr_left ?_
        constructor
        · rintro ⟨d, hd, hid, hactive⟩
          exact ⟨hid.symm, d, hd, hactive⟩
        · rintro ⟨hid, d, hd, hactive⟩
          exact ⟨d, hd, hid.symm, hactive⟩
      rw [List.foldl_cons, ih, hcons]
      split_ifs with hrow
      · rw [Finset.mem_insert, and_iff_left hrow, or_assoc, or_left_comm]
      · rw [or_iff_right fun h : _ ∧ _ ↦ hrow h.2]
  rw [calendarServices, hfold, or_iff_right (Finset.notMem_empty s)]

/-! ## The exceptions -/

theorem mem_applyException {row : CalendarDate}
    (h : applyException today active row = some result) :
    s ∈ result ↔ if Concerns s today row then row.exceptionType = some 1 else s ∈ active := by
  unfold applyException at h
  split_ifs at h with hdate
  · split at h
    · exact nomatch h
    · next htype =>
      rw [← Option.some.inj h, Finset.mem_insert, htype]
      by_cases hs : s = row.serviceId
      · rw [if_pos ⟨hs.symm, hdate, Or.inl htype⟩]
        exact iff_of_true (Or.inl hs) rfl
      · rw [if_neg fun hconcerns ↦ hs hconcerns.1.symm, or_iff_right hs]
    · next htype =>
      rw [← Option.some.inj h, Finset.mem_erase, htype]
      by_cases hs : s = row.serviceId
      · rw [if_pos ⟨hs.symm, hdate, Or.inr htype⟩]
        exact iff_of_false (fun hmem ↦ hmem.1 hs) (by decide)
      · rw [if_neg fun hconcerns ↦ hs hconcerns.1.symm, and_iff_right hs]
    · next type hne₁ hne₂ htype =>
      have hnot : ¬Concerns s today row := by
        rintro ⟨-, -, h₁ | h₂⟩
        · exact hne₁ (Option.some.inj (htype.symm.trans h₁))
        · exact hne₂ (Option.some.inj (htype.symm.trans h₂))
      rw [if_neg hnot, Option.some.inj h]
  · rw [if_neg fun hconcerns ↦ hdate hconcerns.2.1, Option.some.inj h]

/-- The last exception of a service decides, and the calendar where there is none. -/
theorem mem_applyExceptions {rows : List CalendarDate}
    (h : rows.foldlM (applyException today) active = some result) :
    s ∈ result ↔ match lastException rows s today with
      | none => s ∈ active
      | some row => row.exceptionType = some 1 := by
  induction rows generalizing active with
  | nil =>
    rw [Option.some.inj h]
    rfl
  | cons row rows ih =>
    obtain ⟨next, hnext, hrest⟩ := Option.bind_eq_some_iff.mp h
    have hcons : lastException (row :: rows) s today =
        (lastException rows s today).or (if Concerns s today row then some row else none) := by
      rw [lastException, lastException, List.filter_cons]
      split_ifs with hrow hconcerns hconcerns
      · rw [List.getLast?_cons]
        cases (rows.filter (Concerns s today)).getLast? <;> rfl
      · exact absurd (of_decide_eq_true hrow) hconcerns
      · exact absurd (decide_eq_true hconcerns) hrow
      · exact (Option.or_none).symm
    rw [ih hrest, hcons]
    cases lastException rows s today with
    | some last => rfl
    | none =>
      dsimp only
      rw [Option.none_or, mem_applyException hnext]
      split_ifs <;> rfl

/-! ## The days of a service -/

theorem runsOn_of_excepted {rows : List CalendarRow} {dates : List CalendarDate}
    {row : CalendarDate} (hmem : row ∈ dates) (hs : row.serviceId = s)
    (hdate : row.date ∈ targetStrs today) (htype : row.exceptionType = some 1) :
    ∃ d ∈ targetDates today, RunsOn rows dates s d := by
  obtain ⟨d, hd, hdate⟩ := List.mem_map.mp hdate
  exact ⟨d, hd, Or.inl ⟨row, hmem, hs, hdate.symm, htype⟩⟩

theorem removedThroughout_iff {rows : List CalendarRow} {dates : List CalendarDate} :
    RemovedThroughout rows dates s today ↔ ¬∃ d ∈ targetDates today, RunsOn rows dates s d := by
  push Not
  refine forall₂_congr fun d _ ↦ ?_
  rw [RunsOn, not_or, not_and, not_not]

theorem runs_iff_of_none {rows : List CalendarRow} {dates : List CalendarDate}
    (h : lastException dates s today = none) :
    (∃ d ∈ targetDates today, RunsOn rows dates s d) ↔
      ∃ d ∈ targetDates today, Scheduled rows s d := by
  rw [lastException, List.getLast?_eq_none_iff, List.filter_eq_nil_iff] at h
  have hnone (d : ℤ) (hd : d ∈ targetDates today) (type : ℤ) (htype : type = 1 ∨ type = 2) :
      ¬Excepted dates s d type := by
    rintro ⟨row, hmem, hs, hdate, hrow⟩
    refine h row hmem (decide_eq_true ⟨hs, hdate ▸ List.mem_map_of_mem hd, ?_⟩)
    exact htype.imp (fun heq : type = 1 ↦ heq ▸ hrow) fun heq : type = 2 ↦ heq ▸ hrow
  refine exists_congr fun d ↦ and_congr_right fun hd ↦ ?_
  rw [RunsOn, or_iff_right (hnone d hd 1 (Or.inl rfl)), and_iff_left (hnone d hd 2 (Or.inr rfl))]

/-! ## The order of the rows -/

theorem Scheduled.congr {rows rows' : List CalendarRow} (h : rows.Perm rows') :
    Scheduled rows s d ↔ Scheduled rows' s d :=
  exists_congr fun _ ↦ and_congr_left fun _ ↦ h.mem_iff

theorem Excepted.congr {dates dates' : List CalendarDate} (h : dates.Perm dates') {type : ℤ} :
    Excepted dates s d type ↔ Excepted dates' s d type :=
  exists_congr fun _ ↦ and_congr_left fun _ ↦ h.mem_iff

theorem RunsOn.congr {rows rows' : List CalendarRow} {dates dates' : List CalendarDate}
    (hrows : rows.Perm rows') (hdates : dates.Perm dates') :
    RunsOn rows dates s d ↔ RunsOn rows' dates' s d := by
  rw [RunsOn, RunsOn, Excepted.congr hdates, Excepted.congr hdates, Scheduled.congr hrows]

theorem Table.Reordered.refl {ρ : Type} (table : Table ρ) : table.Reordered table := by
  cases table
  · exact trivial
  · exact trivial
  · exact List.Perm.refl _

theorem Table.Reordered.read {ρ : Type} {table table' : Table ρ} (h : table.Reordered table') :
    table.read.Perm table'.read := by
  unfold Table.Reordered at h
  split at h
  · exact h
  · exact List.Perm.refl _
  · exact List.Perm.refl _
  · exact h.elim

theorem Table.Reordered.eq_missing_iff {ρ : Type} {table table' : Table ρ}
    (h : table.Reordered table') : table = .missing ↔ table' = .missing := by
  unfold Table.Reordered at h
  split at h
  · exact iff_of_false (fun h ↦ nomatch h) fun h ↦ nomatch h
  · exact Iff.rfl
  · exact iff_of_false (fun h ↦ nomatch h) fun h ↦ nomatch h
  · exact h.elim

theorem Table.exists_reordered_last {ρ : Type} [DecidableEq ρ] {table : Table ρ} {row : ρ}
    (h : row ∈ table.read) :
    ∃ table' rest, table.Reordered table' ∧ table'.read = rest ++ [row] := by
  cases table with
  | missing => exact absurd h List.not_mem_nil
  | malformed => exact absurd h List.not_mem_nil
  | rows rows =>
    refine ⟨.rows (rows.erase row ++ [row]), rows.erase row, ?_, rfl⟩
    exact (List.perm_cons_erase h).trans (@List.perm_append_comm _ [row] _)

/-- The exceptions raise in one order of the rows if they do in another. -/
theorem applyExceptions_isSome_iff {rows : List CalendarDate} :
    (rows.foldlM (applyException today) active).isSome ↔
      ∀ row ∈ rows, row.date ∈ targetStrs today → row.exceptionType ≠ none := by
  induction rows generalizing active with
  | nil => exact iff_of_true rfl fun row hrow ↦ absurd hrow List.not_mem_nil
  | cons row rows ih =>
    have hrow : (applyException today active row).isSome ↔
        (row.date ∈ targetStrs today → row.exceptionType ≠ none) := by
      unfold applyException
      split_ifs with hdate
      · split
        · next htype => exact iff_of_false Bool.false_ne_true fun h ↦ h hdate htype
        all_goals
          next htype => exact iff_of_true rfl fun _ hnone ↦ nomatch htype.symm.trans hnone
      · exact iff_of_true rfl fun h ↦ absurd h hdate
    rw [List.foldlM_cons, List.forall_mem_cons, ← hrow]
    cases applyException today active row with
    | none => exact iff_of_false Bool.false_ne_true fun h ↦ Bool.false_ne_true h.1
    | some next => exact ih.trans (and_iff_right rfl).symm

theorem buildActiveServiceIds_eq_some_iff :
    buildActiveServiceIds calendar calendarDates today = some (some result) ↔
      ¬(calendar = .missing ∧ calendarDates = .missing) ∧ result ≠ ∅ ∧
        calendarDates.read.foldlM (applyException today)
          (calendarServices today calendar.read) = some result := by
  unfold buildActiveServiceIds
  split
  · exact iff_of_false nofun fun h ↦ h.1 ⟨rfl, rfl⟩
  · next hmissing =>
    rw [Option.map_eq_some_iff, and_iff_right fun h : _ ∧ _ ↦ hmissing h.1 h.2]
    constructor
    · rintro ⟨active, hfold, hsome⟩
      split_ifs at hsome with hempty
      rw [← Option.some.inj hsome]
      exact ⟨hempty, hfold⟩
    · rintro ⟨hempty, hfold⟩
      exact ⟨result, hfold, if_neg hempty⟩

/-- No service that is removed on one of the three days has a day left: no row adds it, and each of
the three on which the calendar has it removes it too. -/
def RemovalsThroughout (calendar : List CalendarRow) (calendarDates : List CalendarDate)
    (today : ℤ) : Prop :=
  ∀ s, ∀ x ∈ targetDates today, Excepted calendarDates s x 2 →
    RemovedThroughout calendar calendarDates s today

/-- In every order of the rows the set is the services that run on one of the three days. -/
def UnionOfDays (calendar : Table CalendarRow) (calendarDates : Table CalendarDate)
    (today : ℤ) : Prop :=
  ∀ calendar' calendarDates', calendar.Reordered calendar' →
    calendarDates.Reordered calendarDates' →
    ∃ result, buildActiveServiceIds calendar' calendarDates' today = some (some result) ∧
      ∀ s, s ∈ result ↔ ∃ d ∈ targetDates today, RunsOn calendar.read calendarDates.read s d

theorem mem_applyExceptions_iff_of_removalsThroughout {rows : List CalendarRow}
    {dates : List CalendarDate} (hremoved : RemovalsThroughout rows dates today)
    (h : dates.foldlM (applyException today) (calendarServices today rows) = some result) :
    s ∈ result ↔ ∃ d ∈ targetDates today, RunsOn rows dates s d := by
  rw [mem_applyExceptions h]
  cases hlast : lastException dates s today with
  | none =>
    dsimp only
    rw [mem_calendarServices, runs_iff_of_none hlast]
  | some row =>
    obtain ⟨hmem, hconcerns⟩ := List.mem_filter.mp (List.mem_of_getLast? hlast)
    obtain ⟨hs, hdate, htype⟩ := of_decide_eq_true hconcerns
    rcases htype with htype | htype
    · exact iff_of_true htype (runsOn_of_excepted hmem hs hdate htype)
    · obtain ⟨x, hx, hdate⟩ := List.mem_map.mp hdate
      have hnot := removedThroughout_iff.mp (hremoved s x hx ⟨row, hmem, hs, hdate.symm, htype⟩)
      exact iff_of_false (fun hadds ↦ by rw [hadds] at htype; exact absurd htype (by decide)) hnot

theorem RemovalsThroughout.perm {rows rows' : List CalendarRow} {dates dates' : List CalendarDate}
    (hrows : rows.Perm rows') (hdates : dates.Perm dates')
    (h : RemovalsThroughout rows dates today) : RemovalsThroughout rows' dates' today := by
  intro s x hx hremoval d hd
  rw [← Excepted.congr hdates, ← Excepted.congr hdates, ← Scheduled.congr hrows]
  exact h s x hx ((Excepted.congr hdates).mpr hremoval) d hd

theorem UnionOfDays.removalsThroughout (h : UnionOfDays calendar calendarDates today) :
    RemovalsThroughout calendar.read calendarDates.read today := by
  rintro s x hx ⟨row, hmem, hs, hdate, htype⟩
  obtain ⟨calendarDates', rest, hreordered, hread⟩ := Table.exists_reordered_last hmem
  obtain ⟨result, hresult, hruns⟩ := h calendar calendarDates' (.refl calendar) hreordered
  have hconcerns : Concerns s today row :=
    ⟨hs, hdate ▸ List.mem_map_of_mem hx, Or.inr htype⟩
  have hlast : lastException calendarDates'.read s today = some row := by
    rw [lastException, hread, List.filter_append, List.filter_singleton,
      decide_eq_true hconcerns]
    exact List.getLast?_concat
  rw [removedThroughout_iff, ← hruns,
    mem_applyExceptions (buildActiveServiceIds_eq_some_iff.mp hresult).2.2, hlast]
  dsimp only
  rw [htype]
  decide

/-- **The active services are those that run on one of the three days, in every order of the rows**,
exactly if no service that is removed on one of the days has another one left. -/
theorem activeServices_iff
    (h : buildActiveServiceIds calendar calendarDates today = some (some result)) :
    UnionOfDays calendar calendarDates today ↔
      RemovalsThroughout calendar.read calendarDates.read today := by
  refine ⟨UnionOfDays.removalsThroughout, ?_⟩
  intro hremoved calendar' calendarDates' hcalendar hdates
  obtain ⟨hthere, hne, hfold⟩ := buildActiveServiceIds_eq_some_iff.mp h
  have hsome : (calendarDates'.read.foldlM (applyException today)
      (calendarServices today calendar'.read)).isSome := by
    have hraises := applyExceptions_isSome_iff.mp (Option.isSome_of_eq_some hfold)
    exact applyExceptions_isSome_iff.mpr fun row hrow ↦ hraises row (hdates.read.mem_iff.mpr hrow)
  obtain ⟨result', hfold'⟩ := Option.isSome_iff_exists.mp hsome
  have hruns (s : String) : s ∈ result' ↔
      ∃ d ∈ targetDates today, RunsOn calendar.read calendarDates.read s d := by
    rw [mem_applyExceptions_iff_of_removalsThroughout
      (hremoved.perm hcalendar.read hdates.read) hfold']
    exact exists_congr fun d ↦ and_congr_right fun _ ↦
      (RunsOn.congr hcalendar.read hdates.read).symm
  have heq : result' = result := by
    ext s
    rw [hruns, mem_applyExceptions_iff_of_removalsThroughout hremoved hfold]
  refine ⟨result', buildActiveServiceIds_eq_some_iff.mpr ⟨?_, heq ▸ hne, hfold'⟩, hruns⟩
  rw [← hcalendar.eq_missing_iff, ← hdates.eq_missing_iff]
  exact hthere

/-- A service that runs on every day of 2026. -/
def everyDay (s : String) : CalendarRow :=
  ⟨s, some 1, some 1, some 1, some 1, some 1, some 1, some 1, "20260101", "20261231"⟩

/-- A service of the Sundays of 2026. -/
def sundays (s : String) : CalendarRow :=
  { serviceId := s, sunday := some 1, startDate := "20260101", endDate := "20261231" }

/-- A Sunday service that is removed on its Sunday, the first of March. -/
theorem activeServices_sundays :
    UnionOfDays (.rows [everyDay "base", sundays "extra"])
      (.rows [⟨"extra", "20260301", some 2⟩]) 20513 := by
  have hbuild : buildActiveServiceIds (.rows [everyDay "base", sundays "extra"])
      (.rows [⟨"extra", "20260301", some 2⟩]) 20513 = some (some {"base"}) := by decide +kernel
  refine (activeServices_iff hbuild).mpr ?_
  rintro s x - ⟨row, hmem, rfl, -⟩
  obtain rfl := List.mem_singleton.mp hmem
  decide +kernel

/-- A daily service that is removed on the first of March does not count as one that runs on the
day before. -/
theorem not_activeServices_everyDay :
    buildActiveServiceIds (.rows [everyDay "weekday", everyDay "keep_me"])
        (.rows [⟨"weekday", "20260301", some 2⟩]) 20513 = some (some {"keep_me"}) ∧
      ¬UnionOfDays (.rows [everyDay "weekday", everyDay "keep_me"])
        (.rows [⟨"weekday", "20260301", some 2⟩]) 20513 := by
  have hbuild : buildActiveServiceIds (.rows [everyDay "weekday", everyDay "keep_me"])
      (.rows [⟨"weekday", "20260301", some 2⟩]) 20513 = some (some {"keep_me"}) := by
    decide +kernel
  refine ⟨hbuild, fun h ↦ ?_⟩
  obtain ⟨result, hresult, hruns⟩ := h _ _ (.refl _) (.refl _)
  rw [hbuild, Option.some.injEq, Option.some.injEq] at hresult
  have hweekday : RunsOn [everyDay "weekday", everyDay "keep_me"]
      [⟨"weekday", "20260301", some 2⟩] "weekday" 20512 := by decide +kernel
  have hmem := (hruns "weekday").mpr ⟨20512, by decide, hweekday⟩
  rw [← hresult] at hmem
  exact absurd hmem (by decide)

end GtfsStream.GtfsStatic
