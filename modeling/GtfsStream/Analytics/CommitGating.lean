import GtfsStream.Analytics.Turns
import GtfsStream.Library.History

/-!
# What a commit covers

A commit covers every message received before it. A message is accounted for while it is in the
buffer or once a window with it was persisted; a flush that is not persisted drops every row that
is not carried forward, and from then on nothing can persist it. So the commits are gated exactly
as long as none comes after such a loss.

## The invariant

A message that was received is in the buffer, or it was persisted, or it is lost. Those in the
buffer can still be persisted by a later window; a lost one cannot, since only rows of the buffer
are handed over. So at a commit every message before it is persisted exactly if none is lost: the
buffer at a commit has rows of the window that was just written. Message offsets tell two messages
with the same content apart.
-/

open GtfsStream.History

namespace GtfsStream.Analytics

/-- A window with the message was persisted. -/
def Persisted (log : List Event) (p : Ping) : Prop :=
  ∃ pings ∈ log.filterMap Event.persisted, p ∈ pings

/-- At every commit, every decodable message received so far is persisted. -/
def CommitsGated (log : List Event) : Prop :=
  AtEach (fun before e ↦ e = .commit → ∀ p, .received (some p) ∈ before → Persisted before p) log

/-- A flush that is not persisted loses a row that is not carried forward, unless an earlier window
persisted it. -/
def Loses (p : Ping) (before : List Event) (e : Event) : Prop :=
  ∃ pings, e.unpersisted = some pings ∧ p ∈ pings ∧ carried pings p = false ∧ ¬Persisted before p

/-- No commit comes after a loss. -/
def NoCommitAfterLoss (log : List Event) : Prop :=
  AtEach (fun before e ↦ e = .commit → ∀ p, ¬AtSome (Loses p) before) log

/-! ## What is accounted for -/

/-- Every message received is in the buffer, persisted or lost, and what is lost is neither. -/
structure Accounted (rows : List Ping) (log : List Event) : Prop where
  kept : ∀ p, .received (some p) ∈ log → p ∈ rows ∨ Persisted log p ∨ AtSome (Loses p) log
  received : ∀ p ∈ rows, .received (some p) ∈ log
  lost : ∀ p, AtSome (Loses p) log →
    .received (some p) ∈ log ∧ p ∉ rows ∧ ¬Persisted log p
  offsets : ∀ p, .received (some p) ∈ log → p.offset < position log
  gated : CommitsGated log ↔ NoCommitAfterLoss log

theorem accounted_nil : Accounted [] [] where
  kept _ h := absurd h List.not_mem_nil
  received _ h := absurd h List.not_mem_nil
  lost _ h := absurd h not_atSome_nil
  offsets _ h := absurd h List.not_mem_nil
  gated := iff_of_true atEach_nil atEach_nil


section

variable {rows : List Ping} {log : List Event} {e : Event} {p q : Ping}

theorem persisted_concat : Persisted (log ++ [e]) p ↔
    Persisted log p ∨ ∃ pings, e.persisted = some pings ∧ p ∈ pings := by
  simp only [Persisted, List.mem_filterMap, List.mem_append, List.mem_singleton]
  constructor
  · rintro ⟨pings, ⟨d, hd | rfl, hpings⟩, hp⟩
    · exact Or.inl ⟨pings, ⟨d, hd, hpings⟩, hp⟩
    · exact Or.inr ⟨pings, hpings, hp⟩
  · rintro (⟨pings, ⟨d, hd, hpings⟩, hp⟩ | ⟨pings, hpings, hp⟩)
    · exact ⟨pings, ⟨d, Or.inl hd, hpings⟩, hp⟩
    · exact ⟨pings, ⟨e, Or.inr rfl, hpings⟩, hp⟩

theorem persisted_concat_of_none (he : e.persisted = none) :
    Persisted (log ++ [e]) p ↔ Persisted log p := by
  rw [persisted_concat, he]
  exact or_iff_left nofun

theorem received_concat : .received (some p) ∈ log ++ [e] ↔
    .received (some p) ∈ log ∨ e = .received (some p) := by
  rw [List.mem_append, List.mem_singleton, eq_comm (a := e)]

theorem gated_concat (he : e ≠ .commit) (h : CommitsGated log ↔ NoCommitAfterLoss log) :
    CommitsGated (log ++ [e]) ↔ NoCommitAfterLoss (log ++ [e]) := by
  rw [CommitsGated, atEach_concat, NoCommitAfterLoss, atEach_concat]
  exact and_congr h (iff_of_true (fun hcommit ↦ absurd hcommit he) fun hcommit ↦ absurd hcommit he)

theorem Accounted.skip (h : Accounted rows log) :
    Accounted rows (log ++ [.received none]) := by
  have hreceived (p : Ping) :
      .received (some p) ∈ log ++ [.received none] ↔ .received (some p) ∈ log := by
    rw [received_concat]
    exact or_iff_left nofun
  have hpersisted (p : Ping) : Persisted (log ++ [.received none]) p ↔ Persisted log p :=
    persisted_concat_of_none rfl
  have hlost (p : Ping) :
      AtSome (Loses p) (log ++ [.received none]) ↔ AtSome (Loses p) log := by
    rw [atSome_concat]
    exact or_iff_left nofun
  constructor
  · intro p hp
    rw [hpersisted, hlost]
    exact h.kept p ((hreceived p).mp hp)
  · exact fun p hp ↦ (hreceived p).mpr (h.received p hp)
  · intro p hp
    rw [hreceived, hpersisted]
    exact h.lost p ((hlost p).mp hp)
  · intro p hp
    rw [position, List.countP_append]
    exact Nat.lt_add_right _ (h.offsets p ((hreceived p).mp hp))
  · exact gated_concat (e := .received none) nofun h.gated

theorem Accounted.receive (h : Accounted rows log) (hoffset : p.offset = position log) :
    Accounted (rows ++ [p]) (log ++ [.received (some p)]) := by
  have hpersisted (q : Ping) : Persisted (log ++ [.received (some p)]) q ↔ Persisted log q :=
    persisted_concat_of_none rfl
  have hlost (q : Ping) :
      AtSome (Loses q) (log ++ [.received (some p)]) ↔ AtSome (Loses q) log := by
    rw [atSome_concat]
    exact or_iff_left nofun
  have hposition : position (log ++ [.received (some p)]) = position log + 1 := by
    rw [position, List.countP_append]
    rfl
  constructor
  · intro q hq
    rw [hpersisted, hlost]
    rcases received_concat.mp hq with hq | hq
    · rcases h.kept q hq with hrow | hrest
      · exact Or.inl (List.mem_append_left _ hrow)
      · exact Or.inr hrest
    · obtain rfl := Option.some.inj (Event.received.inj hq)
      exact Or.inl (by simp)
  · intro q hq
    rcases List.mem_append.mp hq with hq | hq
    · exact received_concat.mpr (Or.inl (h.received q hq))
    · rw [List.mem_singleton.mp hq]
      exact received_concat.mpr (Or.inr rfl)
  · intro q hq
    obtain ⟨hreceived, hrow, hnot⟩ := h.lost q ((hlost q).mp hq)
    refine ⟨received_concat.mpr (Or.inl hreceived), fun hmem ↦ ?_, (hpersisted q).not.mpr hnot⟩
    -- the offset is fresh, so the lost message does not come back
    rcases List.mem_append.mp hmem with hmem | hmem
    · exact hrow hmem
    · have := h.offsets q hreceived
      rw [List.mem_singleton.mp hmem, hoffset] at this
      exact absurd this (lt_irrefl _)
  · intro q hq
    rw [hposition]
    rcases received_concat.mp hq with hq | hq
    · exact Nat.lt_succ_of_lt (h.offsets q hq)
    · rw [← Option.some.inj (Event.received.inj hq), hoffset]
      exact Nat.lt_succ_self _
  · exact gated_concat (e := .received (some p)) nofun h.gated

theorem persisted_of_unpersisted {pings : List Ping} (he : e.unpersisted = some pings) :
    e.persisted = none := by
  cases e with
  | handed pings result success =>
    cases success with
    | false => rfl
    | true => exact absurd he nofun
  | received => rfl
  | dropped => rfl
  | commit => rfl

theorem Accounted.flush (h : Accounted rows log) (he : e.unpersisted = some rows) :
    Accounted (rows.filter (carried rows)) (log ++ [e]) := by
  have hnotReceived (q : Option Ping) : e ≠ .received q := by rintro rfl; exact nomatch he
  have hnotCommit : e ≠ .commit := by rintro rfl; exact nomatch he
  have hreceived (p : Ping) : .received (some p) ∈ log ++ [e] ↔ .received (some p) ∈ log := by
    rw [received_concat]
    exact or_iff_left (hnotReceived _)
  have hpersisted (p : Ping) : Persisted (log ++ [e]) p ↔ Persisted log p :=
    persisted_concat_of_none (persisted_of_unpersisted he)
  constructor
  · intro p hp
    rw [hpersisted, atSome_concat]
    rcases h.kept p ((hreceived p).mp hp) with hrow | hpersist | hlost
    · by_cases hcarry : carried rows p = true
      · exact Or.inl (List.mem_filter.mpr ⟨hrow, hcarry⟩)
      · by_cases hpersist : Persisted log p
        · exact Or.inr (Or.inl hpersist)
        · have hloses : Loses p log e :=
            ⟨rows, he, hrow, Bool.eq_false_of_not_eq_true hcarry, hpersist⟩
          exact Or.inr (Or.inr (Or.inr hloses))
    · exact Or.inr (Or.inl hpersist)
    · exact Or.inr (Or.inr (Or.inl hlost))
  · intro p hp
    rw [hreceived]
    exact h.received p (List.mem_of_mem_filter hp)
  · intro p hp
    rw [hreceived, hpersisted]
    rcases atSome_concat.mp hp with hlost | ⟨pings, hpings, hmem, hcarry, hnot⟩
    · obtain ⟨hrec, hrow, hnot⟩ := h.lost p hlost
      exact ⟨hrec, fun hmem ↦ hrow (List.mem_of_mem_filter hmem), hnot⟩
    · obtain rfl := Option.some.inj (he.symm.trans hpings)
      refine ⟨h.received p hmem, fun hkept ↦ ?_, hnot⟩
      rw [(List.mem_filter.mp hkept).2] at hcarry
      exact nomatch hcarry
  · intro p hp
    rw [position, List.countP_append]
    exact Nat.lt_add_right _ (h.offsets p ((hreceived p).mp hp))
  · exact gated_concat hnotCommit h.gated

theorem Accounted.persist (h : Accounted rows log) (result : WindowResult) :
    Accounted (rows.filter (carried rows)) (log ++ [.handed rows result true] ++ [.commit]) := by
  have hreceived (p : Ping) :
      .received (some p) ∈ log ++ [.handed rows result true] ↔
        .received (some p) ∈ log := by
    rw [received_concat]
    exact or_iff_left nofun
  have hpersisted (p : Ping) :
      Persisted (log ++ [.handed rows result true]) p ↔ Persisted log p ∨ p ∈ rows := by
    rw [persisted_concat]
    refine or_congr_right ⟨?_, fun hp ↦ ⟨rows, rfl, hp⟩⟩
    rintro ⟨pings, heq, hp⟩
    rwa [Option.some.inj heq]
  have hlost (p : Ping) : AtSome (Loses p) (log ++ [.handed rows result true]) ↔
      AtSome (Loses p) log := by
    rw [atSome_concat]
    exact or_iff_left nofun
  have hcommitReceived (p : Ping) :
      .received (some p) ∈ log ++ [.handed rows result true] ++ [.commit] ↔
        .received (some p) ∈ log := by
    rw [received_concat, hreceived]
    exact or_iff_left nofun
  have hcommitPersisted (p : Ping) :
      Persisted (log ++ [.handed rows result true] ++ [.commit]) p ↔
        Persisted log p ∨ p ∈ rows := by
    rw [persisted_concat_of_none rfl, hpersisted]
  have hcommitLost (p : Ping) :
      AtSome (Loses p) (log ++ [.handed rows result true] ++ [.commit]) ↔
        AtSome (Loses p) log := by
    rw [atSome_concat, hlost]
    exact or_iff_left nofun
  constructor
  · intro p hp
    rw [hcommitPersisted, hcommitLost]
    rcases h.kept p ((hcommitReceived p).mp hp) with hrow | hpersist | hloss
    · exact Or.inr (Or.inl (Or.inr hrow))
    · exact Or.inr (Or.inl (Or.inl hpersist))
    · exact Or.inr (Or.inr hloss)
  · intro p hp
    rw [hcommitReceived]
    exact h.received p (List.mem_of_mem_filter hp)
  · intro p hp
    obtain ⟨hrec, hrow, hnot⟩ := h.lost p ((hcommitLost p).mp hp)
    rw [hcommitReceived, hcommitPersisted]
    exact ⟨hrec, fun hmem ↦ hrow (List.mem_of_mem_filter hmem), not_or.mpr ⟨hnot, hrow⟩⟩
  · intro p hp
    rw [position, List.countP_append, List.countP_append]
    exact Nat.lt_add_right _ (Nat.lt_add_right _ (h.offsets p ((hcommitReceived p).mp hp)))
  · -- at the commit, what is received and not lost has just been persisted
    have hcommit : (∀ p, .received (some p) ∈ log ++ [.handed rows result true] →
        Persisted (log ++ [.handed rows result true]) p) ↔
        ∀ p, ¬AtSome (Loses p) (log ++ [.handed rows result true]) := by
      constructor
      · intro hall p hp
        obtain ⟨hrec, hrow, hnot⟩ := h.lost p ((hlost p).mp hp)
        rcases (hpersisted p).mp (hall p ((hreceived p).mpr hrec)) with hpersist | hmem
        · exact hnot hpersist
        · exact hrow hmem
      · intro hnone p hp
        rw [hpersisted]
        rcases h.kept p ((hreceived p).mp hp) with hrow | hpersist | hloss
        · exact Or.inr hrow
        · exact Or.inl hpersist
        · exact absurd ((hlost p).mpr hloss) (hnone p)
    have hhanded := gated_concat (e := .handed rows result true) nofun h.gated
    exact atEach_concat.trans
      ((and_congr hhanded (imp_congr_right fun _ ↦ hcommit)).trans atEach_concat.symm)

end

theorem Accounted.advance {frames : Frames} {zone : Zone} {statics : Set GtfsStaticData}
    {l l' : Ledger} (h : Accounted l.memory.rows l.log)
    (hadvance : Advance frames zone statics l l') :
    Accounted l'.memory.rows l'.log := by
  cases hadvance with
  | skip => exact h.skip
  | receive p hoffset => exact h.receive hoffset
  | drop => exact h.flush rfl
  | fail static =>
    dsimp only
    rw [Memory.handOver, processWindow_rows]
    exact h.flush rfl
  | persist static =>
    dsimp only
    rw [Memory.handOver, processWindow_rows]
    exact h.persist _

theorem Accounted.advances {frames : Frames} {zone : Zone} {statics : Set GtfsStaticData}
    {l l' : Ledger} (h : Accounted l.memory.rows l.log)
    (hadvances : Relation.ReflTransGen (Advance frames zone statics) l l') :
    Accounted l'.memory.rows l'.log := by
  induction hadvances with
  | refl => exact h
  | tail _ hstep ih => exact ih.advance hstep

/-- **The commits of a run are gated exactly if none comes after a loss.** -/
theorem commitsGated_iff {cfg : Settings} {start : Time} {turns : List Turn} {s : Consumer}
    (h : ({ lastWindowFlush := start } : Consumer).run cfg turns = some s) :
    CommitsGated s.log ↔ NoCommitAfterLoss s.log :=
  (accounted_nil.advances
    (Consumer.run_advances (fun turn _ ↦ Set.mem_univ turn.static) h)).gated

theorem noCommitAfterLoss_of_carried {log : List Event}
    (h : ∀ e ∈ log, ∀ pings ∈ e.unpersisted, ∀ p ∈ pings, carried pings p = true) :
    NoCommitAfterLoss log := by
  rintro before e after rfl - p ⟨before', e', after', rfl, pings, hpings, hp, hcarry, -⟩
  rw [h e' (by simp) pings hpings p hp] at hcarry
  exact nomatch hcarry

/-- A message of one vehicle, and nothing else. -/
def pingAt (sent : ℕ) : Ping := { vehicleId := "y1", timestamp := .instant (seconds sent) }

/-- A turn with such a message, sent at one moment and received at another. -/
def turnAt (sent now : ℕ) (persist : Persist) : Turn :=
  .receiving (pingAt sent) .empty now persist

/-- A window that fails and is carried forward whole is committed with the next one. -/
theorem commitsGated_carried :
    ∃ s, runFromStart [turnAt 31 60 .failure, turnAt 61 120 .success] = some s ∧
      CommitsGated s.log := by
  have hreturns : (runFromStart [turnAt 31 60 .failure, turnAt 61 120 .success]).isSome := by
    decide +kernel
  have hcarried : ∀ s ∈ runFromStart [turnAt 31 60 .failure, turnAt 61 120 .success],
      ∀ e ∈ s.log, ∀ pings ∈ e.unpersisted, ∀ p ∈ pings, carried pings p = true := by
    decide +kernel
  obtain ⟨s, hs⟩ := Option.isSome_iff_exists.mp hreturns
  exact ⟨s, hs, (commitsGated_iff hs).mpr (noCommitAfterLoss_of_carried (hcarried s hs))⟩

/-- A window fails, and the next one is committed: the first message is in no later window. -/
theorem not_commitsGated_after_failure :
    ∃ s, runFromStart [turnAt 0 1 .success, turnAt 31 60 .failure, turnAt 61 120 .success] =
      some s ∧ ¬CommitsGated s.log := by
  have hreturns : (runFromStart
      [turnAt 0 1 .success, turnAt 31 60 .failure, turnAt 61 120 .success]).isSome := by
    decide +kernel
  have hlog : ∀ s ∈ runFromStart
      [turnAt 0 1 .success, turnAt 31 60 .failure, turnAt 61 120 .success],
      s.log = s.log.dropLast ++ [.commit] ∧ .received (some (pingAt 0)) ∈ s.log.dropLast ∧
        ¬∃ pings ∈ s.log.dropLast.filterMap Event.persisted, pingAt 0 ∈ pings := by
    decide +kernel
  obtain ⟨s, hs⟩ := Option.isSome_iff_exists.mp hreturns
  obtain ⟨hlast, hreceived, hnot⟩ := hlog s hs
  exact ⟨s, hs, fun h ↦ hnot (h s.log.dropLast .commit [] hlast rfl (pingAt 0) hreceived)⟩

end GtfsStream.Analytics
