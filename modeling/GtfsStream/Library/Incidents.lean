import GtfsStream.Library.Stretch
import Mathlib.Data.Int.LeastGreatest
import Mathlib.Logic.Function.Basic

/-!
# Incidents, window by window

An incident of a set of slots is a stretch of more than one. They are recorded while the set is
seen window by window: a window shows the slots from some point on, its incidents are recorded by
their starts, and the last of them is remembered, so that an incident of the next window that
touches it extends it instead of being a new one.

The set that is known grows, and each window shows the new slots and a few of the old ones. This
says exactly when the record stays right.

## When the record stays right

Between two windows a slot may become known that was not, or a hole be filled; both happen at the
last slots that were known. An incident of the window lies wholly after these, or it is the one that
reaches back to them, of which there is at most one. The incidents that lie after are new, and they
are recorded as they are. The one that reaches back is recorded as the extension of the remembered
one, or as new, and whether that is right comes down to two slots.
-/

namespace GtfsStream

/-- A stretch of more than one slot, by its ends. -/
def Incident (G : Set ℤ) (e : ℤ × ℤ) : Prop := e.1 < e.2 ∧ Stretch G e.1 e.2

/-- The end of each recorded incident by its start, and the last one. -/
structure Incidents where
  recorded : ℤ → Option ℤ
  tracked : Option (ℤ × ℤ)

namespace Incidents

def empty : Incidents := ⟨fun _ ↦ none, none⟩

/-- What is recorded for an incident next to the tracked one, if anything. -/
def emission (tracked : Option (ℤ × ℤ)) (e : ℤ × ℤ) : Option (ℤ × ℤ) :=
  match tracked with
  | none => some e
  | some f =>
    if e.1 ≤ f.2 + 1 then if f.2 < e.2 then some (min f.1 e.1, e.2) else none else some e

def observe (s : Incidents) (e : ℤ × ℤ) : Incidents :=
  match emission s.tracked e with
  | none => s
  | some f => ⟨Function.update s.recorded f.1 (some f.2), some f⟩

/-- The incidents of a window, one after the other. -/
def window (s : Incidents) (es : List (ℤ × ℤ)) : Incidents := es.foldl observe s

variable {s : Incidents} {e f : ℤ × ℤ} {es : List (ℤ × ℤ)} {a b : ℤ}

theorem emission_some {tracked : Option (ℤ × ℤ)} (h : emission tracked e = some f) :
    f.1 ≤ e.1 ∧ f.2 = e.2 := by
  cases tracked with
  | none =>
    rw [← Option.some.inj h]
    exact ⟨le_refl _, rfl⟩
  | some d =>
    rw [emission] at h
    split_ifs at h with hmeets
    · rw [← Option.some.inj h]
      exact ⟨min_le_right _ _, rfl⟩
    · rw [← Option.some.inj h]
      exact ⟨le_refl _, rfl⟩

theorem emission_none {tracked : Option (ℤ × ℤ)} (h : emission tracked e = none) :
    ∃ f, tracked = some f ∧ e.2 ≤ f.2 := by
  cases tracked with
  | none => exact nomatch h
  | some d =>
    rw [emission] at h
    split_ifs at h with hmeets hlater
    exact ⟨d, rfl, not_lt.mp hlater⟩

theorem observe_of_none (h : emission s.tracked e = none) : s.observe e = s := by
  rw [observe, h]

theorem observe_of_some (h : emission s.tracked e = some f) :
    s.observe e = ⟨Function.update s.recorded f.1 (some f.2), some f⟩ := by
  rw [observe, h]

/-- What is tracked after an incident ends where it does, or was tracked before. -/
theorem tracked_observe (hf : (s.observe e).tracked = some f) :
    f.2 = e.2 ∨ s.tracked = some f := by
  cases hemission : emission s.tracked e with
  | some d =>
    rw [observe_of_some hemission] at hf
    obtain rfl : d = f := Option.some.inj hf
    exact Or.inl (emission_some hemission).2
  | none =>
    rw [observe_of_none hemission] at hf
    exact Or.inr hf

/-- The tracked incident is forgotten unless it is to be kept. -/
def forget (s : Incidents) (keep : ℤ × ℤ → Bool) : Incidents :=
  { s with tracked := s.tracked.filter keep }

/-! ## Incidents apart from what is tracked -/

theorem observe_of_apart (h : ∀ f, s.tracked = some f → f.2 + 1 < e.1) :
    s.observe e = ⟨Function.update s.recorded e.1 (some e.2), some e⟩ := by
  cases htracked : s.tracked with
  | none => rw [observe, htracked, emission]
  | some f => rw [observe, htracked, emission, if_neg (not_le.mpr (h f htracked))]

/-- Incidents that touch neither the tracked one nor each other are all recorded as they are. -/
theorem window_of_apart (hes : es.Pairwise fun e f ↦ e.2 + 1 < f.1) (hspan : ∀ e ∈ es, e.1 < e.2)
    (h : ∀ f, s.tracked = some f → ∀ e ∈ es, f.2 + 1 < e.1) :
    (∀ a b, (s.window es).recorded a = some b ↔
        (a, b) ∈ es ∨ (∀ e ∈ es, e.1 ≠ a) ∧ s.recorded a = some b) ∧
      (s.window es).tracked = es.getLast?.or s.tracked := by
  induction es generalizing s with
  | nil =>
    refine ⟨fun a b ↦ ?_, rfl⟩
    refine ⟨fun hab ↦ Or.inr ⟨fun e he ↦ absurd he List.not_mem_nil, hab⟩, ?_⟩
    rintro (hab | ⟨-, hab⟩)
    · exact absurd hab List.not_mem_nil
    · exact hab
  | cons e es ih =>
    obtain ⟨hfirst, hrest⟩ := List.pairwise_cons.mp hes
    have hobserve := observe_of_apart fun f hf ↦ h f hf e List.mem_cons_self
    have hnext : ∀ f, (s.observe e).tracked = some f → ∀ d ∈ es, f.2 + 1 < d.1 := by
      intro f hf
      rw [hobserve] at hf
      rw [← Option.some.inj hf]
      exact hfirst
    obtain ⟨hrecorded, htracked⟩ := ih hrest (fun d hd ↦ hspan d (List.mem_cons_of_mem e hd)) hnext
    constructor
    · intro a b
      change ((s.observe e).window es).recorded a = some b ↔ _
      have hlater : ∀ d ∈ es, d.1 ≠ e.1 := fun d hd ↦
        ((hspan e List.mem_cons_self).trans ((lt_add_one e.2).trans (hfirst d hd))).ne'
      rw [hrecorded, hobserve, List.mem_cons, List.forall_mem_cons]
      dsimp only
      -- the first incident is recorded at its own start, which no later one has
      by_cases ha : a = e.1
      · rw [ha, Function.update_self, Option.some.injEq]
        constructor
        · rintro (hab | ⟨-, rfl⟩)
          · exact absurd rfl (hlater (e.1, b) hab)
          · exact Or.inl (Or.inl rfl)
        · rintro ((hab | hab) | ⟨⟨hne, -⟩, -⟩)
          · exact Or.inr ⟨hlater, (congrArg Prod.snd hab).symm⟩
          · exact absurd rfl (hlater (e.1, b) hab)
          · exact absurd rfl hne
      · rw [Function.update_of_ne ha]
        have hab : (a, b) ≠ e := fun hab ↦ ha (congrArg Prod.fst hab)
        rw [or_iff_right hab, and_iff_right (Ne.symm ha)]
    · change ((s.observe e).window es).tracked = _
      rw [htracked, hobserve]
      cases es with
      | nil => rfl
      | cons d es =>
        rw [List.getLast?_cons_cons, List.getLast?_eq_some_getLast (List.cons_ne_nil d es)]
        rfl

theorem window_empty (hes : es.Pairwise fun e f ↦ e.2 + 1 < f.1) (hspan : ∀ e ∈ es, e.1 < e.2)
    (a b : ℤ) : (empty.window es).recorded a = some b ↔ (a, b) ∈ es := by
  have htracked (f : ℤ × ℤ) : empty.tracked ≠ some f := nofun
  have hrecorded : empty.recorded a ≠ some b := nofun
  rw [(window_of_apart hes hspan fun f hf ↦ absurd hf (htracked f)).1]
  exact or_iff_left fun hab ↦ hrecorded hab.2

/-! ## The tracked incident -/

/-- What is tracked is the last of the record; without it the record ends before `n`. -/
structure Tracks (s : Incidents) (n : ℤ) : Prop where
  last : ∀ e, s.tracked = some e →
    s.recorded e.1 = some e.2 ∧ ∀ a b, s.recorded a = some b → b ≤ e.2
  forgotten : s.tracked = none → ∀ a b, s.recorded a = some b → b < n

theorem tracks_empty (n : ℤ) : empty.Tracks n := ⟨nofun, fun _ _ _ ↦ nofun⟩

theorem tracks_update {recorded : ℤ → Option ℤ} {n : ℤ}
    (h : ∀ a b, recorded a = some b → b ≤ e.2) :
    Tracks ⟨Function.update recorded e.1 (some e.2), some e⟩ n := by
  refine ⟨fun f hf ↦ ?_, nofun⟩
  rw [← Option.some.inj hf]
  refine ⟨Function.update_self e.1 _ _, fun a b hab ↦ ?_⟩
  dsimp only at hab
  by_cases ha : a = e.1
  · rw [ha, Function.update_self, Option.some.injEq] at hab
    exact hab.ge
  · rw [Function.update_of_ne ha] at hab
    exact h a b hab

theorem Tracks.observe {n : ℤ} (h : Tracks s n) (hspan : e.1 ≤ e.2) (hn : n ≤ e.2) :
    Tracks (s.observe e) n := by
  cases htracked : s.tracked with
  | none =>
    rw [observe_of_apart (by rw [htracked]; exact nofun)]
    exact tracks_update fun a b hab ↦ (h.forgotten htracked a b hab).le.trans hn
  | some f =>
    obtain ⟨-, hlast⟩ := h.last f htracked
    rw [Incidents.observe, htracked, emission]
    split_ifs with hmeets hlater
    · exact tracks_update (e := (min f.1 e.1, e.2)) fun a b hab ↦ (hlast a b hab).trans hlater.le
    · exact h
    · refine tracks_update fun a b hab ↦ (hlast a b hab).trans ?_
      omega

theorem Tracks.window {n : ℤ} (h : Tracks s n) (hspan : ∀ e ∈ es, e.1 ≤ e.2)
    (hn : ∀ e ∈ es, n ≤ e.2) : Tracks (s.window es) n := by
  induction es generalizing s with
  | nil => exact h
  | cons e es ih =>
    have he := h.observe (hspan e List.mem_cons_self) (hn e List.mem_cons_self)
    exact ih he (fun d hd ↦ hspan d (List.mem_cons_of_mem e hd)) fun d hd ↦
      hn d (List.mem_cons_of_mem e hd)

theorem Tracks.forget {n n' : ℤ} {keep : ℤ × ℤ → Bool} (h : Tracks s n) (hle : n ≤ n')
    (hover : ∀ e, s.tracked = some e → keep e = false → e.2 < n') :
    Tracks (s.forget keep) n' := by
  constructor
  · intro e he
    exact h.last e (Option.filter_eq_some_iff.mp he).1
  · intro hnone a b hab
    cases htracked : s.tracked with
    | none => exact (h.forgotten htracked a b hab).trans_le hle
    | some e =>
      refine ((h.last e htracked).2 a b hab).trans_lt (hover e htracked ?_)
      have hdropped := Option.filter_eq_none_iff.mp hnone e htracked
      exact Bool.eq_false_of_not_eq_true hdropped

/-- An incident that touches the tracked one, and does not end before it. -/
theorem recorded_observe_of_meet (h : Tracks s a) (htracked : s.tracked = some f)
    (hmeets : e.1 ≤ f.2 + 1) (hend : f.2 < e.2 ∧ f.1 ≤ e.1 ∨ f.2 = e.2) (c d : ℤ) :
    (s.observe e).recorded c = some d ↔ c = f.1 ∧ d = e.2 ∨ c ≠ f.1 ∧ s.recorded c = some d := by
  rw [observe, htracked, emission, if_pos hmeets]
  split_ifs with hlater
  · have hstart : min f.1 e.1 = f.1 := min_eq_left (by omega)
    dsimp only
    rw [hstart]
    by_cases hc : c = f.1
    · rw [hc, Function.update_self, Option.some.injEq, and_iff_right rfl,
        or_iff_left fun hne ↦ hne.1 rfl, eq_comm]
    · rw [Function.update_of_ne hc, or_iff_right fun hc' ↦ hc hc'.1, and_iff_right hc]
  · have hsame : f.2 = e.2 := by omega
    by_cases hc : c = f.1
    · rw [hc, (h.last f htracked).1, Option.some.injEq, and_iff_right rfl,
        or_iff_left fun hne ↦ hne.1 rfl, hsame, eq_comm]
    · rw [or_iff_right fun hc' ↦ hc hc'.1, and_iff_right hc]

theorem recorded_observe_of_apart (h : ∀ f, s.tracked = some f → f.2 + 1 < e.1) (c d : ℤ) :
    (s.observe e).recorded c = some d ↔ c = e.1 ∧ d = e.2 ∨ c ≠ e.1 ∧ s.recorded c = some d := by
  rw [observe_of_apart h]
  dsimp only
  by_cases hc : c = e.1
  · rw [hc, Function.update_self, Option.some.injEq, and_iff_right rfl,
      or_iff_left fun hne ↦ hne.1 rfl, eq_comm]
  · rw [Function.update_of_ne hc, or_iff_right fun hc' ↦ hc hc'.1, and_iff_right hc]

end Incidents

/-! ## The overlap of two windows -/

/-- Where a set is bounded, each of its elements lies in a stretch. -/
theorem exists_stretch {G : Set ℤ} {i lo hi : ℤ} (hlo : ∀ j ∈ G, lo ≤ j) (hhi : ∀ j ∈ G, j ≤ hi)
    (hi' : i ∈ G) : ∃ a b, a ≤ i ∧ i ≤ b ∧ Stretch G a b := by
  obtain ⟨a, ⟨hai, ha⟩, hleast⟩ := Int.exists_least_of_bdd
    (P := fun a ↦ a ≤ i ∧ ∀ j, a ≤ j → j ≤ i → j ∈ G)
    ⟨lo, fun a ha ↦ hlo a (ha.2 a (le_refl a) ha.1)⟩
    ⟨i, le_refl i, fun j hj hj' ↦ le_antisymm hj' hj ▸ hi'⟩
  obtain ⟨b, ⟨hib, hb⟩, hgreatest⟩ := Int.exists_greatest_of_bdd
    (P := fun b ↦ i ≤ b ∧ ∀ j, i ≤ j → j ≤ b → j ∈ G)
    ⟨hi, fun b hb ↦ hhi b (hb.2 b hb.1 (le_refl b))⟩
    ⟨i, le_refl i, fun j hj hj' ↦ le_antisymm hj' hj ▸ hi'⟩
  refine ⟨a, b, hai, hib, by omega, ?_, ?_, ?_⟩
  · intro j hj hj'
    rcases le_total j i with hji | hij
    · exact ha j hj hji
    · exact hb j hij hj'
  · intro hmem
    have hless := hleast (a - 1) ⟨by omega, fun j hj hj' ↦ by
      rcases eq_or_ne j (a - 1) with rfl | hne
      · exact hmem
      · exact ha j (by omega) hj'⟩
    omega
  · intro hmem
    have hmore := hgreatest (b + 1) ⟨by omega, fun j hj hj' ↦ by
      rcases eq_or_ne j (b + 1) with rfl | hne
      · exact hmem
      · exact hb j hj (by omega)⟩
    omega

/-- What is known before a window, what is known with it, and what the window shows: the slots from
`m - 2` on, where that one may be shown wrong, the last known slot is `m`, and a hole is filled by
its two neighbours. -/
structure Overlap (G₀ G H : Set ℤ) (m : ℤ) : Prop where
  subset : ∀ i ∈ G₀, i ∈ G
  old : ∀ i ∈ G, i ≤ m - 2 → i ∈ G₀
  le : ∀ i ∈ G₀, i ≤ m
  shown : ∀ i, m ≤ i → (i ∈ H ↔ i ∈ G)
  ge : ∀ i ∈ H, m - 2 ≤ i
  alone : m - 2 ∉ G → m - 1 ∈ G → m - 1 ∈ G₀ ∧ m - 1 ∈ H
  hidden : m - 1 ∈ G₀ → m - 1 ∉ H → m - 2 ∈ G₀ ∧ m ∈ G₀
  bridge : m - 1 ∈ G → m - 1 ∉ G₀ → m - 2 ∈ G ∧ m ∈ G ∧ m ∉ G₀
  bridge_shown : m - 1 ∈ H → m - 1 ∉ G₀ → m - 2 ∈ H ∧ m ∈ H

/-- Sets with their holes filled overlap if the sets and what forbids the holes do. -/
theorem overlap_bridged {C₀ F₀ C F C' F' : Set ℤ} {m : ℤ}
    (hold : ∀ i < m, (i ∈ C₀ ↔ i ∈ C) ∧ (i ∈ F₀ ↔ i ∈ F)) (hlast : m ∈ C₀ → m ∈ C)
    (hle : ∀ i ∈ C₀, i ≤ m) (hnew : ∀ i, m - 1 ≤ i → (i ∈ C' ↔ i ∈ C) ∧ (i ∈ F' ↔ i ∈ F))
    (hge : ∀ i ∈ C', m - 2 ≤ i) : Overlap (bridged C₀ F₀) (bridged C F) (bridged C' F') m := by
  -- a hole is filled by its two neighbours, so only the last two points are in doubt
  have hsub : ∀ i ∈ C₀, i ∈ C := fun i hi ↦ by
    rcases (hle i hi).lt_or_eq with hlt | rfl
    · exact (hold i hlt).1.mp hi
    · exact hlast hi
  have hm1 : m - 1 - 1 = m - 2 := by omega
  have hm0 : m - 1 + 1 = m := by omega
  constructor
  · rintro i (hi | ⟨hF, hl, hr⟩)
    · exact Or.inl (hsub i hi)
    · have := hle _ hr
      exact Or.inr ⟨fun hi ↦ hF ((hold i (by omega)).2.mpr hi), hsub _ hl, hsub _ hr⟩
  · rintro i (hi | ⟨hF, hl, hr⟩) him
    · exact Or.inl ((hold i (by omega)).1.mpr hi)
    · exact Or.inr ⟨fun hi ↦ hF ((hold i (by omega)).2.mp hi),
        (hold _ (by omega)).1.mpr hl, (hold _ (by omega)).1.mpr hr⟩
  · rintro i (hi | ⟨-, -, hr⟩)
    · exact hle i hi
    · have := hle _ hr
      omega
  · intro i him
    rw [bridged, bridged, Set.mem_ofPred_eq, Set.mem_ofPred_eq, (hnew i (by omega)).1,
      (hnew i (by omega)).2, (hnew (i - 1) (by omega)).1, (hnew (i + 1) (by omega)).1]
  · rintro i (hi | ⟨-, hl, -⟩)
    · exact hge i hi
    · have := hge _ hl
      omega
  · rintro hnot (hi | ⟨-, hl, -⟩)
    · exact ⟨Or.inl ((hold _ (by omega)).1.mpr hi), Or.inl ((hnew _ (le_refl _)).1.mpr hi)⟩
    · exact (hnot (Or.inl (by rwa [hm1] at hl))).elim
  · rintro (hi | ⟨-, hl, hr⟩) hnot
    · exact (hnot (Or.inl ((hnew _ (le_refl _)).1.mpr ((hold _ (by omega)).1.mp hi)))).elim
    · rw [hm1] at hl
      rw [hm0] at hr
      exact ⟨Or.inl hl, Or.inl hr⟩
  · rintro (hi | ⟨hF, hl, hr⟩) hnot
    · exact (hnot (Or.inl ((hold _ (by omega)).1.mpr hi))).elim
    · rw [hm1] at hl
      rw [hm0] at hr
      refine ⟨Or.inl hl, Or.inl hr, ?_⟩
      rintro (hm | ⟨-, -, hm⟩)
      · refine hnot (Or.inr ⟨fun hi ↦ hF ((hold _ (by omega)).2.mp hi), ?_, ?_⟩)
        · rw [hm1]
          exact (hold _ (by omega)).1.mpr hl
        · rwa [hm0]
      · have := hle _ hm
        omega
  · rintro (hi | ⟨-, hl, hr⟩) hnot
    · exact (hnot (Or.inl ((hold _ (by omega)).1.mpr ((hnew _ (le_refl _)).1.mp hi)))).elim
    · rw [hm1] at hl
      rw [hm0] at hr
      exact ⟨Or.inl hl, Or.inl hr⟩

/-- The window shows what matters of the two slots before the last known one: it takes none for the
beginning of an incident that is not there, unless nothing new follows, and it sees a hole filled
exactly if it is. -/
structure Sees (G₀ G H : Set ℤ) (m : ℤ) : Prop where
  phantom : m - 2 ∉ G → m - 2 ∈ H → m - 1 ∈ G → m ∈ G₀ ∧ m + 1 ∉ G
  hole : m - 1 ∉ G₀ → (m - 1 ∈ H ↔ m - 1 ∈ G)

/-- A window that shows the slots from `m - 2` on as they are sees what matters. -/
theorem sees_bridged {G₀ C F C' F' : Set ℤ} {m : ℤ}
    (hnew : ∀ i, m - 2 ≤ i → (i ∈ C' ↔ i ∈ C) ∧ (i ∈ F' ↔ i ∈ F)) (hge : ∀ i ∈ C', m - 2 ≤ i) :
    Sees G₀ (bridged C F) (bridged C' F') m := by
  constructor
  · rintro hnot (hi | ⟨-, hl, -⟩)
    · exact (hnot (Or.inl ((hnew _ (le_refl _)).1.mp hi))).elim
    · have := hge _ hl
      omega
  · intro _
    rw [bridged, bridged, Set.mem_ofPred_eq, Set.mem_ofPred_eq, (hnew _ (by omega)).1,
      (hnew _ (by omega)).2, (hnew (m - 1 - 1) (by omega)).1, (hnew (m - 1 + 1) (by omega)).1]

/-- The record is that of the incidents of a set, and the last of these is tracked unless it is
long over. -/
structure Incidents.Exact (s : Incidents) (G : Set ℤ) (m : ℤ) : Prop where
  recorded : ∀ a b, s.recorded a = some b ↔ Incident G (a, b)
  tracks : s.Tracks (m - 2)

/-- With one more incident the record is that of the known ones, where `w` replaces what begins
like it. -/
def Incidents.Extends (s : Incidents) (e : ℤ × ℤ) (G₀ : Set ℤ) (w : ℤ × ℤ) : Prop :=
  ∀ a b, (s.observe e).recorded a = some b ↔ (a, b) = w ∨ a ≠ w.1 ∧ Incident G₀ (a, b)

section

variable {G₀ G H : Set ℤ} {m : ℤ} {s : Incidents} {e f : ℤ × ℤ}

theorem Incident.eq_of_meet (he : Incident G e) (hf : Incident G f) (h : f.1 ≤ e.2)
    (h' : e.1 ≤ f.2) :
    e = f :=
  Prod.ext_iff.mpr (he.2.eq_of_meet hf.2 h h')

theorem Incident.mem (he : Incident G e) {i : ℤ} (hi : e.1 ≤ i) (hi' : i ≤ e.2) : i ∈ G :=
  he.2.inside i hi hi'

namespace Overlap

variable (h : Overlap G₀ G H m)

include h

/-- An incident that was over before is the one that was known. -/
theorem known_of_le (he : Incident G e) (hle : e.2 ≤ m - 2) : Incident G₀ e := by
  refine ⟨he.1, he.2.le, fun i hi hi' ↦ ?_, ?_, ?_⟩
  · exact h.old i (he.mem hi hi') (hi'.trans hle)
  · exact fun hmem ↦ he.2.left (h.subset _ hmem)
  · exact fun hmem ↦ he.2.right (h.subset _ hmem)

/-- A known incident that does not go on is an incident. -/
theorem incident_of_known (he : Incident G₀ e) (hright : e.2 + 1 ∉ G) : Incident G e := by
  have hlt := he.1
  have hle := h.le e.2 (he.mem he.1.le (le_refl _))
  refine ⟨he.1, he.2.le, fun i hi hi' ↦ h.subset i (he.mem hi hi'), fun hmem ↦ ?_, hright⟩
  exact he.2.left (h.old _ hmem (by omega))

/-- Past the last known slot the window shows the incidents. -/
theorem shown_iff (hlt : m < e.1) : Incident H e ↔ Incident G e := by
  refine and_congr_right fun hspan ↦ ?_
  constructor
  · exact fun he ↦ he.congr fun i hi _ ↦ h.shown i (by omega)
  · exact fun he ↦ he.congr fun i hi _ ↦ (h.shown i (by omega)).symm

/-- An incident that goes on, or begins, replaces what was known of it. -/
theorem incident_iff_of_current {w : ℤ × ℤ} (hw : Incident G w) (hstart : w.1 ≤ m)
    (hend : m - 1 ≤ w.2) (hlow : e.1 ≤ m) :
    Incident G e ↔ e = w ∨ e.1 ≠ w.1 ∧ Incident G₀ e := by
  have hspan := hw.1
  constructor
  · intro he
    by_cases hmeets : w.1 ≤ e.2 ∧ e.1 ≤ w.2
    · exact Or.inl (he.eq_of_meet hw hmeets.1 hmeets.2)
    · have hlt := he.1
      have hgap : e.2 + 1 ≠ w.1 := fun hgap ↦
        he.2.right (hgap ▸ hw.mem (le_refl _) hspan.le)
      have hgap' : w.2 + 1 ≠ e.1 := fun hgap ↦
        hw.2.right (hgap ▸ he.mem (le_refl _) hlt.le)
      exact Or.inr ⟨by omega, h.known_of_le he (by omega)⟩
  · rintro (rfl | ⟨hne, he⟩)
    · exact hw
    · have hlt := he.1
      have hle := h.le e.2 (he.mem hlt.le (le_refl _))
      have hright : e.2 + 1 ≤ m - 2 → e.2 + 1 ∉ G := fun hold hmem ↦
        he.2.right (h.old _ hmem hold)
      -- a known incident that meets `w` would begin with it
      have hbefore : e.2 < w.1 := by
        by_contra hmeets
        have hge : w.1 ≤ e.1 := by
          by_contra hlower
          exact hw.2.left (h.subset _ (he.mem (by omega) (by omega)))
        exact he.2.left (h.old _ (hw.mem (by omega) (by omega)) (by omega))
      have hgap : e.2 ≠ w.1 - 1 := fun hgap ↦
        hw.2.left (hgap ▸ h.subset _ (he.mem hlt.le (le_refl _)))
      refine h.incident_of_known he ?_
      by_cases hlast : e.2 + 1 = m - 1
      · rw [show e.2 + 1 = w.1 - 1 by omega]
        exact hw.2.left
      · exact hright (by omega)

theorem tracked_le (hexact : s.Exact G₀ m) (hf : s.tracked = some f) : Incident G₀ f ∧ f.2 ≤ m := by
  have hrecorded := (hexact.tracks.last f hf).1
  rw [hexact.recorded] at hrecorded
  exact ⟨hrecorded, h.le f.2 (hrecorded.mem hrecorded.1.le (le_refl _))⟩

/-- A known incident that is not long over is the tracked one. -/
theorem tracked_of_recent (hexact : s.Exact G₀ m) (he : Incident G₀ e) (hrecent : m - 2 ≤ e.2) :
    s.tracked = some e := by
  have hrecorded := (hexact.recorded e.1 e.2).mpr he
  cases htracked : s.tracked with
  | none =>
    have := hexact.tracks.forgotten htracked e.1 e.2 hrecorded
    omega
  | some f =>
    obtain ⟨hf, hle⟩ := h.tracked_le hexact htracked
    have hlast := (hexact.tracks.last f htracked).2 e.1 e.2 hrecorded
    have hf' := hf.1
    have he' := he.1
    by_cases hmeets : f.1 ≤ e.2
    · rw [he.eq_of_meet hf hmeets (by omega)]
    · -- two incidents do not fit between `m - 2` and `m`
      have hgap : e.2 + 1 ≠ f.1 := fun hgap ↦
        he.2.right (hgap ▸ hf.mem (le_refl _) hf'.le)
      omega

/-- An incident past the last known slot does not touch what was known. -/
theorem apart_of_new (hf : f.2 ∈ G₀) (he : Incident H e) (hnew : m < e.1) : f.2 + 1 < e.1 := by
  have hle := h.le f.2 hf
  by_contra hnot
  have hlast : f.2 = m := by omega
  have hmem : m ∈ H := (h.shown m (le_refl m)).mpr (h.subset m (hlast ▸ hf))
  exact he.2.left (by rwa [show e.1 - 1 = m by omega])

theorem apart_of_tracked (hexact : s.Exact G₀ m) (hf : s.tracked = some f) (he : Incident H e)
    (hnew : m < e.1) : f.2 + 1 < e.1 := by
  have hknown := (h.tracked_le hexact hf).1
  exact h.apart_of_new (hknown.mem hknown.1.le (le_refl _)) he hnew

theorem le_of_recorded (hexact : s.Exact G₀ m) {a b : ℤ} (hab : s.recorded a = some b) :
    a ≤ m := by
  have hknown := (hexact.recorded a b).mp hab
  have hspan := hknown.1
  have hle := h.le b (hknown.mem hspan.le (le_refl _))
  dsimp only at hspan
  omega

theorem le_of_recorded_observe (hexact : s.Exact G₀ m) (hlow : e.1 ≤ m) {a b : ℤ}
    (hab : (s.observe e).recorded a = some b) : a ≤ m := by
  cases hemission : Incidents.emission s.tracked e with
  | some d =>
    rw [Incidents.observe_of_some hemission] at hab
    by_cases had : a = d.1
    · rw [had]
      exact (Incidents.emission_some hemission).1.trans hlow
    · dsimp only at hab
      rw [Function.update_of_ne had] at hab
      exact h.le_of_recorded hexact hab
  | none =>
    rw [Incidents.observe_of_none hemission] at hab
    exact h.le_of_recorded hexact hab

/-- With the new incidents of the window, the record is right if it was right for the others. -/
theorem window_iff_of_new {es : List (ℤ × ℤ)} (hes : es.Pairwise fun e f ↦ e.2 + 1 < f.1)
    (hmem : ∀ e, e ∈ es ↔ Incident H e ∧ m < e.1)
    (hapart : ∀ f, s.tracked = some f → ∀ e ∈ es, f.2 + 1 < e.1)
    (hlow : ∀ a b, s.recorded a = some b → a ≤ m) :
    (∀ a b, (s.window es).recorded a = some b ↔ Incident G (a, b)) ↔
      ∀ a b, a ≤ m → (s.recorded a = some b ↔ Incident G (a, b)) := by
  have hrecorded := (Incidents.window_of_apart hes (fun e he ↦ ((hmem e).mp he).1.1) hapart).1
  refine forall_congr' fun a ↦ forall_congr' fun b ↦ ?_
  rw [hrecorded]
  rcases le_or_gt a m with ha | ha
  · have hnot : (a, b) ∉ es := fun hab ↦ absurd ha (not_le.mpr ((hmem _).mp hab).2)
    have hother : ∀ e ∈ es, e.1 ≠ a := fun e he hea ↦
      absurd ha (not_le.mpr (hea ▸ ((hmem e).mp he).2))
    rw [or_iff_right hnot, and_iff_right hother]
    exact ⟨fun hab _ ↦ hab, fun hab ↦ hab ha⟩
  · have hnone : ¬s.recorded a = some b := fun hab ↦ absurd (hlow a b hab) (not_le.mpr ha)
    rw [or_iff_left fun hab ↦ hnone hab.2, hmem, h.shown_iff ha]
    exact iff_of_true (and_iff_left ha) fun hle ↦ absurd hle (not_le.mpr ha)

/-- A known incident that an incident of the window meets is recorded with its end. -/
theorem extends_of_meet (hexact : s.Exact G₀ m) {a b : ℤ} (hknown : Incident G₀ (a, b))
    (hrecent : m - 2 ≤ b) (hmeets : e.1 ≤ b + 1) (hend : b < e.2 ∧ a ≤ e.1 ∨ b = e.2) :
    s.Extends e G₀ (a, e.2) := by
  intro c d
  have htracked := h.tracked_of_recent hexact hknown hrecent
  rw [Incidents.recorded_observe_of_meet hexact.tracks htracked hmeets hend, hexact.recorded,
    Prod.mk.injEq]

/-- An incident of the window that is apart from the known ones is recorded as it is. -/
theorem extends_of_apart (hexact : s.Exact G₀ m) (hapart : ∀ f, Incident G₀ f → f.2 + 1 < e.1) :
    s.Extends e G₀ e := by
  intro a b
  rw [Incidents.recorded_observe_of_apart fun f hf ↦ hapart f (h.tracked_le hexact hf).1,
    hexact.recorded, Prod.ext_iff]

/-- An incident of the window does not begin in the middle of what it shows. -/
theorem start_of_shown (he : Incident H e) (hlow : e.1 ≤ m) (hbefore : m - 2 ∈ H)
    (hhole : m - 1 ∈ H) : e.1 = m - 2 := by
  have hge := h.ge e.1 (he.mem (le_refl _) he.1.le)
  rcases (by omega : e.1 = m - 2 ∨ e.1 = m - 1 ∨ e.1 = m) with hem | hem | hem
  · exact hem
  · exact (he.2.left (by rwa [show e.1 - 1 = m - 2 by omega])).elim
  · exact (he.2.left (by rwa [hem])).elim

/-- The slots that the window shows from `m - 1` on are there. -/
theorem mem_of_incident (hsees : Sees G₀ G H m) (he : Incident H e) {i : ℤ} (hi : e.1 ≤ i)
    (hm : m - 1 ≤ i) (hi' : i ≤ e.2) : i ∈ G := by
  rcases (by omega : m ≤ i ∨ i = m - 1) with hm | rfl
  · exact (h.shown i hm).mp (he.mem hi hi')
  · by_cases hold : m - 1 ∈ G₀
    · exact h.subset _ hold
    · exact (hsees.hole hold).mp (he.mem hi hi')

theorem not_mem_after (he : Incident H e) (hend : m - 1 ≤ e.2) : e.2 + 1 ∉ G := fun hright ↦
  he.2.right ((h.shown (e.2 + 1) (by omega)).mpr hright)

/-- The current incident goes on from before the window. -/
theorem extends_of_before (hexact : s.Exact G₀ m) (hsees : Sees G₀ G H m) (he : Incident H e)
    (hlow : e.1 ≤ m) {lo w : ℤ} (hlo : ∀ i ∈ G, lo ≤ i) (hstretch : Stretch G w e.2)
    (hw : w ≤ m - 2) (hend : m - 1 ≤ e.2) :
    s.Extends e G₀ (w, e.2) := by
  have hge := h.ge e.1 (he.mem (le_refl _) he.1.le)
  have hbefore := hstretch.inside (m - 2) hw (by omega)
  have hhole := hstretch.inside (m - 1) (by omega) hend
  obtain ⟨v, j, hv, hj, hknown⟩ := exists_stretch (fun i hi ↦ hlo i (h.subset i hi))
    h.le (h.old (m - 2) hbefore (le_refl _))
  obtain rfl : v = w := by
    have hvw : v ≤ w := by
      by_contra hnot
      exact hknown.left (h.old _ (hstretch.inside (v - 1) (by omega) (by omega)) (by omega))
    have hwv : w ≤ v := by
      by_contra hnot
      exact hstretch.left (h.subset _ (hknown.inside (w - 1) (by omega) (by omega)))
    exact le_antisymm hvw hwv
  have hje : j ≤ e.2 := by
    by_contra hnot
    exact h.not_mem_after he hend (h.subset _ (hknown.inside (e.2 + 1) (by omega) (by omega)))
  have hshown (hjm : j = m - 2) : m - 1 ∉ G₀ ∧ m - 1 ∈ H := by
    have hold : m - 1 ∉ G₀ := fun hold ↦
      hknown.right (by rwa [show j + 1 = m - 1 by omega])
    exact ⟨hold, (hsees.hole hold).mpr hhole⟩
  by_cases hvj : v < j
  · refine h.extends_of_meet hexact ⟨hvj, hknown⟩ hj ?_ (by omega)
    by_contra hnot
    exact he.2.left (by rw [show e.1 - 1 = m - 1 by omega]; exact (hshown (by omega)).2)
  · -- it was a single slot so far
    obtain ⟨hold, hholeShown⟩ := hshown (by omega)
    have hstart := h.start_of_shown he hlow (h.bridge_shown hholeShown hold).1 hholeShown
    rw [show v = e.1 by omega]
    refine h.extends_of_apart hexact fun f hf ↦ ?_
    by_contra hmeets
    have hfm := h.le _ (hf.mem hf.1.le (le_refl _))
    have hlt := hf.1
    by_cases hrecent : f.2 ≤ m - 2
    · exact hknown.left (hf.mem (by omega) (by omega))
    · exact hold (hf.mem (by omega) (by omega))

/-- The current incident begins with the last but one known slot. -/
theorem extends_of_last_but_one (hexact : s.Exact G₀ m) (hsees : Sees G₀ G H m)
    (he : Incident H e) (hlow : e.1 ≤ m) (hstretch : Stretch G (m - 1) e.2) :
    m - 1 < e.2 ∧ s.Extends e G₀ (m - 1, e.2) := by
  have hge := h.ge e.1 (he.mem (le_refl _) he.1.le)
  have hlt := he.1
  have hnot : m - 2 ∉ G := fun hmem ↦ hstretch.left (by rwa [show m - 1 - 1 = m - 2 by omega])
  have hold : m - 2 ∉ G₀ := fun hmem ↦ hnot (h.subset _ hmem)
  have hfirst := hstretch.inside (m - 1) (le_refl _) hstretch.le
  obtain ⟨hknown, hshown⟩ := h.alone hnot hfirst
  have hem : e.1 ≠ m := fun hem ↦ he.2.left (by rwa [hem])
  have hpair (hm : m ∈ G₀) : Incident G₀ (m - 1, m) := by
    refine ⟨sub_one_lt m, (sub_one_lt m).le, fun i hi hi' ↦ ?_, fun hleft ↦ hold ?_,
      fun hright ↦ ?_⟩
    · rcases (by omega : i = m - 1 ∨ i = m) with rfl | rfl
      · exact hknown
      · exact hm
    · rwa [show m - 2 = m - 1 - 1 by omega]
    · exact absurd (h.le _ hright) (lt_add_one m).not_ge
  by_cases hphantom : e.1 = m - 2
  · obtain ⟨hm, hnext⟩ := hsees.phantom hnot (hphantom ▸ he.mem (le_refl _) hlt.le) hfirst
    have hmShown := (h.shown m (le_refl m)).mpr (h.subset m hm)
    have hlast : m = e.2 := by
      rcases (by omega : e.2 = m - 1 ∨ m = e.2 ∨ m + 1 ≤ e.2) with hlast | hlast | hlast
      · exact (he.2.right (by rwa [hlast, show m - 1 + 1 = m by omega])).elim
      · exact hlast
      · exact (hnext (h.mem_of_incident hsees he (by omega) (by omega) hlast)).elim
    exact ⟨by omega, h.extends_of_meet hexact (hpair hm) (by omega) (by omega) (Or.inr hlast)⟩
  · by_cases hm : m ∈ G₀
    · have hmShown := (h.shown m (le_refl m)).mpr (h.subset m hm)
      have hlast : m ≤ e.2 := by
        by_contra hlast
        exact he.2.right (by rwa [show e.2 + 1 = m by omega])
      exact ⟨by omega, h.extends_of_meet hexact (hpair hm) (by omega) (by omega) (by omega)⟩
    · have hstart : m - 1 = e.1 := by omega
      rw [hstart]
      refine ⟨hlt, h.extends_of_apart hexact fun f hf ↦ ?_⟩
      by_contra hmeets
      have hfm := h.le _ (hf.mem hf.1.le (le_refl _))
      have hlt' := hf.1
      by_cases hrecent : f.2 = m
      · exact hm (hf.mem (by omega) (by omega))
      · exact hold (hf.mem (by omega) (by omega))

/-- The current incident begins with the last known slot. -/
theorem extends_of_last (hexact : s.Exact G₀ m) (hem : e.1 = m) (hstretch : Stretch G e.1 e.2) :
    s.Extends e G₀ e := by
  have hnot : m - 1 ∉ G := fun hmem ↦ hstretch.left (by rwa [hem])
  refine h.extends_of_apart hexact fun f hf ↦ ?_
  by_contra hmeets
  have hfm := h.le _ (hf.mem hf.1.le (le_refl _))
  have hlt := hf.1
  exact hnot (h.subset _ (hf.mem (by omega) (by omega)))

/-- What is recorded now is an incident, and otherwise the incident is tracked already. -/
theorem exists_recorded (hexact : s.Exact G₀ m) (hlow : e.1 ≤ m)
    (hright : ∀ a b, a ≤ m → ((s.observe e).recorded a = some b ↔ Incident G (a, b))) :
    (∃ a ≤ e.1, Incident G (a, e.2)) ∨ ∃ f, Incident G₀ f ∧ e.2 ≤ f.2 := by
  cases hemission : Incidents.emission s.tracked e with
  | some f =>
    obtain ⟨hstart, hend⟩ := Incidents.emission_some hemission
    refine Or.inl ⟨f.1, hstart, (hright f.1 e.2 (by omega)).mp ?_⟩
    rw [Incidents.observe_of_some hemission, hend]
    exact Function.update_self _ _ _
  | none =>
    obtain ⟨f, htracked, hend⟩ := Incidents.emission_none hemission
    exact Or.inr ⟨f, (h.tracked_le hexact htracked).1, hend⟩

/-- A slot that is shown and not there does not begin an incident, unless nothing new follows. -/
theorem phantom_of_observe (hexact : s.Exact G₀ m) (he : Incident H e) (hlow : e.1 ≤ m)
    (hright : ∀ a b, a ≤ m → ((s.observe e).recorded a = some b ↔ Incident G (a, b)))
    (hnot : m - 2 ∉ G) (hshown : m - 2 ∈ H) (hmem : m - 1 ∈ G) : m ∈ G₀ ∧ m + 1 ∉ G := by
  have hlt := he.1
  have hold : m - 2 ∉ G₀ := fun hmem ↦ hnot (h.subset _ hmem)
  have hstart := h.start_of_shown he hlow hshown (h.alone hnot hmem).2
  rcases h.exists_recorded hexact hlow hright with ⟨a, ha, hincident⟩ | ⟨f, hf, hend⟩
  · exact (hnot (hincident.mem (by omega) (show m - 2 ≤ e.2 by omega))).elim
  · have hfm := h.le _ (hf.mem hf.1.le (le_refl _))
    have hspan := hf.1
    have hlast : f.2 = m := by
      by_contra hne
      exact hold (hf.mem (by omega) (by omega))
    have hknown : m ∈ G₀ := hf.mem (by omega) (by omega)
    refine ⟨hknown, fun hnext ↦ ?_⟩
    have hmShown := (h.shown m (le_refl m)).mpr (h.subset m hknown)
    rcases (by omega : e.2 = m - 1 ∨ e.2 = m) with hem | hem
    · exact he.2.right (by rwa [hem, show m - 1 + 1 = m by omega])
    · exact he.2.right (by rw [hem]; exact (h.shown (m + 1) (by omega)).mpr hnext)

theorem mem_of_shown_hole (hexact : s.Exact G₀ m) (he : Incident H e) (hlow : e.1 ≤ m)
    (hright : ∀ a b, a ≤ m → ((s.observe e).recorded a = some b ↔ Incident G (a, b)))
    (hold : m - 1 ∉ G₀) (hshown : m - 1 ∈ H) : m - 1 ∈ G := by
  obtain ⟨hbefore, hafter⟩ := h.bridge_shown hshown hold
  have hstart := h.start_of_shown he hlow hbefore hshown
  have hend : m ≤ e.2 := by
    have hlt := he.1
    by_contra hend
    exact he.2.right (by rwa [show e.2 + 1 = m by omega])
  rcases h.exists_recorded hexact hlow hright with ⟨a, ha, hincident⟩ | ⟨f, hf, hend'⟩
  · exact hincident.mem (by omega) (show m - 1 ≤ e.2 by omega)
  · have hfm := h.le _ (hf.mem hf.1.le (le_refl _))
    have hspan := hf.1
    exact (hold (hf.mem (by omega) (by omega))).elim

variable {lo hi : ℤ} (hlo : ∀ i ∈ G, lo ≤ i) (hhi : ∀ i ∈ G, i ≤ hi)

include hhi

/-- Two neighbours that the window shows lie in an incident of it. -/
theorem exists_shown {i : ℤ} (hmem : i ∈ H) (hmem' : i + 1 ∈ H) :
    ∃ e, Incident H e ∧ e.1 ≤ i ∧ i + 1 ≤ e.2 := by
  have hbound : ∀ j ∈ H, j ≤ max m hi := by
    intro j hj
    rcases le_total m j with hmj | hjm
    · exact (hhi j ((h.shown j hmj).mp hj)).trans (le_max_right _ _)
    · exact hjm.trans (le_max_left _ _)
  obtain ⟨a, b, hai, hib, hstretch⟩ := exists_stretch h.ge hbound hmem
  have hlt : i < b := by
    refine lt_of_le_of_ne hib fun heq ↦ hstretch.right ?_
    rwa [← heq]
  exact ⟨(a, b), ⟨by dsimp only; omega, hstretch⟩, hai, hlt⟩

/-- Without an incident that reaches back, the window adds nothing to what was known. -/
theorem incident_iff_of_new (hsees : Sees G₀ G H m) (hnew : ∀ e, Incident H e → m < e.1)
    (hlow : e.1 ≤ m) : Incident G e ↔ Incident G₀ e := by
  -- no two neighbours around `m` are shown
  have hpair {i : ℤ} (him : i ≤ m) (hi : i ∈ H) (hi' : i + 1 ∈ H) : False := by
    obtain ⟨f, hf, hfi, -⟩ := h.exists_shown hhi hi hi'
    have := hnew f hf
    omega
  have hm (hm1 : m - 1 ∈ H) (hm : m ∈ H) : False :=
    hpair (by omega) hm1 (by rwa [show m - 1 + 1 = m by omega])
  have hm' (hm : m ∈ G) (hm1 : m + 1 ∈ G) : False :=
    hpair (le_refl m) ((h.shown m (le_refl m)).mpr hm) ((h.shown (m + 1) (by omega)).mpr hm1)
  -- so what the window decides about `m - 1` and `m` was decided before
  have hhole : m - 1 ∈ G → m - 1 ∈ G₀ := fun hmem ↦ by
    by_contra hnot
    have hshown := (hsees.hole hnot).mpr hmem
    exact hm hshown (h.bridge_shown hshown hnot).2
  have hgone : m - 1 ∈ G → m ∈ G → m ∈ G₀ := fun hm1 hmem ↦ by
    by_cases hshown : m - 1 ∈ H
    · exact (hm hshown ((h.shown m (le_refl m)).mpr hmem)).elim
    · exact (h.hidden (hhole hm1) hshown).2
  constructor
  · intro he
    have hlt := he.1
    have hle : e.2 ≤ m := by
      by_contra hnot
      exact hm' (he.mem hlow (by omega)) (he.mem (by omega) (by omega))
    refine ⟨hlt, hlt.le, fun i hi hi' ↦ ?_, fun hmem ↦ he.2.left (h.subset _ hmem),
      fun hmem ↦ he.2.right (h.subset _ hmem)⟩
    have hmem := he.mem hi hi'
    rcases (by omega : i ≤ m - 2 ∨ i = m - 1 ∨ i = m) with hi | rfl | rfl
    · exact h.old i hmem hi
    · exact hhole hmem
    · exact hgone (he.mem (by omega) (by omega)) hmem
  · intro he
    have hlt := he.1
    have hle := h.le e.2 (he.mem hlt.le (le_refl _))
    have hlast := h.subset _ (he.mem hlt.le (le_refl _))
    refine h.incident_of_known he fun hright ↦ he.2.right ?_
    rcases (by omega : e.2 + 1 ≤ m - 2 ∨ e.2 + 1 = m - 1 ∨ e.2 + 1 = m ∨ e.2 = m) with
      hright' | hright' | hright' | hright'
    · exact h.old _ hright hright'
    · rw [hright'] at hright ⊢
      exact hhole hright
    · rw [hright'] at hright ⊢
      rw [show e.2 = m - 1 by omega] at hlast
      exact hgone hlast hright
    · rw [hright'] at hright hlast
      exact (hm' hlast hright).elim

include hlo

/-- If the record of a window without an incident that reaches back stays right, the window sees
what matters. -/
theorem sees_of_new (hnew : ∀ e, Incident H e → m < e.1)
    (hlow : ∀ e, e.1 ≤ m → (Incident G e ↔ Incident G₀ e)) : Sees G₀ G H m := by
  have hpair {i : ℤ} (him : i ≤ m) (hi : i ∈ H) (hi' : i + 1 ∈ H) : False := by
    obtain ⟨f, hf, hfi, -⟩ := h.exists_shown hhi hi hi'
    have := hnew f hf
    omega
  constructor
  · intro hnot hshown hmem
    refine (hpair (i := m - 2) (by omega) hshown ?_).elim
    rw [show m - 2 + 1 = m - 1 by omega]
    exact (h.alone hnot hmem).2
  · intro hnot
    constructor
    · intro hshown
      obtain ⟨hbefore, -⟩ := h.bridge_shown hshown hnot
      refine (hpair (i := m - 2) (by omega) hbefore ?_).elim
      rwa [show m - 2 + 1 = m - 1 by omega]
    · intro hmem
      -- the incident of the hole would have been known
      obtain ⟨hbefore, hafter, -⟩ := h.bridge hmem hnot
      obtain ⟨a, b, ha, hb, hstretch⟩ := exists_stretch hlo hhi hmem
      have hspan : a < b := by
        refine lt_of_le_of_ne (ha.trans hb) fun heq ↦ hstretch.right ?_
        rwa [show b + 1 = m by omega]
      have hknown := (hlow (a, b) (by dsimp only; omega)).mp ⟨hspan, hstretch⟩
      exact absurd (hknown.mem ha hb) hnot

/-- The current incident ends where that of the window does. It goes on from before the window, or
it begins with one of the last two known slots. -/
theorem exists_current (hsees : Sees G₀ G H m) (he : Incident H e) (hlow : e.1 ≤ m) :
    ∃ w, Stretch G w e.2 ∧ (w ≤ m - 1 ∨ w = e.1 ∧ e.1 = m) := by
  have hge := h.ge e.1 (he.mem (le_refl _) he.1.le)
  have hlt := he.1
  have hend : m - 1 ≤ e.2 := by omega
  obtain ⟨w, b, hwe, heb, hstretch⟩ := exists_stretch hlo hhi
    (h.mem_of_incident hsees he hlt.le hend (le_refl _))
  obtain rfl : e.2 = b := by
    by_contra hne
    exact h.not_mem_after he hend (hstretch.inside _ (by omega) (by omega))
  have hstart {i : ℤ} (hi : e.1 ≤ i) (hm : m - 1 ≤ i) (hi' : i ≤ e.2) : w ≤ i := by
    by_contra hnot
    exact hstretch.left (h.mem_of_incident hsees he (by omega) (by omega) (by omega))
  refine ⟨w, hstretch, ?_⟩
  rcases (by omega : e.1 ≤ m - 1 ∨ e.1 = m) with hem | hem
  · exact Or.inl (hstart hem (le_refl _) hend)
  · have hwe := hstart (le_refl e.1) (by omega) hlt.le
    omega

/-- **An incident of the window that reaches back is recorded as the current incident.** -/
theorem observe_iff_of_sees (hexact : s.Exact G₀ m) (hsees : Sees G₀ G H m) (he : Incident H e)
    (hlow : e.1 ≤ m) : ∃ w, Incident G w ∧ w.1 ≤ m ∧ m - 1 ≤ w.2 ∧ s.Extends e G₀ w := by
  have hge := h.ge e.1 (he.mem (le_refl _) he.1.le)
  have hlt := he.1
  have hend : m - 1 ≤ e.2 := by omega
  obtain ⟨w, hstretch, hwm⟩ := h.exists_current hlo hhi hsees he hlow
  rcases (by omega : w ≤ m - 2 ∨ w = m - 1 ∨ w = e.1 ∧ e.1 = m) with hw | rfl | ⟨rfl, hem⟩
  · have hspan : w < e.2 := by omega
    exact ⟨(w, e.2), ⟨hspan, hstretch⟩, by dsimp only; omega, hend,
      h.extends_of_before hexact hsees he hlow hlo hstretch hw hend⟩
  · obtain ⟨hspan, hextends⟩ := h.extends_of_last_but_one hexact hsees he hlow hstretch
    exact ⟨(m - 1, e.2), ⟨hspan, hstretch⟩, (sub_one_lt m).le, hend, hextends⟩
  · exact ⟨e, ⟨hlt, hstretch⟩, hlow, hend, h.extends_of_last hexact hem hstretch⟩

/-- A hole that is filled is shown filled: otherwise its incident is recorded in two parts. -/
theorem shown_of_mem_hole (hexact : s.Exact G₀ m) (he : Incident H e) (hlow : e.1 ≤ m)
    (hright : ∀ a b, a ≤ m → ((s.observe e).recorded a = some b ↔ Incident G (a, b)))
    (hold : m - 1 ∉ G₀) (hmem : m - 1 ∈ G) : m - 1 ∈ H := by
  by_contra hnot
  have hge := h.ge e.1 (he.mem (le_refl _) he.1.le)
  have hlt := he.1
  obtain ⟨hbefore, hafter, -⟩ := h.bridge hmem hold
  have hstart : e.1 = m := by
    by_contra hne
    exact hnot (he.mem (by omega) (by omega))
  obtain ⟨a, b, ha, hb, hstretch⟩ := exists_stretch hlo hhi hmem
  have hspan : a < m - 1 := by
    refine lt_of_le_of_ne ha fun heq ↦ hstretch.left ?_
    rwa [heq, show m - 1 - 1 = m - 2 by omega]
  have hincident : Incident G (a, b) := ⟨hspan.trans_le hb, hstretch⟩
  have hrecorded := (hright a b (by omega)).mpr hincident
  have hapart : ∀ f, s.tracked = some f → f.2 + 1 < e.1 := fun f hf ↦ by
    obtain ⟨hf, hfm⟩ := h.tracked_le hexact hf
    have hspan := hf.1
    by_contra hmeets
    exact hold (hf.mem (by omega) (by omega))
  rw [Incidents.recorded_observe_of_apart hapart, hexact.recorded] at hrecorded
  rcases hrecorded with ⟨rfl, -⟩ | ⟨-, hknown⟩
  · omega
  · exact hold (hknown.mem ha hb)

/-- If an incident that reaches back leaves the record right, the window sees what matters. -/
theorem sees_of_observe (hexact : s.Exact G₀ m) (he : Incident H e) (hlow : e.1 ≤ m)
    (hright : ∀ a b, a ≤ m → ((s.observe e).recorded a = some b ↔ Incident G (a, b))) :
    Sees G₀ G H m where
  phantom := h.phantom_of_observe hexact he hlow hright
  hole hold := ⟨h.mem_of_shown_hole hexact he hlow hright hold,
    h.shown_of_mem_hole hlo hhi hexact he hlow hright hold⟩

/-- **The record stays right exactly if the window sees what matters.** -/
theorem window_iff (hexact : s.Exact G₀ m) {es : List (ℤ × ℤ)}
    (hes : es.Pairwise fun e f ↦ e.2 + 1 < f.1) (hmem : ∀ e, e ∈ es ↔ Incident H e) :
    (∀ a b, (s.window es).recorded a = some b ↔ Incident G (a, b)) ↔ Sees G₀ G H m := by
  by_cases hnew : ∀ e, Incident H e → m < e.1
  · have hmem' (e : ℤ × ℤ) : e ∈ es ↔ Incident H e ∧ m < e.1 :=
      (hmem e).trans (iff_self_and.mpr (hnew e))
    rw [h.window_iff_of_new hes hmem' (fun f hf e he ↦
      h.apart_of_tracked hexact hf ((hmem' e).mp he).1 ((hmem' e).mp he).2)
      fun _ _ ↦ h.le_of_recorded hexact]
    constructor
    · intro hright
      refine h.sees_of_new hlo hhi hnew fun e he ↦ ?_
      exact (hright e.1 e.2 he).symm.trans (hexact.recorded e.1 e.2)
    · intro hsees a b ha
      rw [hexact.recorded]
      exact (h.incident_iff_of_new hhi hsees hnew ha).symm
  · -- only the first incident of the window can reach back
    push Not at hnew
    obtain ⟨e, he, hlow⟩ := hnew
    obtain ⟨d, rest, rfl⟩ := List.exists_cons_of_ne_nil (List.ne_nil_of_mem ((hmem e).mpr he))
    obtain ⟨hfirst, hrest⟩ := List.pairwise_cons.mp hes
    have hd : Incident H d := (hmem d).mp List.mem_cons_self
    have hdge := h.ge d.1 (hd.mem (le_refl _) hd.1.le)
    have hdspan := hd.1
    obtain rfl : e = d := by
      rcases List.mem_cons.mp ((hmem e).mpr he) with hed | hed
      · exact hed
      · have := hfirst e hed
        omega
    have hmem' (f : ℤ × ℤ) : f ∈ rest ↔ Incident H f ∧ m < f.1 := by
      constructor
      · intro hf
        have := hfirst f hf
        exact ⟨(hmem f).mp (List.mem_cons_of_mem e hf), by omega⟩
      · rintro ⟨hf, hnew⟩
        refine (List.mem_cons.mp ((hmem f).mpr hf)).resolve_left ?_
        rintro rfl
        omega
    have hapart (f : ℤ × ℤ) (hf : (s.observe e).tracked = some f) (g : ℤ × ℤ) (hg : g ∈ rest) :
        f.2 + 1 < g.1 := by
      rcases Incidents.tracked_observe hf with hend | hf
      · exact hend ▸ hfirst g hg
      · exact h.apart_of_tracked hexact hf ((hmem' g).mp hg).1 ((hmem' g).mp hg).2
    refine (h.window_iff_of_new hrest hmem' hapart fun _ _ ↦
      h.le_of_recorded_observe hexact hlow).trans ?_
    constructor
    · exact h.sees_of_observe hlo hhi hexact he hlow
    · intro hsees a b ha
      obtain ⟨w, hw, hstart, hend, hrecorded⟩ := h.observe_iff_of_sees hlo hhi hexact hsees he hlow
      rw [hrecorded, h.incident_iff_of_current hw hstart hend ha]

end Overlap

end

end GtfsStream
