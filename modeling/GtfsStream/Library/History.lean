import Mathlib.Data.List.Basic

/-!
# Histories

A history is a list of events, the latest at its end. `AtEach P` says of every event that `P` held
of it and of the events before it, which is how a property of the moment of an event is stated of
the whole history.
-/

namespace GtfsStream.History

variable {ε : Type*} {P Q : List ε → ε → Prop} {log : List ε} {e : ε}

/-- `P` holds at every event, given the events before it. -/
def AtEach (P : List ε → ε → Prop) (log : List ε) : Prop :=
  ∀ before e after, log = before ++ e :: after → P before e

theorem atEach_nil : AtEach P [] := fun before e after h ↦
  absurd h.symm (List.append_ne_nil_of_right_ne_nil before (List.cons_ne_nil e after))

theorem atEach_concat : AtEach P (log ++ [e]) ↔ AtEach P log ∧ P log e := by
  constructor
  · intro h
    refine ⟨fun before d after hlog ↦ h before d (after ++ [e]) ?_, h log e [] rfl⟩
    rw [hlog, List.append_assoc, List.cons_append]
  · rintro ⟨hlog, he⟩ before d after heq
    rcases List.eq_nil_or_concat' after with rfl | ⟨init, last, rfl⟩
    · obtain ⟨rfl, hde⟩ := List.append_inj' heq rfl
      rwa [← (List.cons.inj hde).1]
    · rw [← List.cons_append, ← List.append_assoc] at heq
      exact hlog before d init (List.append_inj' heq rfl).1

theorem AtEach.of_concat (h : AtEach P (log ++ [e])) : AtEach P log := (atEach_concat.mp h).1

theorem AtEach.of_append {rest : List ε} (h : AtEach P (log ++ rest)) : AtEach P log := by
  intro before e after hlog
  refine h before e (after ++ rest) ?_
  rw [hlog, List.append_assoc, List.cons_append]

/-- `P` held at some event. -/
def AtSome (P : List ε → ε → Prop) (log : List ε) : Prop :=
  ∃ before e after, log = before ++ e :: after ∧ P before e

theorem not_atSome_nil : ¬AtSome P [] := by
  rintro ⟨before, e, after, h, -⟩
  exact absurd h.symm (List.append_ne_nil_of_right_ne_nil before (List.cons_ne_nil e after))

theorem not_atSome_iff : ¬AtSome P log ↔ AtEach (fun before e ↦ ¬P before e) log := by
  constructor
  · intro h before e after hlog hP
    exact h ⟨before, e, after, hlog, hP⟩
  · rintro h ⟨before, e, after, hlog, hP⟩
    exact h before e after hlog hP

theorem atSome_concat : AtSome P (log ++ [e]) ↔ AtSome P log ∨ P log e := by
  rw [← not_iff_not, not_atSome_iff, atEach_concat, not_or, not_atSome_iff]

end GtfsStream.History
