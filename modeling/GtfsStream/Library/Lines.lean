import Mathlib.Data.List.Basic
import Mathlib.Tactic.Common

/-!
# Separator-framed records

A log file is a list of symbols in which every record is followed by a separator. Reading it back
gives the *complete* records, those that end in a separator, and a *partial line*: what follows the
last separator. A log that was cut in the middle of a write ends in a nonempty partial line, and
whatever is appended next is glued to it. `lines_append` and `partialLine_append` say this exactly:
nothing of the first part changes, except that its partial line becomes the beginning of the first
record of the second.
-/

namespace GtfsStream

variable {α : Type} {sep : α}

/-! ## Writing -/

/-- The log that holds the records `vs`. -/
def frames (sep : α) (vs : List (List α)) : List α := vs.flatMap fun v ↦ v ++ [sep]

@[simp] theorem frames_nil : frames sep [] = [] := rfl

@[simp] theorem frames_cons (v : List α) (vs : List (List α)) :
    frames sep (v :: vs) = v ++ [sep] ++ frames sep vs := rfl

@[simp] theorem frames_append (vs ws : List (List α)) :
    frames sep (vs ++ ws) = frames sep vs ++ frames sep ws := List.flatMap_append

/-! ## Reading back -/

variable [DecidableEq α]

/-- The complete records of a log and the symbols after its last separator. -/
def splitLines (sep : α) : List α → List (List α) × List α
  | [] => ([], [])
  | c :: cs =>
    if c = sep then ([] :: (splitLines sep cs).1, (splitLines sep cs).2)
    else match splitLines sep cs with
      | ([], t) => ([], c :: t)
      | (l :: ls, t) => ((c :: l) :: ls, t)

/-- The complete records of a log. -/
def lines (sep : α) (s : List α) : List (List α) := (splitLines sep s).1

/-- The symbols after the last separator. -/
def partialLine (sep : α) (s : List α) : List α := (splitLines sep s).2

@[simp] theorem lines_nil : lines sep ([] : List α) = [] := rfl

@[simp] theorem partialLine_nil : partialLine sep ([] : List α) = [] := rfl

@[simp] theorem lines_sep_cons (s : List α) : lines sep (sep :: s) = [] :: lines sep s := by
  rw [lines, splitLines, if_pos rfl, lines]

@[simp] theorem partialLine_sep_cons (s : List α) :
    partialLine sep (sep :: s) = partialLine sep s := by
  rw [partialLine, splitLines, if_pos rfl, partialLine]

theorem lines_cons_of_ne {c : α} (h : c ≠ sep) (s : List α) :
    lines sep (c :: s) = match lines sep s with
      | [] => []
      | l :: ls => (c :: l) :: ls := by
  rw [lines, lines, splitLines, if_neg h]
  rcases splitLines sep s with ⟨_ | ⟨l, ls⟩, t⟩ <;> rfl

theorem partialLine_cons_of_ne {c : α} (h : c ≠ sep) (s : List α) :
    partialLine sep (c :: s) =
      if lines sep s = [] then c :: partialLine sep s else partialLine sep s := by
  rw [partialLine, partialLine, lines, splitLines, if_neg h]
  rcases splitLines sep s with ⟨_ | ⟨l, ls⟩, t⟩ <;> simp

/-- Appending to a log: its partial line is glued to the first record that follows. -/
theorem lines_append (s t : List α) :
    lines sep (s ++ t) = match lines sep t with
      | [] => lines sep s
      | l :: ls => lines sep s ++ (partialLine sep s ++ l) :: ls := by
  induction s with
  | nil => rcases h : lines sep t with _ | ⟨l, ls⟩ <;> simp [h]
  | cons c s ih =>
    by_cases hc : c = sep
    · subst hc
      rw [List.cons_append, lines_sep_cons, ih]
      rcases lines c t with _ | ⟨l, ls⟩ <;> simp
    · rw [List.cons_append, lines_cons_of_ne hc, ih, lines_cons_of_ne hc, partialLine_cons_of_ne hc]
      rcases lines sep t with _ | ⟨l, ls⟩
      · rfl
      · rcases lines sep s with _ | ⟨k, ks⟩ <;> simp

theorem partialLine_append (s t : List α) :
    partialLine sep (s ++ t) =
      if lines sep t = [] then partialLine sep s ++ partialLine sep t else partialLine sep t := by
  induction s with
  | nil => simp
  | cons c s ih =>
    by_cases hc : c = sep
    · subst hc
      rw [List.cons_append, partialLine_sep_cons, ih, partialLine_sep_cons]
    · rw [List.cons_append, partialLine_cons_of_ne hc, ih, partialLine_cons_of_ne hc, lines_append]
      by_cases ht : lines sep t = []
      · simp only [ht, if_true]
        split <;> simp
      · obtain ⟨l, ls, hl⟩ := List.exists_cons_of_ne_nil ht
        simp [hl]

theorem lines_of_notMem {v : List α} (h : sep ∉ v) : lines sep v = [] := by
  induction v with
  | nil => rfl
  | cons c v ih =>
    rw [List.mem_cons, not_or] at h
    rw [lines_cons_of_ne (Ne.symm h.1), ih h.2]

theorem partialLine_of_notMem {v : List α} (h : sep ∉ v) : partialLine sep v = v := by
  induction v with
  | nil => rfl
  | cons c v ih =>
    rw [List.mem_cons, not_or] at h
    rw [partialLine_cons_of_ne (Ne.symm h.1), lines_of_notMem h.2, if_pos rfl, ih h.2]

theorem lines_frame {v : List α} (h : sep ∉ v) : lines sep (v ++ [sep]) = [v] := by
  rw [lines_append, lines_sep_cons, lines_nil, lines_of_notMem h, partialLine_of_notMem h]
  simp

theorem partialLine_frame (v : List α) : partialLine sep (v ++ [sep]) = [] := by
  rw [partialLine_append, lines_sep_cons, if_neg (List.cons_ne_nil _ _), partialLine_sep_cons,
    partialLine_nil]

/-- Writing one framed record: the partial line of the log is glued to it. -/
theorem lines_append_frame {v : List α} (h : sep ∉ v) (s : List α) :
    lines sep (s ++ (v ++ [sep])) = lines sep s ++ [partialLine sep s ++ v] := by
  rw [lines_append, lines_frame h]

theorem partialLine_append_frame (s v : List α) : partialLine sep (s ++ (v ++ [sep])) = [] := by
  rw [← List.append_assoc, partialLine_frame]

end GtfsStream
