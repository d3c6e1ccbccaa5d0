import Mathlib.Logic.Basic
import Mathlib.Tactic.Common

/-!
# Programs over fallible operations

A program is a tree of operation calls: each call names an operation and says how to go on for
every answer, an error included. What the operations do is kept apart, in a `Machine`, which gives
for every operation its effect when nothing goes wrong, the ways it may fail, and the states a
crash in the middle of it may leave.

The same program is then read in two ways.

* `Program.eval` runs it with no failure and no crash. It is a function, so it can be computed.
* `Program.Exec` is the relation with every failure and every crash. Claims about it go through
  `Program.wp`, the weakest precondition of a postcondition and a *crash condition*: the first has
  to hold when the program ends, the second in every state a crash may leave.

`wp_iff` says that the two agree, and `exec_eval` that the fault-free run is one of the executions.
-/

namespace GtfsStream

/-- A program over the operations `Op`: it ends with a value, ends with an error, or calls an
operation and goes on with the answer. -/
inductive Program (Op : Type) (Ret : Op → Type) (ε α : Type) : Type
  | done (a : α) : Program Op Ret ε α
  | raise (e : ε) : Program Op Ret ε α
  | call (o : Op) (k : Except ε (Ret o) → Program Op Ret ε α) : Program Op Ret ε α

/-- What the operations do to a state of type `σ`. -/
structure Machine (Op : Type) (Ret : Op → Type) (ε σ : Type) where
  /-- The effect when nothing goes wrong. -/
  apply : (o : Op) → σ → Except ε (Ret o) × σ
  /-- The other answers the operation may give, each with the state it leaves. -/
  fault : (o : Op) → σ → Except ε (Ret o) → σ → Prop
  /-- The states a crash in the middle of the operation may leave. -/
  crash : Op → σ → σ → Prop

namespace Program

variable {Op : Type} {Ret : Op → Type} {ε σ α β γ : Type}

/-- Sequencing: an error skips the rest. -/
def bind (p : Program Op Ret ε α) (f : α → Program Op Ret ε β) : Program Op Ret ε β :=
  match p with
  | done a => f a
  | raise e => raise e
  | call o k => call o fun r ↦ (k r).bind f

instance : Monad (Program Op Ret ε) where
  pure := done
  bind := bind

/-- Run `p`, and hand an error to `h`. -/
def tryCatch (p : Program Op Ret ε α) (h : ε → Program Op Ret ε α) : Program Op Ret ε α :=
  match p with
  | done a => done a
  | raise e => h e
  | call o k => call o fun r ↦ (k r).tryCatch h

/-- Call one operation and raise its error, if it gives one. -/
def perform (o : Op) : Program Op Ret ε (Ret o) :=
  call o fun
    | .ok a => done a
    | .error e => raise e

/-- Run `p` only if `c` holds. -/
def runIf (c : Prop) [Decidable c] (p : Program Op Ret ε Unit) : Program Op Ret ε Unit :=
  if c then p else done ()

/-- Run `f` on the elements in order, stopping at the first error. -/
def forEach (f : γ → Program Op Ret ε Unit) : List γ → Program Op Ret ε Unit
  | [] => done ()
  | x :: xs => (f x).bind fun _ ↦ forEach f xs

theorem bind_eq (p : Program Op Ret ε α) (f : α → Program Op Ret ε β) : p >>= f = p.bind f := rfl

theorem bind_done (p : Program Op Ret ε α) : p.bind done = p := by
  induction p with
  | done a => rfl
  | raise e => rfl
  | call o k ih => exact congrArg (call o) (funext ih)

theorem bind_assoc (p : Program Op Ret ε α) (f : α → Program Op Ret ε β)
    (g : β → Program Op Ret ε γ) : (p.bind f).bind g = p.bind fun a ↦ (f a).bind g := by
  induction p with
  | done a => rfl
  | raise e => rfl
  | call o k ih => exact congrArg (call o) (funext ih)

/-- What is done to the value of a handled program may be done inside. -/
theorem bind_tryCatch_done (p : Program Op Ret ε α) (h : ε → Program Op Ret ε α) (f : α → β) :
    (p.tryCatch h).bind (fun a ↦ done (f a)) =
      (p.bind fun a ↦ done (f a)).tryCatch fun e ↦ (h e).bind fun a ↦ done (f a) := by
  induction p with
  | done a => rfl
  | raise e => rfl
  | call o k ih => exact congrArg (call o) (funext ih)

/-! ## The fault-free run -/

variable (M : Machine Op Ret ε σ)

/-- The run in which every operation takes its regular effect. -/
def eval (p : Program Op Ret ε α) (s : σ) : Except ε α × σ :=
  match p with
  | done a => (.ok a, s)
  | raise e => (.error e, s)
  | call o k => (k (M.apply o s).1).eval (M.apply o s).2

@[simp] theorem eval_done (a : α) (s : σ) :
    (done a : Program Op Ret ε α).eval M s = (.ok a, s) := rfl

@[simp] theorem eval_pure (a : α) (s : σ) :
    (pure a : Program Op Ret ε α).eval M s = (.ok a, s) := rfl

@[simp] theorem eval_raise (e : ε) (s : σ) :
    (raise e : Program Op Ret ε α).eval M s = (.error e, s) := rfl

@[simp] theorem eval_call (o : Op) (k : Except ε (Ret o) → Program Op Ret ε α) (s : σ) :
    (call o k).eval M s = (k (M.apply o s).1).eval M (M.apply o s).2 := rfl

@[simp] theorem eval_perform (o : Op) (s : σ) :
    (perform o : Program Op Ret ε (Ret o)).eval M s = M.apply o s := by
  rw [perform, eval_call]
  rcases h : M.apply o s with ⟨_ | _, s'⟩ <;> rfl

theorem eval_bind (p : Program Op Ret ε α) (f : α → Program Op Ret ε β) (s : σ) :
    (p.bind f).eval M s = match p.eval M s with
      | (.ok a, s') => (f a).eval M s'
      | (.error e, s') => (.error e, s') := by
  induction p generalizing s with
  | done a => rfl
  | raise e => rfl
  | call o k ih => exact ih _ _

theorem eval_bind_ok {p : Program Op Ret ε α} {s s' : σ} {a : α}
    (h : p.eval M s = (.ok a, s')) (f : α → Program Op Ret ε β) :
    (p.bind f).eval M s = (f a).eval M s' := by
  rw [eval_bind, h]

theorem eval_bind_error {p : Program Op Ret ε α} {s s' : σ} {e : ε}
    (h : p.eval M s = (.error e, s')) (f : α → Program Op Ret ε β) :
    (p.bind f).eval M s = (.error e, s') := by
  rw [eval_bind, h]

theorem eval_tryCatch (p : Program Op Ret ε α) (h : ε → Program Op Ret ε α) (s : σ) :
    (p.tryCatch h).eval M s = match p.eval M s with
      | (.ok a, s') => (.ok a, s')
      | (.error e, s') => (h e).eval M s' := by
  induction p generalizing s with
  | done a => rfl
  | raise e => rfl
  | call o k ih => exact ih _ _

/-- The fault-free run depends on the regular effects only. -/
theorem eval_eq_of_apply_eq {M M' : Machine Op Ret ε σ} (h : M.apply = M'.apply)
    (p : Program Op Ret ε α) (s : σ) : p.eval M s = p.eval M' s := by
  induction p generalizing s with
  | done a => rfl
  | raise e => rfl
  | call o k ih => rw [eval_call, eval_call, h, ih]

/-- The fault-free run leaves `I` true. -/
def Preserves (I : σ → Prop) (p : Program Op Ret ε α) : Prop := ∀ s, I s → I (p.eval M s).2

section Preserves

variable {M} {I : σ → Prop}

theorem Preserves.done {a : α} : (Program.done a : Program Op Ret ε α).Preserves M I :=
  fun _ hs ↦ hs

theorem Preserves.raise {e : ε} : (Program.raise e : Program Op Ret ε α).Preserves M I :=
  fun _ hs ↦ hs

theorem Preserves.perform {o : Op} (h : ∀ s, I s → I (M.apply o s).2) :
    (Program.perform o : Program Op Ret ε (Ret o)).Preserves M I := by
  intro s hs
  rw [eval_perform]
  exact h s hs

theorem Preserves.bind {p : Program Op Ret ε α} {f : α → Program Op Ret ε β}
    (hp : p.Preserves M I) (hf : ∀ a, (f a).Preserves M I) : (p.bind f).Preserves M I := by
  intro s hs
  have hp := hp s hs
  rcases hout : p.eval M s with ⟨e | a, s'⟩
  · rw [hout] at hp
    rwa [eval_bind_error M hout]
  · rw [hout] at hp
    rw [eval_bind_ok M hout]
    exact hf a s' hp

theorem Preserves.tryCatch {p : Program Op Ret ε α} {h : ε → Program Op Ret ε α}
    (hp : p.Preserves M I) (hh : ∀ e, (h e).Preserves M I) : (p.tryCatch h).Preserves M I := by
  intro s hs
  have hp := hp s hs
  rw [eval_tryCatch]
  rcases hout : p.eval M s with ⟨e | a, s'⟩
  · rw [hout] at hp
    exact hh e s' hp
  · rw [hout] at hp
    exact hp

end Preserves

/-- The fault-free run ends with a value that satisfies `Q`. -/
def Returns (Q : α → σ → Prop) (p : Program Op Ret ε α) (s : σ) : Prop :=
  ∃ a s', p.eval M s = (.ok a, s') ∧ Q a s'

section Returns

variable {M} {Q : α → σ → Prop} {s : σ}

theorem Returns.done {a : α} (h : Q a s) :
    (Program.done a : Program Op Ret ε α).Returns M Q s := ⟨a, s, rfl, h⟩

theorem Returns.perform {o : Op} {Q : Ret o → σ → Prop} {a : Ret o} {s' : σ}
    (h : M.apply o s = (.ok a, s')) (hQ : Q a s') :
    (Program.perform o : Program Op Ret ε (Ret o)).Returns M Q s :=
  ⟨a, s', (eval_perform M o s).trans h, hQ⟩

theorem Returns.bind {R : β → σ → Prop} {p : Program Op Ret ε α} {f : α → Program Op Ret ε β}
    (hp : p.Returns M Q s) (hf : ∀ a s', Q a s' → (f a).Returns M R s') :
    (p.bind f).Returns M R s := by
  obtain ⟨a, s', heval, hQ⟩ := hp
  obtain ⟨b, s'', heval', hR⟩ := hf a s' hQ
  exact ⟨b, s'', (eval_bind_ok M heval f).trans heval', hR⟩

theorem Returns.tryCatch {p : Program Op Ret ε α} {h : ε → Program Op Ret ε α}
    (hp : p.Returns M Q s) : (p.tryCatch h).Returns M Q s := by
  obtain ⟨a, s', heval, hQ⟩ := hp
  refine ⟨a, s', ?_, hQ⟩
  rw [eval_tryCatch, heval]

theorem Returns.runIf {c : Prop} [Decidable c] {Q : Unit → σ → Prop} {p : Program Op Ret ε Unit}
    (hp : c → p.Returns M Q s) (hnot : ¬c → Q () s) : (runIf c p).Returns M Q s := by
  rw [Program.runIf]
  split_ifs with hc
  · exact hp hc
  · exact Returns.done (hnot hc)

end Returns

/-! ## All executions -/

/-- How an execution ends. -/
inductive Outcome (ε α σ : Type)
  | finished (r : Except ε α) (s : σ)
  | crashed (s : σ)

/-- The state an execution leaves behind. -/
def Outcome.state : Outcome ε α σ → σ
  | .finished _ s => s
  | .crashed s => s

/-- `Exec M p s out`: started in `s`, the program `p` may end as `out`. -/
inductive Exec (M : Machine Op Ret ε σ) : Program Op Ret ε α → σ → Outcome ε α σ → Prop
  | done (a : α) (s : σ) : Exec M (.done a) s (.finished (.ok a) s)
  | raise (e : ε) (s : σ) : Exec M (.raise e) s (.finished (.error e) s)
  | apply {o : Op} {k : Except ε (Ret o) → Program Op Ret ε α} {s : σ} {out : Outcome ε α σ}
      (h : Exec M (k (M.apply o s).1) (M.apply o s).2 out) : Exec M (.call o k) s out
  | fault {o : Op} {k : Except ε (Ret o) → Program Op Ret ε α} {s s' : σ} {out : Outcome ε α σ}
      {r : Except ε (Ret o)} (hr : M.fault o s r s') (h : Exec M (k r) s' out) :
      Exec M (.call o k) s out
  | crash {o : Op} {k : Except ε (Ret o) → Program Op Ret ε α} {s s' : σ}
      (h : M.crash o s s') : Exec M (.call o k) s (.crashed s')

theorem exec_eval (p : Program Op Ret ε α) (s : σ) :
    Exec M p s (.finished (p.eval M s).1 (p.eval M s).2) := by
  induction p generalizing s with
  | done a => exact .done a s
  | raise e => exact .raise e s
  | call o k ih => exact .apply (ih _ _)

/-- The state before the call that follows the first `n`, if the regular run gets that far. -/
def evalCalls (n : ℕ) (p : Program Op Ret ε α) (s : σ) : Option σ :=
  match n, p with
  | 0, call _ _ => some s
  | n + 1, call o k => evalCalls n (k (M.apply o s).1) (M.apply o s).2
  | _, _ => none

theorem exec_crash_of_evalCalls (hc : ∀ o s, M.crash o s s) {n : ℕ} {p : Program Op Ret ε α}
    {s s' : σ} (h : evalCalls M n p s = some s') : Exec M p s (.crashed s') := by
  induction n generalizing p s with
  | zero =>
    cases p with
    | call o k =>
      obtain rfl : s = s' := Option.some.inj h
      exact .crash (hc o s)
    | done a => cases h
    | raise e => cases h
  | succ n ih =>
    cases p with
    | call o k => exact .apply (ih h)
    | done a => cases h
    | raise e => cases h

/-! ## Weakest preconditions -/

/-- The weakest precondition of the postcondition `Q` and the crash condition `C`. -/
def wp (Q : Except ε α → σ → Prop) (C : σ → Prop) (p : Program Op Ret ε α) (s : σ) : Prop :=
  match p with
  | done a => Q (.ok a) s
  | raise e => Q (.error e) s
  | call o k => (k (M.apply o s).1).wp Q C (M.apply o s).2
      ∧ (∀ r s', M.fault o s r s' → (k r).wp Q C s')
      ∧ ∀ s', M.crash o s s' → C s'

/-- What `wp` asks of an outcome. -/
def Outcome.Meets (Q : Except ε α → σ → Prop) (C : σ → Prop) : Outcome ε α σ → Prop
  | .finished r s => Q r s
  | .crashed s => C s

variable {M}

/-- **Soundness and completeness of `wp`** for the executions. -/
theorem wp_iff {Q : Except ε α → σ → Prop} {C : σ → Prop} {p : Program Op Ret ε α} {s : σ} :
    p.wp M Q C s ↔ ∀ out, Exec M p s out → out.Meets Q C := by
  constructor
  · intro h out hx
    induction hx with
    | done a s => exact h
    | raise e s => exact h
    | apply _ ih => exact ih h.1
    | fault hr _ ih => exact ih (h.2.1 _ _ hr)
    | crash hc => exact h.2.2 _ hc
  · intro h
    induction p generalizing s with
    | done a => exact h _ (.done a s)
    | raise e => exact h _ (.raise e s)
    | call o k ih =>
      refine ⟨ih _ fun out hx ↦ h out (.apply hx), ?_, ?_⟩
      · intro r s' hr
        exact ih _ fun out hx ↦ h out (.fault hr hx)
      · intro s' hc
        exact h _ (.crash hc)

theorem wp_mono {Q Q' : Except ε α → σ → Prop} {C C' : σ → Prop} {p : Program Op Ret ε α} {s : σ}
    (h : p.wp M Q C s) (hQ : ∀ r s, Q r s → Q' r s) (hC : ∀ s, C s → C' s) : p.wp M Q' C' s := by
  induction p generalizing s with
  | done a => exact hQ _ _ h
  | raise e => exact hQ _ _ h
  | call o k ih =>
    exact ⟨ih _ h.1, fun r s' hr ↦ ih _ (h.2.1 r s' hr), fun s' hc ↦ hC _ (h.2.2 s' hc)⟩

theorem wp_bind {Q : Except ε β → σ → Prop} {C : σ → Prop} {p : Program Op Ret ε α}
    {f : α → Program Op Ret ε β} {s : σ} :
    (p.bind f).wp M Q C s ↔ p.wp M (fun r s' ↦ match r with
      | .ok a => (f a).wp M Q C s'
      | .error e => Q (.error e) s') C s := by
  induction p generalizing s with
  | done a => exact Iff.rfl
  | raise e => exact Iff.rfl
  | call o k ih =>
    exact and_congr (ih _)
      (and_congr (forall_congr' fun r ↦ forall_congr' fun s' ↦ imp_congr_right fun _ ↦ ih _)
        Iff.rfl)

theorem wp_tryCatch {Q : Except ε α → σ → Prop} {C : σ → Prop} {p : Program Op Ret ε α}
    {h : ε → Program Op Ret ε α} {s : σ} :
    (p.tryCatch h).wp M Q C s ↔ p.wp M (fun r s' ↦ match r with
      | .ok a => Q (.ok a) s'
      | .error e => (h e).wp M Q C s') C s := by
  induction p generalizing s with
  | done a => exact Iff.rfl
  | raise e => exact Iff.rfl
  | call o k ih =>
    exact and_congr (ih _)
      (and_congr (forall_congr' fun r ↦ forall_congr' fun s' ↦ imp_congr_right fun _ ↦ ih _)
        Iff.rfl)

theorem wp_perform {o : Op} {Q : Except ε (Ret o) → σ → Prop} {C : σ → Prop} {s : σ} :
    (perform o : Program Op Ret ε (Ret o)).wp M Q C s ↔
      Q (M.apply o s).1 (M.apply o s).2 ∧ (∀ r s', M.fault o s r s' → Q r s')
        ∧ ∀ s', M.crash o s s' → C s' := by
  have key : ∀ (r : Except ε (Ret o)) (s' : σ),
      ((match r with | .ok a => done a | .error e => raise e : Program Op Ret ε (Ret o)).wp M Q C s'
        ↔ Q r s') := by
    rintro (_ | _) s' <;> exact Iff.rfl
  exact and_congr (key _ _) (and_congr
    (forall_congr' fun r ↦ forall_congr' fun s' ↦ imp_congr_right fun _ ↦ key r s') Iff.rfl)

/-- The fault-free run meets what every execution meets. -/
theorem eval_of_wp {Q : Except ε α → σ → Prop} {C : σ → Prop} {p : Program Op Ret ε α} {s : σ}
    (h : p.wp M Q C s) : Q (p.eval M s).1 (p.eval M s).2 :=
  wp_iff.mp h _ (exec_eval M p s)

/-! ## Triples

The postcondition split by how the program ends. The rules below are the ones a proof about a
program written with `do` applies from the top down. -/

/-- Started in `s`, the program ends with a value and `Q`, or with an error and `E`, and a crash
leaves `C`. -/
def Ensures (M : Machine Op Ret ε σ) (Q : α → σ → Prop) (E : ε → σ → Prop) (C : σ → Prop)
    (p : Program Op Ret ε α) (s : σ) : Prop :=
  p.wp M (fun r s' ↦ match r with
    | .ok a => Q a s'
    | .error e => E e s') C s

section Ensures

variable {Q : α → σ → Prop} {E E' : ε → σ → Prop} {C : σ → Prop} {s : σ}

theorem Ensures.done {a : α} (h : Q a s) :
    (Program.done a : Program Op Ret ε α).Ensures M Q E C s := h

theorem Ensures.raise {e : ε} (h : E e s) :
    (Program.raise e : Program Op Ret ε α).Ensures M Q E C s := h

theorem Ensures.mono {Q' : α → σ → Prop} {p : Program Op Ret ε α} (h : p.Ensures M Q E C s)
    (hQ : ∀ a s', Q a s' → Q' a s') : p.Ensures M Q' E C s := by
  refine wp_mono h ?_ fun _ hc ↦ hc
  rintro (e | a) s' hs'
  · exact hs'
  · exact hQ a s' hs'

theorem Ensures.weaken {Q' : α → σ → Prop} {C' : σ → Prop} {p : Program Op Ret ε α}
    (h : p.Ensures M Q E C s) (hQ : ∀ a s', Q a s' → Q' a s') (hE : ∀ e s', E e s' → E' e s')
    (hC : ∀ s', C s' → C' s') : p.Ensures M Q' E' C' s := by
  refine wp_mono h ?_ hC
  rintro (e | a) s' hs'
  · exact hE e s' hs'
  · exact hQ a s' hs'

theorem Ensures.bind {R : β → σ → Prop} {p : Program Op Ret ε α} {f : α → Program Op Ret ε β}
    (h : p.Ensures M Q E C s) (hf : ∀ a s', Q a s' → (f a).Ensures M R E C s') :
    (p.bind f).Ensures M R E C s := by
  rw [Ensures, wp_bind]
  refine wp_mono h ?_ fun _ hc ↦ hc
  rintro (e | a) s' hs'
  · exact hs'
  · exact hf a s' hs'

theorem Ensures.tryCatch {F : ε → σ → Prop} {p : Program Op Ret ε α} {k : ε → Program Op Ret ε α}
    (h : p.Ensures M Q F C s) (hk : ∀ e s', F e s' → (k e).Ensures M Q E C s') :
    (p.tryCatch k).Ensures M Q E C s := by
  rw [Ensures, wp_tryCatch]
  refine wp_mono h ?_ fun _ hc ↦ hc
  rintro (e | a) s' hs'
  · exact hk e s' hs'
  · exact hs'

theorem Ensures.runIf {c : Prop} [Decidable c] {Q : Unit → σ → Prop} {p : Program Op Ret ε Unit}
    (hp : c → p.Ensures M Q E C s) (hn : ¬c → Q () s) : (runIf c p).Ensures M Q E C s := by
  rw [Program.runIf]
  split
  · exact hp ‹c›
  · exact hn ‹¬c›

/-- **The invariant rule for a loop.** An invariant of the body, with its errors and its crashes
accounted for, holds when the loop ends. -/
theorem Ensures.forEach {I : List γ → σ → Prop} {f : γ → Program Op Ret ε Unit} {l : List γ}
    (h0 : I l s) (hstep : ∀ x xs s, I (x :: xs) s → (f x).Ensures M (fun _ ↦ I xs) E C s) :
    (forEach f l).Ensures M (fun _ ↦ I []) E C s := by
  induction l generalizing s with
  | nil => exact h0
  | cons x xs ih => exact (hstep x xs s h0).bind fun _ _ hs' ↦ ih hs'

/-- What holds however the program ends holds of every state that an execution leaves. -/
theorem Ensures.state {I : σ → Prop} {p : Program Op Ret ε α}
    (h : p.Ensures M (fun _ ↦ I) (fun _ ↦ I) I s) {out : Outcome ε α σ} (hout : Exec M p s out) :
    I out.state := by
  have hmeets := wp_iff.mp h out hout
  cases out with
  | crashed s' => exact hmeets
  | finished result s' => cases result <;> exact hmeets

theorem Ensures.eval {p : Program Op Ret ε α} (h : p.Ensures M Q E C s) :
    match p.eval M s with
      | (.ok a, s') => Q a s'
      | (.error e, s') => E e s' := by
  have hx := eval_of_wp h
  rcases hp : p.eval M s with ⟨e | a, s'⟩
  · rw [hp] at hx
    exact hx
  · rw [hp] at hx
    exact hx

end Ensures

end Program

end GtfsStream
