import GtfsStream.Library.Program

/-!
# Programs that share their state with others

A program that is not alone on its state is described by two relations. The *rely* `R` is what the
others may do to the state before each of its calls, and the *guarantee* `G` is what every single
call of its own does, the crash in the middle of a call included. `Program.Keeps` puts them together
with a postcondition for a value and one for an error.

`Keeps` asks about every call and not about the end only, so it says what an onlooker may see at any
moment. `Keeps.rely` and `Keeps.step` are the two ways in which a run goes on: the others move, or
the program makes its next call. The rules after them are those of `Program.Ensures`.
-/

namespace GtfsStream.Program

variable {Op : Type} {Ret : Op → Type} {ε σ α β γ : Type}

/-- The predicate survives what the others do. -/
def Stable (R : σ → σ → Prop) (P : σ → Prop) : Prop := ∀ s s', R s s' → P s → P s'

/-- The others may do nothing, and several things one after the other. -/
structure Rely (R : σ → σ → Prop) : Prop where
  refl : ∀ s, R s s
  trans : ∀ s s' s'', R s s' → R s' s'' → R s s''

/-- What a postcondition for a value and one for an error say of an answer. -/
def Known (Q : α → σ → Prop) (E : ε → σ → Prop) : Except ε α → σ → Prop
  | .ok a => Q a
  | .error e => E e

/-- Started in `s` among others that do `R`, every call of the program does `G`, and the program
ends with a value and `Q`, or with an error and `E`. -/
def Keeps (M : Machine Op Ret ε σ) (R G : σ → σ → Prop) (Q : α → σ → Prop) (E : ε → σ → Prop) :
    Program Op Ret ε α → σ → Prop
  | done a, s => ∀ s', R s s' → Q a s'
  | raise e, s => ∀ s', R s s' → E e s'
  | call o k, s => ∀ s', R s s' →
      (G s' (M.apply o s').2 ∧ (k (M.apply o s').1).Keeps M R G Q E (M.apply o s').2)
      ∧ (∀ r s'', M.fault o s' r s'' → G s' s'' ∧ (k r).Keeps M R G Q E s'')
      ∧ ∀ s'', M.crash o s' s'' → G s' s''

section Keeps

variable {M : Machine Op Ret ε σ} {R G : σ → σ → Prop} {Q : α → σ → Prop} {E E' : ε → σ → Prop}
  {p : Program Op Ret ε α} {s s' : σ}

/-! ## How a run goes on -/

theorem Keeps.rely (hR : Rely R) (h : p.Keeps M R G Q E s) (hs : R s s') :
    p.Keeps M R G Q E s' := by
  cases p with
  | done a => exact fun t ht ↦ h t (hR.trans _ _ _ hs ht)
  | raise e => exact fun t ht ↦ h t (hR.trans _ _ _ hs ht)
  | call o k => exact fun t ht ↦ h t (hR.trans _ _ _ hs ht)

theorem Keeps.step {o : Op} {k : Except ε (Ret o) → Program Op Ret ε α} (hR : Rely R)
    (h : (call o k).Keeps M R G Q E s) :
    G s (M.apply o s).2 ∧ (k (M.apply o s).1).Keeps M R G Q E (M.apply o s).2 :=
  (h s (hR.refl s)).1

theorem Keeps.fault {o : Op} {k : Except ε (Ret o) → Program Op Ret ε α} {r : Except ε (Ret o)}
    (hR : Rely R) (h : (call o k).Keeps M R G Q E s) (hr : M.fault o s r s') :
    G s s' ∧ (k r).Keeps M R G Q E s' :=
  (h s (hR.refl s)).2.1 r s' hr

theorem Keeps.crash {o : Op} {k : Except ε (Ret o) → Program Op Ret ε α} (hR : Rely R)
    (h : (call o k).Keeps M R G Q E s) (hc : M.crash o s s') : G s s' :=
  (h s (hR.refl s)).2.2 s' hc

theorem Keeps.of_done {a : α} (hR : Rely R) (h : (Program.done a).Keeps M R G Q E s) : Q a s :=
  h s (hR.refl s)

theorem Keeps.of_raise {e : ε} (hR : Rely R)
    (h : (Program.raise e : Program Op Ret ε α).Keeps M R G Q E s) : E e s :=
  h s (hR.refl s)

/-! ## The rules -/

theorem Keeps.done {a : α} (hQ : Stable R (Q a)) (h : Q a s) :
    (Program.done a : Program Op Ret ε α).Keeps M R G Q E s := fun s' hs ↦ hQ s s' hs h

theorem Keeps.raise {e : ε} (hE : Stable R (E e)) (h : E e s) :
    (Program.raise e : Program Op Ret ε α).Keeps M R G Q E s := fun s' hs ↦ hE s s' hs h

theorem Keeps.mono {Q' : α → σ → Prop} (h : p.Keeps M R G Q E s)
    (hQ : ∀ a s', Q a s' → Q' a s') (hE : ∀ e s', E e s' → E' e s') :
    p.Keeps M R G Q' E' s := by
  induction p generalizing s with
  | done a => exact fun s' hs ↦ hQ a s' (h s' hs)
  | raise e => exact fun s' hs ↦ hE e s' (h s' hs)
  | call o k ih =>
    intro s' hs
    obtain ⟨⟨hG, hk⟩, hfault, hcrash⟩ := h s' hs
    exact ⟨⟨hG, ih _ hk⟩, fun r s'' hr ↦ ⟨(hfault r s'' hr).1, ih _ (hfault r s'' hr).2⟩, hcrash⟩

theorem Keeps.bind {T : β → σ → Prop} {f : α → Program Op Ret ε β} (hR : Rely R)
    (h : p.Keeps M R G Q E s) (hf : ∀ a s', Q a s' → (f a).Keeps M R G T E s') :
    (p.bind f).Keeps M R G T E s := by
  induction p generalizing s with
  | done a => exact hf a s (h.of_done hR)
  | raise e => exact h
  | call o k ih =>
    intro s' hs
    obtain ⟨⟨hG, hk⟩, hfault, hcrash⟩ := h s' hs
    exact ⟨⟨hG, ih _ hk⟩, fun r s'' hr ↦ ⟨(hfault r s'' hr).1, ih _ (hfault r s'' hr).2⟩, hcrash⟩

theorem Keeps.tryCatch {F : ε → σ → Prop} {k : ε → Program Op Ret ε α} (hR : Rely R)
    (h : p.Keeps M R G Q F s)
    (hk : ∀ e s', F e s' → (k e).Keeps M R G Q E s') : (p.tryCatch k).Keeps M R G Q E s := by
  induction p generalizing s with
  | done a => exact h
  | raise e => exact hk e s (h.of_raise hR)
  | call o k ih =>
    intro s' hs
    obtain ⟨⟨hG, hk⟩, hfault, hcrash⟩ := h s' hs
    exact ⟨⟨hG, ih _ hk⟩, fun r s'' hr ↦ ⟨(hfault r s'' hr).1, ih _ (hfault r s'' hr).2⟩, hcrash⟩

theorem Keeps.runIf {c : Prop} [Decidable c] {Q : Unit → σ → Prop} {p : Program Op Ret ε Unit}
    (hp : c → p.Keeps M R G Q E s) (hn : ¬c → (Program.done ()).Keeps M R G Q E s) :
    (Program.runIf c p).Keeps M R G Q E s := by
  rw [Program.runIf]
  split
  · exact hp ‹c›
  · exact hn ‹¬c›

/-- What neither the others nor the program's own calls change stays known throughout. -/
theorem Keeps.frame {F : σ → Prop} (hRF : Stable R F) (hGF : Stable G F) (hF : F s)
    (h : p.Keeps M R G Q E s) :
    p.Keeps M R G (fun a s ↦ Q a s ∧ F s) (fun e s ↦ E e s ∧ F s) s := by
  induction p generalizing s with
  | done a => exact fun s' hs ↦ ⟨h s' hs, hRF s s' hs hF⟩
  | raise e => exact fun s' hs ↦ ⟨h s' hs, hRF s s' hs hF⟩
  | call o k ih =>
    intro s' hs
    have hF' : F s' := hRF s s' hs hF
    obtain ⟨⟨hG, hk⟩, hfault, hcrash⟩ := h s' hs
    refine ⟨⟨hG, ih _ (hGF _ _ hG hF') hk⟩, fun r s'' hr ↦ ?_, hcrash⟩
    exact ⟨(hfault r s'' hr).1, ih _ (hGF _ _ (hfault r s'' hr).1 hF') (hfault r s'' hr).2⟩

/-- What the program's own calls do not change holds in every state that an execution leaves. -/
theorem Keeps.exec {F : σ → Prop} {out : Outcome ε α σ} (hR : Rely R) (hGF : Stable G F) (hF : F s)
    (h : p.Keeps M R G Q E s) (hx : Exec M p s out) : F out.state := by
  induction hx with
  | done a s => exact hF
  | raise e s => exact hF
  | apply _ ih =>
    obtain ⟨hG, hk⟩ := h.step hR
    exact ih (hGF _ _ hG hF) hk
  | fault hr _ ih =>
    obtain ⟨hG, hk⟩ := h.fault hR hr
    exact ih (hGF _ _ hG hF) hk
  | crash hc => exact hGF _ _ (h.crash hR hc) hF

theorem Keeps.guarantee {G' : σ → σ → Prop} (h : p.Keeps M R G Q E s)
    (hG : ∀ s s', G s s' → G' s s') : p.Keeps M R G' Q E s := by
  induction p generalizing s with
  | done a => exact h
  | raise e => exact h
  | call o k ih =>
    intro s' hs
    obtain ⟨⟨happly, hk⟩, hfault, hcrash⟩ := h s' hs
    refine ⟨⟨hG _ _ happly, ih _ hk⟩, fun r s'' hr ↦ ?_, fun s'' hc ↦ hG _ _ (hcrash s'' hc)⟩
    exact ⟨hG _ _ (hfault r s'' hr).1, ih _ (hfault r s'' hr).2⟩

/-- **The invariant rule for a loop** among others. -/
theorem Keeps.forEach {I : List γ → σ → Prop} {f : γ → Program Op Ret ε Unit} {l : List γ}
    (hR : Rely R) (hI : Stable R (I [])) (h0 : I l s)
    (hstep : ∀ x xs s, I (x :: xs) s → (f x).Keeps M R G (fun _ ↦ I xs) E s) :
    (Program.forEach f l).Keeps M R G (fun _ ↦ I []) E s := by
  induction l generalizing s with
  | nil => exact Keeps.done hI h0
  | cons x xs ih => exact (hstep x xs s h0).bind hR fun _ _ hs' ↦ ih hs'

theorem Keeps.perform {o : Op} {Q : Ret o → σ → Prop} {I : σ → Prop} (hI : Stable R I) (h : I s)
    (hQ : ∀ a, Stable R (Q a)) (hE : ∀ e, Stable R (E e))
    (happly : ∀ s, I s → G s (M.apply o s).2 ∧ Known Q E (M.apply o s).1 (M.apply o s).2)
    (hfault : ∀ s r s', I s → M.fault o s r s' → G s s' ∧ Known Q E r s')
    (hcrash : ∀ s s', I s → M.crash o s s' → G s s') :
    (Program.perform o : Program Op Ret ε (Ret o)).Keeps M R G Q E s := by
  intro s' hs
  have hs' : I s' := hI s s' hs h
  refine ⟨⟨(happly s' hs').1, ?_⟩, fun r s'' hr ↦ ⟨(hfault s' r s'' hs' hr).1, ?_⟩, fun s'' ↦
    hcrash s' s'' hs'⟩
  -- what is known of the answer carries over to the program that hands it on
  · have hknown := (happly s' hs').2
    rcases hr : (M.apply o s').1 with e | a
    · rw [hr] at hknown
      exact Keeps.raise (hE e) hknown
    · rw [hr] at hknown
      exact Keeps.done (hQ a) hknown
  · have hknown := (hfault s' r s'' hs' hr).2
    rcases r with e | a
    · exact Keeps.raise (hE e) hknown
    · exact Keeps.done (hQ a) hknown

theorem Keeps.perform_ok {o : Op} {Q : Ret o → σ → Prop} {I : σ → Prop} (hI : Stable R I) (h : I s)
    (hQ : ∀ a, Stable R (Q a)) (hfault : ∀ s r s', ¬M.fault o s r s')
    (hcrash : ∀ s s', ¬M.crash o s s')
    (happly : ∀ s, I s → ∃ a s', M.apply o s = (.ok a, s') ∧ G s s' ∧ Q a s') :
    (Program.perform o : Program Op Ret ε (Ret o)).Keeps M R G Q E s := by
  intro s' hs
  obtain ⟨a, t, heq, hG, ha⟩ := happly s' (hI s s' hs h)
  refine ⟨?_, fun r s'' hr ↦ absurd hr (hfault s' r s''), fun s'' hc ↦ absurd hc (hcrash s' s'')⟩
  rw [heq]
  exact ⟨hG, Keeps.done (hQ a) ha⟩

end Keeps

end GtfsStream.Program
