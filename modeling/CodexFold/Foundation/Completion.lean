import CodexFold.Foundation.Faults

/- Programs that finish unless a fault stops them.

   `Completes P x Q E C` is `Spec P x Q E C` together with the run without a fault: from
   a state with `P` it returns. The two halves have the same rules, so that a function is
   walked through once for both. A check must hold here, where a `Spec` may let it fail.

   `Concludes x s Q E` is about the run without a fault alone, and both its ends: it
   returns with `Q` or fails with `E`. -/
namespace CodexFold.Foundation
open List

section
variable {σ ε α β : Type}

/-- Whatever the schedule, `x` meets its specification, and without a fault it returns. -/
structure Completes (P : σ → Prop) (x : Prog σ ε α) (Q : α → σ → Prop) (E : ε → σ → Prop) (C : σ → Prop) :
    Prop where
  spec : Spec P x Q E C
  returns : ∀ s, P s → Returns x s

/-- The same with one statement about every way to stop early. -/
abbrev CompletesOr (P : σ → Prop) (x : Prog σ ε α) (Q : α → σ → Prop) (I : σ → Prop) : Prop :=
  Completes P x Q (fun _ => I) I

namespace Completes
variable {P P' : σ → Prop} {Q : α → σ → Prop} {E : ε → σ → Prop} {C : σ → Prop}
variable {x : Prog σ ε α}

theorem pre (h : Completes P x Q E C) (hp : ∀ s, P' s → P s) : Completes P' x Q E C where
  spec := h.spec.pre hp
  returns s hs := h.returns s (hp s hs)

theorem post {Q' : α → σ → Prop} {E' : ε → σ → Prop} {C' : σ → Prop}
    (h : Completes P x Q E C) (hq : ∀ a s, Q a s → Q' a s) (he : ∀ e s, E e s → E' e s)
    (hc : ∀ s, C s → C' s) : Completes P x Q' E' C' where
  spec := h.spec.post hq he hc
  returns := h.returns

theorem weaken {Q' : α → σ → Prop} (h : Completes P x Q E C) (hq : ∀ a s, Q a s → Q' a s) : Completes P x Q' E C :=
  h.post hq (fun _ _ he => he) fun _ hc => hc

theorem given {p : Prop} (h : p → Completes P x Q E C) : Completes (fun s => P s ∧ p) x Q E C where
  spec := Spec.given fun hp => (h hp).spec
  returns s hs := (h hs.2).returns s hs.1

theorem at' (h : ∀ s, P s → Completes (· = s) x Q E C) : Completes P x Q E C where
  spec fs s hs := (h s hs).spec fs s rfl
  returns s hs := (h s hs).returns s rfl

theorem pure' (a : α) (h : ∀ s, P s → Q a s) : Completes P (Pure.pure a : Prog σ ε α) Q E C where
  spec := Spec.pure' a h
  returns s _ := .of_runs (.pure' a s)

theorem modify' {Q : Unit → σ → Prop} (f : σ → σ) (h : ∀ s, P s → Q () (f s)) :
    Completes P (modify f : Prog σ ε Unit) Q E C where
  spec := Spec.modify' f h
  returns s _ := ⟨(), f s, rfl⟩

theorem effect' {Q : Unit → σ → Prop} (e : ε) (f : σ → σ) (hq : ∀ s, P s → Q () (f s))
    (he : ∀ s, P s → E e s) (hc : ∀ s, P s → C s) : Completes P (effect e f) Q E C where
  spec := Spec.effect' e f hq he hc
  returns s _ := .of_runs (.effect' e f s)

theorem bind' {f : α → Prog σ ε β} {M : α → σ → Prop} {Q : β → σ → Prop}
    (hx : Completes P x M E C) (hf : ∀ a, Completes (M a) (f a) Q E C) : Completes P (x >>= f) Q E C where
  spec := Spec.bind' hx.spec fun a => (hf a).spec
  returns s hs := Returns.bind' (hx.returns s hs) hx.spec hs fun a s' hm => (hf a).returns s' hm

theorem readAt {s : σ} {f : σ → α} {k : α → Prog σ ε β} {Q : β → σ → Prop}
    (h : Completes (· = s) (k (f s)) Q E C) : Completes (· = s) (read f >>= k) Q E C where
  spec := Spec.readAt h.spec
  returns t ht := by
    subst ht
    exact .step (.read' f t) (h.returns t rfl)

variable {f : Unit → Prog σ ε β}

theorem point' {e : ε} {Q : β → σ → Prop} (he : ∀ s, P s → E e s) (hc : ∀ s, P s → C s) (h : Completes P (f ()) Q E C) :
    Completes P (point e >>= f) Q E C :=
  bind' (effect' e id (fun _ hs => hs) he hc) fun _ => h

theorem effectAt {s : σ} {e : ε} {g : σ → σ} {Q : β → σ → Prop} (he : E e s) (hc : C s)
    (h : Completes (· = g s) (f ()) Q E C) : Completes (· = s) (effect e g >>= f) Q E C := by
  refine bind' (effect' e g ?_ ?_ ?_) fun _ => h
  · intro t ht
    rw [ht]
  · intro t ht
    rwa [ht]
  · intro t ht
    rwa [ht]

theorem replace {M I : σ → Prop} {e₁ e₂ e₃ : ε} {g : σ → σ} (h : ∀ s, P s → M (g s)) (hp : ∀ s, P s → I s)
    (hm : ∀ s, M s → I s) :
    Completes P (do point e₁; effect e₂ g; point e₃) (fun _ => M) (fun _ => I) I := by
  refine point' hp hp (bind' (M := fun _ => M) (effect' e₂ g h hp hp) fun _ => ?_)
  exact effect' e₃ id (fun _ hs => hs) hm hm

theorem congr {s : σ} {y : Prog σ ε α} (h : ∀ fs, x fs s = y fs s) (hy : Completes (· = s) y Q E C) :
    Completes (· = s) x Q E C where
  spec fs t ht := by
    subst ht
    rw [h]
    exact hy.spec fs t rfl
  returns t ht := by
    subst ht
    obtain ⟨a, s', hr⟩ := hy.returns t rfl
    exact ⟨a, s', (h []).trans hr⟩

theorem ensure' {c : Bool} {e : ε} {Q : β → σ → Prop} (hc : c) (h : Completes P (f ()) Q E C) :
    Completes P (ensure c e >>= f) Q E C := by
  rw [hc]
  exact bind' (pure' () fun _ hs => hs) fun _ => h

theorem checked {r : Except ε α} {a : α} {k : α → Prog σ ε β} {Q : β → σ → Prop} (hr : r = .ok a)
    (h : Completes P (k a) Q E C) : Completes P (ofExcept r >>= k) Q E C := by
  rw [hr]
  exact bind' (pure' a fun _ hs => ⟨hs, rfl⟩) fun b => given fun hb => hb ▸ h

theorem ite' {c : Prop} [Decidable c] {y : Prog σ ε α} (hx : c → Completes P x Q E C)
    (hy : ¬c → Completes P y Q E C) : Completes P (if c then x else y) Q E C := by
  by_cases h : c
  · simp only [h, if_true]; exact hx h
  · simp only [h, if_false]; exact hy h

theorem attempt' {f : Except ε α → Prog σ ε β} {M : α → σ → Prop} {F : ε → σ → Prop}
    {Q : β → σ → Prop} (hx : Completes P x M F C) (hok : ∀ a, Completes (M a) (f (.ok a)) Q E C)
    (herr : ∀ e, Spec (F e) (f (.error e)) Q E C) : Completes P (attempt x >>= f) Q E C where
  spec := .attempted hx.spec (fun a => (hok a).spec) herr
  returns s hs := by
    obtain ⟨a, s', hr⟩ := hx.returns s hs
    have hpost := hx.spec [] s hs
    rw [hr.eq] at hpost
    exact .step (.attempt' hr) ((hok a).returns s' hpost)

theorem onFailure' {cleanup : Prog σ ε Unit} {F : ε → σ → Prop} (hx : Completes P x Q F C)
    (he : ∀ e, Spec (F e) cleanup (fun _ => E e) (fun _ => E e) C) : Completes P (onFailure cleanup x) Q E C where
  spec := Spec.onFailure' hx.spec he
  returns s hs := by
    obtain ⟨a, s', hr⟩ := hx.returns s hs
    exact .of_runs (.onFailure' hr)

theorem deferring' {cleanup : Prog σ ε Unit} (hx : Completes P x Q E C)
    (hq : ∀ a, Completes (Q a) cleanup (fun _ => Q a) (fun _ => Q a) C)
    (he : ∀ e, Spec (E e) cleanup (fun _ => E e) (fun _ => E e) C) : Completes P (deferring cleanup x) Q E C where
  spec := Spec.deferring' hx.spec (fun a => (hq a).spec) he
  returns s hs := by
    obtain ⟨a, s', hr⟩ := hx.returns s hs
    have hpost := hx.spec [] s hs
    rw [hr.eq] at hpost
    obtain ⟨u, s'', hr'⟩ := (hq a).returns s' hpost
    exact .of_runs (.deferring' hr hr')

theorem forEach' {f : β → Prog σ ε Unit} {I : List β → σ → Prop}
    (hf : ∀ b rest, Completes (I (b :: rest)) (f b) (fun _ => I rest) E C) :
    ∀ l : List β, Completes (I l) (forEach f l) (fun _ => I []) E C
  | [] => pure' () fun _ hs => hs
  | b :: rest => bind' (hf b rest) fun _ => forEach' hf rest

theorem foldEach' {f : α → β → Prog σ ε α} {I : List β → α → σ → Prop} : ∀ {l done : List β} {a : α},
    (∀ b ∈ l, ∀ done a, Completes (I done a) (f a b) (fun a' => I (done ++ [b]) a') E C) →
    Completes (I done a) (foldEach f a l) (fun a' => I (done ++ l) a') E C
  | [], done, a, _ => pure' a fun s hs => by rwa [append_nil]
  | b :: rest, done, a, hf => by
    refine bind' (hf b (.head _) done a) fun a' => ?_
    have hrest : Completes (I (done ++ [b]) a') (foldEach f a' rest)
        (fun a'' => I ((done ++ [b]) ++ rest) a'') E C :=
      foldEach' fun c hc => hf c (.tail _ hc)
    rwa [append_assoc, singleton_append] at hrest

end Completes

/-! ## The run without a fault, with its errors -/

/-- Without any fault, `x` returns with `Q` or fails with `E`. -/
def Concludes (x : Prog σ ε α) (s : σ) (Q : α → σ → Prop) (E : ε → σ → Prop) : Prop :=
  (∃ a s', Runs x s a s' ∧ Q a s') ∨ ∃ e s', x [] s = (.failed e, s', []) ∧ E e s'

namespace Concludes
variable {s : σ} {Q : β → σ → Prop} {E : ε → σ → Prop}
variable {x : Prog σ ε β} {f : α → Prog σ ε β}

variable {s' : σ} {b : β}

theorem of_runs (hx : Runs x s b s') (hq : Q b s') : Concludes x s Q E :=
  .inl ⟨b, s', hx, hq⟩

theorem pure' (h : Q b s) : Concludes (Pure.pure b : Prog σ ε β) s Q E := of_runs (.pure' b s) h

variable {e : ε}

theorem throw' (h : E e s) : Concludes (throw e : Prog σ ε β) s Q E := .inr ⟨e, s, rfl, h⟩

theorem bind' {x : Prog σ ε α} {M : α → σ → Prop} {F : ε → σ → Prop} (hx : Concludes x s M F)
    (hf : ∀ a s', M a s' → Concludes (f a) s' Q E) (he : ∀ e s', F e s' → E e s') : Concludes (x >>= f) s Q E := by
  rcases hx with ⟨a, s', hr, hm⟩ | ⟨e, s', hr, h⟩
  · unfold Runs at hr
    rcases hf a s' hm with ⟨b, s'', hr', hq⟩ | ⟨e, s'', hr', h⟩
    · exact .inl ⟨b, s'', .bind' hr hr', hq⟩
    · exact .inr ⟨e, s'', by rw [Prog.bind_apply, hr]; exact hr', h⟩
  · exact .inr ⟨e, s', by rw [Prog.bind_apply, hr], he e s' h⟩

theorem after {x : Prog σ ε α} {a : α} (hx : Runs x s a s') (hf : Concludes (f a) s' Q E) :
    Concludes (x >>= f) s Q E := by
  refine bind' (M := fun b t => b = a ∧ t = s') (F := fun _ _ => False) (of_runs hx ⟨rfl, rfl⟩) ?_ nofun
  rintro _ _ ⟨rfl, rfl⟩
  exact hf

theorem read' {g : σ → α} (h : Concludes (f (g s)) s Q E) : Concludes (read g >>= f) s Q E :=
  after (.read' g s) h

variable {f : Unit → Prog σ ε β}

theorem effect' {g : σ → σ} (h : Concludes (f ()) (g s) Q E) : Concludes (effect e g >>= f) s Q E :=
  after (.effect' e g s) h

theorem modify' {g : σ → σ} (h : Concludes (f ()) (g s) Q E) : Concludes (modify g >>= f) s Q E :=
  after (show Runs (modify g) s () (g s) from rfl) h

theorem point' (h : Concludes (f ()) s Q E) : Concludes (point e >>= f) s Q E :=
  after (.point' e s) h

theorem ensure' {c : Bool} (ht : c → Concludes (f ()) s Q E) (hf : c = false → E e s) :
    Concludes (ensure c e >>= f) s Q E := by
  cases c with
  | true => exact after (.ensure' e s rfl) (ht rfl)
  | false => exact .inr ⟨e, s, rfl, hf rfl⟩

theorem attempt' {x : Prog σ ε α} {f : Except ε α → Prog σ ε β}
    (h : Concludes x s (fun a t => Concludes (f (.ok a)) t Q E) fun e t => Concludes (f (.error e)) t Q E) :
    Concludes (attempt x >>= f) s Q E := by
  rcases h with ⟨a, s', hr, h⟩ | ⟨e, s', hr, h⟩
  · exact after (.attempt' hr) h
  · have hattempt : Runs (attempt x) s (.error e) s' := by
      unfold Runs attempt
      rw [hr]
    exact after hattempt h

theorem onPart' {τ : Type} {get : τ → σ} {put : τ → σ → τ} {t : τ} {Q' : β → τ → Prop}
    {E' : ε → τ → Prop} (h : Concludes x (get t) (fun b u => Q' b (put t u)) fun e u => E' e (put t u)) :
    Concludes (onPart get put x) t Q' E' := by
  rcases h with ⟨b, s', hr, h⟩ | ⟨e, s', hr, h⟩
  · exact of_runs (.onPart' hr) h
  · refine .inr ⟨e, put t s', ?_, h⟩
    unfold onPart
    rw [hr]

theorem mono {Q' : β → σ → Prop} {E' : ε → σ → Prop} (h : Concludes x s Q E)
    (hq : ∀ b t, Q b t → Q' b t) (he : ∀ e t, E e t → E' e t) : Concludes x s Q' E' := by
  rcases h with ⟨b, s', hr, h⟩ | ⟨e, s', hr, h⟩
  · exact .inl ⟨b, s', hr, hq b s' h⟩
  · exact .inr ⟨e, s', hr, he e s' h⟩

theorem onFailure' {cleanup : Prog σ ε Unit}
    (h : Concludes x s Q fun e t => Concludes cleanup t (fun _ => E e) fun _ => E e) :
    Concludes (onFailure cleanup x) s Q E := by
  refine attempt' (h.mono (fun b t hq => pure' hq) fun e t hcleanup => ?_)
  exact attempt' (hcleanup.mono (fun _ _ he => throw' he) fun _ _ he => throw' he)

theorem returned {rest : List Fault} (h : Concludes x s Q E) (hr : x [] s = (.done b, s', rest)) : Q b s' := by
  rcases h with ⟨c, t, hr', h⟩ | ⟨e, t, hr', h⟩
  · rw [hr'.eq] at hr
    cases hr
    exact h
  · rw [hr'] at hr
    cases hr

end Concludes

/-- Without any fault, `x` either returns with `Q` or fails with `E`. -/
def Ends (x : Prog σ ε α) (s : σ) (Q : α → σ → Prop) (E : ε → Prop) : Prop :=
  (∃ a s', Runs x s a s' ∧ Q a s') ∨ (∃ e s', x [] s = (.failed e, s', []) ∧ E e)

namespace Ends
variable {Q : β → σ → Prop} {E : ε → Prop} {s : σ}
variable {x : Prog σ ε α} {f : α → Prog σ ε β} {e : ε}

theorem of_runs {b : β} {x : Prog σ ε β} {s' : σ} (hx : Runs x s b s') (hq : Q b s') : Ends x s Q E :=
  .inl ⟨b, s', hx, hq⟩

theorem throw' (h : E e) : Ends (throw e : Prog σ ε β) s Q E := .inr ⟨e, s, rfl, h⟩

theorem bind' {M : α → σ → Prop} (hx : Ends x s M E) (hf : ∀ a s', M a s' → Ends (f a) s' Q E) : Ends (x >>= f) s Q E :=
  Concludes.bind' hx hf fun _ _ h => h

theorem after {a : α} {s' : σ} (hx : Runs x s a s') (hf : Ends (f a) s' Q E) : Ends (x >>= f) s Q E :=
  Concludes.after hx hf

theorem ensure' {c : Bool} {f : Unit → Prog σ ε β} (ht : c → Ends (f ()) s Q E) (hf : c = false → E e) :
    Ends (ensure c e >>= f) s Q E :=
  Concludes.ensure' ht hf

theorem mono {x : Prog σ ε β} {Q' : β → σ → Prop} (hx : Ends x s Q E) (hq : ∀ b s', Q b s' → Q' b s') : Ends x s Q' E :=
  Concludes.mono hx hq fun _ _ h => h

end Ends

end

end CodexFold.Foundation
