import CodexFold.Foundation.Faults

/- Programs that only a crash can stop.

   `Survives P x Q C` is about the schedules without a failing effect: from a state with
   `P`, the program returns with `Q` or is cut off with `C`, and never returns an error.
   Only a schedule with a crash in it cuts the program off, so without any fault it
   returns. -/
namespace CodexFold.Foundation
open List

section
variable {σ ε α β : Type}

/-- How a program without failing effects can end, after a schedule `fs`. -/
def Survived (fs : List Fault) (Q : α → σ → Prop) (C : σ → Prop) : Outcome ε α × σ × List Fault → Prop
  | (.done a, s, rest) => Q a s ∧ ∀ f ∈ rest, f ∈ fs
  | (.failed _, _, _) => False
  | (.crashed, s, _) => C s ∧ Fault.crash ∈ fs

theorem Survived.widen {fs fs' : List Fault} {Q : α → σ → Prop} {C : σ → Prop} (hsub : ∀ f ∈ fs', f ∈ fs) :
    ∀ {r : Outcome ε α × σ × List Fault}, Survived fs' Q C r → Survived fs Q C r
  | (.done _, _, _), h => ⟨h.1, fun f hf => hsub f (h.2 f hf)⟩
  | (.failed _, _, _), h => h
  | (.crashed, _, _), h => ⟨h.1, hsub _ h.2⟩

/-- Without a failing effect, `x` returns with `Q` or crashes with `C`. -/
def Survives (P : σ → Prop) (x : Prog σ ε α) (Q : α → σ → Prop) (C : σ → Prop) : Prop :=
  ∀ fs s, Fault.fail ∉ fs → P s → Survived fs Q C (x fs s)

namespace Survives
variable {P P' : σ → Prop} {Q : α → σ → Prop} {C : σ → Prop}
variable {x : Prog σ ε α}

theorem pre (h : Survives P x Q C) (hp : ∀ s, P' s → P s) : Survives P' x Q C :=
  fun fs s hfs hs => h fs s hfs (hp s hs)

theorem post {Q' : α → σ → Prop} {C' : σ → Prop} (h : Survives P x Q C)
    (hq : ∀ a s, Q a s → Q' a s) (hc : ∀ s, C s → C' s) : Survives P x Q' C' := by
  intro fs s hfs hs
  have hx := h fs s hfs hs
  match hr : x fs s with
  | (.done a, s', _) => rw [hr] at hx; exact ⟨hq a s' hx.1, hx.2⟩
  | (.failed _, _, _) => rw [hr] at hx; exact hx
  | (.crashed, s', _) => rw [hr] at hx; exact ⟨hc s' hx.1, hx.2⟩

theorem given {p : Prop} (h : p → Survives P x Q C) : Survives (fun s => P s ∧ p) x Q C :=
  fun fs s hfs hs => h hs.2 fs s hfs hs.1

theorem at' (h : ∀ s, P s → Survives (· = s) x Q C) : Survives P x Q C :=
  fun fs s hfs hs => h s hs fs s hfs rfl

theorem pure' (a : α) (h : ∀ s, P s → Q a s) : Survives P (Pure.pure a : Prog σ ε α) Q C :=
  fun _ s _ hs => ⟨h s hs, fun _ hf => hf⟩

theorem effect' {Q : Unit → σ → Prop} (e : ε) (f : σ → σ) (hq : ∀ s, P s → Q () (f s)) (hc : ∀ s, P s → C s) :
    Survives P (effect e f) Q C := by
  intro fs s hfs hs
  match fs with
  | [] => exact ⟨hq s hs, fun _ hf => hf⟩
  | .ok :: _ => exact ⟨hq s hs, fun _ hf => mem_cons_of_mem _ hf⟩
  | .fail :: _ => exact absurd (.head _) hfs
  | .crash :: _ => exact ⟨hc s hs, .head _⟩

theorem bind' {f : α → Prog σ ε β} {M : α → σ → Prop} {Q : β → σ → Prop}
    (hx : Survives P x M C) (hf : ∀ a, Survives (M a) (f a) Q C) : Survives P (x >>= f) Q C := by
  intro fs s hfs hs
  have h := hx fs s hfs hs
  rw [Prog.bind_apply]
  match hr : x fs s with
  | (.done a, s', fs') =>
    rw [hr] at h
    -- what is left of the schedule is part of it
    exact (hf a fs' s' (fun hfail => hfs (h.2 _ hfail)) h.1).widen h.2
  | (.failed _, _, _) => rw [hr] at h; exact h.elim
  | (.crashed, s', _) => rw [hr] at h; exact h

theorem readAt {s : σ} {f : σ → α} {k : α → Prog σ ε β} {Q : β → σ → Prop}
    (h : Survives (· = s) (k (f s)) Q C) : Survives (· = s) (read f >>= k) Q C := by
  rintro fs _ hfs rfl
  exact h fs _ hfs rfl

theorem point' {e : ε} {f : Unit → Prog σ ε β} {Q : β → σ → Prop} (hc : ∀ s, P s → C s)
    (h : Survives P (f ()) Q C) : Survives P (point e >>= f) Q C :=
  bind' (effect' e id (fun _ hs => hs) hc) fun _ => h

theorem ensure' {c : Bool} {e : ε} {f : Unit → Prog σ ε β} {Q : β → σ → Prop} (hc : c)
    (h : Survives P (f ()) Q C) : Survives P (ensure c e >>= f) Q C := by
  rw [hc]
  exact bind' (pure' () fun _ hs => hs) fun _ => h

theorem checked {r : Except ε α} {a : α} {k : α → Prog σ ε β} {Q : β → σ → Prop} (hr : r = .ok a)
    (h : Survives P (k a) Q C) : Survives P (ofExcept r >>= k) Q C := by
  rw [hr]
  exact bind' (pure' a fun _ hs => ⟨hs, rfl⟩) fun b => given fun hb => hb ▸ h

theorem attempt' {f : Except ε α → Prog σ ε β} {M : α → σ → Prop} {Q : β → σ → Prop}
    (hx : Survives P x M C) (hf : ∀ a, Survives (M a) (f (.ok a)) Q C) : Survives P (attempt x >>= f) Q C := by
  refine bind' (M := fun r s => ∃ a, r = .ok a ∧ M a s) ?_ fun r => ?_
  · intro fs s hfs hs
    have h := hx fs s hfs hs
    unfold attempt
    match hr : x fs s with
    | (.done a, s', _) => rw [hr] at h; exact ⟨⟨a, rfl, h.1⟩, h.2⟩
    | (.failed _, _, _) => rw [hr] at h; exact h.elim
    | (.crashed, s', _) => rw [hr] at h; exact h
  · rintro fs s hfs ⟨a, rfl, hm⟩
    exact hf a fs s hfs hm

theorem forEach' {f : β → Prog σ ε Unit} {I : List β → σ → Prop}
    (hf : ∀ b rest, Survives (I (b :: rest)) (f b) (fun _ => I rest) C) :
    ∀ l : List β, Survives (I l) (forEach f l) (fun _ => I []) C
  | [] => pure' () fun _ hs => hs
  | b :: rest => bind' (hf b rest) fun _ => forEach' hf rest

theorem runs (h : Survives P x Q C) {s : σ} (hs : P s) : ∃ a s', Runs x s a s' ∧ Q a s' := by
  have hx := h [] s (not_mem_nil) hs
  match hr : x [] s with
  | (.done a, s', rest) =>
    rw [hr] at hx
    refine ⟨a, s', ?_, hx.1⟩
    cases rest with
    | nil => exact hr
    | cons f _ => exact absurd (hx.2 f (.head _)) not_mem_nil
  | (.failed _, _, _) => rw [hr] at hx; exact hx.elim
  | (.crashed, _, _) => rw [hr] at hx; exact absurd hx.2 not_mem_nil

end Survives

end

end CodexFold.Foundation
