import CodexFold.Foundation.Faults

/- Where in its schedule a program stops.

   `Hits fs n` says that the first fault of the schedule is at the effect `n`, counted
   from 0. `Counted i P x Q R F` is about a program that starts when `i` effects have been
   performed: a return has `Q` of the number of effects performed by then, an error that
   no fault caused leaves `R`, and a fault at the effect `n` leaves `F n`, whether it is a
   failure or a crash. The rules are those of `Spec` with the count passed along. -/
namespace CodexFold.Foundation
open List

variable (fs : List Fault)

/-- The first `n` effects of the schedule are performed. -/
def Clear (n : Nat) : Prop := ∀ f ∈ fs.take n, f = .ok

/-- The first fault of the schedule is at the effect `n`. -/
def Hits (n : Nat) : Prop := Clear fs n ∧ ∃ f, fs[n]? = some f ∧ f ≠ .ok

theorem clear_zero : Clear fs 0 := by
  intro f hf
  cases hf

theorem Clear.succ {fs : List Fault} {n : Nat} (h : Clear fs n) (hn : ∀ f, fs[n]? = some f → f = .ok) :
    Clear fs (n + 1) := by
  intro f hf
  rw [take_add_one, mem_append] at hf
  rcases hf with hf | hf
  · exact h f hf
  · exact hn f (by simpa using hf)

theorem Hits.le {fs : List Fault} {n k : Nat} (h : Hits fs n) (hk : Clear fs k) : k ≤ n := by
  obtain ⟨-, f, hf, hne⟩ := h
  by_contra hlt
  refine hne (hk f (mem_take_iff_getElem.mpr ?_))
  obtain ⟨hlen, rfl⟩ := List.getElem?_eq_some_iff.mp hf
  exact ⟨n, by omega, rfl⟩

section
variable {σ ε α β : Type}

/-- The ends of a program, with their place in the schedule `fs`. -/
def Stops (fs : List Fault) (Q : Nat → α → σ → Prop) (R : σ → Prop) (F : Nat → σ → Prop) :
    Outcome ε α × σ × List Fault → Prop
  | (.done a, s, rest) => ∃ j, rest = fs.drop j ∧ Clear fs j ∧ Q j a s
  | (.failed _, s, _) => R s ∨ ∃ n, Hits fs n ∧ F n s
  | (.crashed, s, _) => ∃ n, Hits fs n ∧ F n s

/-- The program after `i` effects: it returns with `Q`, refuses with `R` or is stopped by
    a fault with `F`. -/
def Counted (i : Nat) (P : σ → Prop) (x : Prog σ ε α) (Q : Nat → α → σ → Prop) (R : σ → Prop)
    (F : Nat → σ → Prop) : Prop :=
  ∀ fs s, Clear fs i → P s → Stops fs Q R F (x (fs.drop i) s)

namespace Counted
variable {i : Nat} {P P' : σ → Prop} {Q : Nat → α → σ → Prop} {R : σ → Prop} {F : Nat → σ → Prop}
variable {x : Prog σ ε α}

theorem pre (h : Counted i P x Q R F) (hp : ∀ s, P' s → P s) : Counted i P' x Q R F :=
  fun fs s hfs hs => h fs s hfs (hp s hs)

theorem post {Q' : Nat → α → σ → Prop} {R' : σ → Prop} {F' : Nat → σ → Prop} (h : Counted i P x Q R F)
    (hq : ∀ j a s, Q j a s → Q' j a s) (hr : ∀ s, R s → R' s) (hf : ∀ n s, F n s → F' n s) : Counted i P x Q' R' F' := by
  intro fs s hfs hs
  have hx := h fs s hfs hs
  match hres : x (fs.drop i) s with
  | (.done a, s', _) =>
    rw [hres] at hx
    obtain ⟨j, hrest, hclear, hqj⟩ := hx
    exact ⟨j, hrest, hclear, hq j a s' hqj⟩
  | (.failed _, s', _) =>
    rw [hres] at hx
    exact hx.imp (hr s') fun ⟨n, hn, hfn⟩ => ⟨n, hn, hf n s' hfn⟩
  | (.crashed, s', _) =>
    rw [hres] at hx
    obtain ⟨n, hn, hfn⟩ := hx
    exact ⟨n, hn, hf n s' hfn⟩

theorem given {p : Prop} (h : p → Counted i P x Q R F) : Counted i (fun s => P s ∧ p) x Q R F :=
  fun fs s hfs hs => h hs.2 fs s hfs hs.1

theorem at' (h : ∀ s, P s → Counted i (· = s) x Q R F) : Counted i P x Q R F :=
  fun fs s hfs hs => h s hs fs s hfs rfl

theorem pure' (a : α) (h : ∀ s, P s → Q i a s) : Counted i P (Pure.pure a : Prog σ ε α) Q R F :=
  fun _ s hfs hs => ⟨i, rfl, hfs, h s hs⟩

theorem throw' (e : ε) (h : ∀ s, P s → R s) : Counted i P (throw e : Prog σ ε α) Q R F :=
  fun _ s _ hs => .inl (h s hs)

theorem modify' {Q : Nat → Unit → σ → Prop} (f : σ → σ) (h : ∀ s, P s → Q i () (f s)) :
    Counted i P (modify f : Prog σ ε Unit) Q R F :=
  fun _ s hfs hs => ⟨i, rfl, hfs, h s hs⟩

theorem effect' {Q : Nat → Unit → σ → Prop} (e : ε) (f : σ → σ) (hq : ∀ s, P s → Q (i + 1) () (f s))
    (hf : ∀ s, P s → F i s) : Counted i P (effect e f) Q R F := by
  intro fs s hfs hs
  have hnext : ∀ g rest, fs.drop i = g :: rest → fs[i]? = some g ∧ fs.drop (i + 1) = rest := by
    intro g rest hdrop
    refine ⟨?_, ?_⟩
    · rw [← head?_drop, hdrop, head?_cons]
    · rw [← tail_drop, hdrop, tail_cons]
  match hdrop : fs.drop i with
  | [] =>
    have hlen := drop_eq_nil_iff.mp hdrop
    refine ⟨i + 1, (drop_eq_nil_of_le (by omega)).symm, hfs.succ fun g hg => ?_, hq s hs⟩
    rw [getElem?_eq_none hlen] at hg
    cases hg
  | .ok :: rest =>
    obtain ⟨hget, hrest⟩ := hnext _ _ hdrop
    refine ⟨i + 1, hrest.symm, hfs.succ fun g hg => ?_, hq s hs⟩
    rw [hget] at hg
    exact (Option.some.inj hg).symm
  | .fail :: rest => exact .inr ⟨i, ⟨hfs, .fail, (hnext _ _ hdrop).1, by decide⟩, hf s hs⟩
  | .crash :: rest => exact ⟨i, ⟨hfs, .crash, (hnext _ _ hdrop).1, by decide⟩, hf s hs⟩

theorem bind' {f : α → Prog σ ε β} {M : Nat → α → σ → Prop} {Q : Nat → β → σ → Prop}
    (hx : Counted i P x M R F) (hf : ∀ j a, Counted j (M j a) (f a) Q R F) : Counted i P (x >>= f) Q R F := by
  intro fs s hfs hs
  have h := hx fs s hfs hs
  rw [Prog.bind_apply]
  match hr : x (fs.drop i) s with
  | (.done a, s', rest) =>
    rw [hr] at h
    obtain ⟨j, rfl, hclear, hm⟩ := h
    exact hf j a fs s' hclear hm
  | (.failed _, _, _) | (.crashed, _, _) => rw [hr] at h; exact h

theorem step {j : Nat} {f : α → Prog σ ε β} {M : α → σ → Prop} {Q : Nat → β → σ → Prop}
    (hx : Counted i P x (fun k a s => k = j ∧ M a s) R F) (hf : ∀ a, Counted j (M a) (f a) Q R F) :
    Counted i P (x >>= f) Q R F := by
  refine bind' hx fun k a fs s hfs hs => ?_
  obtain ⟨rfl, hm⟩ := hs
  exact hf a fs s hfs hm

theorem readAt {s : σ} {f : σ → α} {k : α → Prog σ ε β} {Q : Nat → β → σ → Prop}
    (h : Counted i (· = s) (k (f s)) Q R F) : Counted i (· = s) (read f >>= k) Q R F := by
  rintro fs _ hfs rfl
  exact h fs _ hfs rfl

theorem point' {e : ε} {f : Unit → Prog σ ε β} {Q : Nat → β → σ → Prop} (hf : ∀ s, P s → F i s)
    (h : Counted (i + 1) P (f ()) Q R F) : Counted i P (point e >>= f) Q R F :=
  step (effect' e id (fun _ hs => ⟨rfl, hs⟩) hf) fun _ => h

theorem ensure' {c : Bool} {e : ε} {f : Unit → Prog σ ε β} {Q : Nat → β → σ → Prop}
    (ht : c → Counted i P (f ()) Q R F) (hf : c = false → ∀ s, P s → R s) :
    Counted i P (ensure c e >>= f) Q R F := by
  cases c with
  | true => exact step (pure' () fun _ hs => ⟨rfl, hs⟩) fun _ => ht rfl
  | false => exact bind' (M := fun _ _ _ => False) (throw' e (hf rfl)) nofun

theorem checked {r : Except ε α} {k : α → Prog σ ε β} {Q : Nat → β → σ → Prop} (hr : ∀ s, P s → R s)
    (h : ∀ a, r = .ok a → Counted i P (k a) Q R F) : Counted i P (ofExcept r >>= k) Q R F := by
  cases r with
  | ok a =>
    refine step (M := fun b s => P s ∧ b = a) (pure' a fun _ hs => ⟨rfl, hs, rfl⟩) fun b => given fun hb => ?_
    rw [hb]
    exact h a rfl
  | error e => exact bind' (M := fun _ _ _ => False) (throw' e hr) nofun

theorem onPart' {τ : Type} {get : τ → σ} {put : τ → σ → τ} {t : τ}
    {Q' : Nat → α → τ → Prop} {R' : τ → Prop} {F' : Nat → τ → Prop}
    (hx : Counted i (· = get t) x (fun j a s => Q' j a (put t s)) (fun s => R' (put t s))
      fun n s => F' n (put t s)) : Counted i (· = t) (onPart get put x) Q' R' F' := by
  rintro fs _ hfs rfl
  have h := hx fs _ hfs rfl
  unfold onPart
  match hres : x (fs.drop i) (get _) with
  | (.done _, _, _) | (.failed _, _, _) | (.crashed, _, _) => rw [hres] at h; exact h

theorem outcome {s : σ} {fs : List Fault} (h : Counted 0 (· = s) x Q R F)
    {Q' : α → σ → Prop} {E' : ε → σ → Prop} {C' : σ → Prop} (hq : ∀ j a t, Clear fs j → Q j a t → Q' a t)
    (hr : ∀ e t, R t → E' e t) (hf : ∀ n t, Hits fs n → F n t → (∀ e, E' e t) ∧ C' t) : Post Q' E' C' (x fs s) := by
  have hx := h fs s (clear_zero fs) rfl
  rw [drop_zero] at hx
  match hres : x fs s with
  | (.done a, t, _) =>
    rw [hres] at hx
    obtain ⟨j, -, hclear, hqj⟩ := hx
    exact hq j a t hclear hqj
  | (.failed e, t, _) =>
    rw [hres] at hx
    exact hx.elim (hr e t) fun ⟨n, hn, hfn⟩ => (hf n t hn hfn).1 e
  | (.crashed, t, _) =>
    rw [hres] at hx
    obtain ⟨n, hn, hfn⟩ := hx
    exact (hf n t hn hfn).2

theorem alike {p : Prop} (h : p) : (ε → p) ∧ p := ⟨fun _ => h, h⟩

theorem spec (h : Counted 0 P x Q R F) {Q' : α → σ → Prop} {E' : ε → σ → Prop} {C' : σ → Prop}
    (hq : ∀ j a t, Q j a t → Q' a t) (hr : ∀ e t, R t → E' e t) (hf : ∀ n t, F n t → (∀ e, E' e t) ∧ C' t) :
    Spec P x Q' E' C' := by
  intro fs s hs
  have hs : Counted 0 (· = s) x Q R F := h.pre (held hs)
  exact hs.outcome (fun j a t _ => hq j a t) hr fun n t _ => hf n t

end Counted

end

end CodexFold.Foundation
