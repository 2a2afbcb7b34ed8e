import Mathlib

/- Programs whose file effects can fail or be cut short.

   A program runs over a state `σ` against a schedule of faults, one entry per
   file effect in the order the effects are issued: `ok` performs the effect,
   `fail` leaves the state as it is and returns the effect's error to the
   caller, `crash` ends the process before the effect. Past the end of the
   schedule every effect succeeds, so the empty schedule is the run without any
   fault. Reads do not consume the schedule: they see the state as it is.

   Two kinds of statement are made about a program. `Spec` speaks about every
   schedule: from a state with `P`, a normal return has `Q`, an error return has
   `E`, a crash leaves `C`. `Runs` speaks about the empty schedule and is total:
   the program returns this value in this state. -/
namespace CodexFold.Foundation

/-- What happens at one file effect. -/
inductive Fault where
  | ok
  | fail
  | crash
  deriving DecidableEq, Repr

inductive Outcome (ε α : Type) where
  | done (a : α)
  | failed (e : ε)
  | crashed
  deriving DecidableEq, Repr

def Outcome.returned {ε α : Type} : Outcome ε α → Bool
  | .done _ => true
  | _ => false

/-- A program over the state `σ` with errors `ε`: it is given the schedule and
    hands on what is left of it. -/
def Prog (σ ε α : Type) : Type := List Fault → σ → Outcome ε α × σ × List Fault

namespace Prog
variable {σ ε α β : Type} (x : Prog σ ε α)

def bind (f : α → Prog σ ε β) : Prog σ ε β := fun fs s =>
  match x fs s with
  | (.done a, s', fs') => f a fs' s'
  | (.failed e, s', fs') => (.failed e, s', fs')
  | (.crashed, s', fs') => (.crashed, s', fs')

instance : Monad (Prog σ ε) where
  pure a := fun fs s => (.done a, s, fs)
  bind := bind

variable (e : ε)

def throw : Prog σ ε α := fun fs s => (.failed e, s, fs)

def read (f : σ → α) : Prog σ ε α := fun fs s => (.done (f s), s, fs)

/-- Change what the process holds in memory: this cannot fail. -/
def modify (f : σ → σ) : Prog σ ε Unit := fun fs s => (.done (), f s, fs)

/-- One file effect, which fails with `e`. -/
def effect (f : σ → σ) : Prog σ ε Unit
  | [], s => (.done (), f s, [])
  | .ok :: fs, s => (.done (), f s, fs)
  | .fail :: fs, s => (.failed e, s, fs)
  | .crash :: fs, s => (.crashed, s, fs)

/-- An effect that changes nothing the model keeps (a sync, a hook, a budget
    check) but can fail. -/
def point : Prog σ ε Unit := effect e id

def ensure (c : Bool) (e : ε) : Prog σ ε Unit := if c then pure () else throw e

def ofExcept : Except ε α → Prog σ ε α
  | .ok a => pure a
  | .error e => throw e

/-- Run `x` and look at its error instead of returning it. -/
def attempt : Prog σ ε (Except ε α) := fun fs s =>
  match x fs s with
  | (.done a, s', fs') => (.done (.ok a), s', fs')
  | (.failed e, s', fs') => (.done (.error e), s', fs')
  | (.crashed, s', fs') => (.crashed, s', fs')

/-- Run `x` with the deferred `cleanup`: it runs on every return, its own error
    is dropped, and a crash skips it. -/
def deferring (cleanup : Prog σ ε Unit) (x : Prog σ ε α) : Prog σ ε α := do
  let r ← attempt x
  let _ ← attempt cleanup
  ofExcept r

/-- Run `x` and, when it returns an error, the `cleanup`, whose own error is
    dropped. -/
def onFailure (cleanup : Prog σ ε Unit) (x : Prog σ ε α) : Prog σ ε α := do
  let r ← attempt x
  match r with
  | .ok a => pure a
  | .error e => do
    let _ ← attempt cleanup
    throw e

/-- Run `x` on the part of a larger state. -/
def onPart {τ : Type} (get : τ → σ) (put : τ → σ → τ) (x : Prog σ ε α) : Prog τ ε α := fun fs t =>
  match x fs (get t) with
  | (r, s, fs') => (r, put t s, fs')

/-- Run `f` on every entry, in order, until one fails. -/
def forEach (f : β → Prog σ ε Unit) : List β → Prog σ ε Unit
  | [] => pure ()
  | b :: rest => do
    f b
    forEach f rest

/-- Run `f` on every entry, in order, passing a value along. -/
def foldEach (f : α → β → Prog σ ε α) : α → List β → Prog σ ε α
  | a, [] => pure a
  | a, b :: rest => do
    let a' ← f a b
    foldEach f a' rest

/-! ## One step at a time -/

@[simp] theorem pure_apply (a : α) (fs : List Fault) (s : σ) : (Pure.pure a : Prog σ ε α) fs s = (.done a, s, fs) := rfl

@[simp] theorem throw_apply (fs : List Fault) (s : σ) : (throw e : Prog σ ε α) fs s = (.failed e, s, fs) := rfl

@[simp] theorem read_apply (f : σ → α) (fs : List Fault) (s : σ) :
    (read f : Prog σ ε α) fs s = (.done (f s), s, fs) := rfl

@[simp] theorem modify_apply (f : σ → σ) (fs : List Fault) (s : σ) :
    (modify f : Prog σ ε Unit) fs s = (.done (), f s, fs) := rfl

@[simp] theorem effect_nil (f : σ → σ) (s : σ) : effect e f [] s = (.done (), f s, []) := rfl

@[simp] theorem point_nil (s : σ) : (point e : Prog σ ε Unit) [] s = (.done (), s, []) := rfl

theorem bind_apply (f : α → Prog σ ε β) (fs : List Fault) (s : σ) :
    (x >>= f) fs s = match x fs s with
      | (.done a, s', fs') => f a fs' s'
      | (.failed e, s', fs') => (.failed e, s', fs')
      | (.crashed, s', fs') => (.crashed, s', fs') := rfl

end Prog

export Prog (point effect ensure attempt deferring onFailure onPart forEach foldEach)

def require {ε : Type} (c : Bool) (e : ε) : Except ε Unit := if c then .ok () else .error e

@[simp] theorem require_eq_ok {ε : Type} {c : Bool} {e : ε} {u : Unit} : require c e = .ok u ↔ c = true := by
  cases c <;> simp [require]

theorem of_guard {ε α : Type} {c : Prop} [Decidable c] {e : ε} {x : Except ε α} {a : α}
    (h : (if c then .error e else x) = .ok a) : ¬c ∧ x = .ok a := by
  split at h
  · cases h
  · exact ⟨‹_›, h⟩

theorem bind_eq_ok {ε α β : Type} {x : Except ε α} {f : α → Except ε β} {b : β} :
    (x >>= f) = .ok b ↔ ∃ a, x = .ok a ∧ f a = .ok b := by
  constructor
  · intro h
    cases x with
    | error e => cases h
    | ok a => exact ⟨a, rfl, h⟩
  · rintro ⟨a, rfl, h⟩
    exact h

theorem of_bind {ε α β : Type} {x : Except ε α} {f : α → Except ε β} {b : β} (h : (x >>= f) = .ok b) :
    ∃ a, x = .ok a ∧ f a = .ok b :=
  bind_eq_ok.mp h

theorem forM_eq_ok {ε α : Type} {f : α → Except ε Unit} {u : Unit} : ∀ {l : List α},
    l.forM f = .ok u ↔ ∀ a ∈ l, f a = .ok ()
  | [] => by simp [Pure.pure, Except.pure]
  | a :: rest => by
    rw [List.forM, bind_eq_ok, List.forall_mem_cons, ← forM_eq_ok]
    exact ⟨fun ⟨_, ha, hrest⟩ => ⟨ha, hrest⟩, fun h => ⟨(), h⟩⟩

/-! ## Every schedule -/

theorem held {σ : Type} {P : σ → Prop} {s : σ} (h : P s) : ∀ t, t = s → P t := fun _ ht => ht ▸ h

section Spec
variable {σ ε α β : Type}

/-- One condition for each way to end. -/
def Post (Q : α → σ → Prop) (E : ε → σ → Prop) (C : σ → Prop) :
    Outcome ε α × σ × List Fault → Prop
  | (.done a, s, _) => Q a s
  | (.failed e, s, _) => E e s
  | (.crashed, s, _) => C s

/-- Whatever the schedule: from a state with `P`, `x` returns with `Q`, fails with
    `E` or crashes with `C`. -/
def Spec (P : σ → Prop) (x : Prog σ ε α) (Q : α → σ → Prop) (E : ε → σ → Prop) (C : σ → Prop) :
    Prop :=
  ∀ fs s, P s → Post Q E C (x fs s)

namespace Spec
variable {P P' : σ → Prop} {Q : α → σ → Prop} {E : ε → σ → Prop} {C : σ → Prop}
variable {x : Prog σ ε α}

theorem pre (h : Spec P x Q E C) (hp : ∀ s, P' s → P s) : Spec P' x Q E C :=
  fun fs s hs => h fs s (hp s hs)

variable {Q' : α → σ → Prop}

theorem post {E' : ε → σ → Prop} {C' : σ → Prop} (h : Spec P x Q E C) (hq : ∀ a s, Q a s → Q' a s)
    (he : ∀ e s, E e s → E' e s) (hc : ∀ s, C s → C' s) : Spec P x Q' E' C' := by
  intro fs s hs
  have hx := h fs s hs
  match hr : x fs s with
  | (.done a, s', _) => rw [hr] at hx; exact hq a s' hx
  | (.failed e, s', _) => rw [hr] at hx; exact he e s' hx
  | (.crashed, s', _) => rw [hr] at hx; exact hc s' hx

theorem weaken (h : Spec P x Q E C) (hq : ∀ a s, Q a s → Q' a s) : Spec P x Q' E C :=
  h.post hq (fun _ _ he => he) fun _ hc => hc

theorem mono {I J : σ → Prop} (h : Spec P x Q (fun _ => I) I) (hq : ∀ a s, Q a s → Q' a s) (hi : ∀ s, I s → J s) :
    Spec P x Q' (fun _ => J) J :=
  h.post hq (fun _ => hi) hi

theorem both {E' : ε → σ → Prop} {C' : σ → Prop} (h : Spec P x Q E C) (h' : Spec P' x Q' E' C') :
    Spec (fun s => P s ∧ P' s) x (fun a s => Q a s ∧ Q' a s) (fun e s => E e s ∧ E' e s) (fun s => C s ∧ C' s) := by
  intro fs s hs
  have hx := h fs s hs.1
  have hx' := h' fs s hs.2
  match hr : x fs s with
  | (.done _, _, _) | (.failed _, _, _) | (.crashed, _, _) => rw [hr] at hx hx'; exact ⟨hx, hx'⟩

theorem given {p : Prop} (h : p → Spec P x Q E C) : Spec (fun s => P s ∧ p) x Q E C :=
  fun fs s hs => h hs.2 fs s hs.1

theorem at' (h : ∀ s, P s → Spec (· = s) x Q E C) : Spec P x Q E C :=
  fun fs s hs => h s hs fs s rfl

theorem pure' (a : α) (h : ∀ s, P s → Q a s) : Spec P (Pure.pure a : Prog σ ε α) Q E C :=
  fun _ s hs => h s hs

theorem throw' (e : ε) (h : ∀ s, P s → E e s) : Spec P (Prog.throw e : Prog σ ε α) Q E C :=
  fun _ s hs => h s hs

theorem read' (f : σ → α) (h : ∀ s, P s → Q (f s) s) : Spec P (Prog.read f : Prog σ ε α) Q E C :=
  fun _ s hs => h s hs

theorem modify' {Q : Unit → σ → Prop} (f : σ → σ) (h : ∀ s, P s → Q () (f s)) :
    Spec P (Prog.modify f : Prog σ ε Unit) Q E C :=
  fun _ s hs => h s hs

theorem effect' {Q : Unit → σ → Prop} (e : ε) (f : σ → σ) (hq : ∀ s, P s → Q () (f s))
    (he : ∀ s, P s → E e s) (hc : ∀ s, P s → C s) : Spec P (effect e f) Q E C := by
  intro fs s hs
  match fs with
  | [] | .ok :: _ => exact hq s hs
  | .fail :: _ => exact he s hs
  | .crash :: _ => exact hc s hs

theorem point' {Q : Unit → σ → Prop} (e : ε) (hq : ∀ s, P s → Q () s) (he : ∀ s, P s → E e s) (hc : ∀ s, P s → C s) :
    Spec P (point e : Prog σ ε Unit) Q E C :=
  effect' e id hq he hc

theorem bind' {f : α → Prog σ ε β} {M : α → σ → Prop} {Q : β → σ → Prop}
    (hx : Spec P x M E C) (hf : ∀ a, Spec (M a) (f a) Q E C) : Spec P (x >>= f) Q E C := by
  intro fs s hs
  have h := hx fs s hs
  rw [Prog.bind_apply]
  match hr : x fs s with
  | (.done a, s', fs') => rw [hr] at h; exact hf a fs' s' h
  | (.failed _, _, _) | (.crashed, _, _) => rw [hr] at h; exact h

theorem bindAs {μ : Type} {f : α → Prog σ ε β} {g : μ → α} {M : μ → σ → Prop}
    {Q : β → σ → Prop} (hx : Spec P x (fun a s => ∃ m, a = g m ∧ M m s) E C)
    (hf : ∀ m, Spec (M m) (f (g m)) Q E C) : Spec P (x >>= f) Q E C := by
  refine bind' hx fun a fs s h => ?_
  obtain ⟨m, rfl, hm⟩ := h
  exact hf m fs s hm

variable {s : σ}

theorem modifyAt {g : σ → σ} {k : Unit → Prog σ ε β} {Q : β → σ → Prop} (h : Spec (· = g s) (k ()) Q E C) :
    Spec (· = s) (Prog.modify g >>= k) Q E C := by
  rintro fs _ rfl
  exact h fs _ rfl

theorem readAt {f : σ → α} {k : α → Prog σ ε β} {Q : β → σ → Prop} (h : Spec (· = s) (k (f s)) Q E C) :
    Spec (· = s) (Prog.read f >>= k) Q E C := by
  rintro fs _ rfl
  exact h fs _ rfl

theorem checked {r : Except ε α} {k : α → Prog σ ε β} {Q : β → σ → Prop} (he : ∀ e s, P s → E e s)
    (h : ∀ a, r = .ok a → Spec P (k a) Q E C) : Spec P (Prog.ofExcept r >>= k) Q E C := by
  cases r with
  | ok a => exact h a rfl
  | error e => exact fun _ s hs => he e s hs

theorem ite' {c : Prop} [Decidable c] {y : Prog σ ε α} (hx : c → Spec P x Q E C)
    (hy : ¬c → Spec P y Q E C) : Spec P (if c then x else y) Q E C := by
  by_cases h : c
  · simp only [h, if_true]; exact hx h
  · simp only [h, if_false]; exact hy h

theorem ensure' {Q : Unit → σ → Prop} (c : Bool) (e : ε) (hq : c → ∀ s, P s → Q () s)
    (he : ∀ s, P s → E e s) : Spec P (ensure c e : Prog σ ε Unit) Q E C :=
  ite' (fun hc => pure' () (hq hc)) fun _ => throw' e he

theorem ensured {c : Bool} {e : ε} {k : Unit → Prog σ ε α} (he : ∀ s, P s → E e s) (hk : c → Spec P (k ()) Q E C) :
    Spec P (ensure c e >>= k) Q E C := by
  cases c with
  | true => exact hk rfl
  | false => exact fun _ s hs => he s hs

theorem ofExcept' (r : Except ε α) (hq : ∀ a, r = .ok a → ∀ s, P s → Q a s)
    (he : ∀ e, r = .error e → ∀ s, P s → E e s) : Spec P (Prog.ofExcept r : Prog σ ε α) Q E C := by
  cases r with
  | ok a => exact pure' a (hq a rfl)
  | error e => exact throw' e (he e rfl)

theorem attempt' {R : Except ε α → σ → Prop} (hx : Spec P x (fun a => R (.ok a)) (fun e => R (.error e)) C) :
    Spec P (attempt x) R E C := by
  intro fs s hs
  have h := hx fs s hs
  unfold attempt
  match hr : x fs s with
  | (.done _, _, _) | (.failed _, _, _) | (.crashed, _, _) => rw [hr] at h; exact h

theorem attempted {f : Except ε α → Prog σ ε β} {M : α → σ → Prop} {F : ε → σ → Prop} {Q : β → σ → Prop}
    (hx : Spec P x M F C) (hok : ∀ a, Spec (M a) (f (.ok a)) Q E C)
    (herr : ∀ e, Spec (F e) (f (.error e)) Q E C) : Spec P (attempt x >>= f) Q E C := by
  refine bind' (M := fun r s => match r with | .ok a => M a s | .error e => F e s) (attempt' hx) ?_
  intro r
  cases r with
  | ok a => exact hok a
  | error e => exact herr e

theorem deferring' {cleanup : Prog σ ε Unit} (hx : Spec P x Q E C)
    (hq : ∀ a, Spec (Q a) cleanup (fun _ => Q a) (fun _ => Q a) C)
    (he : ∀ e, Spec (E e) cleanup (fun _ => E e) (fun _ => E e) C) : Spec P (deferring cleanup x) Q E C := by
  refine attempted hx (fun a => ?_) fun e => ?_
  · exact bind' (attempt' (hq a)) fun _ => pure' a (fun _ h => h)
  · exact bind' (attempt' (he e)) fun _ => throw' e (fun _ h => h)

theorem onFailure' {cleanup : Prog σ ε Unit} {F : ε → σ → Prop} (hx : Spec P x Q F C)
    (he : ∀ e, Spec (F e) cleanup (fun _ => E e) (fun _ => E e) C) : Spec P (onFailure cleanup x) Q E C := by
  refine attempted hx (fun a => pure' a fun _ h => h) fun e => ?_
  exact bind' (attempt' (he e)) fun _ => throw' e (fun _ h => h)

variable {I : σ → Prop} {fs : List Fault}

theorem postDiscard (h : Post (fun _ => I) E C (x fs s)) :
    Post (fun _ => I) E C ((do let _ ← x; pure () : Prog σ ε Unit) fs s) := by
  rw [Prog.bind_apply]
  match hr : x fs s with
  | (.done _, _, _) | (.failed _, _, _) | (.crashed, _, _) => rw [hr] at h; exact h

theorem postEnsure {c : Bool} {e : ε} {f : Unit → Prog σ ε α} (ht : c → Post Q E C (f () fs s))
    (hf : c = false → E e s) : Post Q E C ((ensure c e >>= f) fs s) := by
  cases c with
  | true => exact ht rfl
  | false => exact hf rfl

theorem postOnPart {τ : Type} {Q : α → τ → Prop} {E : ε → τ → Prop} {C : τ → Prop} {get : τ → σ} {put : τ → σ → τ}
    {t : τ} (h : Post (fun a s => Q a (put t s)) (fun e s => E e (put t s)) (fun s => C (put t s)) (x fs (get t))) :
    Post Q E C (onPart get put x fs t) := by
  unfold onPart
  match hr : x fs (get t) with
  | (.done _, _, _) | (.failed _, _, _) | (.crashed, _, _) => rw [hr] at h; exact h

theorem onPart' {τ : Type} {P : τ → Prop} {Q : α → τ → Prop} {E : ε → τ → Prop} {C : τ → Prop}
    {get : τ → σ} {put : τ → σ → τ}
    (h : ∀ t, P t → Spec (· = get t) x (fun a s => Q a (put t s)) (fun e s => E e (put t s))
      (fun s => C (put t s))) : Spec P (onPart get put x) Q E C :=
  fun fs t ht => postOnPart (h t ht fs (get t) rfl)

theorem forEach' {f : β → Prog σ ε Unit} {l : List β} (hf : ∀ b ∈ l, Spec I (f b) (fun _ => I) E C) :
    Spec I (forEach f l) (fun _ => I) E C := by
  induction l with
  | nil => exact pure' () fun _ h => h
  | cons b rest ih =>
    exact bind' (hf b (.head _)) fun _ => ih (fun c hc => hf c (.tail _ hc))

/-- A loop of effects that keeps `I`, each of which brings about `D` for its entry and
    undoes it for none. -/
theorem forEachEffect {D : β → σ → Prop} {g : β → σ → σ} (e : ε) : ∀ {l : List β} {I : σ → Prop},
    (∀ b ∈ l, ∀ s, I s → I (g b s) ∧ D b (g b s)) → (∀ b ∈ l, ∀ c s, I s → D c s → D c (g b s)) →
    (∀ s, I s → E e s) → (∀ s, I s → C s) →
    Spec I (forEach (fun b => effect e (g b)) l) (fun _ s => I s ∧ ∀ b ∈ l, D b s) E C
  | [], _, _, _, _, _ => pure' () fun s h => ⟨h, nofun⟩
  | b :: rest, I, hstep, hkeep, he, hc => by
    refine bind' (M := fun _ s => I s ∧ D b s) (effect' e _ (hstep b (.head _)) he hc) fun _ => ?_
    -- what the first entry brought about is part of what the others keep
    refine (forEachEffect e (fun c hcm s h => ?_)
      (fun c hcm a s h => hkeep c (.tail _ hcm) a s h.1) (fun s h => he s h.1)
      (fun s h => hc s h.1)).post (fun _ s h => ⟨h.1.1, ?_⟩) (fun _ _ h => h) (fun _ h => h)
    · have hone := hstep c (.tail _ hcm) s h.1
      exact ⟨⟨hone.1, hkeep c (.tail _ hcm) b s h.1 h.2⟩, hone.2⟩
    · intro c hcm
      rcases List.mem_cons.mp hcm with rfl | hcm
      · exact h.1.2
      · exact h.2 c hcm

theorem state (h : Spec P x (fun _ => I) (fun _ => I) I) (fs : List Fault) (hs : P s) : I (x fs s).2.1 := by
  have hp := h fs s hs
  match hr : x fs s with
  | (.done _, _, _) | (.failed _, _, _) | (.crashed, _, _) => rw [hr] at hp; exact hp

end Spec

/-- One statement about every way to stop early. -/
abbrev SpecOr (P : σ → Prop) (x : Prog σ ε α) (Q : α → σ → Prop) (I : σ → Prop) : Prop := Spec P x Q (fun _ => I) I

/-- From `P`, whatever happens, to `I`. -/
abbrev LeadsTo (P : σ → Prop) (x : Prog σ ε α) (I : σ → Prop) : Prop := SpecOr P x (fun _ => I) I

/-- However `x` ends, it leaves `I` as it found it. -/
abbrev Keeps (I : σ → Prop) (x : Prog σ ε α) : Prop := Spec I x (fun _ => I) (fun _ => I) I

namespace Keeps
variable {I : σ → Prop}
variable {x : Prog σ ε α}

theorem pure' (a : α) : Keeps I (Pure.pure a : Prog σ ε α) := Spec.pure' a (fun _ h => h)

theorem throw' (e : ε) : Keeps I (Prog.throw e : Prog σ ε α) := Spec.throw' e (fun _ h => h)

theorem read' (f : σ → α) : Keeps I (Prog.read f : Prog σ ε α) := Spec.read' f (fun _ h => h)

theorem effect' (e : ε) (f : σ → σ) (h : ∀ s, I s → I (f s)) : Keeps I (effect e f) :=
  Spec.effect' e f h (fun _ h => h) fun _ h => h

theorem point' (e : ε) : Keeps I (point e : Prog σ ε Unit) := effect' e id (fun _ h => h)

theorem bind' {f : α → Prog σ ε β} (hx : Keeps I x) (hf : ∀ a, Keeps I (f a)) : Keeps I (x >>= f) :=
  Spec.bind' hx hf

theorem ite' {c : Prop} [Decidable c] {y : Prog σ ε α} (hx : Keeps I x) (hy : Keeps I y) :
    Keeps I (if c then x else y) :=
  Spec.ite' (fun _ => hx) fun _ => hy

theorem ensure' (c : Bool) (e : ε) : Keeps I (ensure c e : Prog σ ε Unit) :=
  Spec.ensure' c e (fun _ _ h => h) fun _ h => h

theorem ofExcept' (r : Except ε α) : Keeps I (Prog.ofExcept r : Prog σ ε α) :=
  Spec.ofExcept' r (fun _ _ _ h => h) fun _ _ _ h => h

theorem forEach' {f : β → Prog σ ε Unit} {l : List β} (hf : ∀ b, Keeps I (f b)) : Keeps I (forEach f l) :=
  Spec.forEach' fun b _ => hf b

theorem attempt' (hx : Keeps I x) : Keeps I (attempt x) := Spec.attempt' hx

theorem deferring' {cleanup : Prog σ ε Unit} (hx : Keeps I x) (hc : Keeps I cleanup) :
    Keeps I (deferring cleanup x) :=
  Spec.deferring' hx (fun _ => hc) fun _ => hc

theorem onFailure' {cleanup : Prog σ ε Unit} (hx : Keeps I x) (hc : Keeps I cleanup) :
    Keeps I (onFailure cleanup x) :=
  Spec.onFailure' hx fun _ => hc

theorem of_forall (h : ∀ s, I s) : Keeps I x := by
  intro fs s _
  match hr : x fs s with
  | (.done _, s', _) | (.failed _, s', _) | (.crashed, s', _) => exact h s'

end Keeps

theorem Spec.after {P : σ → Prop} {x : Prog σ ε α} {f : α → Prog σ ε β} {Q : β → σ → Prop}
    {E : ε → σ → Prop} {C : σ → Prop} (hx : Keeps P x) (he : ∀ e s, P s → E e s) (hc : ∀ s, P s → C s)
    (hf : ∀ a, Spec P (f a) Q E C) : Spec P (x >>= f) Q E C :=
  .bind' (hx.post (fun _ _ h => h) he hc) hf

namespace SpecOr
variable {P I : σ → Prop} {Q : β → σ → Prop} (h : ∀ s, P s → I s)
include h

theorem after {x : Prog σ ε α} {f : α → Prog σ ε β} (hx : Keeps P x) (hf : ∀ a, SpecOr P (f a) Q I) :
    SpecOr P (x >>= f) Q I :=
  Spec.after hx (fun _ => h) h hf

variable {e : ε}

theorem point' {f : Unit → Prog σ ε β} (hf : ∀ u, SpecOr P (f u) Q I) : SpecOr P (point e >>= f) Q I :=
  after h (.point' e) hf

theorem effect' {g : σ → σ} {Q : Unit → σ → Prop} (hq : ∀ s, P s → Q () (g s)) : SpecOr P (effect e g) Q I :=
  Spec.effect' e g hq h h

theorem final' {Q : Unit → σ → Prop} (hq : ∀ s, P s → Q () s) : SpecOr P (point e) Q I :=
  Spec.point' e hq h h

theorem checked {r : Except ε α} {f : α → Prog σ ε β} (hf : ∀ a, r = .ok a → SpecOr P (f a) Q I) :
    SpecOr P (Prog.ofExcept r >>= f) Q I :=
  Spec.checked (fun _ => h) hf

end SpecOr

/-- What holds whenever `x` returns. -/
abbrev Ensures (P : σ → Prop) (x : Prog σ ε α) (Q : α → σ → Prop) : Prop := Spec P x Q (fun _ _ => True) (fun _ => True)

namespace Ensures
variable {P : σ → Prop} {Q : β → σ → Prop}

theorem of_spec {x : Prog σ ε β} {E : ε → σ → Prop} {C : σ → Prop} (h : Spec P x Q E C) : Ensures P x Q :=
  h.post (fun _ _ h => h) (fun _ _ _ => trivial) fun _ _ => trivial

theorem throw' {e : ε} : Ensures P (Prog.throw e) Q := Spec.throw' e (fun _ _ => trivial)

theorem after {x : Prog σ ε α} {f : α → Prog σ ε β} (hx : Keeps P x) (hf : ∀ a, Ensures P (f a) Q) :
    Ensures P (x >>= f) Q :=
  Spec.after hx (fun _ _ _ => trivial) (fun _ _ => trivial) hf

theorem point' {e : ε} {f : Unit → Prog σ ε β} (h : Ensures P (f ()) Q) : Ensures P (point e >>= f) Q :=
  after (.point' e) fun _ => h

theorem ensure' {c : Bool} {e : ε} {f : Unit → Prog σ ε β} (h : c → Ensures P (f ()) Q) :
    Ensures P (ensure c e >>= f) Q := by
  cases c with
  | true => exact h rfl
  | false => exact fun _ _ _ => trivial

theorem checked {r : Except ε α} {k : α → Prog σ ε β} (h : ∀ a, r = .ok a → Ensures P (k a) Q) :
    Ensures P (Prog.ofExcept r >>= k) Q :=
  Spec.checked (fun _ _ _ => trivial) h

theorem replace {e e' e'' : ε} {g : σ → σ} {I : σ → Prop} (h : ∀ s, P s → I (g s)) :
    Ensures P (do point e; effect e' g; point e'') (fun _ => I) := by
  refine point' (.bind' (M := fun _ => I) (.effect' _ _ h (fun _ _ => trivial) (fun _ _ => trivial)) fun _ => ?_)
  exact .point' _ (fun _ h => h) (fun _ _ => trivial) fun _ _ => trivial

end Ensures

end Spec

/-! ## The run without a fault -/

section Runs
variable {σ ε α β : Type}

/-- Without any fault, `x` returns `a` and leaves the state `s'`. -/
def Runs (x : Prog σ ε α) (s : σ) (a : α) (s' : σ) : Prop := x [] s = (.done a, s', [])

namespace Runs

variable {x : Prog σ ε α}

theorem pure' (a : α) (s : σ) : Runs (Pure.pure a : Prog σ ε α) s a s := rfl

theorem read' (f : σ → α) (s : σ) : Runs (Prog.read f : Prog σ ε α) s (f s) s := rfl

theorem effect' (e : ε) (f : σ → σ) (s : σ) : Runs (effect e f) s () (f s) := rfl

theorem point' (e : ε) (s : σ) : Runs (point e : Prog σ ε Unit) s () s := rfl

variable {a : α}

theorem eq {s s' : σ} (hx : Runs x s a s') : x [] s = (.done a, s', []) := hx

theorem bind' {f : α → Prog σ ε β} {s s' s'' : σ} {b : β} (hx : Runs x s a s') (hf : Runs (f a) s' b s'') :
    Runs (x >>= f) s b s'' := by
  unfold Runs at hx hf ⊢
  rw [Prog.bind_apply, hx]
  exact hf

theorem ensure' {c : Bool} (e : ε) (s : σ) (h : c) : Runs (ensure c e : Prog σ ε Unit) s () s := by
  rw [ensure, h]; rfl

theorem attempt' {s s' : σ} (hx : Runs x s a s') : Runs (attempt x) s (.ok a) s' := by
  unfold Runs at hx ⊢
  unfold attempt
  rw [hx]

theorem onFailure' {cleanup : Prog σ ε Unit} {s s' : σ} (hx : Runs x s a s') : Runs (onFailure cleanup x) s a s' :=
  bind' (attempt' hx) (pure' a s')

theorem deferring' {cleanup : Prog σ ε Unit} {s s' s'' : σ} (hx : Runs x s a s') (hc : Runs cleanup s' () s'') :
    Runs (deferring cleanup x) s a s'' :=
  bind' (attempt' hx) (bind' (attempt' hc) (pure' a s''))

theorem ofExcept' {r : Except ε α} (s : σ) (h : r = .ok a) : Runs (Prog.ofExcept r : Prog σ ε α) s a s := by
  rw [h]; rfl

theorem onPart' {τ : Type} {get : τ → σ} {put : τ → σ → τ} {t : τ} {s' : σ} (hx : Runs x (get t) a s') :
    Runs (onPart get put x) t a (put t s') := by
  unfold Runs at hx ⊢
  unfold onPart
  rw [hx]

end Runs

/-- Without any fault, `x` returns. -/
def Returns (x : Prog σ ε α) (s : σ) : Prop := ∃ a s', Runs x s a s'

namespace Returns

variable {x : Prog σ ε α}

theorem of_runs {s s' : σ} {a : α} (h : Runs x s a s') : Returns x s := ⟨a, s', h⟩

theorem step {f : α → Prog σ ε β} {s s' : σ} {a : α} (hx : Runs x s a s') (hf : Returns (f a) s') :
    Returns (x >>= f) s := by
  obtain ⟨b, s'', hr⟩ := hf
  exact ⟨b, s'', .bind' hx hr⟩

theorem bind' {P : σ → Prop} {M : α → σ → Prop} {E : ε → σ → Prop} {C : σ → Prop} {f : α → Prog σ ε β} {s : σ}
    (hx : Returns x s) (hspec : Spec P x M E C) (hp : P s) (hf : ∀ a s', M a s' → Returns (f a) s') :
    Returns (x >>= f) s := by
  obtain ⟨a, s', hr⟩ := hx
  have hm := hspec [] s hp
  rw [hr.eq] at hm
  exact step hr (hf a s' hm)

theorem returned {s : σ} (h : Returns x s) : (x [] s).1.returned = true := by
  obtain ⟨a, s', hr⟩ := h
  rw [hr.eq]
  rfl

end Returns

end Runs

/-! ## Programs that only look -/

section Yields
variable {σ ε α β : Type}

/-- Without any fault `x` returns `a`, and whatever the schedule it returns nothing
    else; the state stays as it is. -/
def Yields (x : Prog σ ε α) (s : σ) (a : α) : Prop :=
  Runs x s a s ∧ Spec (· = s) x (fun b t => b = a ∧ t = s) (fun _ _ => True) (fun _ => True)

namespace Yields
variable {s : σ}

theorem pure' (a : α) (s : σ) : Yields (Pure.pure a : Prog σ ε α) s a :=
  ⟨.pure' a s, .pure' a (fun _ h => ⟨rfl, h⟩)⟩

theorem point' (e : ε) (s : σ) : Yields (point e : Prog σ ε Unit) s () :=
  ⟨.point' e s, .point' e (fun _ h => ⟨rfl, h⟩) (fun _ _ => trivial) (fun _ _ => trivial)⟩

theorem read' (f : σ → α) (s : σ) : Yields (Prog.read f : Prog σ ε α) s (f s) :=
  ⟨.read' f s, .read' f (fun _ h => ⟨by rw [h], h⟩)⟩

theorem ensure' {c : Bool} (e : ε) (s : σ) (h : c) : Yields (ensure c e : Prog σ ε Unit) s () :=
  ⟨.ensure' e s h, .ensure' c e (fun _ _ h => ⟨rfl, h⟩) (fun _ _ => trivial)⟩

theorem ofExcept' {r : Except ε α} {a : α} (s : σ) (h : r = .ok a) : Yields (Prog.ofExcept r : Prog σ ε α) s a := by
  rw [h]
  exact pure' a s

theorem bind' {x : Prog σ ε α} {f : α → Prog σ ε β} {a : α} {b : β} (hx : Yields x s a)
    (hf : Yields (f a) s b) : Yields (x >>= f) s b := by
  refine ⟨.bind' hx.1 hf.1, .bind' hx.2 (fun a' => ?_)⟩
  intro fs t ht
  obtain ⟨rfl, ht⟩ := ht
  exact hf.2 fs t ht

end Yields

end Yields

end CodexFold.Foundation

namespace CodexFold
export Foundation.Prog (read modify throw ofExcept)
end CodexFold
