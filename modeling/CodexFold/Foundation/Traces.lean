import Mathlib

/- Runs of a machine that refuses some actions in some states.

   A run is a list of actions, each taken where the one before it left the machine.
   `Along` states a condition on every step of a run; what each step keeps under that
   condition, the run keeps. -/
namespace CodexFold.Foundation
open List

theorem guard_eq_some {σ : Type} {c : Prop} [Decidable c] {s t : σ} : (if c then some s else none) = some t ↔ c ∧ s = t := by
  simp

variable {σ α : Type}

/-- The state after a list of actions, if none of them is refused. -/
def runFrom (step : σ → α → Option σ) (s : σ) : List α → Option σ
  | [] => some s
  | action :: rest =>
    match step s action with
    | none => none
    | some s' => runFrom step s' rest

/-- Every step of the run meets `C`. -/
def Along (step : σ → α → Option σ) (C : σ → α → Prop) (s : σ) : List α → Prop
  | [] => True
  | action :: rest => C s action ∧ ∀ s', step s action = some s' → Along step C s' rest

/-- A condition that can be decided at every step can be decided along a run. -/
instance Along.decidable (step : σ → α → Option σ) (C : σ → α → Prop) [∀ s action, Decidable (C s action)] :
    (s : σ) → (actions : List α) → Decidable (Along step C s actions)
  | _, [] => inferInstanceAs (Decidable True)
  | s, action :: rest =>
    match h : step s action with
    | none => decidable_of_iff (C s action) ⟨fun hc => ⟨hc, fun _ ht => nomatch h.symm.trans ht⟩, fun hc => hc.1⟩
    | some t =>
      have := Along.decidable step C t rest
      decidable_of_iff (C s action ∧ Along step C t rest)
        ⟨fun hc => ⟨hc.1, fun _ hu => Option.some.inj (h.symm.trans hu) ▸ hc.2⟩, fun hc => ⟨hc.1, hc.2 t h⟩⟩

section
variable {step : σ → α → Option σ} {C : σ → α → Prop}

theorem runFrom_append : ∀ (actions : List α) {s : σ} {rest : List α},
    runFrom step s (actions ++ rest) = (runFrom step s actions).bind fun t => runFrom step t rest
  | [], _, _ => rfl
  | action :: actions, s, rest => by
    simp only [cons_append, runFrom]
    cases step s action with
    | none => rfl
    | some t => exact runFrom_append actions

theorem runFrom_append_eq_some {actions rest : List α} {s t u : σ} (h : runFrom step s actions = some t)
    (h' : runFrom step t rest = some u) : runFrom step s (actions ++ rest) = some u := by
  rw [runFrom_append, h]
  exact h'

theorem Along.append : ∀ (actions : List α) {s : σ} {rest : List α}, Along step C s actions →
    (∀ t, runFrom step s actions = some t → Along step C t rest) → Along step C s (actions ++ rest)
  | [], s, _, _, h => h s rfl
  | action :: actions, s, rest, ha, h => by
    refine ⟨ha.1, fun t ht => Along.append actions (ha.2 t ht) fun u hu => h u ?_⟩
    simpa [runFrom, ht] using hu

theorem Along.last : ∀ {actions : List α} {action : α} {s t : σ}, Along step C s (actions ++ [action]) →
    runFrom step s actions = some t → C t action
  | [], _, _, _, h, hr => Option.some.inj hr ▸ h.1
  | first :: rest, action, s, t, h, hr => by
    unfold runFrom at hr
    cases hs : step s first with
    | none => simp [hs] at hr
    | some u =>
      simp only [hs] at hr
      exact Along.last (h.2 u hs) hr

theorem Along.of_forall : ∀ (actions : List α) {s : σ}, (∀ t, ∀ action ∈ actions, C t action) → Along step C s actions
  | [], _, _ => trivial
  | _ :: actions, s, h =>
    ⟨h s _ (.head _), fun _ _ => Along.of_forall actions fun t b hb => h t b (.tail _ hb)⟩

theorem Along.invariant {I : σ → Prop} (hstep : ∀ s action s', I s → C s action → step s action = some s' → I s') :
    ∀ (actions : List α) {s s' : σ}, I s → Along step C s actions → runFrom step s actions = some s' → I s'
  | [], _, _, h, _, hr => Option.some.inj hr ▸ h
  | action :: rest, s, s', h, hc, hr => by
    unfold runFrom at hr
    cases hs : step s action with
    | none => simp [hs] at hr
    | some t =>
      simp only [hs] at hr
      exact Along.invariant hstep rest (hstep s action t h hc.1 hs) (hc.2 t hs) hr

theorem Along.reaches {I : σ → Prop} (hstep : ∀ s action, I s → C s action → ∃ s', step s action = some s' ∧ I s') :
    ∀ (actions : List α) {s : σ}, I s → Along step C s actions → ∃ s', runFrom step s actions = some s' ∧ I s'
  | [], s, h, _ => ⟨s, rfl, h⟩
  | action :: rest, s, h, hc => by
    obtain ⟨t, hs, ht⟩ := hstep s action h hc.1
    obtain ⟨u, hu, hi⟩ := Along.reaches hstep rest ht (hc.2 t hs)
    exact ⟨u, by simpa only [runFrom, hs] using hu, hi⟩

theorem Along.history {s₀ : σ} {I : List α → σ → Prop}
    (hstep : ∀ done s action s', runFrom step s₀ done = some s → I done s → C s action →
      step s action = some s' → I (done ++ [action]) s') :
    ∀ (rest done : List α) {s s' : σ}, runFrom step s₀ done = some s → I done s → Along step C s rest →
      runFrom step s rest = some s' → I (done ++ rest) s'
  | [], done, _, _, _, h, _, hr => by
    rw [append_nil]
    exact Option.some.inj hr ▸ h
  | action :: rest, done, s, s', hdone, h, hc, hr => by
    unfold runFrom at hr
    cases hs : step s action with
    | none => simp [hs] at hr
    | some t =>
      simp only [hs] at hr
      have hnext : runFrom step s₀ (done ++ [action]) = some t :=
        runFrom_append_eq_some hdone (by simp [runFrom, hs])
      have := Along.history hstep rest (done ++ [action]) hnext (hstep done s action t hdone h hc.1 hs) (hc.2 t hs) hr
      rwa [append_assoc] at this

/-- A condition that is exact: `P` holds in every state a run passes if and only if every
    step meets the condition, where the invariant of such runs gives `P` and a step
    outside the condition leads from it to a state without `P`. -/
theorem Along.iff_throughout {I P : σ → Prop} (hholds : ∀ s, I s → P s)
    (hstep : ∀ s action s', I s → C s action → step s action = some s' → I s')
    (hbreak : ∀ s action, I s → ¬C s action → ∃ s', step s action = some s' ∧ ¬P s') : ∀ (actions : List α) {s : σ}, I s →
      ((∀ done t, done <+: actions → runFrom step s done = some t → P t) ↔ Along step C s actions)
  | [], s, h => by
    refine ⟨fun _ => trivial, fun _ done t hdone hr => ?_⟩
    rw [prefix_nil.mp hdone] at hr
    exact Option.some.inj hr ▸ hholds s h
  | action :: rest, s, h => by
    constructor
    · intro hp
      have hc : C s action := by
        by_contra hc
        obtain ⟨t, ht, hnot⟩ := hbreak s action h hc
        exact hnot (hp [action] t (prefix_append [action] rest) (by simp [runFrom, ht]))
      refine ⟨hc, fun t ht => ?_⟩
      refine (Along.iff_throughout hholds hstep hbreak rest (hstep s action t h hc ht)).mp fun done u hdone hu => ?_
      exact hp (action :: done) u (cons_prefix_cons.mpr ⟨rfl, hdone⟩) (by simpa [runFrom, ht] using hu)
    · rintro ⟨hc, hrest⟩ done t hdone hr
      cases done with
      | nil => exact Option.some.inj hr ▸ hholds s h
      | cons b done =>
        obtain ⟨rfl, hrun⟩ := cons_prefix_cons.mp hdone
        unfold runFrom at hr
        cases hs : step s b with
        | none => simp [hs] at hr
        | some u =>
          simp only [hs] at hr
          exact (Along.iff_throughout hholds hstep hbreak rest (hstep s b u h hc hs)).mpr (hrest u hs) done t hrun hr

end

end CodexFold.Foundation
