import CodexFold.Foundation.Faults

/- One program keeps more than another and does the same.

   `Simulates R C x y` runs both under one schedule from states related by `R`: they end
   in the same way with the same schedule left, related by `R` again, or by `C` if they
   were cut off. -/
namespace CodexFold.Foundation

section
variable {τ σ ε α β : Type}

inductive Paired (R C : τ → σ → Prop) : Outcome ε α × τ × List Fault → Outcome ε α × σ × List Fault → Prop
  | done {a : α} {t : τ} {s : σ} {fs : List Fault} (h : R t s) : Paired R C (.done a, t, fs) (.done a, s, fs)
  | failed {e : ε} {t : τ} {s : σ} {fs : List Fault} (h : R t s) : Paired R C (.failed e, t, fs) (.failed e, s, fs)
  | crashed {t : τ} {s : σ} {fs : List Fault} (h : C t s) : Paired R C (.crashed, t, fs) (.crashed, s, fs)

def Simulates (R C : τ → σ → Prop) (x : Prog τ ε α) (y : Prog σ ε α) : Prop :=
  ∀ fs t s, R t s → Paired R C (x fs t) (y fs s)

namespace Simulates
variable {R C : τ → σ → Prop} {x : Prog τ ε α} {y : Prog σ ε α}

theorem pure' (a : α) : Simulates R C (pure a : Prog τ ε α) (pure a) := fun _ _ _ h => .done h

theorem throw' (e : ε) : Simulates R C (Prog.throw e : Prog τ ε α) (Prog.throw e) := fun _ _ _ h => .failed h

theorem ensure' (c : Bool) (e : ε) : Simulates R C (ensure c e : Prog τ ε Unit) (ensure c e) := by
  cases c with
  | true => exact pure' ()
  | false => exact throw' e

theorem ofExcept' (r : Except ε α) : Simulates R C (Prog.ofExcept r : Prog τ ε α) (Prog.ofExcept r) := by
  cases r with
  | ok a => exact pure' a
  | error e => exact throw' e

theorem modify' {f : τ → τ} {g : σ → σ} (h : ∀ t s, R t s → R (f t) (g s)) :
    Simulates R C (Prog.modify f : Prog τ ε Unit) (Prog.modify g) := fun _ t s hr => .done (h t s hr)

theorem bind' {f : α → Prog τ ε β} {g : α → Prog σ ε β} (hx : Simulates R C x y)
    (hf : ∀ a, Simulates R C (f a) (g a)) : Simulates R C (x >>= f) (y >>= g) := by
  intro fs t s h
  have hxy := hx fs t s h
  rw [Prog.bind_apply, Prog.bind_apply]
  generalize x fs t = p at hxy ⊢
  generalize y fs s = q at hxy ⊢
  cases hxy with
  | done h => exact hf _ _ _ _ h
  | failed h => exact .failed h
  | crashed h => exact .crashed h

/-- Both read the same. -/
theorem read' {f : τ → α} {g : σ → α} (h : ∀ t s, R t s → f t = g s) :
    Simulates R C (Prog.read f : Prog τ ε α) (Prog.read g) := by
  intro fs t s hr
  rw [Prog.read_apply, Prog.read_apply, h t s hr]
  exact .done hr

section
variable (hc : ∀ t s, R t s → C t s)
include hc

theorem effect' {f : τ → τ} {g : σ → σ} (e : ε) (h : ∀ t s, R t s → R (f t) (g s)) :
    Simulates R C (effect e f) (effect e g) := by
  intro fs t s hr
  rcases fs with _ | ⟨_ | _ | _, fs⟩
  · exact .done (h t s hr)
  · exact .done (h t s hr)
  · exact .failed hr
  · exact .crashed (hc t s hr)

theorem point' (e : ε) : Simulates R C (point e : Prog τ ε Unit) (point e) := effect' hc e fun _ _ h => h

end

theorem forEach' {f : β → Prog τ ε Unit} {g : β → Prog σ ε Unit} (h : ∀ b, Simulates R C (f b) (g b)) (l : List β) :
    Simulates R C (forEach f l) (forEach g l) := by
  induction l with
  | nil => exact pure' ()
  | cons b rest ih => exact bind' (h b) fun _ => ih

/-- A program on the part that the states have in common. -/
theorem onPart' {get : τ → σ} {put : τ → σ → τ} (hput : ∀ t s, get (put t s) = s) (y : Prog σ ε α) :
    Simulates (fun t s => s = get t) (fun t s => s = get t) (onPart get put y) y := by
  rintro fs t _ rfl
  unfold onPart
  rcases y fs (get t) with ⟨a | e | _, s, rest⟩
  · exact .done (hput t s).symm
  · exact .failed (hput t s).symm
  · exact .crashed (hput t s).symm

end Simulates

end

end CodexFold.Foundation
