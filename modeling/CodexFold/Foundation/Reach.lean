import Mathlib

/- Breadth-first search.

   The queue holds the nodes that are seen and not yet looked at. A node enters it once, when
   it is first seen, so as many turns as there are nodes empty it. -/
namespace CodexFold.Foundation
open List Relation

section
variable {α : Type} [DecidableEq α] (target : Option α) (neighbours : α → List α)

/-- The nodes seen when the queue is empty; `none` if the target is a neighbour of one of them. -/
def explore : Nat → List α → List α → Option (List α)
  | fuel + 1, seen, current :: queue =>
    if ∃ b ∈ neighbours current, target = some b then none
    else
      -- each neighbour that is not seen is queued the first time it comes up
      let fresh := ((neighbours current).filter (· ∉ seen)).eraseDups
      explore fuel (seen ++ fresh) (queue ++ fresh)
  | _, seen, _ => some seen

/-- The search from one node, with enough turns for `nodes`. -/
def sweep (nodes : List α) (start : α) : Option (List α) :=
  explore target neighbours (nodes.length + 1) [start] [start]

theorem nodup_eraseDups : ∀ l : List α, l.eraseDups.Nodup
  | [] => by simp
  | a :: l => by
    rw [eraseDups_cons, nodup_cons, mem_eraseDups]
    exact ⟨by simp, nodup_eraseDups _⟩
termination_by l => l.length
decreasing_by exact Nat.lt_succ_of_le (length_filter_le _ _)

abbrev Next : α → α → Prop := fun a b => b ∈ neighbours a

/-- The search has come from `start` and has looked at the neighbours of what is not queued. -/
structure Explored (nodes : List α) (start : α) (seen queue : List α) : Prop where
  origin : start ∈ seen
  nodup : seen.Nodup
  inside : ∀ b ∈ seen, b ∈ start :: nodes
  sound : ∀ b ∈ seen, ReflTransGen (Next neighbours) start b
  queued : ∀ b ∈ queue, b ∈ seen
  closed : ∀ a ∈ seen, a ∈ queue ∨ ∀ b ∈ neighbours a, target ≠ some b ∧ b ∈ seen

variable {target neighbours} {nodes : List α} {start : α} {seen queue fresh : List α}

omit [DecidableEq α] in
theorem Explored.complete (h : Explored target neighbours nodes start seen []) {b : α}
    (hb : ReflTransGen (Next neighbours) start b) : b ∈ seen := by
  induction hb with
  | refl => exact h.origin
  | tail _ hstep ih => exact ((h.closed _ ih).resolve_left not_mem_nil _ hstep).2

variable (hnodes : ∀ a, ∀ b ∈ neighbours a, b ∈ nodes)
include hnodes

omit [DecidableEq α] in
/-- The step lemma. -/
theorem Explored.turn {current : α} (h : Explored target neighbours nodes start seen (current :: queue))
    (htarget : ∀ b ∈ neighbours current, target ≠ some b) (hnodup : fresh.Nodup)
    (hfresh : ∀ b, b ∈ fresh ↔ b ∈ neighbours current ∧ b ∉ seen) :
    Explored target neighbours nodes start (seen ++ fresh) (queue ++ fresh) where
  origin := mem_append_left _ h.origin
  nodup := h.nodup.append hnodup fun b hb hb' => ((hfresh b).mp hb').2 hb
  inside b hb := (mem_append.mp hb).elim (h.inside b) fun hb => .tail _ (hnodes current b ((hfresh b).mp hb).1)
  sound b hb := (mem_append.mp hb).elim (h.sound b) fun hb =>
    (h.sound current (h.queued _ (.head _))).tail ((hfresh b).mp hb).1
  queued b hb := (mem_append.mp hb).elim (fun hb => mem_append_left _ (h.queued b (.tail _ hb))) (mem_append_right _)
  closed a ha := by
    rcases mem_append.mp ha with ha | ha
    · rcases h.closed a ha with hqueued | hclosed
      · rcases mem_cons.mp hqueued with rfl | hqueued
        · refine .inr fun b hb => ⟨htarget b hb, mem_append.mpr ?_⟩
          exact (em (b ∈ seen)).imp_right fun hseen => (hfresh b).mpr ⟨hb, hseen⟩
        · exact .inl (mem_append_left _ hqueued)
      · exact .inr fun b hb => ⟨(hclosed b hb).1, mem_append_left _ (hclosed b hb).2⟩
    · exact .inl (mem_append_right _ ha)

/-- The run lemma: with a turn for each node the queue runs empty. -/
theorem Explored.explore : ∀ (fuel : Nat) (seen queue : List α), Explored target neighbours nodes start seen queue →
    nodes.length + 1 + queue.length ≤ fuel + seen.length → match explore target neighbours fuel seen queue with
    | none => ∃ t, target = some t ∧ TransGen (Next neighbours) start t
    | some seen => Explored target neighbours nodes start seen []
  | 0, seen, [], h, _ | _ + 1, seen, [], h, _ => h
  | 0, seen, current :: queue, h, hfuel => by
    have hle := (h.nodup.subperm h.inside).length_le
    simp only [length_cons] at hle hfuel
    omega
  | fuel + 1, seen, current :: queue, h, hfuel => by
    unfold Foundation.explore
    split_ifs with htarget
    · obtain ⟨b, hb, htarget⟩ := htarget
      exact ⟨b, htarget, .tail' (h.sound _ (h.queued _ (.head _))) hb⟩
    · refine explore fuel _ _ (h.turn hnodes (by simpa using htarget) (nodup_eraseDups _) (by simp)) ?_
      simp only [length_cons, length_append] at hfuel ⊢
      omega

theorem sweep_spec (target : Option α) (start : α) : match sweep target neighbours nodes start with
    | none => ∃ t, target = some t ∧ TransGen (Next neighbours) start t
    | some seen => Explored target neighbours nodes start seen [] :=
  Explored.explore hnodes _ _ _ ⟨.head _, nodup_singleton _, by simp, by simp [ReflTransGen.refl], by simp, by simp⟩
    (Nat.le_refl _)

theorem sweep_eq_none {t : α} : sweep (some t) neighbours nodes start = none ↔ TransGen (Next neighbours) start t := by
  have hsweep := sweep_spec hnodes (some t) start
  cases h : sweep (some t) neighbours nodes start <;> rw [h] at hsweep
  · obtain ⟨_, ⟨⟩, hpath⟩ := hsweep
    exact iff_of_true rfl hpath
  · refine iff_of_false nofun fun hpath => ?_
    obtain ⟨last, hlast, hstep⟩ := TransGen.tail'_iff.mp hpath
    exact ((hsweep.closed _ (hsweep.complete hlast)).resolve_left not_mem_nil _ hstep).1 rfl

theorem sweep_eq_some (start : α) : ∃ seen, sweep none neighbours nodes start = some seen ∧ seen.Nodup ∧
    ∀ b, b ∈ seen ↔ ReflTransGen (Next neighbours) start b := by
  have hsweep := sweep_spec hnodes none start
  cases h : sweep none neighbours nodes start <;> rw [h] at hsweep
  · obtain ⟨_, ⟨⟩, -⟩ := hsweep
  · exact ⟨_, rfl, hsweep.nodup, fun b => ⟨hsweep.sound b, hsweep.complete⟩⟩

end

end CodexFold.Foundation
