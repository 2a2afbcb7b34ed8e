import CodexFold.Foundation.Content

/- How many records two rollouts share (`internal/family`).

   The records of the right rollout wait in one queue for each fingerprint. A record of the
   left one takes the first in its queue with the same bytes; those it passes over are
   remembered as collisions, and later records look there first. So nothing with the right
   bytes is ever missed, whatever collides: `step` takes one record from the multiset of
   those that are left, if it is there. -/
namespace CodexFold.Family
open Foundation List Function

structure Pool where
  collisions : List (Bytes × Bool)
  queue : List Bytes

/-- `equalRanges`: the sizes, then the bytes. -/
def equalRanges (left right : Bytes) : Bool := left.length == right.length && left == right

def useCollision (left : Bytes) : List (Bytes × Bool) → Option (List (Bytes × Bool))
  | [] => none
  | (right, used) :: rest =>
    if !used && equalRanges left right then some ((right, true) :: rest)
    else (useCollision left rest).map ((right, used) :: ·)

def useNext (left : Bytes) (collisions : List (Bytes × Bool)) : List Bytes → Pool × Bool
  | [] => (⟨collisions, []⟩, false)
  | right :: rest =>
    if equalRanges left right then (⟨collisions, rest⟩, true)
    else useNext left (collisions ++ [(right, false)]) rest

def Pool.take (p : Pool) (left : Bytes) : Pool × Bool :=
  match useCollision left p.collisions with
  | some collisions => ({ p with collisions }, true)
  | none => useNext left p.collisions p.queue

section
variable {Digest : Type} [DecidableEq Digest] (sha256 : Bytes → Digest)

def fingerprint (data : Bytes) : Digest × Nat := (sha256 data, data.length)

def candidates (right : List Bytes) (key : Digest × Nat) : Pool :=
  ⟨[], right.filter fun item => fingerprint sha256 item = key⟩

def step (s : (Digest × Nat → Pool) × Nat) (left : Bytes) : (Digest × Nat → Pool) × Nat :=
  let key := fingerprint sha256 left
  let taken := (s.1 key).take left
  (update s.1 key taken.1, if taken.2 then s.2 + 1 else s.2)

def sharedRecordCount (left right : List Bytes) : Nat := (left.foldl (step sha256) (candidates sha256 right, 0)).2

/-! ## What is left -/

def Pool.available (p : Pool) : List Bytes := (p.collisions.filter fun c => !c.2).map Prod.fst ++ p.queue

@[simp] theorem equalRanges_iff {left right : Bytes} : equalRanges left right ↔ left = right := by
  simp only [equalRanges, Bool.and_eq_true, beq_iff_eq, and_iff_right_iff_imp]
  exact (congrArg length)

theorem useCollision_spec (left : Bytes) (collisions : List (Bytes × Bool)) :
    match useCollision left collisions with
    | some rest => ((collisions.filter fun c => !c.2).map Prod.fst).Perm
        (left :: (rest.filter fun c => !c.2).map Prod.fst)
    | none => left ∉ (collisions.filter fun c => !c.2).map Prod.fst := by
  induction collisions with
  | nil => exact not_mem_nil
  | cons c collisions ih =>
    obtain ⟨right, used⟩ := c
    unfold useCollision
    cases hused : used with
    | true =>
      cases hrest : useCollision left collisions with
      | none | some rest => simpa [hrest] using ih
    | false =>
      by_cases hne : left = right
      · simp [hne]
      · cases hrest : useCollision left collisions with
        | none => simpa [hrest, hne] using ih
        | some rest =>
          simp only [hrest] at ih
          simpa [hne, hrest] using (ih.cons right).trans (.swap left right _)

theorem useNext_spec (left : Bytes) (queue : List Bytes) (collisions : List (Bytes × Bool))
    (h : left ∉ (collisions.filter fun c => !c.2).map Prod.fst) :
    let taken := useNext left collisions queue
    if taken.2 then (Pool.mk collisions queue).available.Perm (left :: taken.1.available)
    else left ∉ (Pool.mk collisions queue).available ∧ taken.1.available = (Pool.mk collisions queue).available := by
  induction queue generalizing collisions with
  | nil => simpa [useNext, Pool.available] using h
  | cons right queue ih =>
    unfold useNext
    by_cases hne : left = right
    · simp [hne, Pool.available]
    · have hsame : (Pool.mk (collisions ++ [(right, false)]) queue).available =
          (Pool.mk collisions (right :: queue)).available := by simp [Pool.available]
      have hnext := ih (collisions ++ [(right, false)]) (by simpa [hne] using h)
      simpa only [equalRanges_iff, hne, if_false, hsame] using hnext

theorem Pool.take_spec (p : Pool) (left : Bytes) : ((p.take left).2 ↔ left ∈ p.available) ∧
    ((p.take left).1.available : Multiset Bytes) = (p.available : Multiset Bytes).erase left := by
  have htaken : ∀ q : Pool, p.available.Perm (left :: q.available) → left ∈ p.available ∧
      (q.available : Multiset Bytes) = (p.available : Multiset Bytes).erase left := by
    intro q hperm
    rw [Multiset.coe_eq_coe.mpr hperm, ← Multiset.cons_coe, Multiset.erase_cons_head]
    exact ⟨hperm.mem_iff.mpr (.head _), rfl⟩
  have hcollision := useCollision_spec left p.collisions
  unfold Pool.take
  split
  next rest hrest =>
    simp only [hrest] at hcollision
    obtain ⟨hmem, heq⟩ := htaken ⟨rest, p.queue⟩ (hcollision.append_right p.queue)
    exact ⟨iff_of_true rfl hmem, heq⟩
  next hnone =>
    simp only [hnone] at hcollision
    have hnext := useNext_spec left p.queue p.collisions hcollision
    cases hfound : (useNext left p.collisions p.queue).2 with
    | true =>
      simp only [hfound, if_true] at hnext
      obtain ⟨hmem, heq⟩ := htaken _ hnext
      exact ⟨iff_of_true rfl hmem, heq⟩
    | false =>
      simp only [hfound, Bool.false_eq_true, if_false] at hnext
      refine ⟨iff_of_false (by decide) hnext.1, ?_⟩
      rw [hnext.2, Multiset.erase_of_notMem hnext.1]

def Holds (pools : Digest × Nat → Pool) (rest : Multiset Bytes) : Prop :=
  ∀ data, Multiset.count data (pools (fingerprint sha256 data)).available = rest.count data

section

variable {pools : Digest × Nat → Pool} {rest : Multiset Bytes} (h : Holds sha256 pools rest)
include h

theorem Holds.step (count : Nat) (left : Bytes) : Holds sha256 (step sha256 (pools, count) left).1 (rest.erase left) ∧
      (step sha256 (pools, count) left).2 = if left ∈ rest then count + 1 else count := by
  obtain ⟨hmatched, htaken⟩ := (pools (fingerprint sha256 left)).take_spec left
  have hmem : left ∈ (pools (fingerprint sha256 left)).available ↔ left ∈ rest := by
    rw [← Multiset.mem_coe, ← Multiset.count_pos, h left, Multiset.count_pos]
  refine ⟨fun data => ?_, ?_⟩
  · by_cases hkey : fingerprint sha256 data = fingerprint sha256 left
    · have hcount := h data
      rw [hkey] at hcount
      simp only [Family.step, hkey, update_self]
      rw [htaken]
      by_cases hd : data = left
      · subst hd
        rw [Multiset.count_erase_self, Multiset.count_erase_self, hcount]
      · rw [Multiset.count_erase_of_ne hd, Multiset.count_erase_of_ne hd, hcount]
    · have hne : data ≠ left := fun hd => hkey (hd ▸ rfl)
      simp only [Family.step, update_of_ne hkey]
      rw [h data, Multiset.count_erase_of_ne hne]
  · simp only [Family.step, hmatched, hmem]

theorem foldl_step (count : Nat) (left : List Bytes) :
    (left.foldl (step sha256) (pools, count)).2 = count + ((left : Multiset Bytes) ∩ rest).card := by
  induction left generalizing pools rest count with
  | nil => simp
  | cons data left ih =>
    obtain ⟨hholds, hcount⟩ := h.step sha256 count data
    rw [foldl_cons, ← Prod.mk.eta (p := step sha256 (pools, count) data), ih hholds, hcount, ← Multiset.cons_coe]
    by_cases hmem : data ∈ rest
    · rw [if_pos hmem, Multiset.cons_inter_of_pos _ hmem, Multiset.card_cons]
      omega
    · rw [if_neg hmem, Multiset.cons_inter_of_neg _ hmem, Multiset.erase_of_notMem hmem]

end

/-- The shared records are counted with the smaller of their multiplicities, whatever the
    fingerprints are, so the order of the rollouts does not matter. -/
theorem sharedRecordCount_eq (left right : List Bytes) :
    sharedRecordCount sha256 left right = ∑ data ∈ (left ++ right).toFinset, min (Multiset.count data left) (Multiset.count data right) ∧
    sharedRecordCount sha256 left right = sharedRecordCount sha256 right left := by
  have hcard : ∀ left right, sharedRecordCount sha256 left right = ((left : Multiset Bytes) ∩ (right : Multiset Bytes)).card := by
    intro left right
    have hholds : Holds sha256 (candidates sha256 right) right := by
      intro data
      simp only [candidates, Pool.available, filter_nil, map_nil, nil_append]
      rw [← Multiset.filter_coe, Multiset.count_filter_of_pos (by simp)]
    rw [sharedRecordCount, foldl_step sha256 hholds, zero_add]
  refine ⟨?_, by rw [hcard, hcard, Multiset.inter_comm]⟩
  have hall : ∀ data ∈ (left : Multiset Bytes) ∩ right, data ∈ (left ++ right).toFinset := by
    intro data hdata
    have hleft : data ∈ left := (Multiset.mem_inter.mp hdata).1
    simp [hleft]
  rw [hcard, ← Multiset.sum_count_eq_card hall]
  simp only [Multiset.count_inter]

end

end CodexFold.Family
