import Mathlib

/- Binary search for the first position at which a predicate stops holding.

   The predicate is read from somewhere, so asking it can fail; a search that never
   meets a failure returns the boundary when the positions where the predicate
   holds all come before those where it does not. -/
namespace CodexFold.Foundation

section
variable {ε : Type}

/-- The boundary is in `[left, right]`; each turn halves that interval. -/
def searchLoop (below : Nat → Except ε Bool) : Nat → Nat → Nat → Except ε Nat
  | 0, left, _ => .ok left
  | fuel + 1, left, right =>
    if left < right then
      match below (left + (right - left) / 2) with
      | .error e => .error e
      | .ok true => searchLoop below fuel (left + (right - left) / 2 + 1) right
      | .ok false => searchLoop below fuel left (left + (right - left) / 2)
    else .ok left

/-- The first of the positions below `count` at which `below` does not hold. -/
def search (below : Nat → Except ε Bool) (count : Nat) : Except ε Nat := searchLoop below count 0 count

/-- `position` separates the positions below `count` where `p` holds from the others. -/
structure Boundary (p : Nat → Bool) (count position : Nat) : Prop where
  le : position ≤ count
  before : ∀ i, i < position → p i = true
  after : ∀ i, position ≤ i → i < count → p i = false

/-- The positions where `p` holds come first. -/
def Descending (p : Nat → Bool) (count : Nat) : Prop :=
  ∀ i j, i ≤ j → j < count → p j = true → p i = true

section

variable {below : Nat → Except ε Bool} {count : Nat} {p : Nat → Bool} (hread : ∀ i, i < count → below i = .ok (p i))
include hread

theorem searchLoop_boundary (hp : Descending p count) :
    ∀ (fuel left right : Nat), right ≤ count → left ≤ right → right - left ≤ fuel →
      (∀ i, i < left → p i) → (∀ i, right ≤ i → i < count → p i = false) →
      ∃ position, searchLoop below fuel left right = .ok position ∧ Boundary p count position := by
  intro fuel
  induction fuel with
  | zero =>
    intro left right hr hlr hf hbefore hafter
    have hsame : right = left := by omega
    subst hsame
    exact ⟨right, rfl, hr, hbefore, hafter⟩
  | succ fuel ih =>
    intro left right hr hlr hf hbefore hafter
    by_cases hlt : left < right
    · have hm : left + (right - left) / 2 < right := by omega
      have hmid := hread (left + (right - left) / 2) (by omega)
      cases hpm : p (left + (right - left) / 2) with
      | true =>
        rw [hpm] at hmid
        simp only [searchLoop, hlt, if_true, hmid]
        refine ih _ _ hr (by omega) (by omega) ?_ hafter
        intro i hi
        exact hp i _ (by omega) (by omega) hpm
      | false =>
        rw [hpm] at hmid
        simp only [searchLoop, hlt, if_true, hmid]
        refine ih _ _ (by omega) (by omega) (by omega) hbefore ?_
        intro i hi hic
        by_contra hne
        have htrue := hp _ i hi hic (by simpa using hne)
        rw [hpm] at htrue
        cases htrue
    · have hsame : right = left := by omega
      subst hsame
      simp only [searchLoop, Nat.lt_irrefl, if_false]
      exact ⟨right, rfl, hr, hbefore, hafter⟩

theorem search_boundary (hp : Descending p count) :
    ∃ position, search below count = .ok position ∧ Boundary p count position :=
  searchLoop_boundary hread hp count 0 count (Nat.le_refl _) (Nat.zero_le _) (by omega)
    (fun i hi => absurd hi (Nat.not_lt_zero i)) fun i h1 h2 => absurd h1 (by omega)

end

end

/-- `sort.Search`: the first of the positions below `count` at which `found` holds. -/
def sortSearch (count : Nat) (found : Nat → Bool) : Nat :=
  match search (fun i => (.ok (!found i) : Except Empty Bool)) count with
  | .ok position => position

theorem sortSearch_boundary {found : Nat → Bool} {count : Nat} (h : Descending (fun i => !found i) count) :
    Boundary (fun i => !found i) count (sortSearch count found) := by
  obtain ⟨position, hs, hb⟩ := search_boundary (ε := Empty) (fun _ _ => rfl) h
  have heq : sortSearch count found = position := by
    unfold sortSearch
    rw [hs]
  rw [heq]
  exact hb

end CodexFold.Foundation
