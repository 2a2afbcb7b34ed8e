import Mathlib

/- Searching a sequence for a pattern with a table of borders.

   `advance` reads one symbol: it falls back through the table until the pattern
   continues with that symbol. What it keeps is the longest beginning of the
   pattern that ends what was read (`Longest`), and the table records the same
   number for every beginning of the pattern itself. -/
namespace CodexFold.Foundation
open List

section
variable {α : Type} [DecidableEq α]

/-- Fall back until the pattern continues with `x`, or nothing is left to fall back
    to. Each round shortens the match, so its length is fuel enough. -/
def fallBack (p : List α) (table : List Nat) (x : α) : Nat → Nat → Nat
  | 0, matched => matched
  | fuel + 1, matched =>
    if 0 < matched ∧ p[matched]? ≠ some x then fallBack p table x fuel (table.getD (matched - 1) 0)
    else matched

def advance (p : List α) (table : List Nat) (x : α) (matched : Nat) : Nat :=
  let k := fallBack p table x matched matched
  if p[k]? = some x then k + 1 else k

/-- Extend the table by the symbols from `rest` on. -/
def borderTableFrom (p : List α) : List α → List Nat → Nat → List Nat
  | [], table, _ => table
  | x :: rest, table, matched =>
    let matched := advance p table x matched
    borderTableFrom p rest (table ++ [matched]) matched

/-- For every beginning of the pattern, the longest shorter one that also ends it. -/
def borderTable (p : List α) : List Nat :=
  match p with
  | [] => []
  | _ :: rest => borderTableFrom p rest [0] 0
end

section
variable {α : Type}
variable {p seen : List α}

/-- `k` is the length of the longest beginning of `p` below `bound` that ends `seen`. -/
structure Longest (p seen : List α) (bound k : Nat) : Prop where
  below : k < bound
  ends : p.take k <:+ seen
  longest : ∀ j, j < bound → p.take j <:+ seen → j ≤ k

/-- The table is right about each beginning it has an entry for. -/
def TableOf (p : List α) (table : List Nat) : Prop :=
  ∀ i, i < table.length → Longest p (p.take (i + 1)) (i + 1) (table.getD i 0)

theorem take_suffix_take {j k : Nat} (hj : p.take j <:+ seen) (hk : p.take k <:+ seen)
    (hle : j ≤ k) : p.take j <:+ p.take k := by
  refine suffix_of_suffix_length_le hj hk ?_
  simp only [length_take]
  omega

theorem take_succ_suffix {x : α} {k : Nat} (hk : k < p.length) :
    p.take (k + 1) <:+ seen ++ [x] ↔ p.take k <:+ seen ∧ p[k]? = some x := by
  rw [take_succ_eq_append_getElem hk, getElem?_eq_getElem hk]
  constructor
  · rintro ⟨t, ht⟩
    rw [← append_assoc] at ht
    obtain ⟨hs, hx⟩ := append_inj' ht rfl
    exact ⟨⟨t, hs⟩, congrArg some (singleton_inj.mp hx)⟩
  · rintro ⟨⟨t, ht⟩, hx⟩
    refine ⟨t, ?_⟩
    rw [Option.some.inj hx, ← ht, append_assoc]

variable [DecidableEq α]

/-- The loop ends at the longest match that can go on with `x`. The induction is on
    the fuel; no candidate above the current match is lost, since a shorter one ends
    the current match and so is no longer than its border. -/
theorem fallBack_spec {table : List Nat} {x : α} {bound : Nat} (ht : TableOf p table) :
    ∀ (fuel matched : Nat), matched ≤ fuel → matched ≤ table.length → matched < bound →
      p.take matched <:+ seen →
      (∀ j, j < bound → p.take j <:+ seen → p[j]? = some x → j ≤ matched) →
      let k := fallBack p table x fuel matched
      k < bound ∧ p.take k <:+ seen ∧ (k = 0 ∨ p[k]? = some x) ∧
        ∀ j, j < bound → p.take j <:+ seen → p[j]? = some x → j ≤ k
  | 0, matched, hfuel, _, hb, hs, hall => by
    have hzero : matched = 0 := by omega
    exact ⟨hb, hs, .inl hzero, hall⟩
  | fuel + 1, matched, hfuel, htable, hb, hs, hall => by
    simp only [fallBack]
    by_cases hback : 0 < matched ∧ p[matched]? ≠ some x
    · rw [if_pos hback]
      obtain ⟨hpos, hne⟩ := hback
      have hentry := ht (matched - 1) (by omega)
      rw [show matched - 1 + 1 = matched by omega] at hentry
      have hlt := hentry.below
      refine fallBack_spec ht fuel _ (by omega) (by omega) (by omega) (hentry.ends.trans hs) ?_
      intro j hj hjs hjx
      have hjm : j ≤ matched := hall j hj hjs hjx
      have hjne : j ≠ matched := fun h => hne (h ▸ hjx)
      exact hentry.longest j (by omega) (take_suffix_take hjs hs hjm)
    · rw [if_neg hback]
      refine ⟨hb, hs, ?_, hall⟩
      by_cases hpos : 0 < matched
      · exact .inr (by_contra fun hne => hback ⟨hpos, hne⟩)
      · exact .inl (by omega)

theorem advance_longest {table : List Nat} {bound matched : Nat} (x : α)
    (ht : TableOf p table) (htable : matched ≤ table.length) (hbound : bound ≤ p.length)
    (h : Longest p seen bound matched) : Longest p (seen ++ [x]) (bound + 1) (advance p table x matched) := by
  obtain ⟨hb, hs, hend, hall⟩ := fallBack_spec ht matched matched le_rfl htable h.below h.ends
    (fun j hj hjs _ => h.longest j hj hjs)
  simp only [advance]
  generalize fallBack p table x matched matched = k at hb hs hend hall ⊢
  have hk : k < p.length := by omega
  have hmax : ∀ j, j < bound + 1 → p.take j <:+ seen ++ [x] → j = 0 ∨ j ≤ k + 1 ∧ p[j - 1]? = some x := by
    intro j hj hjs
    cases j with
    | zero => exact .inl rfl
    | succ j =>
      obtain ⟨hjs, hjx⟩ := (take_succ_suffix (by omega)).mp hjs
      have := hall j (by omega) hjs hjx
      exact .inr ⟨by omega, hjx⟩
  by_cases hx : p[k]? = some x
  · rw [if_pos hx]
    refine ⟨by omega, (take_succ_suffix hk).mpr ⟨hs, hx⟩, fun j hj hjs => ?_⟩
    rcases hmax j hj hjs with rfl | ⟨hle, -⟩
    · omega
    · exact hle
  · rw [if_neg hx]
    have hzero : k = 0 := hend.resolve_right hx
    subst hzero
    refine ⟨by omega, nil_suffix, fun j hj hjs => ?_⟩
    rcases hmax j hj hjs with rfl | ⟨hle, hjx⟩
    · exact le_rfl
    · cases j with
      | zero => exact le_rfl
      | succ j =>
        have : j = 0 := by omega
        subst this
        exact absurd hjx hx

theorem borderTableFrom_ok (p : List α) : ∀ (rest : List α) (table : List Nat) (matched : Nat),
    p.drop table.length = rest → 0 < table.length → table.length ≤ p.length → TableOf p table →
    Longest p (p.take table.length) table.length matched → TableOf p (borderTableFrom p rest table matched) ∧
      (borderTableFrom p rest table matched).length = p.length
  | [], table, matched, hrest, _, hle, ht, _ => by
    have := congrArg length hrest
    simp only [length_drop, length_nil] at this
    exact ⟨ht, by simp only [borderTableFrom]; omega⟩
  | x :: rest, table, matched, hrest, hpos, hle, ht, hlong => by
    have hlt : table.length < p.length := by
      have := congrArg length hrest
      simp only [length_drop, length_cons] at this
      omega
    have hx : p[table.length] = x := by
      have := drop_eq_getElem_cons hlt
      rw [hrest] at this
      exact (cons.inj this).1.symm
    have htake : p.take (table.length + 1) = p.take table.length ++ [x] := by
      rw [take_succ_eq_append_getElem hlt, hx]
    have hnext := advance_longest x ht (le_of_lt hlong.below) hle hlong
    rw [← htake] at hnext
    simp only [borderTableFrom]
    refine borderTableFrom_ok p rest _ _ ?_ (by simp) (by simp; omega) ?_ ?_
    · have := drop_eq_getElem_cons hlt
      rw [hrest] at this
      rw [length_append, length_singleton]
      exact (cons.inj this).2.symm
    · intro i hi
      rw [length_append, length_singleton] at hi
      by_cases hold : i < table.length
      · have hget : (table ++ [advance p table x matched]).getD i 0 = table.getD i 0 := by
          simp [List.getD, getElem?_append_left hold]
        rw [hget]
        exact ht i hold
      · have hi' : i = table.length := by omega
        subst hi'
        simpa [List.getD] using hnext
    · rw [length_append, length_singleton]
      exact hnext

theorem borderTable_ok (p : List α) : TableOf p (borderTable p) ∧ (borderTable p).length = p.length := by
  cases p with
  | nil => exact ⟨fun i hi => absurd hi (Nat.not_lt_zero i), rfl⟩
  | cons a rest =>
    have hfirst : Longest (a :: rest) [a] 1 0 :=
      ⟨Nat.zero_lt_one, nil_suffix, fun j hj _ => by omega⟩
    refine borderTableFrom_ok (a :: rest) rest [0] 0 rfl Nat.zero_lt_one (by simp) ?_ hfirst
    intro i hi
    have hzero : i = 0 := by simpa using hi
    subst hzero
    exact hfirst

theorem Longest.border (hne : p ≠ []) (hs : p <:+ seen) :
    Longest p seen p.length ((borderTable p).getD (p.length - 1) 0) := by
  have hpos : 0 < p.length := length_pos_of_ne_nil hne
  obtain ⟨ht, hlen⟩ := borderTable_ok p
  have hentry := ht (p.length - 1) (by omega)
  rw [show p.length - 1 + 1 = p.length by omega, take_length] at hentry
  refine ⟨hentry.below, hentry.ends.trans hs, fun j hj hjs => hentry.longest j hj ?_⟩
  refine suffix_of_suffix_length_le hjs hs ?_
  simp only [length_take]
  omega
end

end CodexFold.Foundation
