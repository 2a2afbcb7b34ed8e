import Mathlib

/- A sequence kept as consecutive pieces, and reading it from an offset.

   A reader copies what it can from the piece that holds the offset and goes on
   behind it. `take_drop_step` is what one such copy contributes. -/
namespace CodexFold.Foundation
open List

section
variable {α : Type}

/-- Where the piece `i` starts in the whole sequence. -/
def start (pieces : List (List α)) (i : Nat) : Nat := (pieces.take i).flatten.length

section

variable (pieces : List (List α))
include pieces

@[simp] theorem start_zero : start pieces 0 = 0 := rfl

theorem start_succ {i : Nat} (h : i < pieces.length) : start pieces (i + 1) = start pieces i + pieces[i].length := by
  have htake : pieces.take (i + 1) = pieces.take i ++ [pieces[i]] := by
    rw [take_append_getElem h]
  rw [start, htake, flatten_append, length_append, flatten_singleton]
  rfl

theorem start_le (i : Nat) : start pieces i ≤ pieces.flatten.length := by
  have h : pieces.flatten.length = start pieces i + (pieces.drop i).flatten.length := by
    rw [start, ← length_append, ← flatten_append, take_append_drop]
  omega

omit pieces in
theorem exists_piece : ∀ (pieces : List (List α)) {offset : Nat}, offset < pieces.flatten.length →
    ∃ i, i < pieces.length ∧ start pieces i ≤ offset ∧ offset < start pieces (i + 1)
  | [], _, h => absurd h (Nat.not_lt_zero _)
  | piece :: rest, offset, h => by
    by_cases hin : offset < piece.length
    · exact ⟨0, Nat.zero_lt_succ _, Nat.zero_le _, by simpa [start] using hin⟩
    · simp only [flatten_cons, length_append] at h
      obtain ⟨i, hi, hs, he⟩ := exists_piece rest (show offset - piece.length < rest.flatten.length by omega)
      refine ⟨i + 1, Nat.succ_lt_succ hi, ?_, ?_⟩
      · simp only [start, take_succ_cons, flatten_cons, length_append] at hs ⊢
        omega
      · simp only [start, take_succ_cons, flatten_cons, length_append] at he ⊢
        omega

theorem drop_flatten {i offset : Nat} (h : i < pieces.length) (hs : start pieces i ≤ offset)
    (he : offset ≤ start pieces (i + 1)) : pieces.flatten.drop offset =
      pieces[i].drop (offset - start pieces i) ++ (pieces.drop (i + 1)).flatten := by
  have hsplit : pieces.flatten =
      (pieces.take i).flatten ++ (pieces[i] ++ (pieces.drop (i + 1)).flatten) := by
    calc pieces.flatten = (pieces.take i ++ pieces.drop i).flatten := by rw [take_append_drop]
      _ = (pieces.take i).flatten ++ (pieces.drop i).flatten := flatten_append
      _ = _ := by rw [drop_eq_getElem_cons h, flatten_cons]
  have hin : offset - start pieces i ≤ pieces[i].length := by
    rw [start_succ pieces h] at he
    omega
  have hlen : (pieces.take i).flatten.length = start pieces i := rfl
  rw [hsplit, drop_append, drop_eq_nil_of_le (by omega), nil_append, hlen,
    drop_append_of_le_length hin]

omit pieces in
theorem take_drop_step {whole copied : List α} {offset want : Nat} (h : copied <+: whole.drop offset)
    (hw : copied.length ≤ want) : (whole.drop offset).take want =
      copied ++ (whole.drop (offset + copied.length)).take (want - copied.length) := by
  obtain ⟨rest, hr⟩ := h
  have hrest : whole.drop (offset + copied.length) = rest := by
    rw [← drop_drop, ← hr, drop_left]
  rw [hrest, ← hr, take_append, take_of_length_le hw]

theorem copy_piece {i offset : Nat} (want : Nat) (h : i < pieces.length) (hs : start pieces i ≤ offset)
    (he : offset < start pieces (i + 1)) :
    (pieces[i].drop (offset - start pieces i)).take want <+: pieces.flatten.drop offset ∧
      ((pieces[i].drop (offset - start pieces i)).take want).length = min want (start pieces (i + 1) - offset) := by
  constructor
  · rw [drop_flatten pieces h hs (Nat.le_of_lt he)]
    exact List.IsPrefix.trans ⟨_, take_append_drop _ _⟩ ⟨_, rfl⟩
  · rw [start_succ pieces h] at he ⊢
    simp only [length_take, length_drop]
    omega

end

end

end CodexFold.Foundation
