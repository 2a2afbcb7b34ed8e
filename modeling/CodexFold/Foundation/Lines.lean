import Mathlib

/- A sequence cut behind every occurrence of a separator.

   Each piece but the last ends with its separator and has no other; the last piece
   may lack it. -/
namespace CodexFold.Foundation
open List

section
variable {α : Type} [DecidableEq α] (sep : α)

def cutAfter : List α → List (List α)
  | [] => []
  | b :: rest =>
    if b = sep then [b] :: cutAfter rest
    else
      match cutAfter rest with
      | [] => [[b]]
      | piece :: more => (b :: piece) :: more

variable {sep}

@[simp] theorem cutAfter_nil : cutAfter sep [] = [] := rfl

theorem cutAfter_line {line : List α} (h : sep ∉ line) (rest : List α) :
    cutAfter sep (line ++ sep :: rest) = (line ++ [sep]) :: cutAfter sep rest := by
  induction line with
  | nil => simp [cutAfter]
  | cons b line ih =>
    simp only [mem_cons, not_or] at h
    have hb : b ≠ sep := fun he => h.1 he.symm
    simp [cutAfter, hb, ih h.2]

theorem cutAfter_last {line : List α} (h : sep ∉ line) (hne : line ≠ []) : cutAfter sep line = [line] := by
  induction line with
  | nil => exact absurd rfl hne
  | cons b line ih =>
    simp only [mem_cons, not_or] at h
    have hb : b ≠ sep := fun he => h.1 he.symm
    by_cases hl : line = []
    · simp [cutAfter, hb, hl]
    · simp [cutAfter, hb, ih h.2 hl]

theorem cutAfter_flatten (data : List α) : (cutAfter sep data).flatten = data := by
  induction data with
  | nil => rfl
  | cons b rest ih =>
    by_cases hb : b = sep
    · simp [cutAfter, hb, ih]
    · cases hr : cutAfter sep rest with
      | nil =>
        rw [hr, flatten_nil] at ih
        simp [cutAfter, hb, ← ih]
      | cons piece more =>
        rw [hr, flatten_cons] at ih
        simp only [cutAfter, hb, if_false, hr, flatten_cons, cons_append, ih]

theorem cutAfter_ne_nil {data : List α} (h : data ≠ []) : cutAfter sep data ≠ [] := by
  intro hnil
  have hflat : (cutAfter sep data).flatten = data := cutAfter_flatten data
  rw [hnil] at hflat
  exact h hflat.symm

theorem cutAfter_append {first : List α} (h : first = [] ∨ first.getLast? = some sep) (rest : List α) :
    cutAfter sep (first ++ rest) = cutAfter sep first ++ cutAfter sep rest := by
  induction first with
  | nil => rfl
  | cons b first ih =>
    by_cases hb : b = sep
    · have hfirst : first = [] ∨ first.getLast? = some sep := by
        rcases eq_nil_or_concat first with rfl | ⟨init, last, rfl⟩
        · exact .inl rfl
        · rcases h with h | h
          · cases h
          · right
            simpa [getLast?_cons] using h
      simp [cutAfter, hb, ih hfirst]
    · -- the first piece goes on
      have hne : first ≠ [] := by
        rintro rfl
        rcases h with h | h
        · cases h
        · exact hb (Option.some.inj h)
      have hfirst : first.getLast? = some sep := by
        rcases h with h | h
        · cases h
        · obtain ⟨init, last, rfl⟩ := (eq_nil_or_concat first).resolve_left hne
          simpa [getLast?_cons] using h
      have hcutne : cutAfter sep first ≠ [] := cutAfter_ne_nil hne
      obtain ⟨piece, more, hcut⟩ := exists_cons_of_ne_nil hcutne
      have hboth := ih (.inr hfirst)
      rw [hcut, cons_append] at hboth
      simp [cutAfter, hb, hcut, hboth]

theorem cutAfter_lines {lines : List (List α)} (h : ∀ line ∈ lines, sep ∉ line) (rest : List α) :
    cutAfter sep ((lines.map (· ++ [sep])).flatten ++ rest) = lines.map (· ++ [sep]) ++ cutAfter sep rest := by
  induction lines with
  | nil => rfl
  | cons line lines ih =>
    have hline : sep ∉ line := h line (.head _)
    have hrest := ih (fun l hl => h l (.tail _ hl))
    rw [map_cons, flatten_cons, append_assoc, append_assoc, singleton_append,
      cutAfter_line hline, hrest, cons_append]

end

end CodexFold.Foundation
