import Mathlib

/- Data put at offsets.

   An `Extent` is a run of values at an offset. Two extents agree if no position has a
   different value in each; two that meet and agree are one extent, which holds exactly
   what they hold. `put`, `overlay` and `resize` are what a positional write and a
   truncation make of a file: a write past the end fills the space before it, a
   truncation past the end fills up to it. -/
namespace CodexFold.Foundation
open List

variable {β : Type}

/-- Values at consecutive positions from `offset` on. -/
structure Extent (β : Type) where
  offset : Nat
  data : List β
  deriving DecidableEq, Repr

namespace Extent

def finish (e : Extent β) : Nat := e.offset + e.data.length

/-- The value at position `p` is `b`. -/
def Holds (e : Extent β) (p : Nat) (b : β) : Prop := e.offset ≤ p ∧ e.data[p - e.offset]? = some b

/-- No position has two values. -/
def Agree (a b : Extent β) : Prop := ∀ p x y, a.Holds p x → b.Holds p y → x = y

variable {e : Extent β}

theorem Holds.lt_finish {p : Nat} {b : β} (h : e.Holds p b) : p < e.finish := by
  obtain ⟨hle, hget⟩ := h
  have := (List.getElem?_eq_some_iff.mp hget).1
  unfold finish
  omega

theorem Holds.unique {p : Nat} {b c : β} (h : e.Holds p b) (h' : e.Holds p c) : b = c :=
  Option.some.inj (h.2.symm.trans h'.2)

theorem exists_holds {p : Nat} (hle : e.offset ≤ p) (hlt : p < e.finish) : ∃ b, e.Holds p b := by
  have hp : p - e.offset < e.data.length := by
    unfold finish at hlt
    omega
  exact ⟨e.data[p - e.offset], hle, getElem?_eq_getElem hp⟩

theorem agree_iff_take {a b : Extent β} (hle : a.offset ≤ b.offset) :
    a.Agree b ↔ (a.data.drop (b.offset - a.offset)).take (min a.finish b.finish - b.offset) =
      b.data.take (min a.finish b.finish - b.offset) := by
  -- a position both hold is an index below the length compared
  have hget : ∀ i, i < min a.finish b.finish - b.offset →
      i < b.data.length ∧ b.offset - a.offset + i < a.data.length := by
    intro i hi
    unfold finish at hi
    omega
  constructor
  · intro h
    apply ext_getElem?
    intro i
    by_cases hi : i < min a.finish b.finish - b.offset
    · obtain ⟨hb, ha⟩ := hget i hi
      rw [getElem?_take_of_lt hi, getElem?_take_of_lt hi, getElem?_drop,
        getElem?_eq_getElem ha, getElem?_eq_getElem hb]
      refine congrArg some (h (b.offset + i) _ _ ⟨by omega, ?_⟩ ⟨by omega, ?_⟩)
      · rw [show b.offset + i - a.offset = b.offset - a.offset + i by omega]
        exact getElem?_eq_getElem ha
      · rw [Nat.add_sub_cancel_left]
        exact getElem?_eq_getElem hb
    · rw [getElem?_take_eq_none (by omega), getElem?_take_eq_none (by omega)]
  · intro h p x y hx hy
    have hp : p - b.offset < min a.finish b.finish - b.offset := by
      have := hx.lt_finish
      have := hy.lt_finish
      have := hy.1
      omega
    have he := congrArg (fun l : List β => l[p - b.offset]?) h
    simp only [getElem?_take_of_lt hp, getElem?_drop] at he
    rw [show b.offset - a.offset + (p - b.offset) = p - a.offset by have := hy.1; omega, hx.2, hy.2] at he
    exact Option.some.inj he

theorem holds_drop (offset k : Nat) (data : List β) (p : Nat) (b : β) :
    (mk (offset + k) (data.drop k)).Holds p b ↔ offset + k ≤ p ∧ (mk offset data).Holds p b := by
  have hget : offset + k ≤ p → (data.drop k)[p - (offset + k)]? = data[p - offset]? := by
    intro hp
    rw [getElem?_drop]
    congr 1
    omega
  constructor
  · rintro ⟨hp, hb⟩
    exact ⟨hp, Nat.le_trans (Nat.le_add_right offset k) hp, (hget hp).symm.trans hb⟩
  · rintro ⟨hp, hb⟩
    exact ⟨hp, (hget hp).trans hb.2⟩

theorem not_holds_nil (offset p : Nat) (b : β) : ¬(mk offset []).Holds p b := by
  rintro ⟨-, h⟩
  simp at h

theorem holds_cons (offset : Nat) (c : β) (data : List β) (p : Nat) (b : β) :
    (mk offset (c :: data)).Holds p b ↔ (p = offset ∧ b = c) ∨ (mk (offset + 1) data).Holds p b := by
  have hrest := holds_drop offset 1 (c :: data) p b
  rw [drop_one, tail_cons] at hrest
  rw [hrest]
  constructor
  · intro h
    by_cases hp : p = offset
    · refine .inl ⟨hp, ?_⟩
      have hget := h.2
      rw [hp, Nat.sub_self] at hget
      exact (Option.some.inj hget).symm
    · exact .inr ⟨Nat.lt_of_le_of_ne h.1 (Ne.symm hp), h⟩
  · rintro (⟨rfl, rfl⟩ | ⟨-, h⟩)
    · exact ⟨Nat.le_refl _, by rw [Nat.sub_self]; rfl⟩
    · exact h

/-- `a` followed by what `b` has beyond it. -/
def extend (a b : Extent β) : Extent β := ⟨a.offset, a.data ++ b.data.drop (a.finish - b.offset)⟩

@[simp] theorem extend_offset (a b : Extent β) : (a.extend b).offset = a.offset := rfl

theorem finish_extend {a b : Extent β} (hle : b.offset ≤ a.finish) : (a.extend b).finish = max a.finish b.finish := by
  unfold finish at hle
  simp only [finish, extend, length_append, length_drop]
  omega

theorem holds_extend {a b : Extent β} (hle : a.offset ≤ b.offset) (hmeet : b.offset ≤ a.finish)
    (hagree : a.Agree b) (p : Nat) (x : β) : (a.extend b).Holds p x ↔ a.Holds p x ∨ b.Holds p x := by
  -- beyond the end of `a` the values are those of `b` from there on
  have hright : ∀ q, a.finish ≤ q → (a.extend b).data[q - a.offset]? = b.data[q - b.offset]? := by
    intro q hq
    unfold finish at hq hmeet
    simp only [extend, finish]
    rw [getElem?_append_right (by omega), getElem?_drop]
    congr 1
    omega
  have hleft : ∀ q, a.offset ≤ q → q < a.finish → (a.extend b).data[q - a.offset]? = a.data[q - a.offset]? := by
    intro q hq hlt
    unfold finish at hlt
    simp only [extend]
    rw [getElem?_append_left (by omega)]
  constructor
  · rintro ⟨hp, hget⟩
    by_cases hlt : p < a.finish
    · rw [extend_offset, hleft p hp hlt] at hget
      exact .inl ⟨hp, hget⟩
    · rw [extend_offset, hright p (by omega)] at hget
      exact .inr ⟨by omega, hget⟩
  · rintro (hx | hx)
    · refine ⟨hx.1, ?_⟩
      rw [extend_offset, hleft p hx.1 hx.lt_finish]
      exact hx.2
    · have hp : a.offset ≤ p := Nat.le_trans hle hx.1
      refine ⟨hp, ?_⟩
      rw [extend_offset]
      by_cases hlt : p < a.finish
      · rw [hleft p hp hlt]
        obtain ⟨y, hy⟩ := exists_holds hp hlt
        rw [hy.2, hagree p y x hy hx]
      · rw [hright p (by omega)]
        exact hx.2

end Extent

/-! ## Several extents -/

variable (l : List (Extent β))

/-- Some extent of the list has `b` at position `p`. -/
def Staged (p : Nat) (b : β) : Prop := ∃ e ∈ l, e.Holds p b

/-- No position has two values in the list. -/
def Consistent : Prop := ∀ p x y, Staged l p x → Staged l p y → x = y

/-- The extents follow one another with space between them. -/
def Spread : Prop := l.Pairwise fun a b => a.finish < b.offset

variable {e : Extent β} {l : List (Extent β)} {p : Nat} {b : β}

theorem staged_cons : Staged (e :: l) p b ↔ e.Holds p b ∨ Staged l p b := by
  simp [Staged]

theorem not_staged_nil : ¬Staged ([] : List (Extent β)) p b := by
  rintro ⟨e, he, -⟩
  cases he

theorem staged_append {m : List (Extent β)} : Staged (l ++ m) p b ↔ Staged l p b ∨ Staged m p b := by
  simp [Staged, or_and_right, exists_or]

theorem staged_singleton : Staged [e] p b ↔ e.Holds p b := by
  simp [Staged]

theorem Consistent.of_iff {m : List (Extent β)} (h : ∀ p b, Staged l p b ↔ Staged m p b) (hm : Consistent m) :
    Consistent l :=
  fun p x y hx hy => hm p x y ((h p x).mp hx) ((h p y).mp hy)

theorem Consistent.tail (h : Consistent (e :: l)) : Consistent l :=
  fun p x y hx hy => h p x y (staged_cons.mpr (.inr hx)) (staged_cons.mpr (.inr hy))

theorem Consistent.agree {a b : Extent β} (h : Consistent (a :: b :: l)) : a.Agree b :=
  fun p x y hx hy => h p x y (staged_cons.mpr (.inl hx)) (staged_cons.mpr (.inr (staged_cons.mpr (.inl hy))))

theorem Consistent.cons (hl : Consistent l) (hbefore : ∀ a ∈ l, e.finish ≤ a.offset) : Consistent (e :: l) := by
  have happart : ∀ p x y, e.Holds p x → ¬Staged l p y := by
    rintro p x y hx ⟨a, ha, hy⟩
    have := hx.lt_finish
    have := hbefore a ha
    have := hy.1
    omega
  intro p x y hx hy
  rcases staged_cons.mp hx with hx | hx <;> rcases staged_cons.mp hy with hy | hy
  · exact hx.unique hy
  · exact absurd hy (happart p x y hx)
  · exact absurd hx (happart p y x hy)
  · exact hl p x y hx hy

theorem consistent_concat (hl : Consistent l) :
    Consistent (l ++ [e]) ↔ ∀ p x y, Staged l p x → e.Holds p y → x = y := by
  constructor
  · intro h p x y hx hy
    exact h p x y (staged_append.mpr (.inl hx)) (staged_append.mpr (.inr (staged_singleton.mpr hy)))
  · intro h p x y hx hy
    rw [staged_append, staged_singleton] at hx hy
    rcases hx with hx | hx <;> rcases hy with hy | hy
    · exact hl p x y hx hy
    · exact h p x y hx hy
    · exact (h p y x hy hx).symm
    · exact hx.unique hy

theorem staged_extend {a b : Extent β} (hle : a.offset ≤ b.offset) (hmeet : b.offset ≤ a.finish) (hagree : a.Agree b)
    (p : Nat) (x : β) : Staged (a.extend b :: l) p x ↔ Staged (a :: b :: l) p x := by
  rw [staged_cons, staged_cons, staged_cons, Extent.holds_extend hle hmeet hagree, or_assoc]

theorem staged_perm {m : List (Extent β)} (h : l.Perm m) (p : Nat) (b : β) : Staged l p b ↔ Staged m p b := by
  simp [Staged, h.mem_iff]

theorem Spread.consistent : ∀ {l : List (Extent β)}, Spread l → Consistent l
  | [], _ => fun _ _ _ hx _ => absurd hx not_staged_nil
  | _ :: _, h => by
    obtain ⟨hhead, htail⟩ := pairwise_cons.mp h
    exact Consistent.cons (Spread.consistent htail) fun a ha => Nat.le_of_lt (hhead a ha)

/-! ## Positional writes -/

variable (zero : β)

/-- Put one value at position `p`, filling with `zero` before it. -/
def put (l : List β) (p : Nat) (b : β) : List β :=
  if p < l.length then l.set p b else l ++ replicate (p - l.length) zero ++ [b]

/-- Put `data` at `offset`, value by value. -/
def overlay (l : List β) (offset : Nat) (data : List β) : List β :=
  (data.zipIdx offset).foldl (fun l e => put zero l e.2 e.1) l

def resize (l : List β) (size : Nat) : List β := l.take size ++ replicate (size - l.length) zero

section
variable {zero : β} (l : List β) (offset : Nat)

theorem overlay_nil : overlay zero l offset [] = l := rfl

theorem overlay_cons (b : β) (data : List β) :
    overlay zero l offset (b :: data) = overlay zero (put zero l offset b) (offset + 1) data := by
  simp [overlay, zipIdx_cons]

theorem overlay_concat (data : List β) (b : β) :
    overlay zero l offset (data ++ [b]) = put zero (overlay zero l offset data) (offset + data.length) b := by
  simp [overlay, zipIdx_append]

theorem length_put (p : Nat) (b : β) : (put zero l p b).length = max l.length (p + 1) := by
  unfold put
  by_cases h : p < l.length
  · simp only [h, if_true, length_set]
    omega
  · simp only [h, if_false, length_append, length_replicate, length_singleton]
    omega

theorem getElem?_put_self (p : Nat) (b : β) : (put zero l p b)[p]? = some b := by
  unfold put
  by_cases h : p < l.length
  · simp [h]
  · simp only [h, if_false]
    rw [getElem?_append_right (by simp; omega)]
    have : p - (l ++ replicate (p - l.length) zero).length = 0 := by simp; omega
    rw [this]
    rfl

variable {l : List β}

theorem getElem?_put_of_lt {p q : Nat} (b : β) (hne : q ≠ p) (hq : q < l.length) : (put zero l p b)[q]? = l[q]? := by
  unfold put
  by_cases h : p < l.length
  · simp only [h, if_true]
    exact getElem?_set_ne (Ne.symm hne)
  · simp only [h, if_false, append_assoc]
    exact getElem?_append_left hq

theorem length_overlay : ∀ (data l : List β) (offset : Nat), data ≠ [] →
    (overlay zero l offset data).length = max l.length (offset + data.length)
  | [b], l, offset, _ => by
    rw [overlay_cons, overlay_nil, length_put]
    rfl
  | b :: c :: data, l, offset, _ => by
    rw [overlay_cons, length_overlay (c :: data) _ _ (cons_ne_nil _ _), length_put]
    simp only [length_cons]
    omega

theorem getElem?_overlay_of_not_mem : ∀ (data l : List β) (offset q : Nat), q < l.length →
    (q < offset ∨ offset + data.length ≤ q) → (overlay zero l offset data)[q]? = l[q]?
  | [], _, _, _, _, _ => rfl
  | b :: data, l, offset, q, hq, hout => by
    simp only [length_cons] at hout
    have hlen : q < (put zero l offset b).length := by
      rw [length_put]
      omega
    rw [overlay_cons, getElem?_overlay_of_not_mem data _ (offset + 1) q hlen (by omega),
      getElem?_put_of_lt b (by omega) hq]

theorem getElem?_overlay_of_mem : ∀ (data l : List β) (offset i : Nat), i < data.length →
    (overlay zero l offset data)[offset + i]? = data[i]?
  | b :: data, l, offset, 0, _ => by
    have hlen : offset < (put zero l offset b).length := by
      rw [length_put]
      omega
    exact (getElem?_overlay_of_not_mem data _ (offset + 1) offset hlen (.inl (by omega))).trans
      (getElem?_put_self l offset b)
  | b :: data, l, offset, i + 1, hi => by
    rw [overlay_cons, show offset + (i + 1) = offset + 1 + i by omega,
      getElem?_overlay_of_mem data _ (offset + 1) i (by simpa using hi)]
    rfl

theorem getElem?_overlay_of_le {data : List β} {offset p : Nat} (hle : offset ≤ p) (hlt : p - offset < data.length) :
    (overlay zero l offset data)[p]? = data[p - offset]? := by
  have h : (overlay zero l offset data)[offset + (p - offset)]? = data[p - offset]? :=
    getElem?_overlay_of_mem data l offset (p - offset) hlt
  rwa [Nat.add_sub_cancel' hle] at h

theorem overlay_length : ∀ (data l : List β), overlay zero l l.length data = l ++ data
  | [], l => by rw [overlay_nil, append_nil]
  | b :: data, l => by
    have hput : put zero l l.length b = l ++ [b] := by simp [put]
    have hnext := overlay_length data (l ++ [b])
    rw [length_append, length_singleton] at hnext
    rw [overlay_cons, hput, hnext, append_assoc, singleton_append]

theorem length_resize (l : List β) (size : Nat) : (resize zero l size).length = size := by
  simp only [resize, length_append, length_take, length_replicate]
  omega

theorem getElem?_resize_of_lt {size q : Nat} (hq : q < l.length) (hs : q < size) :
    (resize zero l size)[q]? = l[q]? := by
  unfold resize
  rw [getElem?_append_left (by simp; omega), getElem?_take_of_lt hs]

theorem resize_of_le {size : Nat} (h : size ≤ l.length) : resize zero l size = l.take size := by
  unfold resize
  rw [Nat.sub_eq_zero_of_le h, replicate_zero, append_nil]

end

end CodexFold.Foundation
