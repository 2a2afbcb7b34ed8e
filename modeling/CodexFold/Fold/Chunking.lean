import CodexFold.Fold.Chunker

/- The laws of content-defined chunking.

   What comes out depends on the bytes only: `remaining` says which chunks are still to
   come when a chunker has some bytes left to read. Every law is an induction over these
   bytes, and `chunks_eq` carries it to any split of them into `Write` calls. -/
namespace CodexFold.Cdc
open Foundation List

namespace Chunker

def keep (out : List Bytes) (chunk : Bytes) : List Bytes := out ++ [chunk]

variable (c : Chunker)

/-- The chunks that some `Write` calls and a `Finish` hand out. -/
def chunks (writes : List Bytes) : List Bytes :=
  let written := writes.foldl (fun r data => write (M := Id) keep r.1 r.2 data) (c, [])
  (finish (M := Id) keep written.1 written.2).2

def remaining : Chunker → Bytes → List Bytes
  | c, [] => if c.chunk = [] then [] else [c.chunk]
  | c, value :: data =>
    if (c.push value).boundary then (c.push value).chunk :: remaining (c.push value).reset data
    else remaining (c.push value) data

theorem remaining_nil (out : List Bytes) : (finish (M := Id) keep c out).2 = out ++ c.remaining [] := by
  by_cases hc : c.chunk = []
  · rw [finish, remaining, if_pos hc, if_pos hc, append_nil]
    rfl
  · rw [finish, remaining, if_neg hc, if_neg hc]
    rfl

theorem finish_write (data : Bytes) (c : Chunker) (out : List Bytes) :
    (finish (M := Id) keep (write (M := Id) keep c out data).1 (write (M := Id) keep c out data).2).2 =
      out ++ c.remaining data := by
  induction data generalizing c out with
  | nil => exact remaining_nil c out
  | cons value data ih =>
    rw [write_cons, remaining]
    split
    · rw [ih, keep, append_assoc, singleton_append]
    · exact ih _ _

theorem foldl_write (writes : List Bytes) (c : Chunker) (out : List Bytes) :
    writes.foldl (fun r data => write (M := Id) keep r.1 r.2 data) (c, out) = write (M := Id) keep c out writes.flatten := by
  induction writes generalizing c out with
  | nil => rfl
  | cons data writes ih =>
    rw [flatten_cons, write_append]
    exact ih _ _

theorem chunks_eq (writes : List Bytes) : c.chunks writes = c.remaining writes.flatten := by
  rw [chunks, foldl_write]
  exact finish_write _ c []

theorem flatten_remaining (data : Bytes) (c : Chunker) : (c.remaining data).flatten = c.chunk ++ data := by
  induction data generalizing c with
  | nil => by_cases hc : c.chunk = [] <;> simp [remaining, hc]
  | cons value data ih =>
    rw [remaining]
    split <;> simp [ih]

variable {c : Chunker}

theorem remaining_bounds (data : Bytes) (hle : c.options.minBytes ≤ c.options.maxBytes) (hpos : 0 < c.options.maxBytes)
    (hroom : c.chunk.length < c.options.maxBytes) :
    (∀ chunk ∈ c.remaining data, (chunk.length : Int) ≤ c.options.maxBytes) ∧
      ∀ chunk ∈ (c.remaining data).dropLast, c.options.minBytes ≤ chunk.length := by
  induction data generalizing c with
  | nil =>
    by_cases hc : c.chunk = []
    · simp [remaining, hc]
    · simp [remaining, hc, Int.le_of_lt hroom]
  | cons value data ih =>
    have hlen : ((c.push value).chunk.length : Int) = c.chunk.length + 1 := by simp
    have hsame : (c.push value).options = c.options := rfl
    rw [remaining]
    split
    next hb =>
      obtain ⟨hmax, hmin⟩ := ih (c := (c.push value).reset) hle hpos hpos
      simp only [boundary, Bool.or_eq_true, Bool.and_eq_true, decide_eq_true_eq, hsame] at hb
      refine ⟨fun chunk hchunk => ?_, fun chunk hchunk => ?_⟩
      · rcases mem_cons.mp hchunk with rfl | hchunk
        · omega
        · exact hmax chunk hchunk
      · cases hrest : (c.push value).reset.remaining data with
        | nil => simp [hrest] at hchunk
        | cons next rest =>
          rw [hrest, dropLast_cons_cons, ← hrest] at hchunk
          rcases mem_cons.mp hchunk with rfl | hchunk
          · omega
          · exact hmin chunk hchunk
    next hb =>
      simp only [boundary, Bool.or_eq_true, decide_eq_true_eq, not_or, hsame] at hb
      exact ih hle hpos (by rw [hsame]; omega)

theorem remaining_grows (data : Bytes) (c : Chunker) (hne : data ≠ []) :
    ∃ chunk rest, c.remaining data = chunk :: rest ∧ c.chunk.length < chunk.length := by
  induction data generalizing c with
  | nil => exact absurd rfl hne
  | cons value data ih =>
    have hlen : (c.push value).chunk.length = c.chunk.length + 1 := by simp
    rw [remaining]
    split
    · exact ⟨_, _, rfl, by omega⟩
    · by_cases hd : data = []
      · exact ⟨(c.push value).chunk, [], by simp [hd, remaining], by omega⟩
      · obtain ⟨chunk, rest, heq, hlt⟩ := ih (c.push value) hd
        exact ⟨chunk, rest, heq, by omega⟩

theorem remaining_append (a : Bytes) (hidle : c.chunk = [] → c = c.reset) :
    ∃ out, ∃ c' : Chunker, (c'.chunk = [] → c' = c.reset) ∧ out.flatten ++ c'.chunk = c.chunk ++ a ∧
      ∀ b, c.remaining (a ++ b) = out ++ c'.remaining b := by
  induction a generalizing c with
  | nil => exact ⟨[], c, hidle, by simp, fun _ => rfl⟩
  | cons value a ih =>
    by_cases hb : (c.push value).boundary = true
    · obtain ⟨out, c', hnew, hout, heq⟩ := ih (c := (c.push value).reset) fun _ => rfl
      refine ⟨(c.push value).chunk :: out, c', hnew, by simp [hout], fun b => ?_⟩
      rw [cons_append, remaining, if_pos hb, heq, cons_append]
    · obtain ⟨out, c', hnew, hout, heq⟩ := ih (c := c.push value) fun h => by simp at h
      refine ⟨out, c', hnew, by simp [hout], fun b => ?_⟩
      rw [cons_append, remaining, if_neg hb, heq]

theorem remaining_restart {a b : Bytes} (hnew : c = c.reset) {first rest : List Bytes}
    (heq : c.remaining (a ++ b) = first ++ rest) (hfirst : first.flatten = a) :
    c.remaining (a ++ b) = c.remaining a ++ c.remaining b := by
  have hchunk : c.chunk = [] := congrArg Chunker.chunk hnew
  have hnil : c.remaining [] = [] := by simp [remaining, hchunk]
  obtain ⟨out, c', hidle, hout, hall⟩ := remaining_append a fun _ => hnew
  have hlen : out.flatten.length + c'.chunk.length = first.flatten.length := by
    rw [hfirst, ← length_append, hout, hchunk, nil_append]
  by_cases hempty : c'.chunk = []
  · have ha := hall []
    rw [hidle hempty, ← hnew, hnil, append_nil, append_nil] at ha
    rw [hall b, ha, hidle hempty, ← hnew]
  by_cases hb : b = []
  · rw [hb, hnil, append_nil, append_nil]
  have hpending : 0 < c'.chunk.length := length_pos_of_ne_nil hempty
  obtain ⟨chunk, tail, hgrown, hlt⟩ := remaining_grows b c' hb
  rw [hall b, hgrown] at heq
  rcases append_eq_append_iff.mp heq with ⟨more, rfl, hmore⟩ | ⟨less, rfl, -⟩
  · cases more with
    | nil =>
      rw [append_nil] at hlen
      omega
    | cons x more =>
      obtain ⟨rfl, -⟩ := cons.inj hmore
      simp only [flatten_append, flatten_cons, length_append] at hlen
      omega
  · simp only [flatten_append, length_append] at hlen
    omega

end Chunker

theorem new_ok {given : Options} {c : Chunker} (h : new given = .ok c) : c = c.reset ∧ c.options = given.withDefaults ∧
    0 < c.options.maxBytes ∧ c.options.minBytes ≤ c.options.maxBytes := by
  obtain ⟨hbounds, h⟩ := of_guard h
  obtain ⟨-, h⟩ := of_guard h
  cases h
  refine ⟨rfl, rfl, ?_, ?_⟩
  · show 0 < given.withDefaults.maxBytes
    unfold Options.withDefaults
    dsimp only
    split <;> omega
  · show given.withDefaults.minBytes ≤ given.withDefaults.maxBytes
    omega

/-- However some bytes are split into `Write` calls, the chunks after a `Finish` are the bytes,
    keep the bounds, do not depend on the split, and start again at every boundary. -/
theorem chunking_laws (given : Options) (c : Chunker) (h : new given = .ok c) (writes : List Bytes) :
    (c.chunks writes).flatten = writes.flatten ∧
    (∀ chunk ∈ c.chunks writes, (chunk.length : Int) ≤ given.withDefaults.maxBytes) ∧
    (∀ chunk ∈ (c.chunks writes).dropLast, given.withDefaults.minBytes ≤ chunk.length) ∧
    c.chunks writes = c.chunks [writes.flatten] ∧
    ∀ a b first rest, c.chunks [a ++ b] = first ++ rest → first.flatten = a →
      c.chunks [a ++ b] = c.chunks [a] ++ c.chunks [b] := by
  obtain ⟨hnew, hoptions, hpos, hle⟩ := new_ok h
  have hchunk : c.chunk = [] := congrArg Chunker.chunk hnew
  have hbounds := Chunker.remaining_bounds writes.flatten hle hpos (by simpa [hchunk] using hpos)
  have hone : ∀ data, c.chunks [data] = c.remaining data := by
    intro data
    rw [Chunker.chunks_eq, flatten_singleton]
  rw [← hoptions, Chunker.chunks_eq, hone, Chunker.flatten_remaining, hchunk, nil_append]
  refine ⟨rfl, hbounds.1, hbounds.2, rfl, fun a b first rest heq hfirst => ?_⟩
  rw [hone] at heq
  rw [hone, hone, hone]
  exact Chunker.remaining_restart hnew heq hfirst

theorem chunking_laws_split : ∃ c, new ⟨1, 2, 4⟩ = .ok c ∧ (c.chunks [[1, 2, 3], [4, 5]]).flatten = [1, 2, 3, 4, 5] :=
  ⟨_, rfl, (chunking_laws ⟨1, 2, 4⟩ _ rfl [[1, 2, 3], [4, 5]]).1⟩

end CodexFold.Cdc
