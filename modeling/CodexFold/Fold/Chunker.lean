import CodexFold.Foundation.Completion
import CodexFold.Foundation.Content

/- The content-defined chunker (`internal/cdc`).

   `Chunker.write` feeds bytes one at a time into the pending chunk and a rolling
   gear hash, and hands the chunk to the callback when it is full or when the
   hash says so. Whatever the bounds, what was handed out followed by what is
   pending is what was fed in: `write_runs` and `finish_runs` say so for a
   callback that succeeds, `write_spec` and `finish_spec` carry an invariant of
   the callback, and the chunks it was given, through every schedule of faults. -/
namespace CodexFold.Cdc
open Foundation

structure Options where
  minBytes : Int
  averageBytes : Int
  maxBytes : Int
  deriving DecidableEq, Repr

structure Chunker where
  options : Options
  mask : UInt64
  gear : UInt64
  chunk : Bytes
  deriving DecidableEq, Repr

def mix (state : UInt64) : UInt64 :=
  let value := (state ^^^ (state >>> 30)) * 0xbf58476d1ce4e5b9
  let value := (value ^^^ (value >>> 27)) * 0x94d049bb133111eb
  value ^^^ (value >>> 31)

def gearEntries : Nat → UInt64 → List UInt64
  | 0, _ => []
  | n + 1, state =>
    let state := state + 0x9e3779b97f4a7c15
    mix state :: gearEntries n state

def buildDedupGearTable : List UInt64 := gearEntries 256 0x6a09e667f3bcc909

def dedupGear (value : UInt8) : UInt64 := buildDedupGearTable.getD value.toNat 0

def Options.withDefaults (options : Options) : Options where
  minBytes := if options.minBytes ≤ 0 then 64 * 1024 else options.minBytes
  averageBytes := if options.averageBytes ≤ 0 then 256 * 1024 else options.averageBytes
  maxBytes := if options.maxBytes ≤ 0 then 1024 * 1024 else options.maxBytes

def new (given : Options) : Except String Chunker :=
  let options := given.withDefaults
  if options.minBytes > options.averageBytes ∨ options.averageBytes > options.maxBytes then
    .error "invalid CDC bounds: require min <= average <= max"
  else if options.averageBytes.toNat &&& (options.averageBytes - 1).toNat ≠ 0 then
    .error s!"invalid CDC average {options.averageBytes}: must be a power of two"
  else
    .ok { options, mask := (options.averageBytes - 1).toNat.toUInt64, gear := 0, chunk := [] }

namespace Chunker

variable (c : Chunker)

def push (value : UInt8) : Chunker :=
  { c with chunk := c.chunk ++ [value], gear := (c.gear <<< 1) + dedupGear value }

def boundary : Bool :=
  decide ((c.chunk.length : Int) ≥ c.options.maxBytes) ||
    (decide ((c.chunk.length : Int) ≥ c.options.minBytes) && c.gear &&& c.mask == 0)

def reset : Chunker := { c with chunk := [], gear := 0 }

@[simp] theorem push_chunk (value : UInt8) : (c.push value).chunk = c.chunk ++ [value] := rfl

@[simp] theorem reset_chunk : c.reset.chunk = [] := rfl

section
variable {M : Type → Type} [Monad M] {μ : Type}

/-- `Write`: the callback `emit` carries the caller's own state `μ`. -/
def write (emit : μ → Bytes → M μ) : Chunker → μ → Bytes → M (Chunker × μ)
  | c, m, [] => pure (c, m)
  | c, m, value :: data =>
    if (c.push value).boundary then do
      let m ← emit m (c.push value).chunk
      write emit (c.push value).reset m data
    else write emit (c.push value) m data

/-- `Finish`: hand out the pending chunk, if there is one. -/
def finish (emit : μ → Bytes → M μ) (c : Chunker) (m : μ) : M (Chunker × μ) :=
  if c.chunk = [] then pure (c, m)
  else do
    let m ← emit m c.chunk
    pure (c.reset, m)

end

/-! ## What was handed out and what is pending -/

section
variable {σ ε μ : Type} {emit : μ → Bytes → Prog σ ε μ}

/-- The callback takes any nonempty chunk from `J m s out` to `J m' s' (out ++ chunk)`:
    `out` is all it was ever given. -/
def Accepts (emit : μ → Bytes → Prog σ ε μ) (J : μ → σ → Bytes → Prop) : Prop :=
  ∀ m s out data, data ≠ [] → J m s out →
    ∃ m' s', Runs (emit m data) s m' s' ∧ J m' s' (out ++ data)

variable {J : μ → σ → Bytes → Prop}

theorem write_runs (he : Accepts emit J) : ∀ (data : Bytes) (c : Chunker) (m : μ) (s : σ) (out : Bytes),
    J m s out → ∃ c' m' s' out', Runs (write emit c m data) s (c', m') s' ∧ J m' s' out' ∧
      out' ++ c'.chunk = out ++ c.chunk ++ data
  | [], c, m, s, out, hj => ⟨c, m, s, out, .pure' _ s, hj, by simp⟩
  | value :: data, c, m, s, out, hj => by
    unfold write
    by_cases hb : (c.push value).boundary = true
    · -- the chunk ends with this byte
      rw [if_pos hb]
      obtain ⟨m₁, s₁, hr₁, hj₁⟩ := he m s out (c.push value).chunk (by simp) hj
      obtain ⟨c', m', s', out', hr, hj', hout⟩ := write_runs he data (c.push value).reset m₁ s₁ _ hj₁
      refine ⟨c', m', s', out', .bind' hr₁ hr, hj', ?_⟩
      rw [hout]
      simp
    · rw [if_neg hb]
      obtain ⟨c', m', s', out', hr, hj', hout⟩ := write_runs he data (c.push value) m s out hj
      refine ⟨c', m', s', out', hr, hj', ?_⟩
      rw [hout]
      simp

theorem finish_runs (he : Accepts emit J) (c : Chunker) (m : μ) (s : σ) (out : Bytes)
    (hj : J m s out) : ∃ c' m' s', Runs (finish emit c m) s (c', m') s' ∧ c'.chunk = [] ∧ J m' s' (out ++ c.chunk) := by
  unfold finish
  by_cases hc : c.chunk = []
  · rw [if_pos hc]
    exact ⟨c, m, s, .pure' _ s, hc, by simpa [hc] using hj⟩
  · rw [if_neg hc]
    obtain ⟨m', s', hr, hj'⟩ := he m s out c.chunk hc hj
    exact ⟨c.reset, m', s', .bind' hr (.pure' _ s'), rfl, hj'⟩

/-! ## The same chunks in two callbacks

   Where a chunk ends does not depend on the callback. So a statement `I` that relates
   the caller's state to what a pure callback `collect` makes of the same chunks is
   carried from one chunk to the next, whatever fault stops the real one. -/

variable {ν : Type} {collect : ν → Bytes → ν} {I : μ → ν → σ → Prop} {E : ε → σ → Prop} {C : σ → Prop}

/-- The chunker is where the pure one is, and `I` relates what the callbacks have made. -/
abbrev Follows (I : μ → ν → σ → Prop) (pure : Chunker × ν) (r : Chunker × μ) (s : σ) : Prop :=
  ∃ m', r = (pure.1, m') ∧ I m' pure.2 s

theorem write_spec (he : ∀ m n data, Spec (I m n) (emit m data) (fun m' => I m' (collect n data)) E C) :
    ∀ (data : Bytes) (c : Chunker) (m : μ) (n : ν), Spec (I m n) (write emit c m data)
      (Follows I (write (M := Id) collect c n data)) E C
  | [], c, m, n => .pure' (c, m) fun _ h => ⟨m, rfl, h⟩
  | value :: data, c, m, n => by
    unfold write
    by_cases hb : (c.push value).boundary = true
    · simp only [hb, if_true]
      exact .bind' (he m n _) (fun m' => write_spec he data _ m' _)
    · simp only [hb]
      exact write_spec he data _ m n

theorem finish_spec (he : ∀ m n data, Spec (I m n) (emit m data) (fun m' => I m' (collect n data)) E C)
    (c : Chunker) (m : μ) (n : ν) : Spec (I m n) (finish emit c m)
      (Follows I (finish (M := Id) collect c n)) E C := by
  unfold finish
  by_cases hc : c.chunk = []
  · simp only [hc, if_true]
    exact .pure' _ (fun _ h => ⟨m, rfl, h⟩)
  · simp only [hc, if_false]
    exact .bind' (he m n _) fun m' => .pure' _ (fun _ h => ⟨m', rfl, h⟩)

theorem write_completes (he : ∀ m n data, Completes (I m n) (emit m data) (fun m' => I m' (collect n data)) E C) :
    ∀ (data : Bytes) (c : Chunker) (m : μ) (n : ν), Completes (I m n) (write emit c m data)
      (Follows I (write (M := Id) collect c n data)) E C
  | [], c, m, n => .pure' (c, m) fun _ h => ⟨m, rfl, h⟩
  | value :: data, c, m, n => by
    unfold write
    by_cases hb : (c.push value).boundary = true
    · simp only [hb, if_true]
      exact .bind' (he m n _) (fun m' => write_completes he data _ m' _)
    · simp only [hb]
      exact write_completes he data _ m n

theorem finish_completes (he : ∀ m n data, Completes (I m n) (emit m data) (fun m' => I m' (collect n data)) E C)
    (c : Chunker) (m : μ) (n : ν) : Completes (I m n) (finish emit c m)
      (Follows I (finish (M := Id) collect c n)) E C := by
  unfold finish
  by_cases hc : c.chunk = []
  · simp only [hc, if_true]
    exact .pure' _ (fun _ h => ⟨m, rfl, h⟩)
  · simp only [hc, if_false]
    exact .bind' (he m n _) fun m' => .pure' _ (fun _ h => ⟨m', rfl, h⟩)

theorem write_cons (collect : ν → Bytes → ν) (c : Chunker) (n : ν) (value : UInt8) (data : Bytes) :
    write (M := Id) collect c n (value :: data) =
      if (c.push value).boundary then write (M := Id) collect (c.push value).reset (collect n (c.push value).chunk) data
      else write (M := Id) collect (c.push value) n data := rfl

theorem write_append (collect : ν → Bytes → ν) : ∀ (first second : Bytes) (c : Chunker) (n : ν),
    write (M := Id) collect c n (first ++ second) =
      write (M := Id) collect (write (M := Id) collect c n first).1 (write (M := Id) collect c n first).2 second
  | [], _, _, _ => rfl
  | value :: first, second, c, n => by
    rw [List.cons_append, write_cons, write_cons]
    split
    · exact write_append collect first second _ _
    · exact write_append collect first second _ _

end

end Chunker

end CodexFold.Cdc
