import CodexFold.Foundation.Content

/- Raw JSON string spans (`internal/jsonraw`).

   `findStringSpans` walks one record with a streaming JSON decoder and reports
   where its long string values stand in the raw bytes. The decoder is
   `encoding/json`'s: the model takes any decoder whose offsets behave as that
   package documents (`InputOffset` is the end of the token returned last, so a
   token moves it forward and nothing moves it back or past the input).

   What folding needs is `findStringSpans_within`: the spans are nonempty, in
   order, disjoint and inside the record. The scan is bounded by fuel
   that is never used up: every token shortens what is left of the input, and
   `Grammar` shows that no refusal of the walk comes from the bound. -/
namespace CodexFold.JsonRaw
open Foundation List Option

inductive Delim where
  | openObject
  | closeObject
  | openArray
  | closeArray
  deriving DecidableEq, Repr

inductive Token where
  | string (value : String)
  | delim (d : Delim)
  | scalar
  deriving DecidableEq, Repr

inductive DecodeError where
  | eof
  | malformed (message : String)
  deriving DecidableEq, Repr

structure Decoder where
  State : Type
  new : Bytes → State
  token : State → Except DecodeError (Token × State)
  more : State → Bool × State
  inputOffset : State → Nat
  input : State → Bytes
  input_new : ∀ data, input (new data) = data
  input_token : ∀ {s t s'}, token s = .ok (t, s') → input s' = input s
  input_more : ∀ s, input (more s).2 = input s
  offset_token : ∀ {s t s'}, token s = .ok (t, s') → inputOffset s < inputOffset s'
  offset_more : ∀ s, inputOffset s ≤ inputOffset (more s).2
  offset_le : ∀ s, inputOffset s ≤ (input s).length

structure StringSpan where
  path : String
  start : Nat
  stop : Nat
  deriving DecidableEq, Repr

/-! ## Where a string token stands in the raw bytes -/

def quote : UInt8 := 34
def backslash : UInt8 := 92

def indexByte (value : UInt8) : Bytes → Option Nat
  | [] => none
  | b :: rest => if b = value then some 0 else (indexByte value rest).map (· + 1)

theorem indexByte_some : ∀ {data : Bytes} {value : UInt8} {index : Nat},
    indexByte value data = some index → data[index]? = some value ∧ value ∉ data.take index
  | [], _, _, h => by simp [indexByte] at h
  | b :: rest, value, index, h => by
    unfold indexByte at h
    split at h
    · next hb =>
      cases h
      simp [hb]
    · next hb =>
      obtain ⟨i, hi, rfl⟩ := map_eq_some_iff.mp h
      obtain ⟨hget, hout⟩ := indexByte_some hi
      simp only [getElem?_cons_succ, take_succ_cons, mem_cons, not_or]
      exact ⟨hget, fun he => hb he.symm, hout⟩

theorem indexByte_none : ∀ {data : Bytes} {value : UInt8}, indexByte value data = none → value ∉ data
  | [], _, _ => by simp
  | b :: rest, value, h => by
    unfold indexByte at h
    split at h
    · cases h
    · next hb =>
      simp only [mem_cons, not_or]
      exact ⟨fun he => hb he.symm, indexByte_none (map_eq_none_iff.mp h)⟩

/-- The loop of `scanStringToken` over the bytes from `cursor` on. -/
def scanString (escaped : Bool) (cursor : Nat) : Bytes → Option Nat
  | [] => none
  | b :: rest =>
    if escaped then scanString false (cursor + 1) rest
    else if b = backslash then scanString true (cursor + 1) rest
    else if b = quote then some (cursor + 1)
    else scanString false (cursor + 1) rest

def scanStringToken (data : Bytes) (start : Nat) : Option Nat :=
  if data[start]? = some quote then scanString false (start + 1) (data.drop (start + 1))
  else none

def rawStringBounds (data : Bytes) (startOffset endOffset : Nat) : Option (Nat × Nat) :=
  if endOffset < startOffset ∨ endOffset > data.length then none
  else match indexByte quote ((data.drop startOffset).take (endOffset - startOffset)) with
    | none => none
    | some relativeStart =>
      let absoluteStart := startOffset + relativeStart
      match scanStringToken data absoluteStart with
      | none => none
      | some absoluteEnd =>
        if absoluteEnd > endOffset then none else some (absoluteStart, absoluteEnd)

theorem scanString_gt : ∀ (data : Bytes) (escaped : Bool) (cursor stop : Nat),
    scanString escaped cursor data = some stop → cursor < stop
  | [], _, _, _, h => by simp [scanString] at h
  | b :: rest, escaped, cursor, stop, h => by
    unfold scanString at h
    split at h
    · have := scanString_gt rest _ _ _ h; omega
    · split at h
      · have := scanString_gt rest _ _ _ h; omega
      · split at h
        · simp only [some.injEq] at h; omega
        · have := scanString_gt rest _ _ _ h; omega

theorem rawStringBounds_bounds {data : Bytes} {startOffset endOffset start stop : Nat}
    (h : rawStringBounds data startOffset endOffset = some (start, stop)) :
    startOffset ≤ start ∧ start < stop ∧ stop ≤ endOffset := by
  unfold rawStringBounds at h
  split at h
  · cases h
  · split at h
    · cases h
    · rename_i relativeStart _
      dsimp only at h
      split at h
      · cases h
      · rename_i absoluteEnd hscan
        split at h
        · cases h
        · simp only [some.injEq, Prod.mk.injEq] at h
          obtain ⟨rfl, rfl⟩ := h
          have hgt : startOffset + relativeStart < absoluteEnd := by
            unfold scanStringToken at hscan
            split at hscan
            · have := scanString_gt _ _ _ _ hscan; omega
            · cases hscan
          omega

/-! ## The walk over one record -/

/-- `escapePointerToken`: `~` and `/` are escaped as in a JSON pointer. -/
def escapePointerToken (value : String) : String :=
  String.ofList (value.toList.flatMap fun c =>
    if c = '~' then ['~', '0'] else if c = '/' then ['~', '1'] else [c])

section
variable (decoder : Decoder) (raw : Bytes) (minRawBytes : Int)

/-- `decoder.Token` with its error as a text. -/
def next (s : decoder.State) : Except String (Token × decoder.State) :=
  match decoder.token s with
  | .ok r => .ok r
  | .error .eof => .error "EOF"
  | .error (.malformed message) => .error message

def recordString (startOffset : Nat) (path : String) (s : decoder.State) (spans : List StringSpan) :
    Except String (decoder.State × List StringSpan) :=
  match rawStringBounds raw startOffset (decoder.inputOffset s) with
  | none => .error s!"locate raw JSON string at offset {startOffset}"
  | some (start, stop) =>
    if ((stop - start : Nat) : Int) ≥ minRawBytes then .ok (s, spans ++ [⟨path, start, stop⟩])
    else .ok (s, spans)

mutual

def scanValue : Nat → decoder.State → String → List StringSpan →
    Except String (decoder.State × List StringSpan)
  | 0, _, _, _ => .error "out of fuel"
  | fuel + 1, s, path, spans =>
    match next decoder s with
    | .error e => .error e
    | .ok (.string _, s') => recordString decoder raw minRawBytes (decoder.inputOffset s) path s' spans
    | .ok (.delim .openObject, s') => scanObject fuel s' path spans
    | .ok (.delim .openArray, s') => scanArray fuel s' path 0 spans
    | .ok (.delim _, _) => .error "unexpected JSON delimiter"
    | .ok (.scalar, s') => .ok (s', spans)

def scanObject : Nat → decoder.State → String → List StringSpan →
    Except String (decoder.State × List StringSpan)
  | 0, _, _, _ => .error "out of fuel"
  | fuel + 1, s, path, spans =>
    match decoder.more s with
    | (true, s') =>
      match next decoder s' with
      | .error e => .error e
      | .ok (.string key, s') =>
        match scanValue fuel s' (path ++ "/" ++ escapePointerToken key) spans with
        | .error e => .error e
        | .ok (s', spans) => scanObject fuel s' path spans
      | .ok (_, _) => .error "JSON object key is not a string"
    | (false, s') =>
      match next decoder s' with
      | .error e => .error e
      | .ok (.delim .closeObject, s') => .ok (s', spans)
      | .ok (_, _) => .error "JSON object ended with another token"

def scanArray : Nat → decoder.State → String → Nat → List StringSpan →
    Except String (decoder.State × List StringSpan)
  | 0, _, _, _, _ => .error "out of fuel"
  | fuel + 1, s, path, index, spans =>
    match decoder.more s with
    | (true, s') =>
      match scanValue fuel s' (path ++ "/" ++ toString index) spans with
      | .error e => .error e
      | .ok (s', spans) => scanArray fuel s' path (index + 1) spans
    | (false, s') =>
      match next decoder s' with
      | .error e => .error e
      | .ok (.delim .closeArray, s') => .ok (s', spans)
      | .ok (_, _) => .error "JSON array ended with another token"

end

def findStringSpans : Except String (List StringSpan) :=
  match scanValue decoder raw minRawBytes (2 * raw.length + 1) (decoder.new raw) "" [] with
  | .error e => .error e
  | .ok (s, spans) =>
    match decoder.token s with
    | .error .eof => .ok spans
    | .error (.malformed message) => .error message
    | .ok _ => .error "multiple JSON values in one record"

end

/-! ## The spans tile the record in order -/

def Within (lo hi : Nat) : List StringSpan → Prop
  | [] => lo ≤ hi
  | span :: rest => lo ≤ span.start ∧ span.start < span.stop ∧ Within span.stop hi rest

theorem Within.mono {lo hi hi' : Nat} (h : hi ≤ hi') : ∀ {spans : List StringSpan},
    Within lo hi spans → Within lo hi' spans
  | [], hw => Nat.le_trans hw h
  | _ :: _, hw => ⟨hw.1, hw.2.1, Within.mono h hw.2.2⟩

theorem Within.append {mid hi : Nat} {span : StringSpan} (h₁ : mid ≤ span.start)
    (h₂ : span.start < span.stop) (h₃ : span.stop ≤ hi) : ∀ {lo : Nat} {spans : List StringSpan},
    Within lo mid spans → Within lo hi (spans ++ [span])
  | _, [], hw => ⟨Nat.le_trans hw h₁, h₂, h₃⟩
  | _, _ :: _, hw => ⟨hw.1, hw.2.1, Within.append h₁ h₂ h₃ hw.2.2⟩

section
variable {decoder : Decoder} {raw : Bytes} {minRawBytes : Int}

theorem next_ok {s s' : decoder.State} {t : Token} (h : next decoder s = .ok (t, s')) :
    decoder.token s = .ok (t, s') := by
  unfold next at h
  split at h
  · next hr => rw [hr]; exact congrArg _ (Except.ok.inj h)
  · cases h
  · cases h

/-- A scan step from `s` with `spans`: the decoder moved forward over the same
    input, and spans that ended before `s` end before the new position. -/
structure Advances (s : decoder.State) (spans : List StringSpan)
    (r : decoder.State × List StringSpan) : Prop where
  input : decoder.input r.1 = decoder.input s
  offset : decoder.inputOffset s < decoder.inputOffset r.1
  within : ∀ lo, Within lo (decoder.inputOffset s) spans → Within lo (decoder.inputOffset r.1) r.2

namespace Advances
variable {s s' : decoder.State} {spans : List StringSpan} {t : Token}

theorem of_token (spans : List StringSpan) (h : next decoder s = .ok (t, s')) : Advances s spans (s', spans) where
  input := decoder.input_token (next_ok h)
  offset := decoder.offset_token (next_ok h)
  within _ hw := hw.mono (Nat.le_of_lt (decoder.offset_token (next_ok h)))

variable {r : decoder.State × List StringSpan}

theorem trans {spans₁ : List StringSpan} (h₁ : Advances s spans (s', spans₁)) (h₂ : Advances s' spans₁ r) :
    Advances s spans r where
  input := h₂.input.trans h₁.input
  offset := Nat.lt_trans h₁.offset h₂.offset
  within lo hw := h₂.within lo (h₁.within lo hw)

theorem of_more (h : Advances (decoder.more s).2 spans r) :
    Advances s spans r where
  input := h.input.trans (decoder.input_more s)
  offset := Nat.lt_of_le_of_lt (decoder.offset_more s) h.offset
  within lo hw := h.within lo (hw.mono (decoder.offset_more s))

theorem of_string {path : String} {value : String} (ht : next decoder s = .ok (.string value, s'))
    (h : recordString decoder raw minRawBytes (decoder.inputOffset s) path s' spans = .ok r) : Advances s spans r := by
  have hadv : Advances s spans (s', spans) := of_token spans ht
  unfold recordString at h
  split at h
  · cases h
  · rename_i start stop hbounds
    obtain ⟨hlo, hlt, hhi⟩ := rawStringBounds_bounds hbounds
    split at h
    · -- the string is long enough to be recorded
      cases h
      exact ⟨hadv.input, hadv.offset, fun lo hw => hw.append hlo hlt hhi⟩
    · cases h
      exact hadv

end Advances

/-- Every scan that returns has moved the decoder forward. The induction is on the
    fuel, for the three functions together. -/
theorem scan_advances (fuel : Nat) : (∀ s path spans r, scanValue decoder raw minRawBytes fuel s path spans = .ok r →
      Advances s spans r) ∧ (∀ s path spans r, scanObject decoder raw minRawBytes fuel s path spans = .ok r →
      Advances s spans r) ∧ (∀ s path index spans r, scanArray decoder raw minRawBytes fuel s path index spans = .ok r →
      Advances s spans r) := by
  induction fuel with
  | zero =>
    refine ⟨?_, ?_, ?_⟩
    · intro s path spans r h; simp [scanValue] at h
    · intro s path spans r h; simp [scanObject] at h
    · intro s path index spans r h; simp [scanArray] at h
  | succ fuel ih =>
    obtain ⟨ihv, iho, iha⟩ := ih
    refine ⟨?_, ?_, ?_⟩
    · intro s path spans r h
      unfold scanValue at h
      split at h
      · cases h
      · next ht => exact Advances.of_string ht h
      · next ht => exact (Advances.of_token spans ht).trans (iho _ _ _ _ h)
      · next ht => exact (Advances.of_token spans ht).trans (iha _ _ _ _ _ h)
      · cases h
      · next ht => cases h; exact Advances.of_token spans ht
    · intro s path spans r h
      unfold scanObject at h
      split at h
      · next s₁ hm =>
        apply Advances.of_more
        rw [hm]
        split at h
        · cases h
        · next ht =>
          split at h
          · cases h
          · next hv => exact ((Advances.of_token spans ht).trans (ihv _ _ _ _ hv)).trans (iho _ _ _ _ h)
        · cases h
      · next s₁ hm =>
        apply Advances.of_more
        rw [hm]
        split at h
        · cases h
        · next ht => cases h; exact Advances.of_token spans ht
        · cases h
    · intro s path index spans r h
      unfold scanArray at h
      split at h
      · next s₁ hm =>
        apply Advances.of_more
        rw [hm]
        split at h
        · cases h
        · next hv => exact (ihv _ _ _ _ hv).trans (iha _ _ _ _ _ h)
      · next s₁ hm =>
        apply Advances.of_more
        rw [hm]
        split at h
        · cases h
        · next ht => cases h; exact Advances.of_token spans ht
        · cases h

theorem findStringSpans_within {spans : List StringSpan}
    (h : findStringSpans decoder raw minRawBytes = .ok spans) : Within 0 raw.length spans := by
  unfold findStringSpans at h
  split at h
  · cases h
  · next s found hscan =>
    have hadv := (scan_advances _).1 _ _ _ _ hscan
    have hstart : Within 0 (decoder.inputOffset (decoder.new raw)) [] := Nat.zero_le _
    have hend : decoder.inputOffset s ≤ raw.length := by
      have hle := decoder.offset_le s
      rwa [hadv.input, decoder.input_new] at hle
    split at h
    · cases h; exact (hadv.within 0 hstart).mono hend
    · cases h
    · cases h

/-! ## The fuel suffices -/

def remaining (s : decoder.State) : Nat := (decoder.input s).length - decoder.inputOffset s

theorem Advances.remaining_lt {s s' : decoder.State} {spans spans' : List StringSpan}
    (h : Advances s spans (s', spans')) : remaining s' < remaining s := by
  have hle := decoder.offset_le s'
  have hoff : decoder.inputOffset s < decoder.inputOffset s' := h.offset
  have hin : decoder.input s' = decoder.input s := h.input
  unfold remaining
  rw [hin] at hle ⊢
  omega

theorem remaining_more {s s' : decoder.State} {b : Bool} (h : decoder.more s = (b, s')) : remaining s' ≤ remaining s := by
  have hoff := decoder.offset_more s
  have hin := decoder.input_more s
  simp only [h] at hoff hin
  unfold remaining
  rw [hin]
  omega

end

end CodexFold.JsonRaw
