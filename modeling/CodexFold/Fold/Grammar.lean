import CodexFold.Fold.Spans

/- What the walk over a record can report.

   `findStringSpans` has errors of its own: a key that is no string, a delimiter that
   closes nothing, a string it cannot locate. `encoding/json` documents that none of them
   can happen: `Token` guarantees that the delimiters it returns are nested and matched,
   and its errors are syntax errors or an unexpected end. `Grammar` states what the walk
   needs of that, over states that include the last answer of `More`, and
   `findStringSpans_error` concludes that a record the walk refuses is one the decoder
   refuses, or more than one value. -/
namespace CodexFold.JsonRaw
open Foundation Option

inductive Frame where
  | object
  | array
  deriving DecidableEq, Repr

/-- What has to come next, and what is open around it: a value, the key of a member of
    the innermost object, the delimiter that closes `frame`, or whatever `More` says. -/
inductive Place where
  | value (around : List Frame)
  | key (around : List Frame)
  | closing (frame : Frame) (around : List Frame)
  | inside (around : List Frame)
  deriving DecidableEq, Repr

def Place.after : Place → Token → Option Place
  | .value around, .string _ => some (.inside around)
  | .value around, .scalar => some (.inside around)
  | .value around, .delim .openObject => some (.inside (.object :: around))
  | .value around, .delim .openArray => some (.inside (.array :: around))
  | .key around, .string _ => some (.value (.object :: around))
  | .closing .object around, .delim .closeObject => some (.inside around)
  | .closing .array around, .delim .closeArray => some (.inside around)
  | _, _ => none

/-- Where the answer of `More` leads inside a frame. -/
def Place.ofMore (frame : Frame) (around : List Frame) : Bool → Place
  | false => .closing frame around
  | true =>
    match frame with
    | .object => .key around
    | .array => .value (.array :: around)

structure Grammar (decoder : Decoder) (isSyntaxError : String → Bool) where
  place : decoder.State → Place
  place_new : ∀ data, place (decoder.new data) = .value []
  place_more : ∀ {s frame around}, place s = .inside (frame :: around) →
    place (decoder.more s).2 = Place.ofMore frame around (decoder.more s).1
  place_token : ∀ {s t s'}, (∀ around, place s ≠ .inside around) → decoder.token s = .ok (t, s') →
    (place s).after t = some (place s')
  locates : ∀ {s value s' around}, place s = .value around → decoder.token s = .ok (.string value, s') →
    (rawStringBounds (decoder.input s) (decoder.inputOffset s) (decoder.inputOffset s')).isSome = true
  refuses : ∀ {s message}, decoder.token s = .error (.malformed message) → isSyntaxError message = true

section
variable {decoder : Decoder} {isSyntaxError : String → Bool} (g : Grammar decoder isSyntaxError)
  {raw : Bytes} {minRawBytes : Int}
variable {s : decoder.State} {around : List Frame}

def Walked (around : List Frame) : Except String (decoder.State × List StringSpan) → Prop
  | .ok r => g.place r.1 = .inside around
  | .error e => isSyntaxError e = true ∨ e = "EOF"

include g in
theorem next_error {e : String} (h : next decoder s = .error e) : isSyntaxError e ∨ e = "EOF" := by
  unfold next at h
  split at h
  · cases h
  · cases h
    exact .inr rfl
  · next hm =>
    cases h
    exact .inl (g.refuses hm)

variable {s' : decoder.State} {t : Token} {p : Place}

theorem next_place (hp : g.place s = p) (hne : ∀ around, p ≠ .inside around) (h : next decoder s = .ok (t, s')) :
    p.after t = some (g.place s') := by
  rw [← hp] at hne ⊢
  exact g.place_token hne (next_ok h)

theorem closing_delim {frame : Frame} (h : (Place.closing frame around).after t = some p) :
    t = .delim (match frame with | .object => .closeObject | .array => .closeArray) := by
  cases t with
  | string value | scalar => cases frame <;> cases h
  | delim d => cases frame <;> cases d <;> first | rfl | cases h

theorem input_of_more {b : Bool} (h : decoder.more s = (b, s')) : decoder.input s' = decoder.input s := by
  have hin := decoder.input_more s
  rwa [h] at hin

theorem recordString_walked {value path : String} (hp : g.place s = .value around) (hraw : decoder.input s = raw)
    (h : next decoder s = .ok (.string value, s')) (spans : List StringSpan) :
    Walked g around (recordString decoder raw minRawBytes (decoder.inputOffset s) path s' spans) := by
  have hplace : g.place s' = .inside around := (some.inj (next_place g hp nofun h)).symm
  have hfound := g.locates hp (next_ok h)
  rw [hraw] at hfound
  unfold recordString
  split
  · next hnone =>
    rw [hnone] at hfound
    cases hfound
  · split
    · exact hplace
    · exact hplace

/-- The walk stays inside the grammar. The induction is on the fuel, for the three
    functions together: each token read shortens the rest of the input. -/
theorem scan_walked (fuel : Nat) : (∀ s path spans around, g.place s = .value around → decoder.input s = raw →
      2 * remaining s + 1 ≤ fuel → Walked g around (scanValue decoder raw minRawBytes fuel s path spans)) ∧
    (∀ s path spans around, g.place s = .inside (.object :: around) → decoder.input s = raw →
      2 * remaining s + 2 ≤ fuel → Walked g around (scanObject decoder raw minRawBytes fuel s path spans)) ∧
    (∀ s path index spans around, g.place s = .inside (.array :: around) → decoder.input s = raw →
      2 * remaining s + 2 ≤ fuel → Walked g around (scanArray decoder raw minRawBytes fuel s path index spans)) := by
  induction fuel with
  | zero => refine ⟨?_, ?_, ?_⟩ <;> intros <;> omega
  | succ fuel ih =>
    obtain ⟨ihv, iho, iha⟩ := ih
    refine ⟨?_, ?_, ?_⟩
    · intro s path spans around hp hraw hfuel
      unfold scanValue
      split
      · next e he => exact next_error g he
      · next ht => exact recordString_walked g hp hraw ht spans
      · next ht =>
        have hadv := Advances.of_token spans ht
        have hlt := hadv.remaining_lt
        exact iho _ _ _ _ (some.inj (next_place g hp (by simp) ht)).symm (hadv.input.trans hraw) (by omega)
      · next ht =>
        have hadv := Advances.of_token spans ht
        have hlt := hadv.remaining_lt
        exact iha _ _ _ _ _ (some.inj (next_place g hp (by simp) ht)).symm (hadv.input.trans hraw) (by omega)
      · -- a closing delimiter cannot stand where a value has to
        next d _ hobject harray ht =>
        have hafter := next_place g hp (by simp) ht
        cases d with
        | openObject => exact (hobject rfl).elim
        | openArray => exact (harray rfl).elim
        | closeObject | closeArray => cases hafter
      · next ht => exact (some.inj (next_place g hp (by simp) ht)).symm
    · intro s path spans around hp hraw hfuel
      have hmore := g.place_more hp
      unfold scanObject
      split
      · next s₁ hm =>
        have hrem := remaining_more hm
        have hin₁ := (input_of_more hm).trans hraw
        rw [hm] at hmore
        have hkey : g.place s₁ = .key around := hmore
        split
        · next he => exact next_error g he
        · next key _ ht =>
          have hlt := (Advances.of_token spans ht).remaining_lt
          have hin := (Advances.of_token spans ht).input
          have hval := ihv _ (path ++ "/" ++ escapePointerToken key) spans _
            (some.inj (next_place g hkey (by simp) ht)).symm (hin.trans hin₁) (by omega)
          split
          · next he =>
            rw [he] at hval
            exact hval
          · next hv =>
            have hadv := (scan_advances _).1 _ _ _ _ hv
            have hlt' := hadv.remaining_lt
            rw [hv] at hval
            exact iho _ _ _ _ hval (hadv.input.trans (hin.trans hin₁)) (by omega)
        · next t _ hstring ht =>
          have hafter := next_place g hkey (by simp) ht
          cases t with
          | string value => exact (hstring _ rfl).elim
          | delim d | scalar => cases hafter
      · next s₁ hm =>
        rw [hm] at hmore
        have hclosing : g.place s₁ = .closing .object around := hmore
        split
        · next he => exact next_error g he
        · next ht => exact (some.inj (next_place g hclosing (by simp) ht)).symm
        · next t _ hclose ht => exact (hclose (closing_delim (next_place g hclosing (by simp) ht))).elim
    · intro s path index spans around hp hraw hfuel
      have hmore := g.place_more hp
      unfold scanArray
      split
      · next s₁ hm =>
        have hrem := remaining_more hm
        have hin₁ := (input_of_more hm).trans hraw
        rw [hm] at hmore
        have hval := ihv s₁ (path ++ "/" ++ toString index) spans _ hmore hin₁ (by omega)
        split
        · next he =>
          rw [he] at hval
          exact hval
        · next hv =>
          have hadv := (scan_advances _).1 _ _ _ _ hv
          have hlt := hadv.remaining_lt
          rw [hv] at hval
          exact iha _ _ _ _ _ hval (hadv.input.trans hin₁) (by omega)
      · next s₁ hm =>
        rw [hm] at hmore
        have hclosing : g.place s₁ = .closing .array around := hmore
        split
        · next he => exact next_error g he
        · next ht => exact (some.inj (next_place g hclosing (by simp) ht)).symm
        · next t _ hclose ht => exact (hclose (closing_delim (next_place g hclosing (by simp) ht))).elim

include g in
theorem findStringSpans_error {e : String} (h : findStringSpans decoder raw minRawBytes = .error e) :
    isSyntaxError e ∨ e = "EOF" ∨ e = "multiple JSON values in one record" := by
  have hrem : remaining (decoder.new raw) ≤ raw.length := by
    unfold remaining
    rw [decoder.input_new]
    omega
  have hwalk : Walked g [] (scanValue decoder raw minRawBytes (2 * raw.length + 1) (decoder.new raw) "" []) :=
    (scan_walked g (2 * raw.length + 1)).1 _ "" [] [] (g.place_new raw) (decoder.input_new raw) (by omega)
  unfold findStringSpans at h
  split at h
  · next hv =>
    cases h
    rw [hv] at hwalk
    exact hwalk.imp_right .inl
  · split at h
    · cases h
    · next hm =>
      cases h
      exact .inl (g.refuses hm)
    · cases h
      exact .inr (.inr rfl)

end

/-! ## A decoder with this grammar -/

def quotedDecoder : Decoder where
  State := { s : Bytes × Nat // s.2 ≤ s.1.length }
  new data := ⟨(data, 0), Nat.zero_le _⟩
  token s :=
    if s.1.2 = 0 then
      match scanStringToken s.1.1 0 with
      | none => .error .eof
      | some stop => if h : stop ≤ s.1.1.length ∧ 0 < stop then .ok (.string "", ⟨(s.1.1, stop), h.1⟩) else .error .eof
    else .error .eof
  more s := (false, s)
  inputOffset s := s.1.2
  input s := s.1.1
  input_new _ := rfl
  input_token {s t s'} h := by
    split at h
    · split at h
      · cases h
      · split at h
        · cases h; rfl
        · cases h
    · cases h
  input_more _ := rfl
  offset_token {s t s'} h := by
    split at h
    · next hzero =>
      split at h
      · cases h
      · split at h
        · next hstop =>
          cases h
          show s.1.2 < _
          rw [hzero]
          exact hstop.2
        · cases h
    · cases h
  offset_more _ := Nat.le_refl _
  offset_le s := s.2

theorem quotedDecoder_token {s s' : quotedDecoder.State} {t : Token} (h : quotedDecoder.token s = .ok (t, s')) :
    s.1.2 = 0 ∧ t = .string "" ∧ scanStringToken s.1.1 0 = some s'.1.2 ∧ 0 < s'.1.2 ∧ s'.1.2 ≤ s.1.1.length := by
  unfold quotedDecoder at h
  dsimp only at h
  split at h
  · next hzero =>
    split at h
    · cases h
    · next stop hscan =>
      split at h
      · next hstop =>
        cases h
        exact ⟨hzero, rfl, hscan, hstop.2, hstop.1⟩
      · cases h
  · cases h

theorem rawStringBounds_start {data : Bytes} {stop : Nat} (h : scanStringToken data 0 = some stop) (hpos : 0 < stop)
    (hle : stop ≤ data.length) : rawStringBounds data 0 stop = some (0, stop) := by
  have hquote : data[0]? = some quote := by
    unfold scanStringToken at h
    split at h
    · assumption
    · cases h
  have hindex : indexByte quote ((data.drop 0).take (stop - 0)) = some 0 := by
    obtain ⟨b, rest, rfl⟩ := List.exists_cons_of_length_pos (Nat.lt_of_lt_of_le hpos hle)
    obtain ⟨n, rfl⟩ := Nat.exists_eq_succ_of_ne_zero (Nat.pos_iff_ne_zero.mp hpos)
    have hb : b = quote := by simpa using hquote
    simp [indexByte, hb]
  unfold rawStringBounds
  rw [if_neg (by omega), hindex]
  simp [h]

def quotedGrammar : Grammar quotedDecoder fun _ => false where
  place s := if s.1.2 = 0 then .value [] else .inside []
  place_new _ := rfl
  place_more {s frame around} h := by
    split at h
    · cases h
    · cases h
  place_token {s t s'} _ h := by
    obtain ⟨hzero, rfl, -, hpos, -⟩ := quotedDecoder_token h
    have hne : ¬s'.1.2 = 0 := by omega
    rw [if_pos hzero, if_neg hne]
    rfl
  locates {s value s' around} _ h := by
    obtain ⟨hzero, -, hscan, hpos, hle⟩ := quotedDecoder_token h
    show (rawStringBounds s.1.1 s.1.2 s'.1.2).isSome = true
    rw [hzero, rawStringBounds_start hscan hpos hle]
    rfl
  refuses {s message} h := by
    unfold quotedDecoder at h
    dsimp only at h
    split at h
    · split at h
      · cases h
      · split at h
        · cases h
        · cases h
    · cases h

end CodexFold.JsonRaw
