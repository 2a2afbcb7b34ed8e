import CodexFold.Foundation.Content

/- The timestamp of a record (`internal/reconcile`).

   The extractor reads a record byte by byte and never builds a JSON value: it counts
   brackets, skips strings and takes those that stand as names or as the value of `timestamp`
   on the first level. Between two tokens of an object it is `resting`. -/
namespace CodexFold.Reconcile
open Foundation List

inductive ExtractorExpectation
  | expectKey
  | expectColon
  | expectValue
  deriving DecidableEq

structure TimestampExtractor where
  depth : Nat
  inString : Bool
  escaped : Bool
  capture : Bool
  token : Bytes
  topKey : Bytes
  expectation : ExtractorExpectation
  timestamp : Bytes

def timestampKey : Bytes := [116, 105, 109, 101, 115, 116, 97, 109, 112]

namespace TimestampExtractor

def resting (depth : Nat) (topKey : Bytes) (expectation : ExtractorExpectation) (timestamp : Bytes) : TimestampExtractor :=
  ⟨depth, false, false, false, [], topKey, expectation, timestamp⟩

def newTimestampExtractor : TimestampExtractor := resting 0 [] .expectKey []

variable (e : TimestampExtractor)

def keep (char : UInt8) : TimestampExtractor :=
  if e.capture then { e with token := e.token ++ [char] } else e

def captured : TimestampExtractor :=
  match e.expectation with
  | .expectKey => { e with topKey := e.token, expectation := .expectColon }
  | .expectColon => e
  | .expectValue => if e.topKey = timestampKey then { e with timestamp := e.token } else e

/-- The body of the loop of `Write`. -/
def writeByte (char : UInt8) : TimestampExtractor :=
  if e.inString then
    if e.escaped then { e with escaped := false }.keep char
    else if char = 92 then { e with escaped := true }
    else if char = 34 then { (if e.capture then e.captured else e) with inString := false, token := [], capture := false }
    else e.keep char
  else if char = 34 then
    if e.depth = 1 ∧ (e.expectation = .expectKey ∨ e.expectation = .expectValue ∧ e.topKey = timestampKey) then
      { e with inString := true, capture := true, token := [] }
    else { e with inString := true }
  else if char = 123 ∨ char = 91 then { e with depth := e.depth + 1 }
  else if char = 125 ∨ char = 93 then { e with depth := e.depth - 1 }
  else if char = 58 then
    if e.depth = 1 ∧ e.expectation = .expectColon then { e with expectation := .expectValue } else e
  else if char = 44 then
    if e.depth = 1 then { e with expectation := .expectKey, topKey := [] } else e
  else e

def write (data : Bytes) : TimestampExtractor := data.foldl writeByte e

end TimestampExtractor

/-! ## Objects

   Every JSON object is of this form; only what the extractor depends on is asked of it. -/

abbrev Unmarked : Type := { text : Bytes // ∀ b ∈ text, b ∉ ([34, 123, 125, 91, 93, 58, 44] : Bytes) }

inductive Characters : Bytes → Prop
  | nil : Characters []
  | plain {b : UInt8} {rest : Bytes} : b ≠ 34 ∧ b ≠ 92 → Characters rest → Characters (b :: rest)
  | escape {b : UInt8} {rest : Bytes} : Characters rest → Characters (92 :: b :: rest)

def Unescaped (text : Bytes) : Prop := ∀ b ∈ text, b ≠ 34 ∧ b ≠ 92

def quoted (text : Bytes) : Bytes := 34 :: (text ++ [34])

def Brackets (inner text : Bytes) : Prop := text = 123 :: (inner ++ [125]) ∨ text = 91 :: (inner ++ [93])

inductive Nested : Bytes → Prop
  | nil : Nested []
  | plain {b : UInt8} {rest : Bytes} : b ∉ ([34, 123, 125, 91, 93] : Bytes) → Nested rest → Nested (b :: rest)
  | string {text rest : Bytes} : Characters text → Nested rest → Nested (quoted text ++ rest)
  | brackets {inner text rest : Bytes} : Nested inner → Brackets inner text → Nested rest → Nested (text ++ rest)

inductive Value (key : Bytes)
  | scalar (text : Unmarked)
  | string (text : Bytes) (characters : Characters text) (unescaped : key = timestampKey → Unescaped text)
  | brackets (inner text : Bytes) (nested : Nested inner) (brackets : Brackets inner text)

def Value.text {key : Bytes} : Value key → Bytes
  | scalar text => text.1
  | string text _ _ => quoted text
  | brackets _ text _ _ => text

structure Member where
  before : Unmarked
  key : Bytes
  unescaped : Unescaped key
  afterKey : Unmarked
  beforeValue : Unmarked
  value : Value key
  after : Unmarked

def Member.text (m : Member) : Bytes :=
  m.before.1 ++ quoted m.key ++ m.afterKey.1 ++ [58] ++ m.beforeValue.1 ++ m.value.text ++ m.after.1

def Member.timestamp (m : Member) : Option Bytes :=
  match m.value with
  | .string text _ _ => if m.key = timestampKey then some text else none
  | _ => none

structure Object where
  before : Unmarked
  inside : Unmarked
  members : List Member
  after : Unmarked

def Object.text (o : Object) : Bytes :=
  o.before.1 ++ [123] ++ o.inside.1 ++ [44].intercalate (o.members.map Member.text) ++ [125] ++ o.after.1

/-! ## The extractor on an object -/

namespace TimestampExtractor
variable {d : Nat} {k t text : Bytes} {x : ExtractorExpectation}

theorem write_cons (e : TimestampExtractor) (b : UInt8) (rest : Bytes) : e.write (b :: rest) = (e.writeByte b).write rest := rfl

theorem write_append (e : TimestampExtractor) (first rest : Bytes) : e.write (first ++ rest) = (e.write first).write rest :=
  foldl_append

theorem write_unmarked (text : Unmarked) : (resting d k x t).write text.1 = resting d k x t := by
  obtain ⟨text, h⟩ := text
  induction text with
  | nil => rfl
  | cons b text ih =>
    have hb := h b (.head _)
    simp only [mem_cons, not_mem_nil, or_false, not_or] at hb
    rw [write_cons, show (resting d k x t).writeByte b = resting d k x t by simp [writeByte, resting, hb]]
    exact ih fun b hb => h b (.tail _ hb)

theorem write_skipped (h : Characters text) (hskipped : ¬(d = 1 ∧ (x = .expectKey ∨ x = .expectValue ∧ k = timestampKey))) :
    (resting d k x t).write (quoted text) = resting d k x t := by
  have hinside : write ⟨d, true, false, false, [], k, x, t⟩ text = ⟨d, true, false, false, [], k, x, t⟩ := by
    induction h with
    | nil => rfl
    | plain hb _ ih =>
      rw [write_cons]
      simpa [writeByte, keep, hb] using ih
    | escape _ ih => exact ih
  rw [quoted, write_cons, write_append]
  simp only [writeByte, resting, Bool.false_eq_true, if_false, if_true, hskipped]
  rw [hinside]
  rfl

theorem write_captured (h : Unescaped text) (hcaptured : x = .expectKey ∨ x = .expectValue ∧ k = timestampKey) :
    (resting 1 k x t).write (quoted text) = if x = .expectKey then resting 1 text .expectColon t else resting 1 k x text := by
  have hinside : ∀ token, write ⟨1, true, false, true, token, k, x, t⟩ text = ⟨1, true, false, true, token ++ text, k, x, t⟩ := by
    induction text with
    | nil => exact fun token => by rw [append_nil]; rfl
    | cons b text ih =>
      intro token
      rw [append_cons, ← ih fun b hb => h b (.tail _ hb), write_cons]
      simp [writeByte, keep, h b (.head _)]
  rw [quoted, write_cons, write_append]
  simp only [writeByte, resting, Bool.false_eq_true, if_false, if_true, hcaptured, true_and]
  rw [hinside]
  rcases hcaptured with rfl | ⟨rfl, rfl⟩
  · rfl
  · rfl

theorem write_brackets {inner : Bytes} (h : Brackets inner text)
    (hinner : (resting (d + 2) k x t).write inner = resting (d + 2) k x t) :
    (resting (d + 1) k x t).write text = resting (d + 1) k x t := by
  rcases h with rfl | rfl
  all_goals
    rw [write_cons, write_append]
    exact congrArg (write · _) hinner

theorem write_nested (h : Nested text) : ∀ d, (resting (d + 2) k x t).write text = resting (d + 2) k x t := by
  induction h with
  | nil => exact fun _ => rfl
  | plain hb _ ih =>
    intro d
    simp only [mem_cons, not_mem_nil, or_false, not_or] at hb
    rw [write_cons, show (resting (d + 2) k x t).writeByte _ = resting (d + 2) k x t by simp [writeByte, resting, hb]]
    exact ih d
  | string htext _ ih =>
    intro d
    rw [write_append, write_skipped htext (by simp), ih]
  | brackets _ hbrackets _ ihinner ih =>
    intro d
    rw [write_append, write_brackets hbrackets (ihinner (d + 1)), ih]

theorem write_member (m : Member) :
    (resting 1 [] .expectKey t).write m.text = resting 1 m.key .expectValue (m.timestamp.getD t) := by
  have hcolon : (resting 1 m.key .expectColon t).write [58] = resting 1 m.key .expectValue t := rfl
  simp only [Member.text, write_append]
  rw [write_unmarked, write_captured m.unescaped (.inl rfl), if_pos rfl, write_unmarked, hcolon, write_unmarked, Member.timestamp]
  suffices hvalue : (resting 1 m.key .expectValue t).write m.value.text = _ by rw [hvalue, write_unmarked]
  cases m.value with
  | scalar text => exact write_unmarked text
  | string text hcharacters hunescaped =>
    by_cases hm : m.key = timestampKey
    · simp only [hm, if_true]
      exact write_captured (hunescaped hm) (.inr ⟨rfl, rfl⟩)
    · simp only [hm, if_false]
      exact write_skipped hcharacters (by simp [hm])
  | brackets inner text hnested hbrackets => exact write_brackets hbrackets (write_nested hnested 0)

theorem write_members : ∀ (members : List Member) (t : Bytes), ∃ k x,
    (resting 1 [] .expectKey t).write ([44].intercalate (members.map Member.text)) =
      resting 1 k x ((members.filterMap Member.timestamp).getLastD t)
  | [], _ => ⟨[], .expectKey, rfl⟩
  | m :: members, t => by
    have hlast : ((m :: members).filterMap Member.timestamp).getLastD t =
        (members.filterMap Member.timestamp).getLastD (m.timestamp.getD t) := by
      cases hm : m.timestamp with
      | none => rw [filterMap_cons_none hm]; rfl
      | some text => rw [filterMap_cons_some hm, getLastD_cons]; rfl
    rw [hlast]
    cases members with
    | nil => exact ⟨m.key, .expectValue, (congrArg _ intercalate_singleton).trans (write_member m)⟩
    | cons next members =>
      rw [map_cons, map_cons, intercalate_cons_cons, write_append, write_append, write_member]
      exact write_members (next :: members) _

end TimestampExtractor

open TimestampExtractor

/-- The extractor agrees with JSON: however an object is split into `Write` calls, it ends with
    the value of the last member `timestamp` that is a string, or with nothing. -/
theorem timestamp_of_object (o : Object) (pieces : List Bytes) (h : pieces.flatten = o.text) :
    (pieces.foldl write newTimestampExtractor).timestamp = (o.members.filterMap Member.timestamp).getLastD [] := by
  have hpieces : pieces.foldl write newTimestampExtractor = newTimestampExtractor.write o.text := by
    rw [← h]
    exact foldl_flatten.symm
  obtain ⟨k, x, hmembers⟩ := write_members o.members []
  have hopen : (resting 0 [] .expectKey []).write [123] = resting 1 [] .expectKey [] := rfl
  have hclose : ∀ t, (resting 1 k x t).write [125] = resting 0 k x t := fun _ => rfl
  rw [hpieces]
  simp only [newTimestampExtractor, Object.text, write_append]
  rw [write_unmarked, hopen, write_unmarked, hmembers, hclose, write_unmarked]
  rfl

/-- `{"a":[],"timestamp":"1"}`. -/
def Object.sample : Object :=
  let blank : Unmarked := ⟨[], nofun⟩
  ⟨blank, blank, [⟨blank, [97], by simp [Unescaped], blank, blank, .brackets [] [91, 93] .nil (.inr rfl), blank⟩,
    ⟨blank, timestampKey, by simp [Unescaped, timestampKey], blank, blank,
      .string [49] (.plain (by decide) .nil) fun _ => by simp [Unescaped], blank⟩], blank⟩

/-- Byte by byte. -/
theorem timestamp_of_object_sample : Object.sample.text.length = 24 ∧
    ((Object.sample.text.map fun b => [b]).foldl write newTimestampExtractor).timestamp = [49] :=
  ⟨rfl, timestamp_of_object Object.sample _ rfl⟩

end CodexFold.Reconcile
