import CodexFold.Foundation.Content
import CodexFold.Foundation.Faults
import CodexFold.Foundation.Parsing

/- References to a removed session in `.codex-global-state.json` (`internal/prune`).

   The document is decoded, cleaned by a recursion over its arrays and objects,
   searched once more for the id and written back if its bytes changed. -/
namespace CodexFold.Prune
open Foundation List

inductive Value where
  | null
  | bool (b : Bool)
  | number (text : String)
  | string (s : String)
  | array (items : List Value)
  | object (members : List (String × Value))

variable (id : String)

mutual
def removeIDReferences : Value → Value × Bool
  | .string s => (.string s, s == id)
  | .array items => (.array (removeItems items), false)
  | .object members => (.object (removeMembers members), false)
  | value => (value, false)

def removeItems : List Value → List Value
  | [] => []
  | item :: items =>
    let cleaned := removeIDReferences item
    if cleaned.2 then removeItems items else cleaned.1 :: removeItems items

def removeMembers : List (String × Value) → List (String × Value)
  | [] => []
  | (key, item) :: members =>
    if key == id then removeMembers members
    else
      let cleaned := removeIDReferences item
      if cleaned.2 then removeMembers members else (key, cleaned.1) :: removeMembers members
end

mutual
def hasIDReference : Value → Bool
  | .string s => s == id
  | .array items => hasItem items
  | .object members => hasMember members
  | _ => false

def hasItem : List Value → Bool
  | [] => false
  | item :: items => hasIDReference item || hasItem items

def hasMember : List (String × Value) → Bool
  | [] => false
  | (key, item) :: members => (key == id || hasIDReference item) || hasMember members
end

def Value.isID : Value → Bool
  | .string s => s == id
  | _ => false

def keptMembers (members : List (String × Value)) : List (String × Value) :=
  members.filter fun m => !(m.1 == id || m.2.isID id)

inductive Without : Value → Value → Prop where
  | null : Without .null .null
  | bool (b : Bool) : Without (.bool b) (.bool b)
  | number (text : String) : Without (.number text) (.number text)
  | string (s : String) : Without (.string s) (.string s)
  | array {items items' : List Value} :
    Forall₂ Without (items.filter fun item => !item.isID id) items' → Without (.array items) (.array items')
  | object {members members' : List (String × Value)} :
    (keptMembers id members).map (·.1) = members'.map (·.1) →
    Forall₂ Without ((keptMembers id members).map (·.2)) (members'.map (·.2)) →
    Without (.object members) (.object members')

@[simp] theorem remove_snd (value : Value) : (removeIDReferences id value).2 = value.isID id := by
  cases value <;> rfl

@[simp] theorem isID_remove (value : Value) :
    (removeIDReferences id value).1.isID id = value.isID id := by
  cases value <;> rfl

-- what is left holds no reference, so that removing again changes nothing: both are carried
-- through one induction with the comparison
mutual
theorem remove_spec : ∀ value, Without id value (removeIDReferences id value).1 ∧
    hasIDReference id (removeIDReferences id value).1 = value.isID id ∧
    (removeIDReferences id (removeIDReferences id value).1).1 = (removeIDReferences id value).1
  | .null => ⟨.null, rfl, rfl⟩
  | .bool b => ⟨.bool b, rfl, rfl⟩
  | .number text => ⟨.number text, rfl, rfl⟩
  | .string s => ⟨.string s, rfl, rfl⟩
  | .array items =>
    have ⟨hwithout, hclean, hfixed⟩ := removeItems_spec items
    ⟨.array hwithout, hclean, congrArg Value.array hfixed⟩
  | .object members =>
    have ⟨hkeys, hvalues, hclean, hfixed⟩ := removeMembers_spec members
    ⟨.object hkeys hvalues, hclean, congrArg Value.object hfixed⟩

theorem removeItems_spec : ∀ items : List Value,
    Forall₂ (Without id) (items.filter fun item => !item.isID id) (removeItems id items) ∧
    hasItem id (removeItems id items) = false ∧
    removeItems id (removeItems id items) = removeItems id items
  | [] => ⟨.nil, rfl, rfl⟩
  | item :: items => by
    have hitem := remove_spec item
    have hitems := removeItems_spec items
    cases h : item.isID id <;> simp_all [removeItems, hasItem]

theorem removeMembers_spec : ∀ members : List (String × Value),
    (keptMembers id members).map (·.1) = (removeMembers id members).map (·.1) ∧
    Forall₂ (Without id) ((keptMembers id members).map (·.2))
      ((removeMembers id members).map (·.2)) ∧
    hasMember id (removeMembers id members) = false ∧
    removeMembers id (removeMembers id members) = removeMembers id members
  | [] => ⟨rfl, .nil, rfl, rfl⟩
  | (key, item) :: members => by
    have hitem := remove_spec item
    have hmembers := removeMembers_spec members
    cases hkey : key == id <;> cases h : item.isID id <;>
      simp_all [removeMembers, hasMember, keptMembers]
end

structure Codec where
  decode : Bytes → Except String Value
  marshalIndent : Value → Except String Bytes
  decode_marshal : ∀ data value id, decode data = .ok value →
    ∃ encoded, marshalIndent (removeIDReferences id value).1 = .ok encoded ∧
      decode (encoded ++ [10]) = .ok (removeIDReferences id value).1

variable (codec : Codec)

def cleanGlobalState : Prog (Option Bytes) String (Option (Bytes × Bytes)) := do
  point "read .codex-global-state.json"
  match ← read fun file => file with
  | none => return none
  | some data =>
    point "stat .codex-global-state.json"
    let value ← ofExcept ((codec.decode data).mapError ("decode Codex global state: " ++ ·))
    let cleaned := (removeIDReferences id value).1
    ensure (!hasIDReference id cleaned) "Codex global state still contains the removed session id"
    let encoded ← ofExcept (codec.marshalIndent cleaned)
    return some (data, encoded ++ [10])

def errGlobalStateChanged : String := "Codex global state changed concurrently; refusing to overwrite it"

def replaceBytesIfUnchanged (expected replacement : Bytes) : Prog (Option Bytes) String Unit := do
  point "read .codex-global-state.json"
  let current ← read fun file => file
  ensure current.isSome "file does not exist"
  ensure (current == some expected) errGlobalStateChanged
  effect "replace .codex-global-state.json" fun _ => some replacement

def removeAttempts : Nat → Prog (Option Bytes) String Unit
  | 0 => throw "Codex global state kept changing; removal remains recoverable and pending"
  | n + 1 => do
    point "context canceled"
    match ← cleanGlobalState id codec with
    | none => return ()
    | some (original, cleaned) =>
      if original = cleaned then return ()
      else
        match ← attempt (replaceBytesIfUnchanged original cleaned) with
        | .ok _ => return ()
        | .error err => if err = errGlobalStateChanged then removeAttempts n else throw err

def removeGlobalStateReferences : Prog (Option Bytes) String Unit := removeAttempts id codec 5

theorem removeGlobalStateReferences_runs {data encoded : Bytes} {value : Value}
    (hdecode : codec.decode data = .ok value) (hid : value.isID id = false)
    (hencoded : codec.marshalIndent (removeIDReferences id value).1 = .ok encoded) :
    Runs (removeGlobalStateReferences id codec) (some data) () (some (encoded ++ [10])) := by
  have hclean : Runs (cleanGlobalState id codec) (some data) (some (data, encoded ++ [10])) (some data) := by
    refine (Runs.point' _ _).bind' ((Runs.read' _ _).bind' ((Runs.point' _ _).bind' ?_))
    refine (Runs.ofExcept' _ (by rw [hdecode]; rfl)).bind' ((Runs.ensure' _ _ ?_).bind' ?_)
    · simp [remove_spec, hid]
    · exact (Runs.ofExcept' _ hencoded).bind' (Runs.pure' _ _)
  refine (Runs.point' _ _).bind' (hclean.bind' ?_)
  by_cases hsame : data = encoded ++ [10]
  · simpa [hsame] using Runs.pure' () (some (encoded ++ [10]))
  · have hreplace : Runs (replaceBytesIfUnchanged data (encoded ++ [10])) (some data) () (some (encoded ++ [10])) :=
      (Runs.point' _ _).bind' ((Runs.read' _ _).bind' ((Runs.ensure' _ _ rfl).bind'
        ((Runs.ensure' _ _ (by simp)).bind' (Runs.effect' _ _ _))))
    simp only [hsame, if_false]
    exact hreplace.attempt'.bind' (.pure' _ _)

/-- Removing a session from the global state is exact, and doing it again changes nothing. -/
theorem removeGlobalStateReferences_exact (data : Bytes) {value : Value} (hdecode : codec.decode data = .ok value)
    (hbare : value ≠ .string id) :
    ∃ data' cleaned, Runs (removeGlobalStateReferences id codec) (some data) () (some data') ∧
      codec.decode data' = .ok cleaned ∧ Without id value cleaned ∧
      hasIDReference id cleaned = false ∧
      Runs (removeGlobalStateReferences id codec) (some data') () (some data') := by
  have hid : value.isID id = false := by
    cases value <;> simp_all [Value.isID]
  obtain ⟨hwithout, hclean, hfixed⟩ := remove_spec id value
  obtain ⟨encoded, hencoded, hagain⟩ := codec.decode_marshal _ _ id hdecode
  refine ⟨encoded ++ [10], _, removeGlobalStateReferences_runs _ _ hdecode hid hencoded, hagain, hwithout,
    hclean.trans hid, ?_⟩
  -- the cleaned value is a fixed point of the removal: it is encoded to the text it was read from
  exact removeGlobalStateReferences_runs _ _ hagain (by rw [isID_remove, hid]) (by rw [hfixed, hencoded])

inductive Document where
  | full
  | withoutB
  | withoutA
  | withoutS
  | empty
  deriving DecidableEq

namespace Document

def value : Document → Value
  | full => .object [("a", .array [.string "s", .object [("s", .number "1.50")]]), ("b", .string "s")]
  | withoutB => .object [("a", .array [.string "s", .object [("s", .number "1.50")]])]
  | withoutA => .object [("b", .string "s")]
  | withoutS => .object [("a", .array [.object []])]
  | empty => .object []

/-- The text of `json.MarshalIndent`. -/
def text : Document → String
  | full => "\x7b\n  \"a\": [\n    \"s\",\n    \x7b\n      \"s\": 1.50\n    \x7d\n  ],\n  \"b\": \"s\"\n\x7d"
  | withoutB => "\x7b\n  \"a\": [\n    \"s\",\n    \x7b\n      \"s\": 1.50\n    \x7d\n  ]\n\x7d"
  | withoutA => "\x7b\n  \"b\": \"s\"\n\x7d"
  | withoutS => "\x7b\n  \"a\": [\n    \x7b\x7d\n  ]\n\x7d"
  | empty => "\x7b\x7d"

def all : List Document := [full, withoutB, withoutA, withoutS, empty]

def ofValue : Value → Option Document
  | .object [("a", .array [.string "s", .object [("s", .number "1.50")]]), ("b", .string "s")] => some full
  | .object [("a", .array [.string "s", .object [("s", .number "1.50")]])] => some withoutB
  | .object [("b", .string "s")] => some withoutA
  | .object [("a", .array [.object []])] => some withoutS
  | .object [] => some empty
  | _ => none

theorem ofValue_value (d : Document) : ofValue d.value = some d := by
  cases d <;> rfl

theorem find_text : all.all fun d => all.find? (fun e => utf8 e.text ++ [10] == utf8 d.text ++ [10]) == some d := by
  decide +kernel

theorem remove_value (id : String) (d : Document) : ∃ e : Document, (removeIDReferences id d.value).1 = e.value := by
  by_cases ha : "a" = id
  · subst ha
    cases d
    · exact ⟨withoutA, by simp [value, removeIDReferences, removeMembers]⟩
    · exact ⟨empty, by simp [value, removeIDReferences, removeMembers]⟩
    · exact ⟨withoutA, by simp [value, removeIDReferences, removeMembers]⟩
    · exact ⟨empty, by simp [value, removeIDReferences, removeMembers]⟩
    · exact ⟨empty, rfl⟩
  by_cases hs : "s" = id
  · subst hs
    cases d
    · exact ⟨withoutS, by simp [value, removeIDReferences, removeMembers, removeItems]⟩
    · exact ⟨withoutS, by simp [value, removeIDReferences, removeMembers, removeItems]⟩
    · exact ⟨empty, by simp [value, removeIDReferences, removeMembers]⟩
    · exact ⟨withoutS, by simp [value, removeIDReferences, removeMembers, removeItems]⟩
    · exact ⟨empty, rfl⟩
  by_cases hb : "b" = id
  · subst hb
    cases d
    · exact ⟨withoutB, by simp [value, removeIDReferences, removeMembers, removeItems]⟩
    · exact ⟨withoutB, by simp [value, removeIDReferences, removeMembers, removeItems]⟩
    · exact ⟨empty, by simp [value, removeIDReferences, removeMembers]⟩
    · exact ⟨withoutS, by simp [value, removeIDReferences, removeMembers, removeItems]⟩
    · exact ⟨empty, rfl⟩
  exact ⟨d, by cases d <;> simp [value, removeIDReferences, removeMembers, removeItems, ha, hs, hb]⟩

end Document

def Codec.sample : Codec where
  decode data :=
    match Document.all.find? fun d => utf8 d.text ++ [10] == data with
    | some d => .ok d.value
    | none => .error "invalid character"
  marshalIndent value :=
    match Document.ofValue value with
    | some d => .ok (utf8 d.text)
    | none => .error "unsupported value"
  decode_marshal data value id hdecode := by
    split at hdecode
    · rename_i d _
      cases hdecode
      obtain ⟨e, he⟩ := Document.remove_value id d
      have hfind := all_eq_true.mp Document.find_text e (by cases e <;> decide)
      rw [he, Document.ofValue_value]
      refine ⟨utf8 e.text, rfl, ?_⟩
      rw [beq_iff_eq.mp hfind]
    · cases hdecode

/-- The session is removed from the array, as a key and as a value. -/
theorem removeGlobalStateReferences_exact_sample :
    ∃ data' cleaned, Runs (removeGlobalStateReferences "s" .sample) (some (utf8 Document.full.text ++ [10])) () (some data') ∧
      Codec.sample.decode data' = .ok cleaned ∧ Without "s" Document.full.value cleaned ∧
      hasIDReference "s" cleaned = false ∧
      Runs (removeGlobalStateReferences "s" .sample) (some data') () (some data') := by
  refine removeGlobalStateReferences_exact "s" .sample _ ?_ nofun
  have hfind := all_eq_true.mp Document.find_text .full (by decide)
  simp only [Codec.sample, beq_iff_eq.mp hfind]

end CodexFold.Prune
