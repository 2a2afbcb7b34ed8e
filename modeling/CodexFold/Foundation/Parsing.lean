import CodexFold.Foundation.Content

/- Parsers, which take values off the front of some bytes.

   The lemmas named `_eq_ok` say which bytes a parser accepts and what it leaves of them; a
   parser made of others is inverted by rewriting with them. -/
namespace CodexFold.Foundation
open List

abbrev Parser (α : Type) : Type := StateT Bytes (Except String) α

/-- The bytes of a text. -/
def utf8 (text : String) : Bytes := text.toUTF8.data.toList

theorem utf8_injective : Function.Injective utf8 := fun _ _ h =>
  String.toByteArray_inj.mp (ByteArray.ext (Array.toList_inj.mp h))

/-- The lowest `n` bytes of a number, the lowest first. -/
def littleEndian : Nat → Nat → Bytes
  | 0, _ => []
  | n + 1, value => UInt8.ofNat value :: littleEndian n (value / 256)

def fromLittleEndian : Bytes → Nat
  | [] => 0
  | byte :: rest => byte.toNat + 256 * fromLittleEndian rest

theorem length_littleEndian (n value : Nat) : (littleEndian n value).length = n := by
  induction n generalizing value with
  | zero => rfl
  | succ n ih => rw [littleEndian, length_cons, ih]

theorem fromLittleEndian_littleEndian (n value : Nat) : fromLittleEndian (littleEndian n value) = value % 256 ^ n := by
  induction n generalizing value with
  | zero => rw [Nat.pow_zero, Nat.mod_one]; rfl
  | succ n ih =>
    rw [littleEndian, fromLittleEndian, ih, Nat.pow_succ', Nat.mod_mul]
    rfl

theorem littleEndian_fromLittleEndian (data : Bytes) : littleEndian data.length (fromLittleEndian data) = data := by
  induction data with
  | nil => rfl
  | cons byte data ih =>
    have hlt : byte.toNat < 256 := byte.toNat_lt
    have hbyte : UInt8.ofNat (byte.toNat + 256 * fromLittleEndian data) = byte := by
      apply UInt8.toNat_inj.mp
      rw [UInt8.toNat_ofNat']
      omega
    have hrest : (byte.toNat + 256 * fromLittleEndian data) / 256 = fromLittleEndian data := by omega
    rw [length_cons, fromLittleEndian, littleEndian, hbyte, hrest, ih]

theorem fromLittleEndian_lt (data : Bytes) : fromLittleEndian data < 256 ^ data.length := by
  have h := fromLittleEndian_littleEndian data.length (fromLittleEndian data)
  rw [littleEndian_fromLittleEndian] at h
  exact h ▸ Nat.mod_lt _ (by positivity)

namespace Parser
variable {α β : Type} {x : Parser α} {f : α → Parser β} {data rest : Bytes} {a a' : α} {b : β}

/-- The next `length` bytes, or the error of too few. -/
def next (short : Bytes → String) (length : Nat) : Parser Bytes := fun data =>
  if data.length < length then .error (short data) else .ok (data.take length, data.drop length)

def check (failed : Prop) [Decidable failed] (message : String) : Parser Unit := fun data =>
  if failed then .error message else .ok ((), data)

theorem bind_eq_ok : (x >>= f) data = .ok (b, rest) ↔ ∃ a mid, x data = .ok (a, mid) ∧ f a mid = .ok (b, rest) := by
  show (x data).bind (fun p => f p.1 p.2) = _ ↔ _
  cases hx : x data with
  | error e => simp [Except.bind]
  | ok p =>
    obtain ⟨a, mid⟩ := p
    simp only [Except.bind, Except.ok.injEq, Prod.mk.injEq]
    constructor
    · intro h
      exact ⟨a, mid, ⟨rfl, rfl⟩, h⟩
    · rintro ⟨_, _, ⟨rfl, rfl⟩, h⟩
      exact h

theorem pure_eq_ok : (pure a : Parser α) data = .ok (a', rest) ↔ a = a' ∧ data = rest := by
  show (.ok (a, data) : Except String _) = _ ↔ _
  simp

theorem check_eq_ok {failed : Prop} [Decidable failed] {message : String} {u : Unit} :
    check failed message data = .ok (u, rest) ↔ ¬failed ∧ data = rest := by
  unfold check
  split
  · next h => simp [h]
  · next h => simp [h]

theorem next_eq_ok {short : Bytes → String} {length : Nat} {value : Bytes} :
    next short length data = .ok (value, rest) ↔ value.length = length ∧ data = value ++ rest := by
  unfold next
  constructor
  · intro h
    split at h
    · cases h
    · cases h
      exact ⟨by rw [length_take]; omega, (take_append_drop ..).symm⟩
  · rintro ⟨rfl, rfl⟩
    rw [if_neg (by rw [length_append]; omega), take_left, drop_left]

end Parser

end CodexFold.Foundation
