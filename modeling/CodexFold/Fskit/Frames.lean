import CodexFold.Foundation.Faults
import CodexFold.Foundation.Parsing

/- The frames of the FSKit protocol (`internal/fskitproto`) and the streams they make up.

   A frame is a header of forty bytes and its payload. The reader finds the end of a frame
   from its header alone, so a stream of frames that breaks off anywhere is read as the
   frames that have arrived whole. -/
namespace CodexFold.Fskit
open Foundation List

namespace Encoder

def uint8 (value : UInt8) : Bytes := littleEndian 1 value.toNat

def uint16 (value : UInt16) : Bytes := littleEndian 2 value.toNat

def uint32 (value : UInt32) : Bytes := littleEndian 4 value.toNat

def uint64 (value : UInt64) : Bytes := littleEndian 8 value.toNat

end Encoder

structure Frame where
  kind : UInt8
  op : UInt8
  flags : UInt32
  requestID : UInt64
  generation : UInt64
  status : Int32
  payload : Bytes
  deriving DecidableEq

def version : UInt16 := 2

def frameMagic : Bytes := [67, 70, 83, 80]

/-- Without a limit there is the default one. -/
def payloadLimit (maxPayload : UInt32) : Nat := if maxPayload = 0 then 32 <<< 20 else maxPayload.toNat

open Encoder in
/-- The header; `WriteFrameHeader` leaves its last four bytes zero. -/
def frameHeader (reserved : Bytes) (f : Frame) : Bytes :=
  [frameMagic, uint16 version, uint8 f.kind, uint8 f.op, uint32 f.flags, uint64 f.requestID, uint64 f.generation,
    uint32 f.status.toUInt32, uint32 (UInt32.ofNat f.payload.length), reserved].flatten

/-- The bytes of a whole frame. -/
def Frame.bytes (f : Frame) : Bytes := frameHeader [0, 0, 0, 0] f ++ f.payload

def tooLong (length limit : Nat) : String := s!"FSKit protocol payload {length} exceeds limit {limit}"

def writeFrame (maxPayload : UInt32) (f : Frame) : Except String Bytes :=
  if f.payload.length > payloadLimit maxPayload then .error (tooLong f.payload.length (payloadLimit maxPayload))
  else .ok f.bytes

def readFull : Nat → Parser Bytes := Parser.next fun data => if data = [] then "EOF" else "unexpected EOF"

/-- The number at `header[start:stop]`. -/
def field (header : Bytes) (start stop : Nat) : Nat := fromLittleEndian ((header.take stop).drop start)

def readFrame (maxPayload : UInt32) : Parser Frame := do
  let header ← readFull 40
  Parser.check (header.take 4 ≠ frameMagic) "invalid FSKit protocol magic"
  let found := UInt16.ofNat (field header 4 6)
  Parser.check (found ≠ version) s!"unsupported FSKit protocol version {found}"
  let payloadLength := field header 32 36
  Parser.check (payloadLength > payloadLimit maxPayload) (tooLong payloadLength (payloadLimit maxPayload))
  let payload ← readFull payloadLength
  return ⟨UInt8.ofNat (field header 6 7), UInt8.ofNat (field header 7 8), UInt32.ofNat (field header 8 12),
    UInt64.ofNat (field header 12 20), UInt64.ofNat (field header 20 28), (UInt32.ofNat (field header 28 32)).toInt32,
    payload⟩

theorem payloadLimit_lt (maxPayload : UInt32) : payloadLimit maxPayload < 2 ^ 32 := by
  unfold payloadLimit
  split
  · decide
  · exact maxPayload.toNat_lt

/-! ## What is read as a frame -/

section
variable {header : Bytes} {start stop n : Nat}

theorem field_eq {value : Nat} (hvalue : value < 256 ^ n) (h : (header.take stop).drop start = littleEndian n value) :
    field header start stop = value := by
  rw [field, h, fromLittleEndian_littleEndian, Nat.mod_eq_of_lt hvalue]

theorem length_slice (h : stop ≤ header.length) : ((header.take stop).drop start).length = stop - start := by
  rw [length_drop, length_take, Nat.min_eq_left h]

theorem field_lt (h : stop ≤ header.length) (hn : stop - start = n) : field header start stop < 256 ^ n := by
  have hlt := fromLittleEndian_lt ((header.take stop).drop start)
  rwa [length_slice h, hn] at hlt

theorem encode_field {α : Type} {ofNat : Nat → α} {toNat : α → Nat} (hto : ∀ v, v < 256 ^ n → toNat (ofNat v) = v)
    (h : stop ≤ header.length) (hn : stop - start = n) :
    littleEndian n (toNat (ofNat (field header start stop))) = (header.take stop).drop start := by
  rw [hto _ (field_lt h hn), ← hn, ← length_slice h]
  exact littleEndian_fromLittleEndian _

theorem slice_append (h : start ≤ stop) : (header.take stop).drop start ++ header.drop stop = header.drop start := by
  rw [drop_take, ← Nat.add_sub_cancel' h, ← drop_drop, Nat.add_sub_cancel_left]
  exact take_append_drop ..

end

theorem length_frameHeader {reserved : Bytes} (f : Frame) (h : reserved.length = 4) : (frameHeader reserved f).length = 40 := by
  simp [frameHeader, frameMagic, Encoder.uint8, Encoder.uint16, Encoder.uint32, Encoder.uint64, length_littleEndian, h]

variable {maxPayload : UInt32} {data rest : Bytes} {f g : Frame}

/-- `ReadFrame` accepts the frames that `WriteFrame` accepts, in the bytes it writes for them,
    whatever the reserved ones are. -/
theorem readFrame_eq_ok : readFrame maxPayload data = .ok (f, rest) ↔ f.payload.length ≤ payloadLimit maxPayload ∧
    ∃ reserved, reserved.length = 4 ∧ data = frameHeader reserved f ++ f.payload ++ rest := by
  unfold readFrame readFull
  simp only [Parser.bind_eq_ok, Parser.check_eq_ok, Parser.next_eq_ok, Parser.pure_eq_ok, not_not]
  constructor
  · rintro ⟨header, _, ⟨hlength, rfl⟩, _, _, ⟨hmagic, rfl⟩, _, _, ⟨hversion, rfl⟩, _, _, ⟨hlimit, rfl⟩, payload, _,
      ⟨hpayload, rfl⟩, rfl, rfl⟩
    have h8 {start stop : Nat} (h : stop ≤ 40) (hn : stop - start = 1) :
        Encoder.uint8 (UInt8.ofNat (field header start stop)) = (header.take stop).drop start :=
      encode_field (fun _ h => UInt8.toNat_ofNat_of_lt' h) (hlength ▸ h) hn
    have h16 : Encoder.uint16 (UInt16.ofNat (field header 4 6)) = (header.take 6).drop 4 :=
      encode_field (fun _ h => UInt16.toNat_ofNat_of_lt' h) (hlength ▸ (by decide)) rfl
    have h32 {start stop : Nat} (h : stop ≤ 40) (hn : stop - start = 4) :
        Encoder.uint32 (UInt32.ofNat (field header start stop)) = (header.take stop).drop start :=
      encode_field (fun _ h => UInt32.toNat_ofNat_of_lt' h) (hlength ▸ h) hn
    have h64 {start stop : Nat} (h : stop ≤ 40) (hn : stop - start = 8) :
        Encoder.uint64 (UInt64.ofNat (field header start stop)) = (header.take stop).drop start :=
      encode_field (fun _ h => UInt64.toNat_ofNat_of_lt' h) (hlength ▸ h) hn
    refine ⟨Nat.le_of_not_lt (hpayload ▸ hlimit), header.drop 36, by rw [length_drop, hlength], ?_⟩
    -- the fields are the slices of the header they were read from
    rw [append_assoc]
    congr 1
    simp (disch := decide) only [frameHeader, ← hmagic, ← hversion, hpayload, UInt32.toUInt32_toInt32, h8, h16, h32, h64,
      flatten_cons, flatten_nil, append_nil, slice_append]
    exact (take_append_drop 4 header).symm
  · rintro ⟨hlimit, reserved, hreserved, rfl⟩
    have hlength : (UInt32.ofNat f.payload.length).toNat = f.payload.length :=
      UInt32.toNat_ofNat_of_lt' (Nat.lt_of_le_of_lt hlimit (payloadLimit_lt maxPayload))
    have hfound : field (frameHeader reserved f) 4 6 = version.toNat := field_eq (n := 2) version.toNat_lt rfl
    have hpayload : field (frameHeader reserved f) 32 36 = f.payload.length :=
      (field_eq (n := 4) (UInt32.toNat_lt _) rfl).trans hlength
    refine ⟨frameHeader reserved f, f.payload ++ rest, ⟨length_frameHeader f hreserved, append_assoc ..⟩, (), _,
      ⟨rfl, rfl⟩, (), _, ⟨by rw [hfound]; rfl, rfl⟩, (), _, ⟨by rw [hpayload]; omega, rfl⟩, f.payload, rest,
      ⟨hpayload.symm, rfl⟩, ?_, rfl⟩
    rw [field_eq (n := 1) f.kind.toNat_lt rfl, field_eq (n := 1) f.op.toNat_lt rfl, field_eq (n := 4) f.flags.toNat_lt rfl,
      field_eq (n := 8) f.requestID.toNat_lt rfl, field_eq (n := 8) f.generation.toNat_lt rfl,
      field_eq (n := 4) f.status.toUInt32.toNat_lt rfl, UInt8.ofNat_toNat, UInt8.ofNat_toNat, UInt32.ofNat_toNat,
      UInt32.ofNat_toNat, UInt64.ofNat_toNat, UInt64.ofNat_toNat]
    rfl

theorem readFrame_bytes (h : f.payload.length ≤ payloadLimit maxPayload) :
    readFrame maxPayload (f.bytes ++ rest) = .ok (f, rest) :=
  readFrame_eq_ok.mpr ⟨h, _, rfl, rfl⟩

/-- What is read as a frame, from whatever bytes, is one that can be written under the limit, and
    writing it gives the bytes that were read up to the four reserved ones. -/
theorem readFrame_iff_written (maxPayload : UInt32) (data rest : Bytes) (f : Frame) :
    readFrame maxPayload data = .ok (f, rest) ↔ writeFrame maxPayload f = .ok f.bytes ∧
      ∃ reserved, reserved.length = 4 ∧ data = frameHeader reserved f ++ f.payload ++ rest := by
  rw [readFrame_eq_ok, writeFrame]
  refine and_congr_left fun _ => ?_
  split <;> simp <;> omega

theorem readFrame_cut {cut : Bytes} (hf : f.payload.length < 2 ^ 32) (hcut : cut <+: f.bytes)
    (h : readFrame maxPayload cut = .ok (g, rest)) : g = f ∧ cut = f.bytes ∧ rest = [] := by
  obtain ⟨missing, hmissing⟩ := hcut
  obtain ⟨hlimit, reserved, hreserved, rfl⟩ := readFrame_eq_ok.mp h
  -- under the largest limit both are read from the whole frame
  have hlargest : payloadLimit 4294967295 = 2 ^ 32 - 1 := rfl
  have hlt := payloadLimit_lt maxPayload
  have hwhole : readFrame 4294967295 (f.bytes ++ []) = .ok (f, []) := readFrame_bytes (by omega)
  have hagain : readFrame 4294967295 (f.bytes ++ []) = .ok (g, rest ++ missing) := by
    refine readFrame_eq_ok.mpr ⟨by omega, reserved, hreserved, ?_⟩
    rw [append_nil, ← hmissing, append_assoc]
  rw [hwhole, Except.ok.injEq, Prod.mk.injEq] at hagain
  obtain ⟨hrest, rfl⟩ := append_eq_nil_iff.mp hagain.2.symm
  exact ⟨hagain.1.symm, by rwa [append_nil] at hmissing, hrest⟩

theorem readFrame_nil : ∀ r, readFrame maxPayload [] ≠ .ok r := by
  rintro ⟨f, rest⟩ h
  obtain ⟨-, reserved, hreserved, hdata⟩ := readFrame_eq_ok.mp h
  have hlength := congrArg List.length hdata
  simp only [length_append, length_frameHeader f hreserved, length_nil] at hlength
  omega

/-! ## Streams -/

/-- The reads of `serve`: frame by frame, up to the first error. -/
def readFrames (maxPayload : UInt32) : Nat → Bytes → List Frame
  | 0, _ => []
  | fuel + 1, data =>
    match readFrame maxPayload data with
    | .error _ => []
    | .ok (f, rest) => f :: readFrames maxPayload fuel rest

theorem readFrames_of_error {fuel : Nat} (h : ∀ r, readFrame maxPayload data ≠ .ok r) :
    readFrames maxPayload fuel data = [] := by
  cases fuel with
  | zero => rfl
  | succ fuel =>
    unfold readFrames
    split
    · rfl
    · next hr => exact absurd hr (h _)

/-- A stream of written frames that breaks off anywhere is read as the frames that are whole in it. -/
theorem stream_read_whole (maxPayload : UInt32) (frames : List Frame) (encoded : List Bytes)
    (h : frames.mapM (writeFrame maxPayload) = .ok encoded) (data : Bytes) (hdata : data <+: encoded.flatten) (fuel : Nat)
    (hfuel : data.length < fuel) :
    ∃ k, readFrames maxPayload fuel data = frames.take k ∧ (encoded.take k).flatten <+: data ∧
      (k < frames.length → data.length < (encoded.take (k + 1)).flatten.length) := by
  induction frames generalizing encoded data fuel with
  | nil =>
    cases h
    obtain rfl : data = [] := prefix_nil.mp hdata
    exact ⟨0, readFrames_of_error readFrame_nil, nil_prefix, fun h => absurd h (Nat.not_lt_zero _)⟩
  | cons f frames ih =>
    rw [mapM_cons] at h
    obtain ⟨bytes, hbytes, h⟩ := of_bind h
    obtain ⟨later, hlater, h⟩ := of_bind h
    cases h
    obtain ⟨hlimit, hbytes⟩ := of_guard hbytes
    cases hbytes
    rw [flatten_cons] at hdata
    rcases Nat.lt_or_ge data.length f.bytes.length with hshort | hlong
    · -- the first frame is not whole
      have hcut : data <+: f.bytes := prefix_of_prefix_length_le hdata (prefix_append ..) (Nat.le_of_lt hshort)
      have hlt := payloadLimit_lt maxPayload
      refine ⟨0, readFrames_of_error fun r hr => ?_, nil_prefix, fun _ => by simpa using hshort⟩
      obtain ⟨-, rfl, -⟩ := readFrame_cut (by omega) hcut hr
      exact absurd hshort (Nat.lt_irrefl _)
    · obtain ⟨rest, rfl⟩ := prefix_of_prefix_length_le (prefix_append ..) hdata hlong
      obtain ⟨fuel, rfl⟩ : ∃ n, fuel = n + 1 := ⟨fuel - 1, by omega⟩
      have hheader : (frameHeader [0, 0, 0, 0] f).length = 40 := length_frameHeader f rfl
      have hrest : rest.length < fuel := by
        simp only [Frame.bytes, length_append, hheader] at hfuel
        omega
      obtain ⟨k, hread, hwhole, hnext⟩ := ih later hlater rest ((prefix_append_right_inj _).mp hdata) fuel hrest
      refine ⟨k + 1, ?_, ?_, fun hk => ?_⟩
      · rw [readFrames, readFrame_bytes (Nat.le_of_not_lt hlimit), take_succ_cons, ← hread]
      · rw [take_succ_cons, flatten_cons]
        exact (prefix_append_right_inj _).mpr hwhole
      · have hlast := hnext (Nat.lt_of_succ_lt_succ hk)
        rw [take_succ_cons, flatten_cons, length_append, length_append]
        omega

def pingFrames : List Frame := [⟨1, 2, 0, 1, 9, 0, [7]⟩, ⟨1, 2, 0, 2, 9, 0, [8, 9]⟩, ⟨1, 2, 0, 3, 9, 0, []⟩]

/-- The second frame is cut in its payload. -/
def pingBytes : Bytes := (pingFrames.map Frame.bytes).flatten.take 82

theorem stream_read_whole_ping : ∃ k, readFrames 8192 83 pingBytes = pingFrames.take k ∧
    ((pingFrames.map Frame.bytes).take k).flatten <+: pingBytes ∧
    (k < 3 → pingBytes.length < ((pingFrames.map Frame.bytes).take (k + 1)).flatten.length) :=
  stream_read_whole 8192 pingFrames (pingFrames.map Frame.bytes) rfl pingBytes ( take_prefix ..) 83 (by decide)

end CodexFold.Fskit
