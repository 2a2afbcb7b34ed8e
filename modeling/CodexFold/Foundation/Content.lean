import Mathlib

/- Content addressing: what a store needs of its hash and of its compressor.

   The hash is only used to name byte sequences, so the one law asked of it is
   that two sequences with one name are equal; a compressor has to give back
   what it was given. Both laws are fields: a value of `Content` cannot be built
   without them. -/
namespace CodexFold.Foundation

abbrev Bytes : Type := List UInt8

/-- A hash without collisions and a lossless compressor. -/
structure Content (Digest : Type) where
  sha256 : Bytes → Digest
  sha256_injective : Function.Injective sha256
  compress : Bytes → Bytes
  decompress : Bytes → Option Bytes
  decompress_compress : ∀ data, decompress (compress data) = some data

namespace Content
variable {Digest : Type}

/-- `stored` is a compressed form of the byte sequence named `digest`. -/
def Holds (content : Content Digest) (digest : Digest) (stored : Bytes) : Prop :=
  ∃ data, content.decompress stored = some data ∧ content.sha256 data = digest

theorem holds_compress (content : Content Digest) (data : Bytes) :
    content.Holds (content.sha256 data) (content.compress data) :=
  ⟨data, content.decompress_compress data, rfl⟩

theorem Holds.decompress {content : Content Digest} {data stored : Bytes}
    (h : content.Holds (content.sha256 data) stored) : content.decompress stored = some data := by
  obtain ⟨data', hd, hs⟩ := h
  rw [hd, content.sha256_injective hs]

/-- The instance in which every sequence is its own name and is stored as it is. -/
def plain : Content Bytes where
  sha256 := id
  sha256_injective := Function.injective_id
  compress := id
  decompress := some
  decompress_compress _ := rfl

end Content

end CodexFold.Foundation
