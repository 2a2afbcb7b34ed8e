import CodexFold.Foundation.Search
import CodexFold.Pack.Generation

/- The index of a pack generation (`index_v3.go`, `format.go`): which blocks of
   which pack files make up an object.

   Version 3 keeps two files of fixed-width records. An object record is the digest
   and 20 bytes of big-endian fields, a block record is 36 bytes of fields, the
   digest and the encoding byte. The 32 bytes of a digest are one value here, since
   the hash is collision-free; every other field is kept as the bytes that are
   written, so numbers wrap where they do not fit. The files are read record by
   record. Digests are compared as byte strings, which is some linear order.

   Versions 1 and 2 keep the objects with their blocks in one JSON file; a
   generation of that kind can still be the one that is built upon. -/
namespace CodexFold.Pack.Layout
open Foundation Fold

/-! ## Big-endian fields -/

/-- `binary.BigEndian.PutUint32` and `PutUint64`. -/
def putUint : Nat → Nat → Bytes
  | 0, _ => []
  | width + 1, value => putUint width (value / 256) ++ [UInt8.ofNat (value % 256)]

/-- `binary.BigEndian.Uint32` and `Uint64`. -/
def getUint (data : Bytes) : Nat := data.foldl (fun value byte => value * 256 + byte.toNat) 0

def toUint64 (value : Int) : Nat := (value % 2 ^ 64).toNat

def toInt64 (value : Nat) : Int := if value < 2 ^ 63 then value else (value : Int) - 2 ^ 64

/-! ## Objects and blocks -/

inductive Encoding where
  | zstd
  | raw
  deriving DecidableEq, Repr

structure Block (Digest : Type) where
  pack : String
  packOffset : Int
  storedBytes : Int
  rawOffset : Int
  rawBytes : Int
  sha256 : Digest
  encoding : Encoding
  deriving DecidableEq, Repr

structure Object (Digest : Type) where
  sha256 : Digest
  rawBytes : Int
  blocks : List (Block Digest)
  deriving DecidableEq, Repr

structure Record (Digest : Type) where
  front : Bytes
  digest : Digest
  back : Bytes
  deriving DecidableEq, Repr

structure ObjectV3Record (Digest : Type) where
  digest : Digest
  rawBytes : Int
  firstBlock : Int
  blockCount : Nat

structure BlockV3Record (Digest : Type) where
  packIndex : Nat
  packOffset : Int
  storedBytes : Int
  rawOffset : Int
  rawBytes : Int
  digest : Digest
  encoding : UInt8

structure IndexV3Meta where
  generation : Nat
  blockBytes : Int
  objectCount : Nat
  blockCount : Nat
  packs : List String
  deriving DecidableEq, Repr

structure IndexV3 (Digest : Type) where
  info : IndexV3Meta
  objects : List (Record Digest)
  blocks : List (Record Digest)

/-- `pack-v1` and `pack-v2`. -/
inductive LegacyKind where
  | packV1
  | packV2
  deriving DecidableEq, Repr

/-- The JSON index, with the empty encoding of version 1 already read as zstd
    (`normalizeLegacyIndex`). -/
structure LegacyIndex (Digest : Type) where
  kind : LegacyKind
  generation : Nat
  blockBytes : Int
  objects : List (Object Digest)

section
variable {Digest : Type}

def encodeObjectV3 (record : ObjectV3Record Digest) : Record Digest where
  front := []
  digest := record.digest
  back := putUint 8 (toUint64 record.rawBytes) ++ putUint 8 (toUint64 record.firstBlock) ++
    putUint 4 record.blockCount

def encodeBlockV3 (record : BlockV3Record Digest) : Record Digest where
  front := putUint 4 record.packIndex ++ putUint 8 (toUint64 record.packOffset) ++
    putUint 8 (toUint64 record.storedBytes) ++ putUint 8 (toUint64 record.rawOffset) ++
    putUint 8 (toUint64 record.rawBytes)
  digest := record.digest
  back := [record.encoding]

def field (data : Bytes) (offset width : Nat) : Nat := getUint ((data.drop offset).take width)

def errEOF : String := "EOF"

namespace IndexV3

variable (index : IndexV3 Digest) (position : Nat)

def readObjectRecord : Except String (ObjectV3Record Digest) :=
  if index.info.objectCount ≤ position then .error errEOF
  else
    match index.objects[position]? with
    | none => .error errEOF
    | some record =>
      .ok ⟨record.digest, toInt64 (field record.back 0 8), toInt64 (field record.back 8 8),
        field record.back 16 4⟩

def readBlockRecord : Except String (BlockV3Record Digest) :=
  if index.info.blockCount ≤ position then .error errEOF
  else
    match index.blocks[position]? with
    | none => .error errEOF
    | some record =>
      .ok ⟨field record.front 0 4, toInt64 (field record.front 4 8), toInt64 (field record.front 12 8),
        toInt64 (field record.front 20 8), toInt64 (field record.front 28 8), record.digest,
        record.back.headD 0⟩

/-- The loop of `expandObject` over `count` block records from `position` on. -/
def expandBlocks (index : IndexV3 Digest) : Nat → Nat → Int → Except String (List (Block Digest) × Int)
  | 0, _, expectedOffset => .ok ([], expectedOffset)
  | count + 1, position, expectedOffset => do
    let block ← index.readBlockRecord position
    match index.info.packs[block.packIndex]? with
    | none => .error "invalid pack v3 block for object"
    | some pack =>
      if block.packOffset < 0 ∨ block.storedBytes ≤ 0 ∨ block.rawBytes ≤ 0 ∨
          block.rawOffset ≠ expectedOffset then
        .error "invalid pack v3 block for object"
      else if block.encoding ≠ 0 ∧ block.encoding ≠ 1 then .error "invalid pack v3 block encoding"
      else do
        let encoding := if block.encoding = 1 then Encoding.raw else Encoding.zstd
        let (blocks, total) ← index.expandBlocks count (position + 1) (expectedOffset + block.rawBytes)
        .ok (⟨pack, block.packOffset, block.storedBytes, block.rawOffset, block.rawBytes, block.digest,
          encoding⟩ :: blocks, total)

def expandObject (record : ObjectV3Record Digest) :
    Except String (Object Digest) :=
  if record.rawBytes < 0 ∨ record.firstBlock < 0 ∨
      (record.blockCount : Int) > index.info.blockCount - record.firstBlock then
    .error "invalid pack v3 object record"
  else do
    let (blocks, total) ← index.expandBlocks record.blockCount record.firstBlock.toNat 0
    if total ≠ record.rawBytes then .error "object block bytes differ"
    else .ok ⟨record.digest, record.rawBytes, blocks⟩

def objectAt : Except String (Object Digest) := do
  let record ← index.readObjectRecord position
  index.expandObject record

variable [LinearOrder Digest]

def digestBelow (index : IndexV3 Digest) (digest : Digest) (middle : Nat) : Except String Bool := do
  let record ← index.readObjectRecord middle
  .ok (decide (record.digest < digest))

def lookup (index : IndexV3 Digest) (digest : Digest) : Except String (Option (Object Digest)) := do
  let left ← search (index.digestBelow digest) index.info.objectCount
  if index.info.objectCount ≤ left then .ok none
  else
    let record ← index.readObjectRecord left
    if record.digest ≠ digest then .ok none
    else do
      let object ← index.expandObject record
      .ok (some object)

end IndexV3

end

end CodexFold.Pack.Layout
