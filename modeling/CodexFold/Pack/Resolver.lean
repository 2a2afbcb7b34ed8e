import CodexFold.Foundation.Segments
import CodexFold.Pack.Index

/- Reading a generation (`resolver.go`, `cache.go`, `doctor.go`).

   A resolver is opened on a generation directory after its index and the bounds of
   all blocks were validated. It reads an object block by block, at an offset
   (`ReadAt`) or as a stream (`OpenObject`), and keeps decoded blocks in a cache
   that both share. Reads are explicit about the cache: they take it and return it. -/
namespace CodexFold.Pack.Layout
open Foundation Fold

inductive IndexFile (Digest : Type) where
  | legacy (index : LegacyIndex Digest)
  | v3 (index : IndexV3 Digest)

structure Directory (Digest : Type) where
  index : IndexFile Digest
  packs : Files String Bytes

structure Resolver (Digest : Type) where
  index : IndexFile Digest
  packs : Files String Bytes
  cacheBytes : Nat

/-! ## The block cache -/

abbrev BlockCache (Digest : Type) : Type := List ((Digest × Nat) × Bytes)

namespace BlockCache
variable {Digest : Type}

def used (cache : BlockCache Digest) : Nat := (cache.map (fun entry => entry.2.length)).sum

def evict (budget : Nat) : Nat → BlockCache Digest → BlockCache Digest
  | 0, cache => cache
  | fuel + 1, cache => if used cache ≤ budget then cache else evict budget fuel cache.dropLast

variable [DecidableEq Digest]

def moveToFront (key : Digest × Nat) (cache : BlockCache Digest) : BlockCache Digest :=
  cache.filter (fun entry => decide (entry.1 = key)) ++ cache.filter (fun entry => !decide (entry.1 = key))

def put (budget : Nat) (key : Digest × Nat) (data : Bytes) (cache : BlockCache Digest) :
    BlockCache Digest :=
  if data.length > budget ∨ budget = 0 then cache
  else if (Files.find key cache).isSome then moveToFront key cache
  else evict budget (cache.length + 1) ((key, data) :: cache)

end BlockCache

/-- An error of a reader: `io.EOF`, which a short read of a pack file wraps as well,
    or another error. -/
inductive ReadError where
  | eof
  | failed (text : String)
  deriving DecidableEq, Repr

section
variable {Digest : Type} [LinearOrder Digest] (content : Content Digest)

/-! ## Lookup -/

def endsAfter (blocks : List (Block Digest)) (offset i : Nat) : Bool :=
  match blocks[i]? with
  | none => false
  | some block => decide (block.rawOffset + block.rawBytes > offset)

def blockIndexAt (blocks : List (Block Digest)) (offset : Nat) : Nat :=
  sortSearch blocks.length (endsAfter blocks offset)

namespace Resolver

variable (r : Resolver Digest)

def lookupObject (digest : Digest) : Except String (Option (Object Digest)) :=
  match r.index with
  | .v3 index => index.lookup digest
  | .legacy index => .ok (index.objects.find? (fun object => object.sha256 = digest))

def objectCount (r : Resolver Digest) : Nat :=
  match r.index with
  | .v3 index => index.info.objectCount
  | .legacy index => index.objects.length

def objectAt (r : Resolver Digest) (position : Nat) : Except String (Object Digest) :=
  match r.index with
  | .v3 index => index.objectAt position
  | .legacy index =>
    match index.objects[position]? with
    | none => .error errEOF
    | some object => .ok object

def blockBytes (r : Resolver Digest) : Int :=
  match r.index with
  | .v3 index => index.info.blockBytes
  | .legacy index => index.blockBytes

variable (ref : ObjectRef Digest)

/-- `lookupObject` as the readers use it: the object has to be packed and to have
    the length of the reference. -/
def findObject : Except ReadError (Object Digest) :=
  match r.lookupObject ref.sha256 with
  | .error e => .error (.failed e)
  | .ok none => .error (.failed errObjectNotPacked)
  | .ok (some object) =>
    if object.rawBytes ≠ ref.rawBytes then .error (.failed "object raw size differs") else .ok object

def hasObject : Bool :=
  match r.lookupObject ref.sha256 with
  | .ok (some object) => decide (object.rawBytes = ref.rawBytes)
  | _ => false

/-! ## Blocks -/

/-- `readBlock` when the block is not cached. -/
def fetchBlock (block : Block Digest) : Except ReadError Bytes :=
  match r.packs.get block.pack with
  | none => .error (.failed "pack is not open")
  | some file =>
    let stored := (file.drop block.packOffset.toNat).take block.storedBytes.toNat
    if stored.length ≠ block.storedBytes.toNat then .error .eof
    else
      let decoded := match block.encoding with
        | .raw => some stored
        | .zstd => content.decompress stored
      match decoded with
      | none => .error (.failed "decode packed block")
      | some data =>
        if (data.length : Int) ≠ block.rawBytes then .error (.failed "packed block raw size differs")
        else if content.sha256 data ≠ block.sha256 then .error (.failed "packed block SHA-256 mismatch")
        else .ok data

def readBlock (cache : BlockCache Digest) (digest : Digest) (blockIndex : Nat)
    (block : Block Digest) : Except ReadError Bytes × BlockCache Digest :=
  match Files.find (digest, blockIndex) cache with
  | some data => (.ok data, BlockCache.moveToFront (digest, blockIndex) cache)
  | none =>
    match r.fetchBlock content block with
    | .error e => (.error e, cache)
    | .ok data => (.ok data, BlockCache.put r.cacheBytes (digest, blockIndex) data cache)

/-! ## `ReadAt` -/

/-- The loop of `ReadAt`, which copies at least one byte a turn. -/
def readAtLoop (r : Resolver Digest) (object : Object Digest) :
    Nat → Nat → Nat → BlockCache Digest → (Bytes × Option ReadError) × BlockCache Digest
  | 0, _, _, cache => (([], none), cache)
  | fuel + 1, want, offset, cache =>
    if want = 0 ∨ object.rawBytes ≤ offset then (([], none), cache)
    else
      match object.blocks[blockIndexAt object.blocks offset]? with
      | none => (([], some (.failed "object has no block for offset")), cache)
      | some block =>
        match r.readBlock content cache object.sha256 (blockIndexAt object.blocks offset) block with
        | (.error e, cache) => (([], some e), cache)
        | (.ok data, cache) =>
          let copied := (data.drop ((offset : Int) - block.rawOffset).toNat).take want
          let ((rest, err), cache) :=
            r.readAtLoop object fuel (want - copied.length) (offset + copied.length) cache
          ((copied ++ rest, err), cache)

/-- `ReadAt` into a buffer of `size` bytes: what was written and the error. -/
def readAt (size : Nat) (offset : Int)
    (cache : BlockCache Digest) : (Bytes × Option ReadError) × BlockCache Digest :=
  if offset < 0 then (([], some (.failed "negative object read offset")), cache)
  else if size = 0 then (([], none), cache)
  else
    match r.findObject ref with
    | .error e => (([], some e), cache)
    | .ok object =>
      if object.rawBytes ≤ offset then (([], some .eof), cache)
      else
        match r.readAtLoop content object size size offset.toNat cache with
        | ((written, some e), cache) => ((written, some e), cache)
        | ((written, none), cache) =>
          ((written, if written.length < size then some .eof else none), cache)

end Resolver

/-! ## `OpenObject` -/

structure ObjectStream (Digest : Type) where
  ref : ObjectRef Digest
  offset : Nat
  object : Object Digest
  blockIndex : Nat
  blockData : Option Bytes

def ObjectStream.advance (s : ObjectStream Digest) (block : Block Digest) (data : Bytes) (copied : Nat) :
    ObjectStream Digest :=
  if ((s.offset + copied : Nat) : Int) = block.rawOffset + block.rawBytes then
    { s with offset := s.offset + copied, blockData := none, blockIndex := s.blockIndex + 1 }
  else { s with offset := s.offset + copied, blockData := some data }

namespace Resolver

variable (r : Resolver Digest)

def openObject (ref : ObjectRef Digest) : Except ReadError (ObjectStream Digest) :=
  match r.findObject ref with
  | .error e => .error e
  | .ok object => .ok ⟨ref, 0, object, 0, none⟩

def streamBlock (s : ObjectStream Digest) (block : Block Digest)
    (cache : BlockCache Digest) : Except ReadError Bytes × BlockCache Digest :=
  match s.blockData with
  | some data => (.ok data, cache)
  | none => r.readBlock content cache s.ref.sha256 s.blockIndex block

/-- The loop of `objectStream.Read`. -/
def streamLoop (r : Resolver Digest) : Nat → Nat → ObjectStream Digest → BlockCache Digest →
    (Bytes × Option ReadError) × ObjectStream Digest × BlockCache Digest
  | 0, _, s, cache => (([], none), s, cache)
  | fuel + 1, want, s, cache =>
    if want = 0 ∨ s.object.rawBytes ≤ s.offset then (([], none), s, cache)
    else
      match s.object.blocks[s.blockIndex]? with
      | none => (([], some (.failed "unexpected EOF")), s, cache)
      | some block =>
        match r.streamBlock content s block cache with
        | (.error e, cache) => (([], some e), s, cache)
        | (.ok data, cache) =>
          let inside : Int := s.offset - block.rawOffset
          if inside < 0 ∨ (data.length : Int) ≤ inside then
            (([], some (.failed "invalid packed stream block offset")), { s with blockData := some data }, cache)
          else
            let copied := (data.drop inside.toNat).take want
            let ((rest, err), s, cache) :=
              r.streamLoop fuel (want - copied.length) (s.advance block data copied.length) cache
            ((copied ++ rest, err), s, cache)

/-- `objectStream.Read` into a buffer of `size` bytes. -/
def streamRead (size : Nat) (s : ObjectStream Digest) (cache : BlockCache Digest) :
    (Bytes × Option ReadError) × ObjectStream Digest × BlockCache Digest :=
  if size = 0 then (([], none), s, cache)
  else if s.object.rawBytes ≤ s.offset then (([], some .eof), s, cache)
  else r.streamLoop content size size s cache

def streamReads (r : Resolver Digest) : List (Nat × BlockCache Digest) → ObjectStream Digest →
    List ((Bytes × Option ReadError) × BlockCache Digest)
  | [], _ => []
  | (size, cache) :: calls, s =>
    let (result, s, left) := r.streamRead content size s cache
    (result, left) :: r.streamReads calls s

end Resolver

end

/-! ## Opening a generation -/

def plainFilename (name : String) : Bool :=
  name = "/" || (name ≠ "" && name ≠ "." && name ≠ ".." && !name.toList.contains '/')

/-- The loop over `meta.Packs` in `validateIndexV3Meta`. -/
def validatePackNames : List String → List String → Except String Unit
  | _, [] => .ok ()
  | seen, name :: rest =>
    if !plainFilename name then .error "unsafe pack filename"
    else if name ∈ seen then .error "duplicate pack filename"
    else validatePackNames (name :: seen) rest

def validateIndexV3Meta (info : IndexV3Meta) (directoryName : Option Nat) : Except String Unit :=
  if info.blockBytes ≤ 0 then .error "invalid pack v3 metadata"
  else if directoryName ≠ none ∧ directoryName ≠ some info.generation then
    .error "pack index generation does not match directory"
  else validatePackNames [] info.packs

/-- `validateSizes`; both files hold whole records. -/
def validateSizes {Digest : Type} (index : IndexV3 Digest) : Except String Unit :=
  if index.objects.length ≠ index.info.objectCount then .error "pack v3 object index size mismatch"
  else if index.blocks.length ≠ index.info.blockCount then .error "pack v3 block index size mismatch"
  else .ok ()

/-- The block checks of `validateIndex`. -/
def validateBlocks {Digest : Type} (kind : LegacyKind) : Int → List (Block Digest) → Except String Int
  | expectedOffset, [] => .ok expectedOffset
  | expectedOffset, block :: rest =>
    if !plainFilename block.pack ∨ block.packOffset < 0 ∨ block.storedBytes ≤ 0 ∨ block.rawBytes ≤ 0 ∨
        block.rawOffset ≠ expectedOffset then
      .error "invalid block for object"
    else if block.encoding = .raw ∧ kind = .packV1 then .error "invalid block encoding for object"
    else validateBlocks kind (expectedOffset + block.rawBytes) rest

def validateObjects {Digest : Type} [DecidableEq Digest] (kind : LegacyKind) :
    List Digest → List (Object Digest) → Except String Unit
  | _, [] => .ok ()
  | seen, object :: rest =>
    if object.rawBytes < 0 then .error "invalid pack object"
    else if object.sha256 ∈ seen then .error "duplicate pack object"
    else do
      let total ← validateBlocks kind 0 object.blocks
      if total ≠ object.rawBytes then .error "object block bytes differ"
      else validateObjects kind (object.sha256 :: seen) rest

/-- `validateIndex`, with the check of the directory name before it. -/
def validateIndex {Digest : Type} [DecidableEq Digest] (index : LegacyIndex Digest)
    (directoryName : Option Nat) : Except String Unit :=
  if directoryName ≠ none ∧ directoryName ≠ some index.generation then
    .error "pack index generation does not match directory"
  else if index.blockBytes ≤ 0 then .error "invalid pack index generation or block size"
  else validateObjects index.kind [] index.objects

def openPacks (packs : Files String Bytes) : List String → Except String Unit
  | [] => .ok ()
  | name :: rest => if (packs.get name).isSome then openPacks packs rest else .error "open pack"

def validateObjectBlockBounds {Digest : Type} (packs : Files String Bytes) :
    List (Block Digest) → Except String Unit
  | [] => .ok ()
  | block :: rest =>
    match packs.get block.pack with
    | none => .error "packed block references unopened pack"
    | some file =>
      if block.packOffset > file.length ∨ block.storedBytes > file.length - block.packOffset then
        .error "packed block exceeds pack size"
      else validateObjectBlockBounds packs rest

section
variable {Digest : Type} [LinearOrder Digest] (content : Content Digest)

/-- The loop of `validateResolverBounds` over the positions from `position` on. -/
def validateBounds (index : IndexV3 Digest) (packs : Files String Bytes) :
    Nat → Nat → Option Digest → Except String Unit
  | 0, _, _ => .ok ()
  | count + 1, position, previous => do
    let record ← index.readObjectRecord position
    if previous.any (fun digest => decide (record.digest ≤ digest)) then
      .error "pack v3 object index is not strictly sorted"
    else do
      let object ← index.objectAt position
      validateObjectBlockBounds packs object.blocks
      validateBounds index packs count (position + 1) (some record.digest)

def validateLegacyBounds (packs : Files String Bytes) : List (Object Digest) → Except String Unit
  | [] => .ok ()
  | object :: rest => do
    validateObjectBlockBounds packs object.blocks
    validateLegacyBounds packs rest

/-- What `loadResolverResources` checks in a directory with the given name. -/
def validateDirectory (directoryName : Option Nat) (directory : Directory Digest) : Except String Unit :=
  match directory.index with
  | .v3 index => do
    validateIndexV3Meta index.info directoryName
    validateSizes index
    openPacks directory.packs index.info.packs
    validateBounds index directory.packs index.info.objectCount 0 none
  | .legacy index => do
    validateIndex index directoryName
    openPacks directory.packs (index.objects.flatMap (fun object => object.blocks.map Block.pack))
    validateLegacyBounds directory.packs index.objects

def openGeneration (cacheBytes : Nat) (directoryName : Option Nat) (directory : Directory Digest) :
    Except String (Resolver Digest) := do
  validateDirectory directoryName directory
  .ok ⟨directory.index, directory.packs, cacheBytes⟩

/-! ## Verification -/

/-- The buffer of `verifyGeneration`. -/
def verifyBufferBytes : Nat := 128 * 1024

/-- The read loop of `verifyGeneration` over one object. -/
def verifyLoop (r : Resolver Digest) (ref : ObjectRef Digest) :
    Nat → Bytes → BlockCache Digest → Except String Bytes × BlockCache Digest
  | 0, acc, cache => (.ok acc, cache)
  | fuel + 1, acc, cache =>
    if ref.rawBytes ≤ acc.length then (.ok acc, cache)
    else
      match r.readAt content ref verifyBufferBytes acc.length cache with
      | ((_, some (.failed e)), cache) => (.error e, cache)
      | ((data, _), cache) =>
        if data.length = 0 then (.ok acc, cache) else verifyLoop r ref fuel (acc ++ data) cache

/-- `verifyGeneration` over the positions from `position` on. -/
def verifyPositions (r : Resolver Digest) : Nat → Nat → BlockCache Digest → Except String Unit
  | 0, _, _ => .ok ()
  | count + 1, position, cache => do
    let object ← r.objectAt position
    match verifyLoop content r ⟨object.sha256, object.rawBytes.toNat, 0⟩ (object.rawBytes.toNat + 1) [] cache with
    | (.error e, _) => .error e
    | (.ok data, cache) =>
      if (data.length : Int) ≠ object.rawBytes ∨ content.sha256 data ≠ object.sha256 then
        .error "packed object verification failed"
      else verifyPositions r count (position + 1) cache

/-- `verifyGeneration` opens its own resolver, without a cache. -/
def verifyGeneration (directoryName : Option Nat) (directory : Directory Digest) : Except String Unit := do
  let r ← openGeneration 0 directoryName directory
  verifyPositions content r r.objectCount 0 []

end

end CodexFold.Pack.Layout
