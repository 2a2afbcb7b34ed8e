import CodexFold.Pack.Build
import CodexFold.Pack.Resolver

/- `Build` down to the bytes of the candidate directory: pack files, rotation, the
   choice between raw and compressed blocks, and the three ways an object gets into
   a new generation. It is streamed from its loose file or from the previous
   generation and cut into blocks; or its encoded blocks are copied; or, in an
   incremental build, the pack files that hold them are linked under new names.

   A hard link shares the bytes of a file that nobody writes to again, so it is a
   copy here. A stream that fails half way makes `Build` discard the directory, so
   a stream is read to its end before its blocks are written. `Pack.build` is the same
   function with objects in place of the directory; its `checkSizes` is left out here. -/
namespace CodexFold.Pack.Layout
open Foundation Fold

structure BuildOptions extends Pack.BuildOptions where
  incremental : Bool
  blockBytes : Int
  packBytes : Int

def defaultBlockBytes : Int := 256 * 1024

def defaultPackBytes : Int := 512 * 1024 * 1024

/-- The defaults `Build` puts in for sizes that are not positive. -/
def BuildOptions.withDefaults (options : BuildOptions) : BuildOptions :=
  { options with
    blockBytes := if options.blockBytes ≤ 0 then defaultBlockBytes else options.blockBytes
    packBytes := if options.packBytes ≤ 0 then defaultPackBytes else options.packBytes }

def ReadError.text : ReadError → String
  | .eof => errEOF
  | .failed text => text

/-! ## The temporary directory -/

structure PackWriter where
  limit : Int
  sequence : Nat
  file : Option String
  offset : Nat

/-- What the object loop has written: pack files, index records, the names in
    `meta.Packs` and the packs linked from the previous generation. -/
structure Draft (Digest : Type) where
  writer : PackWriter
  packs : Files String Bytes
  packNames : List String
  imported : Files String String
  objects : List (Record Digest)
  blocks : List (Record Digest)

/-- `pack-%06d.pack`. -/
def packFilename (sequence : Nat) : String :=
  "pack-" ++ String.ofList ((toString sequence).toList.leftpad 6 '0') ++ ".pack"

def generationName (generation : Nat) : String := "gen-" ++ toString generation

namespace Draft
variable {Digest : Type}

def empty (limit : Int) : Draft Digest := ⟨⟨limit, 0, none, 0⟩, .empty, [], .empty, [], []⟩

variable (d : Draft Digest)

/-- `packWriter.rotate`: the next file, which must not exist. -/
def rotate : Except String (Draft Digest) :=
  let sequence := d.writer.sequence + 1
  let name := packFilename sequence
  if (d.packs.get name).isSome then .error "create pack file"
  else .ok { d with
    writer := { d.writer with sequence, file := some name, offset := 0 }
    packs := d.packs.set name [] }

/-- The first step of `packWriter.write`: a new file when none is open or the data
    would exceed the limit. -/
def makeRoom (data : Bytes) : Except String (Draft Digest) :=
  if d.writer.file = none ∨
      (d.writer.offset > 0 ∧ (d.writer.offset + data.length : Int) > d.writer.limit) then d.rotate
  else .ok d

/-- `packWriter.write`: the name of the file and the offset the data got. -/
def write (d : Draft Digest) (data : Bytes) : Except String (Draft Digest × String × Nat) := do
  let d ← d.makeRoom data
  match d.writer.file with
  | none => .error "write pack file"
  | some name =>
    .ok ({ d with
      packs := d.packs.set name ((d.packs.get name).getD [] ++ data)
      writer := { d.writer with offset := d.writer.offset + data.length } }, name, d.writer.offset)

def packIndex (name : String) : Draft Digest × Nat :=
  match d.packNames.idxOf? name with
  | some index => (d, index)
  | none => ({ d with packNames := d.packNames ++ [name] }, d.packNames.length)

def addBlock (record : BlockV3Record Digest) : Draft Digest :=
  { d with blocks := d.blocks ++ [encodeBlockV3 record] }

def addObject (digest : Digest) (rawBytes : Nat) (firstBlock blockCount : Nat) :
    Draft Digest :=
  { d with objects := d.objects ++ [encodeObjectV3 ⟨digest, rawBytes, firstBlock, blockCount⟩] }

end Draft

/-! ## Blocks from the previous generation -/

section
variable {Digest : Type} (reuseKey : String → String)

/-- Link a pack of the previous generation, once. `reuseKey` is the hexadecimal form
    of the first 16 bytes of the SHA-256. -/
def importPack (previous : Nat) (pack : String) (file : Bytes) (d : Draft Digest) :
    Except String (Draft Digest × String) :=
  match d.imported.get pack with
  | some name => .ok (d, name)
  | none =>
    let name := "pack-reused-" ++ reuseKey (generationName previous ++ "/" ++ pack) ++ ".pack"
    if (d.packs.get name).isSome then .error "reuse immutable pack extent"
    else .ok ({ d with packs := d.packs.set name file, imported := d.imported.set pack name }, name)

def placeBlock (incremental : Bool) (previous : Nat) (file : Bytes) (d : Draft Digest)
    (block : Block Digest) : Except String (Draft Digest × String × Int) :=
  if incremental then do
    let (d, name) ← importPack reuseKey previous block.pack file d
    .ok (d, name, block.packOffset)
  else
    let data := (file.drop block.packOffset.toNat).take block.storedBytes.toNat
    if data.length ≠ block.storedBytes.toNat then .error errEOF
    else do
      let (d, name, offset) ← d.write data
      .ok (d, name, (offset : Int))

def reuseBlock (incremental : Bool) (previous : Nat) (source : Files String Bytes) (d : Draft Digest)
    (block : Block Digest) : Except String (Draft Digest) :=
  match source.get block.pack with
  | none => .error "missing source pack"
  | some file => do
    let (d, name, offset) ← placeBlock reuseKey incremental previous file d block
    let (d, packIndex) := d.packIndex name
    .ok (d.addBlock ⟨packIndex, offset, block.storedBytes, block.rawOffset, block.rawBytes, block.sha256,
      if block.encoding = .raw then 1 else 0⟩)

def reuseBlocks (incremental : Bool) (previous : Nat) (source : Files String Bytes) :
    List (Block Digest) → Draft Digest → Except String (Draft Digest)
  | [], d => .ok d
  | block :: rest, d => do
    let d ← reuseBlock reuseKey incremental previous source d block
    reuseBlocks incremental previous source rest d

end

/-! ## Streamed objects -/

/-- What successive `io.ReadFull` calls with a buffer of `size` bytes return. -/
def splitBlocks (size : Nat) : Nat → Bytes → List Bytes
  | 0, _ => []
  | fuel + 1, data =>
    if data = [] then [] else data.take size :: splitBlocks size fuel (data.drop size)

def preferRawBlock (raw compressed : Bytes) : Bool :=
  compressed.length ≥ raw.length || (raw.length ≤ 16 * 1024 && compressed.length * 2 ≥ raw.length)

section
variable {Digest : Type} [LinearOrder Digest] (content : Content Digest)

/-- The blocks of a streamed object. `objectBlocks` stops at the largest `uint32`. -/
def encodeBlocks : List Bytes → Nat → Nat → Draft Digest → Except String (Draft Digest × Nat × Nat)
  | [], rawOffset, objectBlocks, d => .ok (d, rawOffset, objectBlocks)
  | raw :: rest, rawOffset, objectBlocks, d => do
    let compressed := content.compress raw
    let preferRaw := preferRawBlock raw compressed
    let stored := if preferRaw then raw else compressed
    let (d, name, offset) ← d.write stored
    let (d, packIndex) := d.packIndex name
    let d := d.addBlock ⟨packIndex, offset, stored.length, rawOffset, raw.length, content.sha256 raw,
      if preferRaw then 1 else 0⟩
    if objectBlocks = 2 ^ 32 - 1 then .error "object exceeds pack v3 block count"
    else encodeBlocks rest (rawOffset + raw.length) (objectBlocks + 1) d

def readAll (r : Resolver Digest) (size : Nat) : Nat → ObjectStream Digest → BlockCache Digest →
    Except ReadError Bytes
  | 0, _, _ => .ok []
  | fuel + 1, s, cache =>
    match r.streamRead content size s cache with
    | ((_, some .eof), _, _) => .ok []
    | ((_, some e), _, _) => .error e
    | ((data, none), s, cache) =>
      match readAll r size fuel s cache with
      | .error e => .error e
      | .ok rest => .ok (data ++ rest)

/-- `OpenObject`, read to the end of the stream. -/
def Resolver.readObject (r : Resolver Digest) (size : Nat) (ref : ObjectRef Digest) : Except String Bytes :=
  match r.openObject ref with
  | .error e => .error e.text
  | .ok s =>
    match readAll content r size (ref.rawBytes + 1) s [] with
    | .error e => .error e.text
    | .ok data => .ok data

def openSource (objects : Files Digest Bytes) (previous : Option (Nat × Resolver Digest)) (size : Nat)
    (ref : ObjectRef Digest) : Except String Bytes :=
  match objects.get ref.sha256, previous with
  | none, some (_, r) => r.readObject content size ref
  | _, _ => Fold.readObject content objects ref

def streamObject (objects : Files Digest Bytes) (previous : Option (Nat × Resolver Digest)) (size : Nat)
    (ref : ObjectRef Digest) (d : Draft Digest) : Except String (Draft Digest) := do
  let data ← openSource content objects previous size ref
  let (next, rawOffset, objectBlocks) ← encodeBlocks content (splitBlocks size (data.length + 1) data) 0 0 d
  if rawOffset ≠ ref.rawBytes ∨ content.sha256 data ≠ ref.sha256 then
    .error "loose object failed stream verification"
  else .ok (next.addObject ref.sha256 ref.rawBytes d.blocks.length objectBlocks)

/-! ## The object loop -/

def reusable (options : BuildOptions) (objects : Files Digest Bytes)
    (previous : Option (Nat × Resolver Digest)) (ref : ObjectRef Digest) :
    Except String (Option (Nat × Resolver Digest × Object Digest)) :=
  match previous, objects.get ref.sha256 with
  | some (generation, r), none =>
    match r.lookupObject ref.sha256 with
    | .error e => .error e
    | .ok none => .ok none
    | .ok (some object) =>
      if object.rawBytes = ref.rawBytes ∧ object.blocks.all (fun block => block.rawBytes ≤ options.blockBytes) then
        .ok (some (generation, r, object))
      else .ok none
  | _, _ => .ok none

variable (reuseKey : String → String)

def encodeObject (options : BuildOptions) (objects : Files Digest Bytes)
    (previous : Option (Nat × Resolver Digest)) (ref : ObjectRef Digest) (d : Draft Digest) :
    Except String (Draft Digest) := do
  match ← reusable options objects previous ref with
  | some (generation, r, object) =>
    let next ← reuseBlocks reuseKey options.incremental generation r.packs object.blocks d
    .ok (next.addObject ref.sha256 ref.rawBytes d.blocks.length object.blocks.length)
  | none => streamObject content objects previous options.blockBytes.toNat ref d

def encodeObjects (options : BuildOptions) (objects : Files Digest Bytes)
    (previous : Option (Nat × Resolver Digest)) :
    List (Digest × Nat) → Draft Digest → Except String (Draft Digest)
  | [], d => .ok d
  | (digest, rawBytes) :: rest, d => do
    let d ← encodeObject content reuseKey options objects previous ⟨digest, rawBytes, 0⟩ d
    encodeObjects options objects previous rest d

/-- `select digest, raw_bytes from pack_references order by digest`. -/
def orderByDigest (rows : List (Digest × Nat)) : List (Digest × Nat) :=
  rows.insertionSort (fun a b => a.1 ≤ b.1)

def buildDirectory (options : BuildOptions) (objects : Files Digest Bytes)
    (previous : Option (Nat × Resolver Digest)) (references : List (Digest × Nat)) :
    Except String (Directory Digest) := do
  let rows := orderByDigest references
  let d ← encodeObjects content reuseKey options objects previous rows (Draft.empty options.packBytes)
  .ok ⟨.v3 ⟨⟨options.suffix, options.blockBytes, rows.length, d.blocks.length, d.packNames⟩, d.objects, d.blocks⟩,
    d.packs⟩

end

/-! ## Whether to build incrementally -/

section
variable {Digest : Type} [LinearOrder Digest]

/-- The loop of `hasDroppedPackedObjects`: `position` is the next packed object that
    was not met among the references. -/
def droppedLoop (r : Resolver Digest) : Nat → List Digest → Except String Bool
  | position, [] => .ok (decide (position < r.objectCount))
  | position, digest :: rest =>
    if r.objectCount ≤ position then droppedLoop r position rest
    else do
      let object ← r.objectAt position
      if object.sha256 < digest then .ok true
      else if object.sha256 = digest then droppedLoop r (position + 1) rest
      else droppedLoop r position rest

variable (r : Resolver Digest)

def hasDroppedPackedObjects (references : List (Digest × Nat)) : Except String Bool :=
  droppedLoop r 0 ((orderByDigest references).map Prod.fst)

def Resolver.packNames : List String :=
  match r.index with
  | .v3 index => index.info.packs
  | .legacy index => (index.objects.flatMap (fun object => object.blocks.map Block.pack)).dedup

/-- `compactPackFileLimit`, for a positive pack size. -/
def compactPackFileLimit (packBytes : Int) : Nat :=
  let stored := (r.packNames.map (fun name => ((r.packs.get name).getD []).length)).sum
  let minimum := stored / packBytes.toNat + if stored % packBytes.toNat ≠ 0 then 1 else 0
  max 16 (minimum + 8)

def decideIncremental (options : BuildOptions) (previous : Option (Nat × Resolver Digest))
    (references : List (Digest × Nat)) : Except String BuildOptions :=
  match previous with
  | none => .ok options
  | some (_, r) =>
    if !options.incremental then .ok options
    else do
      let dropped ← hasDroppedPackedObjects r references
      .ok { options with incremental :=
        !(dropped || decide (compactPackFileLimit r options.packBytes ≤ r.packNames.length) ||
          decide (options.blockBytes < r.blockBytes)) }

end

/-! ## `Build` -/

structure DiskStore (Digest : Type) where
  store : PackStore Digest
  directories : Files Nat (Directory Digest)

section
variable {Digest : Type} [LinearOrder Digest] (content : Content Digest) (reuseKey : String → String)

/-- The buffer `io.Copy` uses. -/
def copyBufferBytes : Nat := 32 * 1024

def resolverReader (r : Resolver Digest) : ObjectReader Digest where
  hasObject ref := r.hasObject ref
  openObject ref := r.readObject content copyBufferBytes ref

def packedObjects (r : Resolver Digest) : Nat → Nat → Except String (Files Digest Bytes)
  | 0, _ => .ok .empty
  | count + 1, position => do
    let object ← r.objectAt position
    let data ← (resolverReader content r).openObject ⟨object.sha256, object.rawBytes.toNat, 0⟩
    let packed ← packedObjects r count (position + 1)
    .ok (packed.set object.sha256 data)

/-- The candidate in the terms of the publication protocol, with the checks `Build`
    makes before it renames the directory. -/
def describeCandidate (files : Store Digest) (directory : Directory Digest) :
    Except String (Generation Digest) := do
  let r ← openGeneration 0 none directory
  let sources ← collectRecoverySources content (resolverReader content r) files.listed.entries
  verifyGeneration content none directory
  let packed ← packedObjects content r r.objectCount 0
  let candidate : Generation Digest := ⟨packed, some ⟨packed.entries, sources⟩, none⟩
  let recovery ← verifyRecovery candidate
  verifyRecoveryAndLiveManifests content files.listed recovery (resolverReader content r)
  .ok candidate

def onStore {α : Type} (x : Prog (PackStore Digest) String α) : Prog (DiskStore Digest) String α :=
  onPart DiskStore.store (fun s store => { s with store }) x

def openPrevious : Option Nat → Prog (DiskStore Digest) String (Option (Nat × Resolver Digest))
  | none => pure none
  | some generation => do
    let directory ← read (fun s => s.directories.get generation)
    match directory with
    | none => throw "open pack generation"
    | some directory => do
      let r ← ofExcept (openGeneration 0 (some generation) directory)
      pure (some (generation, r))

/-- `Build`, with the candidate written to disk. -/
def build (requested : BuildOptions) : Prog (DiskStore Digest) String Nat := do
  let options := requested.withDefaults
  point "objects lock"
  let (previousGeneration, previousSequence) ←
    onStore (currentPublicationForBuild content options.storeID)
  point "create reference index"
  let rows ← read (fun s => buildReferenceIndex s.store.files)
  let references ← ofExcept rows
  let previous ← openPrevious previousGeneration
  let options ← ofExcept (decideIncremental options previous references)
  point "storage budget"
  point "create temporary pack generation"
  let drafted ← read (fun s =>
    buildDirectory content reuseKey options s.store.files.objects previous references)
  let directory ← ofExcept drafted
  let described ← read (fun s => describeCandidate content s.store.files directory)
  let candidate ← ofExcept described
  effect "write candidate pack generation"
    (fun s => { s with directories := s.directories.set options.suffix directory })
  onStore (publishGeneration options.toBuildOptions previousGeneration previousSequence candidate)
  pure options.suffix

end

end CodexFold.Pack.Layout
