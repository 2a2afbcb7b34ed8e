import CodexFold.Fold.Fold

/- Pack generations and their publication files (`internal/pack`).

   A generation is a directory that holds every object the manifests referred to
   when it was built, a recovery archive and, once published, a marker that
   chains it to the generation before it. The publication head names the
   authoritative marker and `CURRENT` names the generation that readers open.

   Objects are kept here by digest and raw bytes; how blocks, pack files and the
   index store them is the subject of the byte-level modules. Where the source
   records the size and SHA-256 of a file (the archive in the marker, the marker
   in the head, the pack files in the archive) the model records the contents:
   SHA-256 is taken to be collision-free. A generation directory is called
   `gen-<suffix>` with a suffix drawn by `MkdirTemp`; the name is kept as that
   suffix. -/
namespace CodexFold.Pack
open Foundation Fold

/-- `RecoveryCatalog` with the archive it describes: the pack files and the
    manifests that could be reconstructed from them. -/
structure Recovery (Digest : Type) where
  packFiles : List (Digest × Bytes)
  manifests : List (String × Manifest Digest)
  deriving DecidableEq

/-- `PublishedGeneration`, the marker file. A legacy marker has no store identity. -/
structure PublishedGeneration (Digest : Type) where
  storeID : Option Nat
  generation : Nat
  sequence : Nat
  previousGeneration : Option Nat
  recovery : Recovery Digest
  deriving DecidableEq

structure PublicationHead (Digest : Type) where
  storeID : Option Nat
  generation : Nat
  sequence : Nat
  marker : PublishedGeneration Digest
  deriving DecidableEq

structure Generation (Digest : Type) where
  packed : Files Digest Bytes
  recovery : Option (Recovery Digest)
  marker : Option (PublishedGeneration Digest)

structure Resolver (Digest : Type) where
  generation : Nat
  packed : Files Digest Bytes

structure PackStore (Digest : Type) where
  files : Store Digest
  generations : Files Nat (Generation Digest)
  head : Option (PublicationHead Digest)
  current : Option Nat
  storeID : Option Nat
  resolvers : List (Resolver Digest)

def maxSequence : Nat := 2 ^ 64 - 1

def errObjectNotPacked : String := "object is not packed"

section
variable {Digest : Type} [DecidableEq Digest]

def onFiles {α : Type} (x : Prog (Store Digest) String α) : Prog (PackStore Digest) String α :=
  onPart PackStore.files (fun s files => { s with files }) x

/-- `Resolver.HasObject` and `Resolver.OpenObject` read to the end. -/
def packedReader (packed : Files Digest Bytes) : ObjectReader Digest where
  hasObject ref :=
    match packed.get ref.sha256 with
    | none => false
    | some data => decide (data.length = ref.rawBytes)
  openObject ref :=
    match packed.get ref.sha256 with
    | none => .error errObjectNotPacked
    | some data => if data.length ≠ ref.rawBytes then .error "object raw size differs" else .ok data

/-- The loose objects and the generation named by `CURRENT`. -/
def survivingObjectReader (content : Content Digest) (s : PackStore Digest) : ObjectReader Digest :=
  match s.current.bind s.generations.get with
  | none => looseReader content s.files.objects
  | some generation =>
    fallbackObjectReader (looseReader content s.files.objects) (packedReader generation.packed)

/-! ## Verification -/

variable (content : Content Digest)

def verifyManifest (reader : ObjectReader Digest) (manifest : Manifest Digest) : Except String Unit :=
  match validateManifest manifest with
  | .error e => .error e
  | .ok _ => verifyStoredManifest content reader manifest

def verifyManifests (reader : ObjectReader Digest) : List (String × Manifest Digest) → Except String Unit
  | [] => .ok ()
  | (_, manifest) :: rest =>
    match verifyManifest content reader manifest with
    | .error e => .error e
    | .ok _ => verifyManifests reader rest

/-- `verifyGeneration`: every packed object has the digest it is stored under. -/
def verifyObjects : List (Digest × Bytes) → Except String Unit
  | [] => .ok ()
  | (digest, data) :: rest =>
    if content.sha256 data = digest then verifyObjects rest
    else .error "pack object reconstruction mismatch"

def verifyGeneration (generation : Generation Digest) : Except String Unit :=
  verifyObjects content generation.packed.entries

/-- `VerifyRecovery`: the archive describes the pack files that are there. -/
def verifyRecovery (generation : Generation Digest) : Except String (Recovery Digest) :=
  match generation.recovery with
  | none => .error "open recovery archive"
  | some recovery =>
    if recovery.packFiles = generation.packed.entries then .ok recovery
    else .error "recovery archive does not match the pack files"

/-- `verifyRecoveryAndLiveManifests`, for a store without managed sessions. -/
def verifyRecoveryAndLiveManifests (manifests : Files String (Manifest Digest)) (recovery : Recovery Digest)
    (reader : ObjectReader Digest) : Except String Unit :=
  match verifyManifests content reader recovery.manifests with
  | .error e => .error e
  | .ok _ => verifyManifests content reader manifests.entries

/-! ## Markers and the publication head -/

/-- `readPublishedMarker` on the directory `name`. -/
def readPublishedMarker (name : Nat) (generation : Generation Digest) :
    Except String (PublishedGeneration Digest) :=
  match generation.marker with
  | none => .error "open published pack marker"
  | some marker =>
    if marker.generation ≠ name ∨ marker.sequence = 0 then .error "invalid published pack marker"
    else if (marker.sequence = 1 ∧ marker.previousGeneration ≠ none) ∨
        (marker.sequence > 1 ∧ marker.previousGeneration = none) ∨
        marker.previousGeneration = some marker.generation then
      .error "invalid published pack predecessor"
    else .ok marker

def readPublishedGeneration (name : Nat) (generation : Generation Digest) :
    Except String (PublishedGeneration Digest) :=
  match readPublishedMarker name generation with
  | .error e => .error e
  | .ok marker =>
    if generation.recovery = some marker.recovery then .ok marker
    else .error "published marker does not match the recovery archive"

def readPublicationHead (s : PackStore Digest) :
    Except String (PublicationHead Digest × PublishedGeneration Digest) :=
  match s.head with
  | none => .error "open pack publication head"
  | some head =>
    if head.sequence = 0 then .error "invalid pack publication head"
    else
      match s.generations.get head.generation with
      | none => .error "read pack publication head marker"
      | some generation =>
        if generation.marker ≠ some head.marker then
          .error "pack publication head does not match its generation marker"
        else
          match readPublishedMarker head.generation generation with
          | .error e => .error e
          | .ok marker =>
            if marker.generation ≠ head.generation ∨ marker.sequence ≠ head.sequence then
              .error "pack publication head and marker identities differ"
            else if marker.storeID ≠ head.storeID then
              .error "pack publication head and marker store identities differ"
            else .ok (head, marker)

/-- The loop of `findPublishedSuccessor` over the generation directories. -/
def findSuccessor (head : PublicationHead Digest) :
    Option (PublishedGeneration Digest) → List (Nat × Generation Digest) →
    Except String (Option (PublishedGeneration Digest))
  | found, [] => .ok found
  | found, (name, generation) :: rest =>
    if generation.marker = none then findSuccessor head found rest
    else
      match readPublishedMarker name generation with
      | .error _ => .error "read pack publication marker"
      | .ok marker =>
        if marker.sequence ≤ head.sequence then findSuccessor head found rest
        else if marker.sequence ≠ head.sequence + 1 ∨ marker.previousGeneration ≠ some head.generation then
          .error "pack publication marker is not a unique successor"
        else if head.storeID ≠ none ∧ marker.storeID ≠ head.storeID then
          .error "pack publication successor belongs to another store"
        else if found ≠ none then .error "multiple pack publication successors"
        else findSuccessor head (some marker) rest

def findPublishedSuccessor (generations : Files Nat (Generation Digest)) (head : PublicationHead Digest) :
    Except String (Option (PublishedGeneration Digest)) :=
  if head.sequence = maxSequence then .error "pack publication sequence cannot advance"
  else findSuccessor head none generations.entries

end

end CodexFold.Pack
