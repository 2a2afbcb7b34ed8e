import CodexFold.Pack.Publish

/- `Build`: a new generation of everything the manifests refer to.

   Build holds the objects lock from beginning to end, so what it reads does not
   change under it. It makes a candidate generation in a temporary directory that
   nobody else looks at; only the publication steps at its end are visible. -/
namespace CodexFold.Pack
open Foundation Fold

structure Sizes where
  estimatedBytes : Nat
  objectBlocks : Nat
  catalogBytes : Nat
  manifestBytes : Nat
  deriving DecidableEq, Repr

/-- The limits that `Build` keeps before it publishes anything. -/
def checkSizes (sizes : Sizes) : Except String Unit := do
  require (decide (sizes.estimatedBytes < 2 ^ 63)) "pack generation byte estimate overflow"
  require (decide (sizes.objectBlocks < 2 ^ 32)) "object exceeds pack v3 block count"
  require (decide (sizes.catalogBytes ≤ 64 * 2 ^ 20)) "pack recovery catalog size is invalid"
  require (decide (sizes.manifestBytes ≤ 512 * 2 ^ 20)) "recovery manifest has an invalid size"

/-- The values `Build` draws: the suffix of the temporary directory, for the first marker
    of a store the store identity, and, as nothing is encoded here, the sizes. -/
structure BuildOptions where
  suffix : Nat
  storeID : Nat
  sizes : Sizes
  deriving DecidableEq, Repr

def Sizes.small : Sizes := ⟨1000, 1, 1000, 1000⟩

section
variable {Digest : Type} [DecidableEq Digest]

/-! ## The candidate -/

def addReference (references : Files Digest (Option Nat)) (ref : ObjectRef Digest) :
    Files Digest (Option Nat) :=
  references.set ref.sha256
    (match references.get ref.sha256 with
    | none => some ref.rawBytes
    | some known => if known = some ref.rawBytes then known else none)

def referenceRows (manifests : List (String × Manifest Digest)) : Files Digest (Option Nat) :=
  (manifests.flatMap (fun m => m.2.parts.map Fold.Part.object)).foldl addReference .empty

def rowLengths : List (Digest × Option Nat) → Except String (List (Digest × Nat))
  | [] => .ok []
  | (_, none) :: _ => .error "object digest(s) have conflicting raw lengths"
  | (digest, some rawBytes) :: rest =>
    match rowLengths rest with
    | .error e => .error e
    | .ok rows => .ok ((digest, rawBytes) :: rows)

/-- `buildReferenceIndex`. The walk over a manifest directory that does not exist
    is an error. -/
def buildReferenceIndex (files : Store Digest) : Except String (List (Digest × Nat)) :=
  if !files.manifestRoot then .error "read manifests for pack build"
  else rowLengths (referenceRows files.listed.entries).entries

variable (content : Content Digest)

def packObject (objects : Files Digest Bytes) (previous : Option (Files Digest Bytes)) (digest : Digest)
    (rawBytes : Nat) : Except String Bytes :=
  let ref : ObjectRef Digest := ⟨digest, rawBytes, 0⟩
  match objects.get digest, previous with
  | none, some packed => (packedReader packed).openObject ref
  | _, _ => readObject content objects ref

def packObjects (objects : Files Digest Bytes) (previous : Option (Files Digest Bytes)) :
    List (Digest × Nat) → Except String (Files Digest Bytes)
  | [] => .ok .empty
  | (digest, rawBytes) :: rest =>
    match packObject content objects previous digest rawBytes with
    | .error e => .error e
    | .ok data =>
      match packObjects objects previous rest with
      | .error e => .error e
      | .ok packed => .ok (packed.set digest data)

/-- Everything `Build` does before the directory is renamed: the object loop, the
    recovery archive, and the verification of both against the live manifests. -/
def buildCandidate (files : Store Digest) (previous : Option (Files Digest Bytes)) :
    Except String (Generation Digest) := do
  let references ← buildReferenceIndex files
  let packed ← packObjects content files.objects previous references
  let sources ← collectRecoverySources content (packedReader packed) files.listed.entries
  let candidate : Generation Digest := ⟨packed, some ⟨packed.entries, sources⟩, none⟩
  verifyGeneration content candidate
  let recovery ← verifyRecovery candidate
  verifyRecoveryAndLiveManifests content files.listed recovery (packedReader packed)
  pure candidate

/-! ## Build -/

def recoveredBase (message : String) (recovered : Nat) :
    Prog (PackStore Digest) String (Option Nat × Nat) := do
  let again ← read readPublicationHead
  let (recoveredHead, _) ← ofExcept again
  ensure (decide (recoveredHead.generation = recovered)) message
  pure (some recoveredHead.generation, recoveredHead.sequence)

/-- `currentPublicationForBuild`: complete what an earlier run left half published
    and return the generation to build on, with its sequence. -/
def currentPublicationForBuild (random : Nat) :
    Prog (PackStore Digest) String (Option Nat × Nat) := do
  let current ← read PackStore.current
  let present ← read (fun s => s.head.isSome)
  if !present then
    match current with
    | none => pure (none, 0)
    | some generation => do
      let (migrated, sequence) ← migrateLegacyCurrentPublication content random generation
      pure (some migrated, sequence)
  else do
    let read ← read readPublicationHead
    let (head, marker) ← ofExcept read
    let pending ← Prog.read (fun s => findPublishedSuccessor s.generations head)
    if current = some head.generation then do
      let successor ← ofExcept pending
      match successor with
      | none => pure (some head.generation, head.sequence)
      | some next => do
        let recovered ← promotePublishedGenerationLocked content next true
        recoveredBase "recovered pack publication identity changed after promotion" recovered
    else if current.isSome && !decide (marker.previousGeneration = current) then
      throw "pack CURRENT and publication head do not form a forward publication step"
    else do
      let recovered ← recoverCurrentGenerationLocked content
      recoveredBase "recovered pack publication identity changed after recovery" recovered

/-- The generation `Build` copies from. -/
def openPrevious : Option Nat → Prog (PackStore Digest) String (Option (Files Digest Bytes))
  | none => pure none
  | some generation => do
    let resolver ← openGeneration generation
    pure (some resolver.packed)

/-- The publication steps of `Build`. A directory cannot be renamed over another. -/
def publishGeneration (options : BuildOptions) (previousGeneration : Option Nat) (previousSequence : Nat)
    (candidate : Generation Digest) : Prog (PackStore Digest) String Unit := do
  let taken ← read (fun s => (s.generations.get options.suffix).isSome)
  ensure (!taken) "publish pack generation directory"
  effect "publish pack generation directory"
    (fun s => { s with generations := s.generations.set options.suffix candidate })
  point "sync packs directory"
  point "before publish"
  ensure (decide (previousSequence ≠ maxSequence)) "pack publication sequence cannot advance"
  let marker ← markGenerationPublished options.storeID options.suffix (previousSequence + 1) previousGeneration
  publishPublicationHead marker
  point "after publication head"
  publishCurrent options.suffix

def build (options : BuildOptions) : Prog (PackStore Digest) String Nat := do
  point "objects lock"
  let (previousGeneration, previousSequence) ← currentPublicationForBuild content options.storeID
  point "create reference index"
  let previous ← openPrevious previousGeneration
  point "storage budget"
  point "create temporary pack generation"
  let candidate ← read (fun s => buildCandidate content s.files previous)
  let candidate ← ofExcept candidate
  ofExcept (checkSizes options.sizes)
  point "write candidate pack generation"
  publishGeneration options previousGeneration previousSequence candidate
  pure options.suffix

end

end CodexFold.Pack
