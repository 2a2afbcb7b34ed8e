import CodexFold.Pack.Build

/- The operations that take objects away: `RetireLoose` removes loose copies of
   packed objects, the fold GC removes loose objects no manifest refers to, and a
   generation that is no longer current can be removed as a whole. Each proves
   its case again right before a removal. -/
namespace CodexFold.Pack
open Foundation Fold

section
variable {Digest : Type} [DecidableEq Digest] (content : Content Digest)

/-- `CaptureLooseObjectIdentity`: the loose file decodes to bytes with its digest and,
    when given, with that length. -/
def captureLooseObjectIdentity (objects : Files Digest Bytes) (digest : Digest)
    (expectedRawBytes : Option Nat) : Except String Nat :=
  match objects.get digest with
  | none => .error "open loose object"
  | some stored =>
    match content.decompress stored with
    | none => .error "decode loose object"
    | some data =>
      if expectedRawBytes ≠ none ∧ expectedRawBytes ≠ some data.length then .error "loose object raw size differs"
      else if content.sha256 data ≠ digest then .error "loose object SHA-256 mismatch"
      else .ok data.length

def removeLoose (message : String) (digest : Digest) : Prog (PackStore Digest) String Unit :=
  effect message (fun s => { s with files := { s.files with objects := s.files.objects.erase digest } })

/-! ## RetireLoose -/

/-- `Doctor` of the packs without an issue: every object and every live manifest
    verifies from the generation alone. -/
def doctor (packed : Files Digest Bytes) (manifests : Files String (Manifest Digest)) :
    Except String Unit :=
  match verifyObjects content packed.entries with
  | .error e => .error e
  | .ok _ => verifyManifests content (packedReader packed) manifests.entries

/-- `verifyPackedLooseRetirementCandidate`. -/
def verifyPackedCandidate (digest : Digest) (data : Bytes) : Except String Unit :=
  if content.sha256 data = digest then .ok ()
  else .error "packed loose retirement candidate SHA-256 mismatch"

/-- One candidate of `RetireLoose`. -/
def retireObject (resolver : Resolver Digest) (digest : Digest) : Prog (PackStore Digest) String Unit :=
  match resolver.packed.get digest with
  | none => pure ()
  | some data => do
    let identity ← read (fun s => captureLooseObjectIdentity content s.files.objects digest (some data.length))
    let _ ← ofExcept identity
    point "before remove"
    ofExcept (verifyPackedCandidate content digest data)
    let current ← read PackStore.current
    ensure (decide (current = some resolver.generation)) "refusing loose retirement: pack CURRENT changed"
    removeLoose "retire loose object" digest

/-- `RetireLoose` with Apply. It holds the objects lock, so its own `Open` cannot
    complete a half-published step. -/
def retireLoose : Prog (PackStore Digest) String Unit := do
  point "managed session guard"
  point "objects lock"
  let resolver ← openStore content false
  let report ← read (fun s => doctor content resolver.packed s.files.listed)
  ofExcept report
  let candidates ← read (fun s => s.files.objects.names)
  forEach (retireObject content resolver) candidates
  point "write retirement audit"

/-! ## The fold GC -/

def referencedManifestObjects : List (String × Manifest Digest) → Except String (List Digest)
  | [] => .ok []
  | (_, manifest) :: rest =>
    match validateManifest manifest with
    | .error _ => .error "refusing GC with invalid manifest(s)"
    | .ok _ =>
      match referencedManifestObjects rest with
      | .error e => .error e
      | .ok referenced => .ok (manifest.parts.map (fun part => part.object.sha256) ++ referenced)

def collectObject (referenced : List Digest) (digest : Digest) : Prog (PackStore Digest) String Unit :=
  if digest ∈ referenced then pure ()
  else do
    let identity ← read (fun s => captureLooseObjectIdentity content s.files.objects digest none)
    let _ ← ofExcept identity
    point "before object remove"
    let again ← read (fun s => referencedManifestObjects s.files.listed.entries)
    let now ← ofExcept again
    if digest ∈ now then pure () else removeLoose "remove orphan object" digest

/-- `GCWithOptions` with Apply. Without authorizers `storage.Collect` retains every
    candidate of its own. -/
def gc : Prog (PackStore Digest) String Unit := do
  let first ← read (fun s => referencedManifestObjects s.files.listed.entries)
  let _ ← ofExcept first
  point "managed session guard"
  point "objects lock"
  let second ← read (fun s => referencedManifestObjects s.files.listed.entries)
  let referenced ← ofExcept second
  let candidates ← read (fun s => s.files.objects.names)
  forEach (collectObject content referenced) candidates

/-! ## Removing a generation -/

/-- `validatePackGenerationRemovalOwnership`. -/
def validateRemovalOwnership (name identity : Nat) (generation : Generation Digest) : Except String Unit :=
  match readPublishedGeneration name generation with
  | .error _ => .error "pack generation has no exact publication identity"
  | .ok marker =>
    if marker.storeID ≠ some identity then .error "pack generation is not bound to this store's durable identity"
    else
      match verifyRecovery generation with
      | .error _ => .error "pack generation recovery identity is incomplete"
      | .ok _ => .ok ()

/-- What `AuthorizeGenerationRemoval` proves about the store. -/
def authorizeRemoval (name : Nat) (generation : Generation Digest) (s : PackStore Digest) :
    Except String Unit :=
  match s.current, s.storeID with
  | none, _ => .error "read current pack before cleanup"
  | some _, none => .error "read durable pack store identity before cleanup"
  | some current, some identity =>
    if name = current then .error "current pack generation cannot be removed"
    else do
      let (head, marker) ← readPublicationHead s
      if head.generation ≠ current then .error "pack publication head differs from CURRENT"
      else if head.storeID ≠ some identity ∨ marker.storeID ≠ some identity then
        .error "authoritative pack publication is not bound to the durable store identity"
      else do
        let successor ← findPublishedSuccessor s.generations head
        if successor ≠ none then .error "pending pack publication prevents generation cleanup"
        else do
          validateRemovalOwnership name identity generation
          verifyManifests content (survivingObjectReader content s) s.files.listed.entries

def removeGeneration (name : Nat) : Prog (PackStore Digest) String Unit := do
  let found ← read (fun s => s.generations.get name)
  match found with
  | none => pure ()
  | some generation =>
    if generation.marker = none then pure ()
    else do
      point "managed session guard"
      point "objects lock"
      let authorized ← read (authorizeRemoval content name generation)
      ofExcept authorized
      effect "stage pack generation before removal"
        (fun s => { s with generations := s.generations.erase name })
      let staged ← attempt (point "revalidate staged pack generation")
      match staged with
      | .ok _ => point "remove storage GC candidate"
      | .error e => do
        effect "restore staged pack generation"
          (fun s => { s with generations := s.generations.set name generation })
        throw e

end

end CodexFold.Pack
