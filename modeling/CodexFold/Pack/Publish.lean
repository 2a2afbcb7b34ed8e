import CodexFold.Pack.Generation

/- Publication of generations: promotion and recovery, `Open` and `Build`.

   Build publishes in four steps: the generation directory is renamed into
   place, its marker is written, the publication head is replaced, and `CURRENT`
   is replaced. A later Build or Open that finds the steps half done completes
   them, after it has checked the half-published generation against every live
   manifest. Every program here can stop at each of its file effects. -/
namespace CodexFold.Pack
open Foundation Fold

section
variable {Digest : Type} [DecidableEq Digest]

/-- `writeAtomicJSON` and `publishCurrent`: a temporary file, a rename, a
    directory sync. Only the rename is visible. -/
def replaceAtomically (message : String) (f : PackStore Digest → PackStore Digest) :
    Prog (PackStore Digest) String Unit := do
  point "write temporary file"
  effect message f
  point "sync directory"

def PackStore.updateGeneration (s : PackStore Digest) (name : Nat)
    (f : Generation Digest → Generation Digest) : PackStore Digest :=
  match s.generations.get name with
  | none => s
  | some generation => { s with generations := s.generations.set name (f generation) }

def publishCurrent (generation : Nat) : Prog (PackStore Digest) String Unit :=
  replaceAtomically "publish pack CURRENT" (fun s => { s with current := some generation })

def headOf (marker : PublishedGeneration Digest) : PublicationHead Digest where
  storeID := marker.storeID
  generation := marker.generation
  sequence := marker.sequence
  marker := marker

/-- `publishPublicationHead`: the marker on disk is hashed and has to be there. -/
def publishPublicationHead (marker : PublishedGeneration Digest) :
    Prog (PackStore Digest) String Unit := do
  let found ← read (fun s => (s.generations.get marker.generation).bind Generation.marker)
  match found with
  | none => throw "hash published pack marker"
  | some onDisk =>
    replaceAtomically "publish pack publication head"
      (fun s => { s with head := some { headOf marker with marker := onDisk } })

def loadOrCreatePackStoreIdentity (random : Nat) : Prog (PackStore Digest) String Nat := do
  let found ← read PackStore.storeID
  match found with
  | some identity => pure identity
  | none => do
    replaceAtomically "publish pack store identity" (fun s => { s with storeID := some random })
    pure random

def markGenerationPublished (random : Nat) (generation : Nat) (sequence : Nat)
    (previousGeneration : Option Nat) : Prog (PackStore Digest) String (PublishedGeneration Digest) := do
  ensure (!(decide (sequence = 0) || (decide (sequence = 1) && previousGeneration.isSome) ||
    (decide (sequence > 1) && previousGeneration.isNone)))
    "valid pack publication sequence and predecessor are required"
  let identity ← loadOrCreatePackStoreIdentity random
  let found ← read (fun s => (s.generations.get generation).bind Generation.recovery)
  match found with
  | none => throw "hash published pack recovery archive"
  | some recovery => do
    let marker : PublishedGeneration Digest :=
      { storeID := some identity, generation, sequence, previousGeneration, recovery }
    replaceAtomically "publish pack generation marker"
      (fun s => s.updateGeneration generation (fun g => { g with marker := some marker }))
    pure marker

variable (content : Content Digest)

/-! ## Promotion and recovery -/

variable (generation : Nat)

/-- What `promotePublishedGenerationLocked` checks before it publishes: the marker,
    the archive, every object, and every archived and live manifest. The index
    repair rewrites index files from the archive and changes no object. -/
def checkPromotion (s : PackStore Digest) : Except String Unit :=
  match s.generations.get generation with
  | none => .error "latest published pack generation is not recoverable"
  | some directory => do
    let _ ← readPublishedGeneration generation directory
    let recovery ← verifyRecovery directory
    verifyGeneration content directory
    verifyRecoveryAndLiveManifests content s.files.listed recovery (packedReader directory.packed)

def promotePublishedGenerationLocked (marker : PublishedGeneration Digest) (updateHead : Bool) :
    Prog (PackStore Digest) String Nat := do
  let checked ← read (checkPromotion content marker.generation)
  ofExcept checked
  if updateHead then do
    publishPublicationHead marker
    publishCurrent marker.generation
    pure marker.generation
  else do
    publishCurrent marker.generation
    pure marker.generation

def recoverCurrentGenerationLocked : Prog (PackStore Digest) String Nat := do
  let read ← read readPublicationHead
  let (head, selectedMarker) ← ofExcept read
  let found ← Prog.read (fun s => findPublishedSuccessor s.generations head)
  let successor ← ofExcept found
  match successor with
  | some marker => promotePublishedGenerationLocked content marker true
  | none => promotePublishedGenerationLocked content selectedMarker false

/-- `currentOrRecoveredGeneration`. `lockFree` says whether the objects lock can be
    taken; while another operation holds it, a half-published step is left alone. -/
def currentOrRecoveredGeneration (lockFree : Bool) : Prog (PackStore Digest) String Nat := do
  let current ← read PackStore.current
  let head ← read readPublicationHead
  match current with
  | some generation =>
    match head with
    | .error _ => pure generation
    | .ok (head, marker) =>
      if head.generation = generation then pure generation
      else if marker.previousGeneration ≠ some generation then pure generation
      else if !lockFree then pure generation
      else recoverCurrentGenerationLocked content
  | none =>
    if !lockFree then throw "objects operation lock is held"
    else recoverCurrentGenerationLocked content

/-! ## Open -/

def openGeneration : Prog (PackStore Digest) String (Resolver Digest) := do
  let found ← read (fun s => s.generations.get generation)
  match found with
  | none => throw "open pack generation"
  | some directory => pure ⟨generation, directory.packed⟩

/-- `Open`. -/
def openStore (lockFree : Bool) : Prog (PackStore Digest) String (Resolver Digest) := do
  let generation ← currentOrRecoveredGeneration content lockFree
  openGeneration generation

/-! ## Stores without a publication head -/

def collectRecoverySources (reader : ObjectReader Digest) :
    List (String × Manifest Digest) → Except String (List (String × Manifest Digest))
  | [] => .ok []
  | (path, manifest) :: rest =>
    match verifyManifest content reader manifest with
    | .error e => if e = errObjectNotPacked then collectRecoverySources reader rest else .error e
    | .ok _ =>
      match collectRecoverySources reader rest with
      | .error e => .error e
      | .ok sources => .ok ((path, manifest) :: sources)

def writeLegacyGenerationRecoveryArchive (name : Nat) (generation : Generation Digest) :
    Prog (PackStore Digest) String Unit := do
  let manifests ← read (fun s => s.files.listed.entries)
  let sources ← ofExcept (collectRecoverySources content (packedReader generation.packed) manifests)
  replaceAtomically "create legacy current recovery archive"
    (fun s => s.updateGeneration name
      (fun g => { g with recovery := some ⟨generation.packed.entries, sources⟩ }))

/-- The markers `findPublishedChainTip` has to place after `head`. -/
def markersAfter (head : PublishedGeneration Digest) :
    List (Nat × Generation Digest) → Except String (List (PublishedGeneration Digest))
  | [] => .ok []
  | (name, generation) :: rest =>
    if generation.marker = none then markersAfter head rest
    else
      match readPublishedMarker name generation with
      | .error _ => .error "read pack publication marker"
      | .ok marker =>
        if marker.generation = head.generation then
          if marker.sequence ≠ head.sequence then
            .error "pack publication marker does not match migration head"
          else markersAfter head rest
        else if marker.sequence < head.sequence then markersAfter head rest
        else if marker.sequence = head.sequence then
          .error "multiple pack publication generations at one sequence"
        else
          match markersAfter head rest with
          | .error e => .error e
          | .ok markers => .ok (marker :: markers)

def successorsOf (tip : PublishedGeneration Digest) (markers : List (PublishedGeneration Digest)) :
    List (PublishedGeneration Digest) :=
  markers.filter (fun marker =>
    decide (marker.sequence = tip.sequence + 1 ∧ marker.previousGeneration = some tip.generation))

def chainTip : Nat → PublishedGeneration Digest → List (PublishedGeneration Digest) →
    Except String (PublishedGeneration Digest)
  | 0, tip, _ => .ok tip
  | rounds + 1, tip, markers =>
    if tip.sequence = maxSequence then .error "pack publication sequence cannot advance"
    else
      match successorsOf tip markers with
      | [] => .error "pack publication markers do not form a complete chain"
      | [next] =>
        if tip.storeID ≠ none ∧ next.storeID ≠ tip.storeID then
          .error "pack publication successor belongs to another store"
        else chainTip rounds next (markers.erase next)
      | _ => .error "multiple pack publication successors"

def findPublishedChainTip (generations : Files Nat (Generation Digest)) (head : PublishedGeneration Digest) :
    Except String (PublishedGeneration Digest) :=
  match markersAfter head generations.entries with
  | .error e => .error e
  | .ok markers => chainTip markers.length head markers

def legacyRecovery : Prog (PackStore Digest) String Unit := do
  let found ← read (fun s => s.generations.get generation)
  match found with
  | none => throw "verify legacy current pack generation"
  | some directory => do
    ofExcept (verifyGeneration content directory)
    match verifyRecovery directory with
    | .error _ =>
      if directory.recovery = none then writeLegacyGenerationRecoveryArchive content generation directory
      else throw "verify legacy current recovery archive"
    | .ok recovery =>
      match verifyManifests content (packedReader directory.packed) recovery.manifests with
      | .ok _ => pure ()
      | .error e =>
        if e = errObjectNotPacked then writeLegacyGenerationRecoveryArchive content generation directory
        else throw "verify legacy current recovery archive"

def legacyMarker (random generation : Nat) : Prog (PackStore Digest) String (PublishedGeneration Digest) := do
  let found ← read (fun s => s.generations.get generation)
  match found with
  | none => throw "open published pack marker"
  | some directory =>
    if directory.marker = none then do
      let others ← read (fun s =>
        s.generations.entries.any (fun e => !decide (e.1 = generation) && e.2.marker.isSome))
      ensure (!others) "cannot migrate legacy CURRENT while another generation has publication metadata"
      markGenerationPublished random generation 1 none
    else ofExcept (readPublishedGeneration generation directory)

def migrateLegacyCurrentPublication (random generation : Nat) :
    Prog (PackStore Digest) String (Nat × Nat) := do
  legacyRecovery content generation
  let marker ← legacyMarker random generation
  let found ← read (fun s => findPublishedChainTip s.generations marker)
  let tip ← ofExcept found
  if tip.generation ≠ marker.generation then do
    let _ ← promotePublishedGenerationLocked content tip true
    pure (tip.generation, tip.sequence)
  else do
    publishPublicationHead marker
    pure (marker.generation, marker.sequence)

end

end CodexFold.Pack
