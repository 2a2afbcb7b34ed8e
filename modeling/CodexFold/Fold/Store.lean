import CodexFold.Foundation.Content
import CodexFold.Foundation.Faults
import CodexFold.Foundation.Files

/- The fold store (`internal/fold`): manifests, loose objects and the readers over
   them.

   A manifest names its objects by SHA-256 and raw length, in order. A loose
   object is a zstd file under its digest; every reader checks the length and
   the digest of what it decoded. Temporary files are invisible to all of these
   functions (they only look at `.zst` and `.json` names), so creating and
   writing one is a step that can fail and changes nothing here. -/
namespace CodexFold.Fold
open Foundation

structure ObjectRef (Digest : Type) where
  sha256 : Digest
  rawBytes : Nat
  storedBytes : Nat
  deriving DecidableEq, Repr

inductive PartKind where
  | residual
  | field
  | record
  deriving DecidableEq, Repr

structure Part (Digest : Type) where
  kind : PartKind
  jsonPath : String
  object : ObjectRef Digest
  deriving DecidableEq, Repr

inductive ManifestKind where
  | foldV1
  | foldV2
  deriving DecidableEq, Repr

structure ManifestSource (Digest : Type) where
  bytes : Nat
  sha256 : Digest
  deriving DecidableEq, Repr

structure ManifestSettings where
  fieldThreshold : Int
  maxJSONLineBytes : Int
  cdcMinBytes : Int
  cdcAverageBytes : Int
  cdcMaxBytes : Int
  recordThreshold : Int
  deriving DecidableEq, Repr

structure Session where
  id : String
  title : String
  cwd : String
  rolloutPath : String
  archived : Bool
  deriving DecidableEq, Repr

structure Manifest (Digest : Type) where
  kind : ManifestKind
  session : Session
  source : ManifestSource Digest
  settings : ManifestSettings
  parts : List (Part Digest)
  deriving DecidableEq, Repr

/-- The files below the store directory that folding touches, and the rollouts
    outside it. A manifest path is relative to `manifests`; `manifestRoot` says
    whether that directory exists. -/
structure Store (Digest : Type) where
  objects : Files Digest Bytes
  manifestRoot : Bool
  manifests : Files String (Manifest Digest)
  rollouts : Files String Bytes

/-- `filepath.Ext(name) == ".json"`. -/
def manifestName (path : String) : Bool := ['.', 'j', 's', 'o', 'n'].isSuffixOf path.toList

def Store.listed {Digest : Type} (s : Store Digest) : Files String (Manifest Digest) := s.manifests.keep manifestName

theorem Store.listed_get {Digest : Type} {s : Store Digest} {path : String} {manifest : Manifest Digest} :
    s.listed.get path = some manifest ↔ manifestName path = true ∧ s.manifests.get path = some manifest := by
  rw [Store.listed, get_keep]
  simp

def validateSessionID (sessionID : String) : Except String Unit :=
  if sessionID = "" ∨ sessionID = "." ∨ sessionID = ".." ∨
      sessionID.toList.any (fun c => c = '/' ∨ c = '\\' ∨ c = '\x00') then
    .error s!"unsafe fold session id {sessionID}"
  else .ok ()

def manifestPath (sessionID : String) : String := sessionID ++ ".json"

def supportedPart (kind : ManifestKind) : PartKind → Bool
  | .residual => true
  | .field => true
  | .record => kind = .foldV2

def validateParts {Digest : Type} (kind : ManifestKind) : Nat → List (Part Digest) → Except String Unit
  | _, [] => .ok ()
  | index, part :: rest =>
    if supportedPart kind part.kind then validateParts kind (index + 1) rest
    else .error s!"fold manifest part {index} has unsupported kind"

section
variable {Digest : Type}

/-- `validateManifest`: the version agrees with the kind and every digest has 64
    digits by construction here. -/
def validateManifest (manifest : Manifest Digest) : Except String Unit := do
  validateSessionID manifest.session.id
  validateParts manifest.kind 0 manifest.parts

/-! ## Reading objects -/

/-- `ObjectReader`: `openObject` stands for opening the stream and reading it to
    its end, where the stream checks what it returned. -/
structure ObjectReader (Digest : Type) where
  hasObject : ObjectRef Digest → Bool
  openObject : ObjectRef Digest → Except String Bytes

variable [DecidableEq Digest] (content : Content Digest)

def checkObject (ref : ObjectRef Digest) (data : Bytes) : Except String Bytes :=
  if data.length ≠ ref.rawBytes then .error "object raw size differs"
  else if content.sha256 data ≠ ref.sha256 then .error "object SHA-256 mismatch"
  else .ok data

/-- `ObjectStore.Read`, and `OpenStream` read to its end. -/
def readObject (objects : Files Digest Bytes) (ref : ObjectRef Digest) : Except String Bytes :=
  match objects.get ref.sha256 with
  | none => .error "open object"
  | some stored =>
    match content.decompress stored with
    | none => .error "decode object"
    | some data => checkObject content ref data

def looseReader (objects : Files Digest Bytes) : ObjectReader Digest where
  hasObject ref := (objects.get ref.sha256).isSome
  openObject ref := readObject content objects ref

def fallbackObjectReader (primary fallback : ObjectReader Digest) : ObjectReader Digest where
  hasObject ref := primary.hasObject ref || fallback.hasObject ref
  openObject ref := if primary.hasObject ref then primary.openObject ref else fallback.openObject ref

def objectReader (objects : Files Digest Bytes) (existing : Option (ObjectReader Digest)) :
    ObjectReader Digest :=
  match existing with
  | none => looseReader content objects
  | some reader => fallbackObjectReader (looseReader content objects) reader

def readParts (reader : ObjectReader Digest) : List (Part Digest) → Except String Bytes
  | [] => .ok []
  | part :: rest =>
    match reader.openObject part.object with
    | .error e => .error e
    | .ok data =>
      match readParts reader rest with
      | .error e => .error e
      | .ok tail => .ok (data ++ tail)

def verifySourceDigest (data : Bytes) (source : ManifestSource Digest) : Except String Unit :=
  if data.length ≠ source.bytes then .error "reconstructed bytes differ"
  else if content.sha256 data ≠ source.sha256 then .error "reconstructed SHA-256 differs"
  else .ok ()

def verifyStoredManifest (reader : ObjectReader Digest) (manifest : Manifest Digest) :
    Except String Unit :=
  match readParts reader manifest.parts with
  | .error e => .error e
  | .ok data => verifySourceDigest content data manifest.source

/-! ## Writing objects -/

structure CachedObject (Digest : Type) where
  ref : ObjectRef Digest
  persisted : Bool
  deriving DecidableEq, Repr

/-- `ObjectStore`: what one Fold remembers of the objects it has seen, and the
    files and directories it has still to sync. -/
structure ObjectStore (Digest : Type) where
  objects : Files Digest (CachedObject Digest)
  pending : List Digest

def newObjectStore : ObjectStore Digest := ⟨.empty, []⟩

/-- `Put` for an object that the cache does not answer: look at its file. -/
def putFile (store : ObjectStore Digest) (data : Bytes) (apply : Bool) :
    Prog (Store Digest) String (ObjectRef Digest × Bool × ObjectStore Digest) := do
  let digest := content.sha256 data
  let objects ← read (fun s => s.objects)
  match objects.get digest with
  | some stored =>
    let ref : ObjectRef Digest := ⟨digest, data.length, stored.length⟩
    match readObject content objects ref with
    | .error _ => throw "verify existing object"
    | .ok _ => pure (ref, true, { store with objects := store.objects.set digest ⟨ref, true⟩ })
  | none =>
    let compressed := content.compress data
    let ref : ObjectRef Digest := ⟨digest, data.length, compressed.length⟩
    if apply then
      point "create object directory"
      point "create temporary object"
      point "write temporary object"
      effect "commit object" (fun s => { s with objects := s.objects.set digest compressed })
      pure (ref, false, { objects := store.objects.set digest ⟨ref, true⟩
                          pending := digest :: store.pending })
    else pure (ref, false, { store with objects := store.objects.set digest ⟨ref, false⟩ })

/-- `ObjectStore.Put`. The flag of the result says whether the object was there. -/
def put (store : ObjectStore Digest) (data : Bytes) (apply : Bool) :
    Prog (Store Digest) String (ObjectRef Digest × Bool × ObjectStore Digest) :=
  match store.objects.get (content.sha256 data) with
  | some cached =>
    if !apply || cached.persisted then pure (cached.ref, true, store)
    else putFile content store data apply
  | none => putFile content store data apply

/-- `SyncPending`: every new object and its directory, then the object root. -/
def syncPending (store : ObjectStore Digest) : Prog (Store Digest) String Unit :=
  if store.pending.isEmpty then pure ()
  else do
    forEach (fun _ => point "sync object") store.pending
    forEach (fun _ => point "sync object directory") store.pending
    point "sync object root"

def writeManifestPath (path : String) (manifest : Manifest Digest) (overwrite : Bool) :
    Prog (Store Digest) String Unit := do
  ofExcept (validateManifest manifest)
  let present ← read (fun s => (s.manifests.get path).isSome)
  ensure (overwrite || !present) s!"fold manifest already exists: {path}"
  effect "create manifest directory" (fun s => { s with manifestRoot := true })
  point "create temporary manifest"
  point "write temporary manifest"
  effect "commit fold manifest" (fun s => { s with manifests := s.manifests.set path manifest })
  point "sync manifest directory"

end

/-! ## Valid stores and readers -/

section
variable {Digest : Type} [DecidableEq Digest] {content : Content Digest}
variable {objects : Files Digest Bytes}
variable {store : ObjectStore Digest}

/-- Every object file decodes to bytes with the digest in its name. -/
def ValidObjects (content : Content Digest) (objects : Files Digest Bytes) : Prop :=
  ∀ digest stored, objects.get digest = some stored → content.Holds digest stored

/-- A reader that says it has the object of some bytes returns those bytes. -/
def ObjectReader.Valid (content : Content Digest) (reader : ObjectReader Digest) : Prop :=
  ∀ ref data, ref.sha256 = content.sha256 data → ref.rawBytes = data.length →
    reader.hasObject ref = true → reader.openObject ref = .ok data

def ObjectRef.Names (content : Content Digest) (ref : ObjectRef Digest) (data : Bytes) : Prop :=
  ref.sha256 = content.sha256 data ∧ ref.rawBytes = data.length

def Stored (objects : Files Digest Bytes) (existing : Option (ObjectReader Digest))
    (ref : ObjectRef Digest) : Prop :=
  (objects.get ref.sha256).isSome = true ∨ ∃ reader, existing = some reader ∧ reader.hasObject ref = true

theorem checkObject_names {ref : ObjectRef Digest} {data : Bytes} (h : ref.Names content data) :
    checkObject content ref data = .ok data := by
  obtain ⟨hs, hl⟩ := h
  simp [checkObject, hs, hl]

section

variable (hv : ValidObjects content objects)
include hv

theorem looseReader_valid : (looseReader content objects).Valid content := by
  intro ref data hs hl hh
  obtain ⟨stored, hget⟩ := Option.isSome_iff_exists.mp hh
  have hd : content.decompress stored = some data := by
    have hholds := hv _ _ hget
    rw [hs] at hholds
    exact hholds.decompress
  show readObject content objects ref = .ok data
  simp only [readObject, hget, hd]
  exact checkObject_names ⟨hs, hl⟩

theorem objectReader_reads {existing : Option (ObjectReader Digest)}
    (he : ∀ reader, existing = some reader → reader.Valid content) {ref : ObjectRef Digest} {data : Bytes}
    (hn : ref.Names content data) (hs : Stored objects existing ref) :
    (objectReader content objects existing).openObject ref = .ok data := by
  have hloose := looseReader_valid hv ref data hn.1 hn.2
  cases existing with
  | none =>
    rcases hs with hs | ⟨_, hr, _⟩
    · exact hloose hs
    · cases hr
  | some reader =>
    show (if (looseReader content objects).hasObject ref then _ else _) = _
    by_cases hh : (looseReader content objects).hasObject ref = true
    · rw [if_pos hh]; exact hloose hh
    · rw [if_neg hh]
      rcases hs with hs | ⟨_, hr, hhas⟩
      · exact absurd hs hh
      · cases hr
        exact he reader rfl ref data hn.1 hn.2 hhas

theorem ValidObjects.set_compress (data : Bytes) :
    ValidObjects content (objects.set (content.sha256 data) (content.compress data)) := by
  intro digest stored hget
  rw [get_set] at hget
  split at hget
  · next heq =>
    cases hget
    rw [heq]
    exact content.holds_compress data
  · exact hv _ _ hget

end

/-! ## What `Put` does -/

/-- `s'` is `s` with objects added. -/
structure Store.Extends (s s' : Store Digest) : Prop where
  manifests : s'.manifests = s.manifests
  rollouts : s'.rollouts = s.rollouts
  objects : ∀ digest, (s.objects.get digest).isSome = true → (s'.objects.get digest).isSome = true

theorem Store.Extends.refl (s : Store Digest) : s.Extends s := ⟨rfl, rfl, fun _ h => h⟩

theorem Store.Extends.trans {s₁ s₂ s₃ : Store Digest} (h : s₁.Extends s₂) (h' : s₂.Extends s₃) : s₁.Extends s₃ :=
  ⟨h'.manifests.trans h.manifests, h'.rollouts.trans h.rollouts,
    fun d hd => h'.objects d (h.objects d hd)⟩

def ObjectStore.Agrees (content : Content Digest) (store : ObjectStore Digest)
    (objects : Files Digest Bytes) : Prop :=
  ∀ data cached, store.objects.get (content.sha256 data) = some cached →
    cached.ref.Names content data ∧
    (cached.persisted = true → (objects.get (content.sha256 data)).isSome = true)

theorem newObjectStore_agrees (objects : Files Digest Bytes) : newObjectStore.Agrees content objects := by
  intro data cached h
  simp [newObjectStore] at h

theorem ObjectStore.Agrees.set {objects' : Files Digest Bytes} (ha : store.Agrees content objects)
    (hmono : ∀ digest, (objects.get digest).isSome → (objects'.get digest).isSome)
    {data : Bytes} {ref : ObjectRef Digest} {persisted : Bool} (hn : ref.Names content data)
    (hp : persisted → (objects'.get (content.sha256 data)).isSome) (pending : List Digest) :
    ObjectStore.Agrees content ⟨store.objects.set (content.sha256 data) ⟨ref, persisted⟩, pending⟩ objects' := by
  intro data' cached h
  simp only [get_set] at h
  split at h
  · next heq =>
    cases h
    obtain rfl := content.sha256_injective heq
    exact ⟨hn, hp⟩
  · obtain ⟨hn', hp'⟩ := ha data' cached h
    exact ⟨hn', fun hper => hmono _ (hp' hper)⟩

/-- The state after a `Put` of `data` that met no fault. -/
structure PutDone (content : Content Digest) (data : Bytes) (apply : Bool) (s : Store Digest)
    (r : ObjectRef Digest × Bool × ObjectStore Digest) (s' : Store Digest) : Prop where
  names : r.1.Names content data
  extends' : s.Extends s'
  valid : ValidObjects content s'.objects
  agrees : r.2.2.Agrees content s'.objects
  stored : apply = true → (s'.objects.get (content.sha256 data)).isSome = true

section

variable {s : Store Digest} (hv : ValidObjects content s.objects)
include hv

theorem putFile_runs (ha : store.Agrees content s.objects) (data : Bytes) (apply : Bool) :
    ∃ r s', Runs (putFile content store data apply) s r s' ∧ PutDone content data apply s r s' := by
  cases hget : s.objects.get (content.sha256 data) with
  | some stored =>
    -- the file is there: it is read back and checked
    have hread : readObject content s.objects ⟨content.sha256 data, data.length, stored.length⟩ = .ok data :=
      looseReader_valid hv _ data rfl rfl (by simp [looseReader, hget])
    have hsome : (s.objects.get (content.sha256 data)).isSome := by simp [hget]
    have hrun : Runs (putFile content store data apply) s (⟨content.sha256 data, data.length, stored.length⟩, true,
          ⟨store.objects.set (content.sha256 data)
            ⟨⟨content.sha256 data, data.length, stored.length⟩, true⟩, store.pending⟩) s := by
      simp [putFile, Runs, Prog.bind_apply, hget, hread]
    exact ⟨_, _, hrun, ⟨rfl, rfl⟩, .refl s, hv, ha.set (fun _ h => h) ⟨rfl, rfl⟩ (fun _ => hsome) _, fun _ => hsome⟩
  | none =>
    cases apply with
    | true =>
      have hrun : Runs (putFile content store data true) s
          (⟨content.sha256 data, data.length, (content.compress data).length⟩, false,
            ⟨store.objects.set (content.sha256 data)
              ⟨⟨content.sha256 data, data.length, (content.compress data).length⟩, true⟩,
              content.sha256 data :: store.pending⟩)
          { s with objects := s.objects.set (content.sha256 data) (content.compress data) } := by
        simp [putFile, Runs, Prog.bind_apply, hget]
      have hext : s.Extends { s with objects := s.objects.set (content.sha256 data) (content.compress data) } := by
        refine ⟨rfl, rfl, fun d hd => ?_⟩
        simp only [get_set]
        split
        · rfl
        · exact hd
      exact ⟨_, _, hrun, ⟨rfl, rfl⟩, hext, hv.set_compress data,
        ha.set hext.objects ⟨rfl, rfl⟩ (fun _ => by simp) _, fun _ => by simp⟩
    | false =>
      have hrun : Runs (putFile content store data false) s
          (⟨content.sha256 data, data.length, (content.compress data).length⟩, false,
            ⟨store.objects.set (content.sha256 data)
              ⟨⟨content.sha256 data, data.length, (content.compress data).length⟩, false⟩,
              store.pending⟩) s := by
        simp [putFile, Runs, Prog.bind_apply, hget]
      exact ⟨_, _, hrun, ⟨rfl, rfl⟩, .refl s, hv,
        ha.set (fun _ h => h) ⟨rfl, rfl⟩ (fun h => by cases h) _, fun h => by cases h⟩

theorem put_runs (ha : store.Agrees content s.objects) (data : Bytes) (apply : Bool) :
    ∃ r s', Runs (put content store data apply) s r s' ∧ PutDone content data apply s r s' := by
  unfold put
  split
  · next cached hcached =>
    split
    · next hc =>
      -- the cache answers; with `apply` the object is known to be on disk
      obtain ⟨hn, hp⟩ := ha data cached hcached
      refine ⟨_, s, Runs.pure' _ s, hn, .refl s, hv, ha, fun happly => ?_⟩
      rw [happly] at hc
      exact hp (by simpa using hc)
    · exact putFile_runs hv ha data apply
  · exact putFile_runs hv ha data apply

end

end

end CodexFold.Fold
