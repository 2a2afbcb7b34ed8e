import CodexFold.Foundation.Completion
import CodexFold.Vfs.Frames

/- Retirement of the native snapshot (`native_retirement.go`).

   A session whose state names its snapshot under `fs/snapshots` publishes a state without
   it and then deletes the snapshot: the snapshot's directory is renamed to a staging
   directory named after the proof, a marker is written, and the staged files are removed.
   A rerun decides from proof, state, staging and marker how far it got.

   As for the rest of the session, the digest of a file is its contents and the digest of
   a proof is the proof. Ancestors of the directories are plain directories; creating
   them, the marker's temporary and every sync are steps that can fail. -/
namespace CodexFold.Vfs.NativeRetirement
open Foundation

inductive Entry where
  /-- `native.jsonl` -/
  | snapshot
  /-- `._native.jsonl` -/
  | sidecar
  | other (name : String)
  deriving DecidableEq

abbrev Folder : Type := Files Entry (Option Bytes)

/-- `NativeRetirementProof`. The session is that of the directory. -/
structure Proof where
  stateGeneration : Nat
  retiredAt : Nat
  snapshot : Bytes
  sidecar : Option Bytes
  visible : Bytes
  deriving DecidableEq

variable (p : Proof)

def Proof.contents : Entry → Option Bytes
  | .snapshot => some p.snapshot
  | .sidecar => p.sidecar
  | .other _ => none

def validateNativeRetirementProof : Except String Unit :=
  require (decide (p.stateGeneration ≠ 0)) "invalid native retirement proof"

variable (folder : Folder)

def captureNativeRetirementFile (entry : Entry) : Except String Bytes :=
  match folder.get entry with
  | none => .error "no such file or directory"
  | some none => .error "native retirement entry is not a regular file"
  | some (some contents) => .ok contents

def recognize : Entry → Except String Unit
  | .snapshot => .ok ()
  | .sidecar => require p.sidecar.isSome "native snapshot sidecar has no exact retirement proof"
  | .other name => .error ("unrecognized native retirement content: " ++ name)

def inspectEntry (p : Proof) (entry : Entry) (message : String) : Except String Bool :=
  if (folder.get entry).isSome then do
    let contents ← captureNativeRetirementFile folder entry
    require (decide (p.contents entry = some contents)) message
    .ok true
  else .ok false

def inspectNativeRetirementDirectory (p : Proof) (requireAll : Bool) : Except String (Bool × Bool) := do
  folder.names.forM (recognize p)
  require (!requireAll || (folder.get .snapshot).isSome) "proved native snapshot is missing"
  require (!requireAll || p.sidecar.isNone || (folder.get .sidecar).isSome) "proved native snapshot sidecar is missing"
  let snapshotExists ← inspectEntry folder p .snapshot "retired native snapshot differs from its exact retirement proof"
  let sidecarExists ← inspectEntry folder p .sidecar "native snapshot sidecar differs from its exact retirement proof"
  .ok (snapshotExists, sidecarExists)

structure Snapshots where
  source : Option Folder
  staging : Files Proof Folder
  markers : List Proof

def staged : Prog Snapshots String Folder := do
  let found ← read fun s => s.staging.get p
  match found with
  | some folder => pure folder
  | none => throw "no such file or directory"

/-- One file of `deleteStagedNativeRetirement`. -/
def removeStaged (entry : Entry) (present : Bool) : Prog Snapshots String Unit :=
  if present then do
    let folder ← staged p
    let _ ← ofExcept (captureNativeRetirementFile folder entry)
    effect "remove staged native snapshot" fun s => { s with staging := s.staging.set p (folder.erase entry) }
    point "sync staged native snapshot deletion"
  else pure ()

def deleteStagedNativeRetirement : Prog Snapshots String Unit := do
  let folder ← staged p
  let (snapshotExists, sidecarExists) ← ofExcept (inspectNativeRetirementDirectory folder p false)
  removeStaged p .snapshot snapshotExists
  removeStaged p .sidecar sidecarExists
  let remaining ← staged p
  ensure remaining.names.isEmpty "native retirement staging gained replacement content"
  effect "remove empty native retirement staging directory" fun s => { s with staging := s.staging.erase p }
  point "sync native retirement staging completion"

def publishDeletion : Prog Snapshots String Unit := do
  let folder ← staged p
  let _ ← ofExcept (inspectNativeRetirementDirectory folder p true)
  point "write native retirement marker temporary"
  effect "publish native retirement deletion marker" fun s => { s with markers := p :: s.markers }
  point "sync native retirement marker directory"
  deleteStagedNativeRetirement p

def stage : Prog Snapshots String Unit := do
  let _ ← ofExcept (inspectNativeRetirementDirectory folder p true)
  point "create native retirement staging parent"
  effect "move exact native snapshot into retirement staging" fun s =>
    { s with source := none, staging := s.staging.set p folder }
  point "sync native retirement staging parent"

def completeNativeSnapshotRetirement : Prog Snapshots String Unit := do
  ofExcept (validateNativeRetirementProof p)
  let s ← read id
  if p ∈ s.markers then
    if (s.staging.get p).isSome then deleteStagedNativeRetirement p else pure ()
  else
    match s.staging.get p, s.source with
    | some _, _ => publishDeletion p
    | none, none => pure ()
    | none, some folder => do
      stage p folder
      publishDeletion p

structure Store where
  session : Directory
  proof : Option Proof
  snapshots : Snapshots

def Store.directory (s : Store) : Directory :=
  { s.session with native := (s.snapshots.source.bind fun folder => folder.get .snapshot).join }

def captureNativeRetirementSidecar (source : Option Folder) : Except String (Option Bytes) :=
  match source.bind fun folder => folder.get .sidecar with
  | none => .ok none
  | some none => .error "native snapshot sidecar is not a regular file"
  | some (some contents) => .ok (some contents)

def retired (state : SessionState) : SessionState :=
  { state with generation := state.generation + 1, nativeSnapshot := none }

/-- `RetireNativeSnapshot` of an open writer at `state`, at the time `retiredAt`. -/
def retireNativeSnapshot (state : SessionState) (visible : Bytes) (retiredAt : Nat) : Prog Store String Proof := do
  let snapshot ← ofExcept (match state.nativeSnapshot with
    | some snapshot => .ok snapshot
    | none => .error "native snapshot retirement does not match session state")
  ensure (decide (state.baseBytes ≤ visible.length)) "verified current materialization is required"
  let s ← read id
  let sidecar ← ofExcept (captureNativeRetirementSidecar s.snapshots.source)
  let p : Proof := ⟨state.generation, retiredAt, snapshot, sidecar, visible⟩
  ofExcept (validateNativeRetirementProof p)
  point "write native retirement proof temporary"
  effect "commit native retirement proof" fun s => { s with proof := some p }
  point "sync session directory"
  onPart Store.directory (fun s d => { s with session := d }) (publishSessionState none (retired state))
  onPart Store.snapshots (fun s t => { s with snapshots := t }) (completeNativeSnapshotRetirement p)
  pure p

/-! ## Runs -/

def Store.nativeSnapshot (s : Store) : Option Bytes := s.session.primary.bind SessionState.nativeSnapshot

inductive Event where
  /-- `RetireNativeSnapshot` of a writer that has the persisted state. -/
  | retire (visible : Bytes) (retiredAt : Nat) (faults : List Fault)
  /-- `LoadSessionState`, which completes an interrupted publication. -/
  | load (faults : List Fault)
  /-- `CompleteNativeSnapshotRetirement` with the persisted proof, once the state has
      advanced. -/
  | complete (faults : List Fault)

def step (s : Store) : Event → Option Store
  | .retire visible retiredAt faults =>
    s.session.primary.map fun state => (retireNativeSnapshot state visible retiredAt faults s).2.1
  | .load faults =>
    some (onPart Store.directory (fun s d => { s with session := d }) (loadSessionState false) faults s).2.1
  | .complete faults =>
    if s.nativeSnapshot = none then
      s.proof.map fun p =>
        (onPart Store.snapshots (fun s t => { s with snapshots := t })
          (completeNativeSnapshotRetirement p) faults s).2.1
    else none

end CodexFold.Vfs.NativeRetirement
