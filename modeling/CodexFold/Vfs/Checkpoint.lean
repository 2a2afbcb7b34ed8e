import CodexFold.Vfs.State

/- State checkpoints (`state_checkpoint.go`, `state_writer_recovery.go`).

   A state is published in three steps: its checkpoint is linked into
   `state-generations`, the catalog is replaced, and `state.json` is replaced. A
   process that finds the catalog ahead of `state.json` completes the third step,
   but only after it has compared every data file of the directory with what the
   checkpoints record.

   The temporaries of the catalog and of `state.json` have random names and no
   function reads them; creating and writing one is a step that can fail. -/
namespace CodexFold.Vfs
open Foundation

/-! ## Reading the directory -/

variable (d : Directory)

def captureManifestIdentity (path : ManifestPath) (baseBytes : Nat)
    (baseSHA256 : Bytes) : Except String Manifest :=
  match d.manifests.get path with
  | none => .error "session manifest does not exist"
  | some manifest =>
    if manifest.source.length = baseBytes ∧ manifest.source = baseSHA256 then .ok manifest
    else .error "session manifest does not match state source identity"

def captureRegularFileIdentity (path : DataFile) : Except String Bytes :=
  match d.files.get path with
  | none => .error "file does not exist"
  | some contents => .ok contents

def captureBacking : Option DataFile → Except String (Option Bytes)
  | none => .ok none
  | some path => (captureRegularFileIdentity d path).map some

def checkNativeSnapshot : Option Bytes → Except String Unit
  | none => .ok ()
  | some contents => require (decide (d.native = some contents)) "native snapshot bytes differ from state"

variable (state : SessionState)

def buildStateCheckpoint (sequence : Nat) :
    Except String Checkpoint := do
  let manifest ← captureManifestIdentity d state.manifestPath state.baseBytes state.baseSHA256
  require (decide (manifest = state.manifestSHA256)) "session manifest bytes differ from state"
  let delta ← captureRegularFileIdentity d state.deltaPath
  let backing ← captureBacking d state.backingPath
  checkNativeSnapshot d state.nativeSnapshot
  .ok { sequence, state, delta, backing }

/-- `loadCatalogStateCheckpoint` reads only the checkpoint the catalog names. -/
def loadCatalogStateCheckpoint : Except String Lineage :=
  match d.catalog with
  | none => .error "session state catalog does not exist"
  | some head =>
    if head ∈ d.checkpoints then .ok head else .error "session state catalog target is missing"

def linked (checkpoints : List Lineage) : Checkpoint → List Checkpoint → Bool
  | _, [] => true
  | c, p :: rest =>
    decide (⟨p, rest⟩ ∈ checkpoints) && decide (p.sequence < c.sequence) &&
      decide (p.state.generation ≤ c.state.generation) && linked checkpoints p rest

def strays (head : Lineage) : List Lineage :=
  d.checkpoints.filter (fun l => !decide (l ∈ head.ancestry))

def loadStateCheckpointChain (strict : Bool) : Except String Lineage := do
  let head ← loadCatalogStateCheckpoint d
  require (linked d.checkpoints head.checkpoint head.previous) "session state checkpoint lineage is invalid"
  require (!strict || (strays d head).isEmpty) "session state checkpoint history is ambiguous"
  .ok head

def Checkpoint.data (c : Checkpoint) : List (DataFile × Bytes) :=
  match c.state.backingPath, c.backing with
  | some path, some backing => [(c.state.deltaPath, c.delta), (path, backing)]
  | _, _ => [(c.state.deltaPath, c.delta)]

def supersededData (lineage : List Checkpoint) (active : Checkpoint) : List (DataFile × Bytes) :=
  (lineage.flatMap Checkpoint.data).filter (fun e => !decide (e.1 ∈ active.data.map Prod.fst))

/-- `verifiedSupersededStateCheckpointData`: a superseded file is gone, or holds
    what some checkpoint of the lineage recorded for it. -/
def verifiedSupersededStateCheckpointData (lineage : List Checkpoint)
    (active : Checkpoint) : Except String (List DataFile) :=
  let expected := supersededData lineage active
  if expected.all (fun e => match d.files.get e.1 with
      | none => true
      | some actual => decide ((e.1, actual) ∈ expected)) then
    .ok (expected.map Prod.fst)
  else .error "superseded checkpoint artifact no longer matches its lineage"

/-- `verifyNoUnknownNonemptySessionDataAllowed`. -/
def verifyNoUnknownNonemptySessionData (checkpoint : Checkpoint)
    (allowed : List DataFile) : Except String Unit :=
  require (d.files.entries.all (fun e => !managedSessionDataName e.1 ||
      decide (e.1 ∈ checkpoint.data.map Prod.fst) || decide (e.1 ∈ allowed) || e.2.isEmpty))
    "unrecognized session data prevents state recovery"

def checkManifest : Except String Unit :=
  match captureManifestIdentity d state.manifestPath state.baseBytes state.baseSHA256 with
  | .error _ => .error "session manifest no longer matches its checkpoint"
  | .ok manifest => require (decide (manifest = state.manifestSHA256))
      "session manifest no longer matches its checkpoint"

def verifyStateCheckpointArtifactsAllowed (checkpoint : Checkpoint)
    (allowed : List DataFile) : Except String Unit := do
  checkManifest d checkpoint.state
  require (checkpoint.data.all (fun e => decide (d.files.get e.1 = some e.2)))
    "session data no longer matches its checkpoint"
  checkNativeSnapshot d checkpoint.state.nativeSnapshot
  verifyNoUnknownNonemptySessionData d checkpoint allowed

def verifyStateCheckpointArtifactsForChain (head : Lineage) : Except String Unit := do
  let allowed ← verifiedSupersededStateCheckpointData d head.chain head.checkpoint
  verifyStateCheckpointArtifactsAllowed d head.checkpoint allowed

/-! ## Writing -/

variable (l : Lineage)

/-- `writeImmutableStateCheckpoint`. A temporary that was created and not yet
    written does not decode, so only the written one shows. -/
def writeImmutableStateCheckpoint : Prog Directory String Unit := do
  let present ← read (fun d => decide (l ∈ d.checkpoints))
  if present then pure () else do
    point "create temporary session state checkpoint"
    onFailure
      (effect "remove temporary" (fun d =>
        { d with checkpointTemporaries := d.checkpointTemporaries.erase l })) do
      effect "write session state checkpoint" (fun d =>
        { d with checkpointTemporaries := l :: d.checkpointTemporaries })
      point "sync session state checkpoint"
      effect "publish immutable session state checkpoint" (fun d =>
        { d with checkpoints := l :: d.checkpoints })
      point "sync session state checkpoint directory"
      effect "remove published session state checkpoint temporary" (fun d =>
        { d with checkpointTemporaries := d.checkpointTemporaries.erase l })
    point "sync session state checkpoint directory"

def writeStateCatalog : Prog Directory String Unit := do
  point "write temporary session state catalog"
  effect "commit session state catalog" (fun d => { d with catalog := some l })
  point "sync session directory"

def writeSessionState : Prog Directory String Unit := do
  point "write temporary session state"
  effect "commit session state" (fun d => { d with primary := some state })
  point "sync session directory"

/-- `writeSessionStateWithTemporary`: the temporary has a fixed name and must not
    exist yet. -/
def writeSessionStateWithTemporary (temporary : DataFile) (state : SessionState) :
    Prog Directory String Unit := do
  let present ← read (fun d => (d.files.get temporary).isSome)
  ensure (!present) "create temporary session state: file exists"
  effect "create temporary session state" (fun d => d.setFile temporary [])
  deferring (effect "remove temporary" (fun d => d.removeFile temporary)) do
    point "write temporary session state"
    effect "commit session state" (fun d =>
      { d.removeFile temporary with primary := some state })
    point "sync session directory"

variable (temporary : Option DataFile)

def commitPublishedSessionState (state : SessionState) :
    Prog Directory String Unit :=
  match temporary with
  | some path => writeSessionStateWithTemporary path state
  | none => writeSessionState state

/-! ## Reconciliation -/

def quarantine (l : Lineage) : Prog Directory String Unit := do
  let present ← read (fun d => decide (l ∈ d.orphans))
  ensure (!present) "session state orphan already exists"
  effect "quarantine session state checkpoint" (fun d =>
    { d with checkpoints := d.checkpoints.filter (fun k => !decide (k = l)), orphans := l :: d.orphans })

def reconcileStateCheckpointHistory : Prog Directory String Unit := do
  let d ← read id
  let head ← ofExcept (loadStateCheckpointChain d false)
  ensure (decide (d.primary = some head.checkpoint.state))
    "primary session state is not authoritative enough to reconcile checkpoint history"
  if (strays d head).isEmpty then pure () else do
    point "create session state orphan directory"
    forEach quarantine (strays d head)
    point "sync session directories"

/-! ## Publication -/

def currentCheckpoint : Prog Directory String (Option Lineage) := do
  let d ← read id
  match d.catalog, loadStateCheckpointChain d true with
  | none, _ => pure none
  | some _, .ok head => pure (some head)
  | some _, .error _ => do
    reconcileStateCheckpointHistory
    let reconciled ← read id
    let head ← ofExcept (loadStateCheckpointChain reconciled true)
    pure (some head)

/-- The second half of `publishSessionStateAtLocked`: checkpoint, catalog,
    `state.json`. -/
def publishCheckpoint (state : SessionState)
    (previous : List Checkpoint) (sequence : Nat) : Prog Directory String Unit := do
  let d ← read id
  let checkpoint ← ofExcept (buildStateCheckpoint d state sequence)
  ensure (!previous.isEmpty || d.checkpoints.isEmpty)
    "session state checkpoint history is ambiguous before initial catalog publication"
  writeImmutableStateCheckpoint ⟨checkpoint, previous⟩
  writeStateCatalog ⟨checkpoint, previous⟩
  commitPublishedSessionState temporary state

def publishSessionState (state : SessionState) :
    Prog Directory String Unit := do
  point "acquire session checkpoint lock"
  let current ← currentCheckpoint
  match current with
  | none => publishCheckpoint temporary state [] 1
  | some head => do
    ensure (decide (head.checkpoint.state.generation ≤ state.generation))
      "session state checkpoint generation cannot move backwards"
    ensure (decide (head.checkpoint.state.generation ≠ state.generation) ||
        decide (head.checkpoint.state = state))
      "session state checkpoint generation conflicts with its catalog"
    let d ← read id
    if head.checkpoint.state = state ∧ verifyStateCheckpointArtifactsForChain d head = .ok () then
      commitPublishedSessionState temporary state
    else publishCheckpoint temporary state head.chain (head.checkpoint.sequence + 1)

/-! ## Refresh -/

/-- `buildRefreshedStateCheckpoint`: the active file is read again. -/
def buildRefreshedStateCheckpoint (current : Checkpoint) : Except String Checkpoint :=
  match current.state.backingPath with
  | none => do
    let delta ← captureRegularFileIdentity d current.state.deltaPath
    .ok { current with sequence := current.sequence + 1, delta }
  | some path => do
    let backing ← captureRegularFileIdentity d path
    .ok { current with sequence := current.sequence + 1, backing := some backing }

def sameStateCheckpointArtifacts (left right : Checkpoint) : Bool :=
  decide (left.state = right.state) && decide (left.delta = right.delta) &&
    decide (left.backing = right.backing)

def checkPinnedLineage : Except String Unit :=
  match d.pin with
  | none => .ok ()
  | some pinned => do
    let head ← loadStateCheckpointChain d true
    require (decide (pinned ∈ head.ancestry))
      "retirement request checkpoint is not in the current state lineage"

def removeSupersededCheckpoint : Prog Directory String Unit := do
  effect "remove superseded session state checkpoint" (fun d =>
    { d with checkpoints := d.checkpoints.filter (fun k => !decide (k = l)) })
  point "sync session state checkpoint directory"

/-- `refreshSessionStateCheckpoint`: record the current contents of the active
    file. Without a pin the new checkpoint takes the place of the old one; a pin
    keeps every checkpoint, and the new one follows the old. -/
def refreshSessionStateCheckpoint : Prog Directory String Unit := do
  point "acquire session checkpoint lock"
  let d ← read id
  ensure (decide (d.primary = some state)) "persisted session state changed before checkpoint refresh"
  let head ← ofExcept (loadCatalogStateCheckpoint d)
  ensure (decide (head.checkpoint.state = state))
    "session checkpoint catalog does not match persisted state"
  ofExcept (checkPinnedLineage d)
  let checkpoint ← ofExcept (buildRefreshedStateCheckpoint d head.checkpoint)
  if sameStateCheckpointArtifacts checkpoint head.checkpoint then pure ()
  else if d.pin.isSome then do
    writeImmutableStateCheckpoint ⟨checkpoint, head.chain⟩
    writeStateCatalog ⟨checkpoint, head.chain⟩
    reconcileStateCheckpointHistory
  else do
    writeImmutableStateCheckpoint ⟨checkpoint, head.previous⟩
    writeStateCatalog ⟨checkpoint, head.previous⟩
    removeSupersededCheckpoint head
    reconcileStateCheckpointHistory

/-! ## Loading -/

/-- `recoverSessionStateFromCheckpoint`: complete a publication that stopped
    between the catalog and `state.json`. The writer lease is taken for it, so a
    process that holds the lease already cannot do this. -/
def recoverSessionStateFromCheckpoint (leaseHeld : Bool) : Prog Directory String SessionState := do
  ensure (!leaseHeld) "acquire session recovery lease: session writer lease is already held"
  point "acquire session recovery lease"
  let d ← read id
  let head ← ofExcept (loadStateCheckpointChain d true)
  ofExcept (verifyStateCheckpointArtifactsForChain d head)
  writeSessionState head.checkpoint.state
  pure head.checkpoint.state

def loadSessionState (leaseHeld : Bool) : Prog Directory String SessionState := do
  let d ← read id
  match d.catalog, d.primary with
  | none, none => throw "session state does not exist"
  | none, some state => pure state
  | some _, primary => do
    let head ← ofExcept (loadCatalogStateCheckpoint d)
    if primary = some head.checkpoint.state then pure head.checkpoint.state
    else recoverSessionStateFromCheckpoint leaseHeld

/-- `loadSessionStateForJournalReplayWithWriterLease`: the catalog's state, whether
    or not `state.json` has followed. -/
def loadJournalReplayState : Except String SessionState :=
  match d.catalog, d.primary with
  | none, none => .error "session state does not exist"
  | none, some state => .ok state
  | some _, _ => (loadCatalogStateCheckpoint d).map (fun head => head.checkpoint.state)

end CodexFold.Vfs
